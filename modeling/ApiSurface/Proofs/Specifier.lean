import ApiSurface.Proofs.Path
import Mathlib.Logic.Function.Iterate

/-!
# Module specifiers

A step up takes back a name. Where no name is left it climbs out of the place that a path is read
from, and at the root it changes nothing. The specifier of a module is read in the folder of the
file that imports it and is to lead to the module, whose path is without its extension. It is found
from the names of both paths, so that steps up in them do not count.

* `Normal`, `normal`: where a path leads;
* `Normal.iterate_up_eq_iff`: climbs that lead to the same place;
* `normal_join`: where a path leads below a directory;
* `stepsBetween_append`, **`follow_stepsBetween`**: the steps from names to names;
* `folder`, `withoutExtension`: where specifiers are read and where they are to lead;
* **`relativeModule_leads`**: where specifiers lead, and when it is the module;
* `not_leads_above`: a specifier that leads to another place.
-/

namespace ApiSurface.Path

open ApiSurface.Text

/-! ## Where paths lead -/

/-- Where a path leads: names below the root, or how often it climbs out of the place it is read
from and names from there on. -/
inductive Normal
  | absolute (names : List String)
  | relative (climbs : Nat) (names : List String)
deriving DecidableEq, Repr

namespace Normal

/-- One step up; above the root there is nothing. -/
def up : Normal → Normal
  | absolute names => absolute names.dropLast
  | relative climbs [] => relative (climbs + 1) []
  | relative climbs names => relative climbs names.dropLast

/-- Steps down. -/
def below : Normal → List String → Normal
  | absolute names, ks => absolute (names ++ ks)
  | relative climbs names, ks => relative climbs (names ++ ks)

/-- What a component of a path changes. -/
def next (n : Normal) : Component → Normal
  | .root => absolute []
  | .here => n
  | .up => n.up
  | .name k => n.below [k]

/-- Where components of a path lead from some place. -/
def follow (n : Normal) (cs : List Component) : Normal := cs.foldl next n

/-- Where a path leads from some place. -/
def along (n : Normal) (path : String) : Normal := n.follow (components path)

variable (n : Normal)

@[simp] theorem below_nil : n.below [] = n := by cases n <;> simp [below]

theorem below_append (ks ls : List String) : n.below (ks ++ ls) = (n.below ks).below ls := by
  cases n <;> simp [below]

theorem up_relative {climbs : Nat} {names : List String} (h : names ≠ []) :
    (relative climbs names).up = relative climbs names.dropLast := by
  cases names with
  | nil => exact absurd rfl h
  | cons name names => rfl

theorem up_below_concat (ks : List String) (k : String) : (n.below (ks ++ [k])).up = n.below ks := by
  cases n with
  | absolute names => rw [below, up, ← List.append_assoc, List.dropLast_concat, below]
  | relative climbs names =>
    rw [below, up_relative (by simp), ← List.append_assoc, List.dropLast_concat, below]

theorem follow_append (cs ds : List Component) : n.follow (cs ++ ds) = (n.follow cs).follow ds :=
  List.foldl_append

theorem follow_names (ks : List String) : n.follow (ks.map .name) = n.below ks := by
  induction ks generalizing n with
  | nil => exact (below_nil n).symm
  | cons k ks ih => exact (ih (n.below [k])).trans (below_append n [k] ks).symm

theorem follow_up (a : Nat) : n.follow (List.replicate a .up) = up^[a] n := by
  induction a generalizing n with
  | zero => rfl
  | succ a ih => exact ih n.up

/-- Steps up take back names. -/
theorem iterate_up_below (ks ls : List String) : up^[ls.length] (n.below (ks ++ ls)) = n.below ks := by
  induction ls using List.reverseRecOn with
  | nil =>
    rw [List.append_nil]
    rfl
  | append_singleton ls k ih =>
    rw [List.length_append, List.length_singleton, Function.iterate_succ_apply, ← List.append_assoc,
      up_below_concat, ih]

theorem below_inj {m n : Normal} {ks : List String} : m.below ks = n.below ks ↔ m = n := by
  cases m <;> cases n <;> simp [below]

theorem iterate_up_absolute (a : Nat) (names : List String) :
    up^[a] (absolute names) = absolute (names.take (names.length - a)) := by
  induction a generalizing names with
  | zero => simp
  | succ a ih =>
    rw [Function.iterate_succ_apply, up, ih, List.dropLast_eq_take, List.length_take, List.take_take]
    congr 2
    omega

theorem iterate_up_relative (a climbs : Nat) (names : List String) :
    up^[a] (relative climbs names) =
      relative (climbs + (a - names.length)) (names.take (names.length - a)) := by
  induction a generalizing climbs names with
  | zero => simp
  | succ a ih =>
    rw [Function.iterate_succ_apply]
    cases names with
    | nil =>
      rw [up, ih, List.take_nil, List.take_nil, List.length_nil]
      congr 1
      omega
    | cons k ks =>
      rw [up_relative (List.cons_ne_nil k ks), ih, List.dropLast_eq_take, List.length_take,
        List.take_take, List.length_cons]
      congr 2
      · omega
      · omega

/-- **Climbing a different number of times leads to different places**, but for the root. -/
theorem iterate_up_eq_iff (a b : Nat) :
    up^[a] n = up^[b] n ↔ a = b ∨ up^[a] n = absolute [] ∧ up^[b] n = absolute [] := by
  constructor
  · intro h
    cases n with
    | absolute names =>
      rw [iterate_up_absolute, iterate_up_absolute] at h ⊢
      have hlength := congrArg List.length (absolute.inj h)
      rw [List.length_take, List.length_take] at hlength
      by_cases hroot : names.length ≤ a
      · have hb : names.length ≤ b := by omega
        simp [Nat.sub_eq_zero_of_le hroot, Nat.sub_eq_zero_of_le hb]
      · exact Or.inl (by omega)
    | relative climbs names =>
      rw [iterate_up_relative, iterate_up_relative] at h
      obtain ⟨hclimbs, hnames⟩ := relative.inj h
      have hlength := congrArg List.length hnames
      rw [List.length_take, List.length_take] at hlength
      exact Or.inl (by omega)
  · rintro (rfl | ⟨ha, hb⟩)
    · rfl
    · rw [ha, hb]

end Normal

/-- Where a path leads. -/
def normal (path : String) : Normal := (Normal.relative 0 []).along path

/-- Where a path starts. -/
def startOf (path : String) : Normal := if isAbsolute path then .absolute [] else .relative 0 []

theorem Normal.follow_front (n : Normal) (path : String) :
    n.follow (front path) = if isAbsolute path then .absolute [] else n := by
  unfold front
  split
  · rfl
  · split <;> rfl

theorem normal_eq (path : String) : normal path = (startOf path).follow (steps path) := by
  rw [normal, Normal.along, components_eq, Normal.follow_append, Normal.follow_front, startOf]

theorem Normal.along_of_relative {path : String} (h : isAbsolute path = false) (n : Normal) :
    n.along path = n.follow (steps path) := by
  rw [Normal.along, components_eq, Normal.follow_append, Normal.follow_front,
    if_neg (Bool.eq_false_iff.mp h)]

/-! ## Joined paths -/

theorem steps_append_separator (dir path : String) :
    steps (dir ++ "/" ++ path) = steps dir ++ steps path := by
  unfold steps
  rw [← List.filterMap_append, ← splitOn_append_separator]
  rfl

theorem eq_append_separator {dir : String} (h : dir.toList.getLast? = some '/') :
    ∃ d, dir = d ++ "/" := by
  obtain ⟨cs, hcs⟩ := List.getLast?_eq_some_iff.mp h
  refine ⟨String.ofList cs, String.toList_inj.mp ?_⟩
  rw [hcs, String.toList_append, String.toList_ofList]
  rfl

/-- The steps of a path below a directory are those of the directory and its own. -/
theorem steps_join {path : String} (h : isAbsolute path = false) (dir : String) :
    steps (join dir path) = steps dir ++ steps path := by
  unfold join
  rw [if_neg (Bool.eq_false_iff.mp h)]
  split_ifs with hempty hlast
  · rw [hempty]
    rfl
  · obtain ⟨d, rfl⟩ := eq_append_separator hlast
    have hnone := steps_append_separator d ""
    rw [String.append_empty] at hnone
    rw [steps_append_separator, hnone]
    simp [show steps "" = [] from rfl]
  · exact steps_append_separator dir path

theorem isAbsolute_append {dir : String} (h : dir ≠ "") (path : String) :
    isAbsolute (dir ++ path) = isAbsolute dir := by
  unfold isAbsolute
  rw [String.toList_append, List.head?_append_of_ne_nil _ (by simpa using h)]

theorem isAbsolute_join {path : String} (h : isAbsolute path = false) (dir : String) :
    isAbsolute (join dir path) = isAbsolute dir := by
  unfold join
  rw [if_neg (Bool.eq_false_iff.mp h)]
  split_ifs with hempty hlast
  · rw [h, hempty]
    rfl
  · exact isAbsolute_append hempty path
  · rw [String.append_assoc]
    exact isAbsolute_append hempty _

/-- **A path below a directory** leads on from where the directory leads. -/
theorem normal_join {path : String} (h : isAbsolute path = false) (dir : String) :
    normal (join dir path) = (normal dir).along path := by
  rw [normal_eq, normal_eq, Normal.along_of_relative h, steps_join h, Normal.follow_append, startOf,
    isAbsolute_join h, startOf]

/-! ## From names to names -/

theorem take_commonLength {α : Type} [DecidableEq α] (as bs : List α) :
    as.take (commonLength as bs) = bs.take (commonLength as bs) := by
  fun_induction commonLength as bs with
  | case1 a as bs ih => rw [List.take_succ_cons, List.take_succ_cons, ih]
  | case2 => rfl
  | case3 => rfl

theorem commonLength_append {α : Type} [DecidableEq α] (l as bs : List α) :
    commonLength (l ++ as) (l ++ bs) = l.length + commonLength as bs := by
  induction l with
  | nil => simp
  | cons a l ih =>
    rw [List.cons_append, List.cons_append, commonLength, if_pos rfl, ih, List.length_cons]
    omega

/-- A common beginning does not count. -/
theorem stepsBetween_append (l here there : List String) :
    stepsBetween (l ++ here) (l ++ there) = stepsBetween here there := by
  have hclimbs : (l ++ here).length - (l.length + commonLength here there) =
      here.length - commonLength here there := by
    rw [List.length_append]
    omega
  simp only [stepsBetween, commonLength_append, hclimbs, List.drop_length_add_append]

theorem stepsBetween_eq_cons (here there : List String) :
    ∃ s rest, stepsBetween here there = s :: rest ∧ (s = "." ∨ s = "..") := by
  unfold stepsBetween
  dsimp only
  cases here.length - commonLength here there with
  | zero => exact ⟨".", _, rfl, Or.inl rfl⟩
  | succ k => exact ⟨"..", _, rfl, Or.inr rfl⟩

theorem mem_stepsBetween {here there : List String} {s : String} (h : s ∈ stepsBetween here there) :
    s = "." ∨ s = ".." ∨ s ∈ there := by
  rcases List.mem_append.mp h with h | h
  · split_ifs at h
    · exact Or.inl (List.mem_singleton.mp h)
    · exact Or.inr (Or.inl (List.eq_of_mem_replicate h))
  · exact Or.inr (Or.inr (List.mem_of_mem_drop h))

/-- Steps up, and then the names that are not shared. -/
theorem components_stepsBetween (here : List String) {there : List String}
    (h : ∀ k ∈ there, IsStep (.name k)) :
    (stepsBetween here there).filterMap component? =
      List.replicate (here.length - commonLength here there) .up ++
        (there.drop (commonLength here there)).map .name := by
  have hnames : (there.drop (commonLength here there)).filterMap component? =
      (there.drop (commonLength here there)).map .name := by
    rw [← List.filterMap_eq_map]
    exact List.filterMap_congr fun k hk => (h k (List.mem_of_mem_drop hk)).component?
  have hclimbs : ∀ k, (List.replicate k "..").filterMap component? = List.replicate k .up := by
    intro k
    induction k with
    | zero => rfl
    | succ k ih => rw [List.replicate_succ, List.filterMap_cons, ih]; rfl
  unfold stepsBetween
  dsimp only
  rw [List.filterMap_append, hnames]
  split_ifs with hnone
  · have hzero : here.length - commonLength here there = 0 := by simpa using hnone
    rw [hzero]
    rfl
  · rw [hclimbs]

/-- **From names to names**: the steps lead from the one to the other, wherever both are. -/
theorem follow_stepsBetween (n : Normal) (here : List String) {there : List String}
    (h : ∀ k ∈ there, IsStep (.name k)) :
    (n.below here).follow ((stepsBetween here there).filterMap component?) = n.below there := by
  have hhere := List.take_append_drop (commonLength here there) here
  have hthere := List.take_append_drop (commonLength here there) there
  have hback := n.iterate_up_below (here.take (commonLength here there))
    (here.drop (commonLength here there))
  rw [hhere, List.length_drop] at hback
  rw [components_stepsBetween here h, Normal.follow_append, Normal.follow_up, Normal.follow_names,
    hback, take_commonLength, ← Normal.below_append, hthere]

/-! ## Folders and modules -/

/-- The directory that a path lies in, or the path itself if it lies in none. -/
def folder (path : String) : String := ofComponents ((directory? path).getD (components path))

/-- A path whose last name, if it ends in one, is without its extension. -/
def withoutExtension (path : String) : String :=
  ofComponents (match fileName? path with
    | none => components path
    | some file => (components path).dropLast ++ (component? (stem file)).toList)

theorem folder_eq (path : String) :
    ∃ cs, IsFront cs ∧ (cs = [.root] ↔ isAbsolute path = true) ∧
      folder path = ofComponents (cs ++ (steps path).dropLast) := by
  unfold folder
  rcases directory?_cases path with ⟨hnone, hsteps⟩ | ⟨cs, hcs, hroot, hdirectory⟩
  · refine ⟨front path, isFront_front path, front_eq_root_iff path, ?_⟩
    rw [hnone, components_eq, hsteps]
    rfl
  · refine ⟨cs, hcs, hroot, ?_⟩
    rw [hdirectory]
    rfl

theorem steps_folder (path : String) : steps (folder path) = (steps path).dropLast := by
  obtain ⟨cs, hcs, -, hfolder⟩ := folder_eq path
  rw [hfolder]
  exact steps_ofComponents hcs fun c hc => isStep_of_mem_steps (List.dropLast_subset _ hc)

theorem isAbsolute_folder (path : String) : isAbsolute (folder path) = isAbsolute path := by
  obtain ⟨cs, hcs, hroot, hfolder⟩ := folder_eq path
  rw [hfolder, Bool.eq_iff_iff, ← hroot]
  exact isAbsolute_ofComponents hcs fun c hc => isStep_of_mem_steps (List.dropLast_subset _ hc)

/-- The names of a path are those of its steps. -/
theorem names_eq (path : String) : names path = (steps path).filterMap Component.name? := by
  have hfront := isFront_front path
  unfold names
  rw [components_eq]
  generalize front path = cs at hfront
  cases hfront <;> rfl

theorem isStep_of_mem_names {path k : String} (h : k ∈ names path) : IsStep (.name k) := by
  rw [names_eq] at h
  obtain ⟨c, hc, hk⟩ := List.mem_filterMap.mp h
  cases c with
  | name text =>
    cases hk
    exact isStep_of_mem_steps hc
  | root | here | up => cases hk

/-- A specifier is found from the names of the folder. -/
theorem names_folder (path : String) :
    ((directory? path).map fun cs => cs.filterMap Component.name?).getD [] = names (folder path) := by
  rw [names_eq, steps_folder]
  rcases directory?_cases path with ⟨hnone, hsteps⟩ | ⟨cs, hcs, -, hdirectory⟩
  · rw [hnone, hsteps]
    rfl
  · rw [hdirectory]
    cases hcs <;> rfl

theorem exists_steps_of_fileName? {path file : String} (h : fileName? path = some file) :
    ∃ ss, steps path = ss ++ [.name file] := by
  rw [fileName?, components_eq] at h
  rcases List.eq_nil_or_concat (steps path) with hnil | ⟨ss, c, hsteps⟩
  · have hfront := isFront_front path
    rw [hnil, List.append_nil] at h
    generalize front path = cs at h hfront
    cases hfront <;> cases h
  · rw [List.concat_eq_append] at hsteps
    rw [hsteps, ← List.append_assoc, List.getLast?_concat] at h
    cases c with
    | name text =>
      cases h
      exact ⟨ss, hsteps⟩
    | root | here | up => cases h

theorem beforeLast_subset {c : Char} {cs r : List Char} (h : beforeLast c cs = some r) : r ⊆ cs := by
  unfold beforeLast at h
  split at h
  · cases h
  · next d rest hdrop =>
    cases h
    have hsuffix := List.dropWhile_suffix (· != c) (l := cs.reverse)
    rw [hdrop] at hsuffix
    exact fun x hx => List.mem_reverse.mp
      (hsuffix.subset (List.mem_cons_of_mem d (List.mem_reverse.mp hx)))

theorem toList_stem_subset (file : String) : (stem file).toList ⊆ file.toList := by
  unfold stem
  split
  · exact List.Subset.refl _
  · exact List.Subset.refl _
  · next cs _ hbefore =>
    rw [String.toList_ofList]
    exact beforeLast_subset hbefore

/-- Without its extension a path has the same front, and the names that a specifier leads to. -/
theorem withoutExtension_eq (path : String) :
    ∃ ss, (∀ c ∈ ss, IsStep c) ∧ withoutExtension path = ofComponents (front path ++ ss) ∧
      moduleNames path = ss.filterMap Component.name? := by
  unfold withoutExtension moduleNames
  rw [names_eq]
  cases hfile : fileName? path with
  | none => exact ⟨steps path, fun c hc => isStep_of_mem_steps hc, by rw [components_eq], rfl⟩
  | some file =>
    obtain ⟨ss, hsteps⟩ := exists_steps_of_fileName? hfile
    have hmem : .name file ∈ steps path := by simp [hsteps]
    have hslash : '/' ∉ (stem file).toList :=
      fun hslash => (isStep_of_mem_steps hmem).not_mem_text (toList_stem_subset file hslash)
    refine ⟨ss ++ (component? (stem file)).toList, ?_, ?_, ?_⟩
    · rw [List.forall_mem_append]
      refine ⟨fun c hc => isStep_of_mem_steps (hsteps ▸ List.mem_append_left _ hc), fun c hc => ?_⟩
      exact isStep_of_component? hslash (Option.mem_toList.mp hc)
    · dsimp only
      rw [components_eq, hsteps, ← List.append_assoc, List.dropLast_concat, List.append_assoc]
    · dsimp only
      have hnames : (ss ++ [Component.name file]).filterMap Component.name? =
          ss.filterMap Component.name? ++ [file] := by rw [List.filterMap_append]; rfl
      rw [hsteps, hnames, List.dropLast_concat, List.filterMap_append]
      cases component? (stem file) <;> rfl

theorem names_withoutExtension (path : String) : names (withoutExtension path) = moduleNames path := by
  obtain ⟨ss, hss, hpath, hnames⟩ := withoutExtension_eq path
  rw [names_eq, hpath, steps_ofComponents (isFront_front path) hss, hnames]

theorem isAbsolute_withoutExtension (path : String) :
    isAbsolute (withoutExtension path) = isAbsolute path := by
  obtain ⟨ss, hss, hpath, -⟩ := withoutExtension_eq path
  rw [hpath, Bool.eq_iff_iff, isAbsolute_ofComponents (isFront_front path) hss, front_eq_root_iff]

/-! ## Specifiers -/

theorem relativeModule_eq (source target : String) :
    relativeModule source target = (String.singleton '/').intercalate
      (stepsBetween (names (folder source)) (names (withoutExtension target))) := by
  rw [← names_folder, names_withoutExtension]
  rfl

theorem head?_relativeModule (source target : String) :
    (relativeModule source target).toList.head? = some '.' := by
  obtain ⟨s, rest, hsteps, hs⟩ :=
    stepsBetween_eq_cons (names (folder source)) (names (withoutExtension target))
  rw [relativeModule_eq, hsteps]
  rcases hs with rfl | rfl
  · exact head?_intercalate (by decide) rest
  · exact head?_intercalate (by decide) rest

theorem isAbsolute_relativeModule (source target : String) :
    isAbsolute (relativeModule source target) = false := by
  rw [isAbsolute, head?_relativeModule]
  rfl

theorem steps_relativeModule (source target : String) :
    steps (relativeModule source target) =
      (stepsBetween (names (folder source)) (names (withoutExtension target))).filterMap
        component? := by
  have hslash : ∀ s ∈ stepsBetween (names (folder source)) (names (withoutExtension target)),
      '/' ∉ s.toList := by
    intro s hs
    rcases mem_stepsBetween hs with rfl | rfl | hs
    · decide
    · decide
    · exact (isStep_of_mem_names hs).not_mem_text
  obtain ⟨s, rest, hsteps, -⟩ :=
    stepsBetween_eq_cons (names (folder source)) (names (withoutExtension target))
  rw [relativeModule_eq, steps, splitOn_intercalate (by simp [hsteps]) hslash]

/-- **Where a specifier leads.** It leads from the names of the folder to the names of the module,
wherever both are. -/
theorem along_relativeModule (n : Normal) (source target : String) :
    (n.below (names (folder source))).along (relativeModule source target) =
      n.below (names (withoutExtension target)) := by
  rw [Normal.along_of_relative (isAbsolute_relativeModule source target), steps_relativeModule]
  exact follow_stepsBetween n _ fun k hk => isStep_of_mem_names hk

/-- The names of a path that goes down from a place above it. -/
theorem names_of_steps {path : String} {top : List Component} {a : Nat} {ks : List String}
    (h : steps path = top ++ List.replicate a .up ++ ks.map .name) :
    names path = top.filterMap Component.name? ++ ks := by
  have hclimbs : (List.replicate a Component.up).filterMap Component.name? = [] := by
    rw [List.filterMap_replicate_of_none rfl]
  have hnames : (ks.map Component.name).filterMap Component.name? = ks := by
    rw [List.filterMap_map]
    exact List.filterMap_some
  rw [names_eq, h, List.filterMap_append, List.filterMap_append, hclimbs, hnames, List.append_nil]

/-- Where a path leads that goes down from a place above it. -/
theorem normal_of_steps {path : String} {top : List Component} {a : Nat} {ks : List String}
    (h : steps path = top ++ List.replicate a .up ++ ks.map .name) :
    normal path = (Normal.up^[a] ((startOf path).follow top)).below ks := by
  rw [normal_eq, h, Normal.follow_append, Normal.follow_append, Normal.follow_up,
    Normal.follow_names]

/-- **Where the specifiers of modules lead.** A specifier starts with a dot. Wherever one is, it
leads from the names of the folder to those of the module. Where both paths have the same beginning,
then climb, and then go down, it leads from the folder to the module exactly if both climb equally
often or end their climbs at the root. -/
theorem relativeModule_leads (source target : String)
    (h : isAbsolute source = isAbsolute target) :
    (relativeModule source target).toList.head? = some '.' ∧
      (∀ n : Normal, (n.below (names (folder source))).along (relativeModule source target) =
        n.below (names (withoutExtension target))) ∧
      ∀ (top : List Component) (a b : Nat) (here there : List String),
        steps (folder source) = top ++ List.replicate a .up ++ here.map .name →
        steps (withoutExtension target) = top ++ List.replicate b .up ++ there.map .name →
        (normal (join (folder source) (relativeModule source target)) =
            normal (withoutExtension target) ↔
          a = b ∨ (startOf source).follow (top ++ List.replicate a .up) = .absolute [] ∧
            (startOf target).follow (top ++ List.replicate b .up) = .absolute []) := by
  refine ⟨head?_relativeModule source target, fun n => along_relativeModule n source target, ?_⟩
  intro top a b here there hhere hthere
  have hsource : startOf (folder source) = startOf source := by
    rw [startOf, isAbsolute_folder, startOf]
  have htarget : startOf (withoutExtension target) = startOf source := by
    rw [startOf, isAbsolute_withoutExtension, ← h, startOf]
  have hstart : startOf target = startOf source := by rw [startOf, ← h, startOf]
  have hdown : ∀ k ∈ there, IsStep (.name k) := by
    intro k hk
    have hname : k ∈ names (withoutExtension target) := by
      rw [names_of_steps hthere]
      exact List.mem_append_right _ hk
    exact isStep_of_mem_names hname
  -- the names in the common beginning are shared, so that the climbs are those below it
  have hsteps : steps (relativeModule source target) =
      (stepsBetween here there).filterMap component? := by
    rw [steps_relativeModule, names_of_steps hhere, names_of_steps hthere, stepsBetween_append]
  rw [normal_join (isAbsolute_relativeModule source target),
    Normal.along_of_relative (isAbsolute_relativeModule source target), hsteps,
    normal_of_steps hhere, normal_of_steps hthere, follow_stepsBetween _ here hdown, hsource,
    htarget, hstart, Normal.below_inj, Normal.iterate_up_eq_iff]
  simp only [Normal.follow_append, Normal.follow_up]

theorem relativeModule_leads_shared :
    let source := "../client/v2/api.ts"
    let target := "../shared/types.d.ts"
    isAbsolute source = isAbsolute target ∧
      relativeModule source target = "../../shared/types.d" ∧
      normal (join (folder source) (relativeModule source target)) =
        normal (withoutExtension target) :=
  ⟨by decide, by decide, ((relativeModule_leads _ _ (by decide)).2.2 [.up] 0 0 ["client", "v2"]
    ["shared", "types.d"] (by decide) (by decide)).mpr (Or.inl rfl)⟩

/-- A module above the folder that one is in is looked for in this folder. -/
theorem not_leads_above :
    let source := "client/api.ts"
    let target := "../shared/types.ts"
    isAbsolute source = isAbsolute target ∧ relativeModule source target = "../shared/types" ∧
      normal (join (folder source) (relativeModule source target)) =
        .relative 0 ["shared", "types"] ∧
      normal (withoutExtension target) = .relative 1 ["shared", "types"] := by
  decide

end ApiSurface.Path
