import ApiSurface.Path
import Mathlib.Data.List.Infix

/-!
# The steps of a path

Behind its front a path consists of names and of steps up. The directory that a path lies in has
the same front and all steps but the last.

* `splitOn_eq`: the pieces of a text are those of its characters;
* `steps`, `front`, `components_eq`: a path as its front and its steps;
* `steps_ofComponents`, `isAbsolute_ofComponents`: both are found again when they are put together;
* **`steps_parent`**, `isAbsolute_parent`: the directory that a path lies in.
-/

namespace ApiSurface

namespace Text

theorem splitAll_eq (p : Char → Bool) (cs : List Char) : splitAll p cs = cs.splitOnP p := by
  induction cs with
  | nil => rfl
  | cons c cs ih =>
    rw [splitAll, List.splitOnP_cons_eq_if_modifyHead, ih]
    cases hcs : cs.splitOnP p with
    | nil => exact absurd hcs (List.splitOnP_ne_nil p cs)
    | cons piece pieces => rfl

theorem splitOn_eq (sep : Char) (s : String) :
    splitOn sep s = (s.toList.splitOn sep).map String.ofList := by
  rw [splitOn, splitAll_eq]
  rfl

/-- The pieces of two texts with a separator between them are the pieces of both. -/
theorem splitOn_append_separator (sep : Char) (s t : String) :
    splitOn sep (s ++ String.singleton sep ++ t) = splitOn sep s ++ splitOn sep t := by
  have hlist : (s ++ String.singleton sep ++ t).toList = s.toList ++ sep :: t.toList := by simp
  rw [splitOn_eq, splitOn_eq, splitOn_eq, hlist, List.splitOn,
    List.splitOnP_append_cons _ _ (by simp), List.map_append]
  rfl

theorem not_mem_of_mem_splitOn {sep : Char} {cs piece : List Char} (h : piece ∈ cs.splitOn sep) :
    sep ∉ piece := by
  induction cs generalizing piece with
  | nil =>
    rw [List.mem_singleton.mp h]
    exact List.not_mem_nil
  | cons c cs ih =>
    rw [List.splitOn_cons_eq_if_modifyHead] at h
    split at h
    · rcases List.mem_cons.mp h with rfl | h
      · exact List.not_mem_nil
      · exact ih h
    · next hc =>
      cases hcs : cs.splitOn sep with
      | nil => exact absurd hcs (List.splitOn_ne_nil sep cs)
      | cons first rest =>
        rw [hcs] at h ih
        rcases List.mem_cons.mp h with rfl | h
        · have hfirst := ih List.mem_cons_self
          rw [List.mem_cons, not_or]
          exact ⟨fun heq => hc (by simp [heq]), hfirst⟩
        · exact ih (List.mem_cons_of_mem _ h)

/-- No piece of a text has the separator in it. -/
theorem separator_not_mem {sep : Char} {s piece : String} (h : piece ∈ splitOn sep s) :
    sep ∉ piece.toList := by
  rw [splitOn_eq] at h
  obtain ⟨cs, hcs, rfl⟩ := List.mem_map.mp h
  rw [String.toList_ofList]
  exact not_mem_of_mem_splitOn hcs

theorem splitOn_ne_nil (sep : Char) (s : String) : splitOn sep s ≠ [] := by
  rw [splitOn_eq, Ne, List.map_eq_nil_iff]
  exact List.splitOn_ne_nil sep _

/-- Pieces that are joined are found again. -/
theorem splitOn_intercalate {sep : Char} {pieces : List String} (hne : pieces ≠ [])
    (h : ∀ s ∈ pieces, sep ∉ s.toList) :
    splitOn sep ((String.singleton sep).intercalate pieces) = pieces := by
  have hmem : ∀ cs ∈ pieces.map String.toList, sep ∉ cs := by
    rw [List.forall_mem_map]
    exact h
  rw [splitOn_eq, String.toList_intercalate, String.toList_singleton,
    List.splitOn_intercalate sep hmem (by simpa using hne), List.map_map]
  simp

/-- The pieces of a text with the separator between them are the text. -/
theorem intercalate_splitOn (sep : Char) (s : String) :
    (String.singleton sep).intercalate (splitOn sep s) = s := by
  rw [← String.toList_inj, String.toList_intercalate, String.toList_singleton, splitOn_eq,
    List.map_map]
  simp [Function.comp_def, List.intercalate_splitOn]

end Text

namespace Path

open ApiSurface.Text

/-- The components of a path behind its front: names and steps up. -/
def steps (path : String) : List Component := (splitOn '/' path).filterMap component?

/-- What a path starts with, if that is no step. -/
def front (path : String) : List Component :=
  if isAbsolute path then [.root]
  else if (splitOn '/' path).head? = some "." then [.here]
  else []

theorem components_eq (path : String) : components path = front path ++ steps path := by
  unfold components front steps
  dsimp only
  split
  · rfl
  · split <;> rfl

/-- A step of a path: up, or to a name that stands for itself. -/
inductive IsStep : Component → Prop
  | up : IsStep .up
  | name {k : String} (hslash : '/' ∉ k.toList) (hself : component? k = some (.name k)) :
      IsStep (.name k)

theorem isStep_of_component? {piece : String} {c : Component} (hslash : '/' ∉ piece.toList)
    (h : component? piece = some c) : IsStep c := by
  have hself := h
  unfold component? at h
  split_ifs at h with hempty hhere hup
  · cases h
    exact .up
  · cases h
    exact .name hslash hself

theorem isStep_of_mem_steps {path : String} {c : Component} (h : c ∈ steps path) : IsStep c := by
  obtain ⟨piece, hpiece, hc⟩ := List.mem_filterMap.mp h
  exact isStep_of_component? (separator_not_mem hpiece) hc

theorem IsStep.component? {c : Component} (h : IsStep c) : component? c.text = some c := by
  cases h with
  | up => decide
  | name _ hself => exact hself

theorem IsStep.not_mem_text {c : Component} (h : IsStep c) : '/' ∉ c.text.toList := by
  cases h with
  | up => decide
  | name hslash _ => exact hslash

theorem IsStep.ne_root {c : Component} (h : IsStep c) : c ≠ .root := by
  rintro rfl
  cases h

theorem ofComponents_eq {cs : List Component} (hnil : cs ≠ []) (hroot : cs ≠ [.root]) :
    ofComponents cs = (String.singleton '/').intercalate (cs.map Component.text) := by
  unfold ofComponents
  split
  · contradiction
  · contradiction
  · rfl

/-- What can stand in front of the steps of a path. -/
inductive IsFront : List Component → Prop
  | nil : IsFront []
  | root : IsFront [.root]
  | here : IsFront [.here]

/-- The steps of a path that is put together from a front and steps. -/
theorem steps_ofComponents {cs ss : List Component} (hcs : IsFront cs) (hss : ∀ c ∈ ss, IsStep c) :
    steps (ofComponents (cs ++ ss)) = ss := by
  have hsteps : (ss.map Component.text).filterMap component? = ss := by
    have hself : ∀ c ∈ ss, (component? ∘ Component.text) c = some c :=
      fun c hc => (hss c hc).component?
    rw [List.filterMap_map, List.filterMap_congr hself, List.filterMap_some]
  have hfront : (cs.map Component.text).filterMap component? = [] := by cases hcs <;> decide
  have hslash : ∀ s ∈ (cs ++ ss).map Component.text, '/' ∉ s.toList := by
    rw [List.map_append, List.forall_mem_append, List.forall_mem_map, List.forall_mem_map]
    refine ⟨?_, fun c hc => (hss c hc).not_mem_text⟩
    cases hcs <;> simp [Component.text]
  by_cases hnil : cs ++ ss = []
  · rw [hnil, (List.append_eq_nil_iff.mp hnil).2]
    decide
  · by_cases hroot : cs ++ ss = [.root]
    · have hnone : ss = [] := by
        cases hcs with
        | nil => exact absurd rfl (hss .root (by simp [show ss = [.root] from hroot])).ne_root
        | root => simpa using hroot
        | here => simp at hroot
      rw [hroot, hnone]
      decide
    · rw [steps, ofComponents_eq hnil hroot, splitOn_intercalate (by simpa using hnil) hslash,
        List.map_append, List.filterMap_append, hfront, hsteps, List.nil_append]

theorem head?_intercalate {s : String} (hs : s ≠ "") (rest : List String) :
    ((String.singleton '/').intercalate (s :: rest)).toList.head? = s.toList.head? := by
  cases rest with
  | nil => rw [String.intercalate_singleton]
  | cons t rest =>
    rw [String.intercalate_cons_cons, String.toList_append, String.toList_append,
      List.append_assoc, List.head?_append_of_ne_nil _ (by simpa using hs)]

theorem isAbsolute_ofComponents {cs ss : List Component} (hcs : IsFront cs)
    (hss : ∀ c ∈ ss, IsStep c) :
    isAbsolute (ofComponents (cs ++ ss)) = true ↔ cs = [.root] := by
  unfold isAbsolute
  cases hcs with
  | root =>
    refine iff_of_true ?_ rfl
    cases ss with
    | nil => decide
    | cons c ss =>
      rw [ofComponents_eq (by simp) (by simp), List.map_append, List.map_singleton,
        List.singleton_append, List.map_cons, String.intercalate_cons_cons]
      simp [Component.text]
  | here =>
    refine iff_of_false ?_ (by simp)
    rw [ofComponents_eq (by simp) (by simp), List.map_append, List.map_singleton,
      List.singleton_append, head?_intercalate (by decide)]
    decide
  | nil =>
    refine iff_of_false ?_ (by simp)
    cases ss with
    | nil => decide
    | cons c ss =>
      have hc := hss c List.mem_cons_self
      have hne : c.text ≠ "" := by
        intro hempty
        have hself := hc.component?
        rw [hempty] at hself
        cases hself
      rw [List.nil_append, ofComponents_eq (by simp) (by simp [hc.ne_root]), List.map_cons,
        head?_intercalate hne]
      intro hslash
      exact hc.not_mem_text (List.mem_of_head? (by simpa using hslash))

theorem isFront_front (path : String) : IsFront (front path) := by
  unfold front
  split
  · exact .root
  · split
    · exact .here
    · exact .nil

theorem front_eq_root_iff (path : String) : front path = [.root] ↔ isAbsolute path = true := by
  unfold front
  split
  · next h => simp [h]
  · next h => split <;> simp [h]

/-- A path that is not only a front lies in the directory of all its steps but the last; one that
is only a front lies in none, or in the directory one is in. -/
theorem directory?_cases (path : String) :
    (directory? path = none ∧ steps path = []) ∨
      ∃ cs, IsFront cs ∧ (cs = [.root] ↔ isAbsolute path = true) ∧
        directory? path = some (cs ++ (steps path).dropLast) := by
  unfold directory?
  rw [components_eq]
  rcases List.eq_nil_or_concat (steps path) with hnil | ⟨ss, c, hsteps⟩
  · rw [hnil, List.append_nil, ← front_eq_root_iff]
    have hfront := isFront_front path
    generalize front path = cs at hfront
    cases hfront with
    | nil => exact Or.inl ⟨rfl, rfl⟩
    | root => exact Or.inl ⟨rfl, rfl⟩
    | here => exact Or.inr ⟨[], .nil, by simp, rfl⟩
  · have hmem : c ∈ steps path := by simp [hsteps]
    have hc : c ≠ .root := (isStep_of_mem_steps hmem).ne_root
    refine Or.inr ⟨front path, isFront_front path, front_eq_root_iff path, ?_⟩
    rw [hsteps, List.concat_eq_append, List.dropLast_concat, ← List.append_assoc,
      List.reverse_append, List.reverse_singleton, List.singleton_append]
    cases c with
    | root => exact absurd rfl hc
    | here | up | name k => simp

theorem parent_eq {path : String} (h : steps path ≠ [] ∨ isAbsolute path = false) :
    ∃ cs, IsFront cs ∧ (cs = [.root] ↔ isAbsolute path = true) ∧
      parent path = ofComponents (cs ++ (steps path).dropLast) := by
  unfold parent
  rcases directory?_cases path with ⟨hnone, hsteps⟩ | ⟨cs, hcs, hroot, hdirectory⟩
  · have hrelative := h.resolve_left (absurd hsteps)
    refine ⟨[], .nil, by simp [hrelative], ?_⟩
    rw [hnone, hsteps]
    rfl
  · refine ⟨cs, hcs, hroot, ?_⟩
    rw [hdirectory]
    rfl

/-- **The directory that a path lies in** has all its steps but the last. -/
theorem steps_parent {path : String} (h : steps path ≠ [] ∨ isAbsolute path = false) :
    steps (parent path) = (steps path).dropLast := by
  obtain ⟨cs, hcs, -, hparent⟩ := parent_eq h
  rw [hparent]
  exact steps_ofComponents hcs fun c hc => isStep_of_mem_steps (List.dropLast_subset _ hc)

theorem isAbsolute_parent {path : String} (h : steps path ≠ [] ∨ isAbsolute path = false) :
    isAbsolute (parent path) = isAbsolute path := by
  obtain ⟨cs, hcs, hroot, hparent⟩ := parent_eq h
  rw [hparent, Bool.eq_iff_iff, ← hroot]
  exact isAbsolute_ofComponents hcs fun c hc => isStep_of_mem_steps (List.dropLast_subset _ hc)

end Path

end ApiSurface
