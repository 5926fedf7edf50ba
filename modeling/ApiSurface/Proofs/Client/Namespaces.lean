import ApiSurface.Proofs.Client.Written
import ApiSurface.Proofs.Firsts
import ApiSurface.Proofs.Source.TypeExpr
import Mathlib

/-!
# Namespaces

Controllers whose names come down to the same identifier share a namespace. A client has one
namespace for each of these identifiers, in the order in which they first come up, and in it the
functions of all requests of its controllers, in order.

* `IsNamespace`, `namespaceName_of_isNamespace`: the identifiers, and that they stay as they are;
* `namespaceNames`, `inNamespace`: the namespaces of controllers, and the controllers of each;
* **`groupByNamespace_eq`**: what the groups are after all controllers, one after the other;
* `rendered`, `perm_rendered`: the requests in the order of their functions;
* `WritesNamespaces`, `writes_functionText`: a text has the namespaces and functions of controllers;
* **`functionText_namespaces`**: the functions of a client, namespace by namespace.
-/

namespace ApiSurface.Client

open ApiSurface.Text

/-! ## Names -/

/-- Capital letters, digits, `_` and `$`. -/
def isCapitalPart (c : Char) : Bool := c.isUpper || c.isDigit || c == '_' || c == '$'

/-- An identifier without small letters. -/
structure IsNamespace (name : String) : Prop where
  identifier : isIdentifier name = true
  capital : ∀ c ∈ name.toList, isCapitalPart c = true

theorem isCapitalPart_namespaceChar (c : Char) : isCapitalPart (namespaceChar c) = true := by
  unfold namespaceChar
  split_ifs with hc
  · cases halpha : c.isAlpha with
    | true =>
      rw [isCapitalPart, Char.isUpper_toUpper_eq_isAlpha, halpha]
      rfl
    | false =>
      have hlower : ¬ c.isLower = true := fun h => by simp [Char.isAlpha, h] at halpha
      rw [Char.toUpper_eq_of_not_isLower hlower]
      rw [isIdentPart, Char.isAlphanum, halpha] at hc
      simpa [isCapitalPart, Bool.or_assoc] using Or.inr hc
  · decide

theorem isIdentPart_of_isCapitalPart {c : Char} (h : isCapitalPart c = true) :
    isIdentPart c = true := by
  simp only [isCapitalPart, Bool.or_eq_true] at h
  simp only [isIdentPart, Char.isAlphanum, Char.isAlpha, Bool.or_eq_true]
  tauto

theorem not_isLower_of_isCapitalPart {c : Char} (h : isCapitalPart c = true) :
    ¬ c.isLower = true := by
  simp only [isCapitalPart, Bool.or_eq_true, beq_iff_eq] at h
  obtain ((hupper | hdigit) | rfl) | rfl := h
  · exact Char.not_isLower_of_isUpper hupper
  · simp only [Char.isDigit, Char.isLower, Bool.and_eq_true, decide_eq_true_eq, ge_iff_le,
      UInt32.le_iff_toNat_le] at hdigit ⊢
    have hnine : '9'.val.toNat = 57 := rfl
    have ha : 'a'.val.toNat = 97 := rfl
    omega
  · decide
  · decide

theorem namespaceChar_of_isCapitalPart {c : Char} (h : isCapitalPart c = true) :
    namespaceChar c = c := by
  rw [namespaceChar, if_pos (isIdentPart_of_isCapitalPart h),
    Char.toUpper_eq_of_not_isLower (not_isLower_of_isCapitalPart h)]

theorem isIdentifier_ofList {c : Char} {cs : List Char} (hdigit : ¬ c.isDigit = true)
    (h : ∀ d ∈ c :: cs, isCapitalPart d = true) : isIdentifier (String.ofList (c :: cs)) = true := by
  have hc := isIdentPart_of_isCapitalPart (h c List.mem_cons_self)
  have hstart : isIdentStart c = true := by
    rw [isIdentPart, Char.isAlphanum, Bool.eq_false_iff.mpr hdigit, Bool.or_false] at hc
    exact hc
  rw [isIdentifier, String.toList_ofList]
  dsimp only
  rw [hstart, Bool.true_and, List.all_eq_true]
  exact fun d hd => isIdentPart_of_isCapitalPart (h d (List.mem_cons_of_mem _ hd))

/-- **The namespace of a controller** is an identifier without small letters. -/
theorem isNamespace_namespaceName (text : String) : IsNamespace (namespaceName text) := by
  have hcapital : ∀ c ∈ text.toList.map namespaceChar, isCapitalPart c = true :=
    List.forall_mem_map.mpr fun c _ => isCapitalPart_namespaceChar c
  unfold namespaceName
  generalize text.toList.map namespaceChar = cs at hcapital
  cases cs with
  | nil =>
    have hall : ∀ d ∈ ['_'], isCapitalPart d = true := List.forall_mem_singleton.mpr (by decide)
    change IsNamespace (String.ofList ['_'])
    exact ⟨isIdentifier_ofList (by decide) hall, by rwa [String.toList_ofList]⟩
  | cons c cs =>
    dsimp only
    split_ifs with hdigit
    · have hall : ∀ d ∈ '_' :: c :: cs, isCapitalPart d = true :=
        List.forall_mem_cons.mpr ⟨by decide, hcapital⟩
      exact ⟨isIdentifier_ofList (by decide) hall, by rwa [String.toList_ofList]⟩
    · exact ⟨isIdentifier_ofList hdigit hcapital, by rwa [String.toList_ofList]⟩

theorem not_isDigit_of_isAlpha {c : Char} (h : c.isAlpha = true) : c.isDigit = false := by
  rw [Bool.eq_false_iff]
  intro hdigit
  simp only [Char.isAlpha, Char.isUpper, Char.isLower, Char.isDigit, Bool.or_eq_true,
    Bool.and_eq_true, decide_eq_true_eq, ge_iff_le, UInt32.le_iff_toNat_le] at h hdigit
  have hnine : '9'.val.toNat = 57 := rfl
  have hupper : 'A'.val.toNat = 65 := rfl
  have hlower : 'a'.val.toNat = 97 := rfl
  omega

theorem isDigit_namespaceChar (c : Char) : (namespaceChar c).isDigit = c.isDigit := by
  cases halpha : c.isAlpha with
  | true =>
    have hupper : c.toUpper.isAlpha = true := by
      rw [Char.isAlpha, Char.isUpper_toUpper_eq_isAlpha, halpha, Bool.true_or]
    rw [namespaceChar, if_pos (by simp [isIdentPart, Char.isAlphanum, halpha]),
      not_isDigit_of_isAlpha hupper, not_isDigit_of_isAlpha halpha]
  | false =>
    have hlower : ¬ c.isLower = true := fun h => by simp [Char.isAlpha, h] at halpha
    rw [namespaceChar, Char.toUpper_eq_of_not_isLower hlower]
    split_ifs with hpart
    · rfl
    · have hdigit : c.isDigit = false := by
        simp only [isIdentPart, Char.isAlphanum, halpha, Bool.false_or, Bool.or_eq_true] at hpart
        exact Bool.eq_false_iff.mpr fun h => hpart (Or.inl (Or.inl h))
      rw [hdigit]
      decide

/-- The characters of a namespace. -/
theorem toList_namespaceName (text : String) : (namespaceName text).toList =
    (if text.toList.head?.all Char.isDigit then ['_'] else []) ++
      text.toList.map (fun c =>
        if c.isAlphanum || c == '_' || c == '$' then c.toUpper else '_') := by
  have hchar : namespaceChar =
      fun c => if c.isAlphanum || c == '_' || c == '$' then c.toUpper else '_' := rfl
  rw [← hchar, namespaceName, String.toList_ofList]
  cases text.toList with
  | nil => rfl
  | cons c cs =>
    rw [List.map_cons, List.head?_cons, Option.all_some]
    dsimp only
    rw [isDigit_namespaceChar]
    split_ifs <;> rfl

/-- **Such an identifier is its own namespace.** -/
theorem namespaceName_of_isNamespace {name : String} (h : IsNamespace name) :
    namespaceName name = name := by
  obtain ⟨c, cs, hname, hstart, -⟩ := exists_isIdentifier h.identifier
  have hmap : name.toList.map namespaceChar = c :: cs := by
    rw [List.map_congr_left fun d hd => namespaceChar_of_isCapitalPart (h.capital d hd),
      List.map_id', hname]
  have hdigit : ¬ c.isDigit = true := fun hdigit => by
    rw [not_isIdentStart_of_isDigit hdigit] at hstart
    cases hstart
  rw [namespaceName, hmap]
  dsimp only
  rw [if_neg hdigit, ← hname, String.ofList_toList]

/-! ## Groups -/

/-- The namespaces of controllers, in the order in which they first come up. -/
def namespaceNames (ks : List Controller) : List String :=
  (ks.map fun k => namespaceName k.name).eraseDups

/-- The controllers that share a namespace, in order. -/
def inNamespace (ks : List Controller) (name : String) : List Controller :=
  ks.filter fun k => namespaceName k.name = name

theorem firsts_namespaceNames (ks : List Controller) :
    Firsts (namespaceNames ks) (ks.map fun k => namespaceName k.name) :=
  firsts_eraseDups _

theorem mem_namespaceNames {ks : List Controller} {name : String} :
    name ∈ namespaceNames ks ↔ ∃ k ∈ ks, namespaceName k.name = name := by
  rw [(firsts_namespaceNames ks).mem_iff, List.mem_map]

theorem inNamespace_append_singleton (ks : List Controller) (k : Controller) (name : String) :
    inNamespace (ks ++ [k]) name =
      if name = namespaceName k.name then inNamespace ks name ++ [k] else inNamespace ks name := by
  unfold inNamespace
  rw [List.filter_append, List.filter_singleton]
  by_cases h : name = namespaceName k.name
  · simp [h]
  · simp [h, Ne.symm h]

/-- A controller joins the group of its namespace, if there is one, and is a group of its own
behind the others if there is none. -/
theorem joinGroup_map (k : Controller) {names : List String} (hnodup : names.Nodup)
    (members : String → List Controller) :
    joinGroup k (names.map fun name => (name, members name)) =
      (names.map fun name => (name,
        if name = namespaceName k.name then members name ++ [k] else members name)) ++
      if namespaceName k.name ∈ names then [] else [(namespaceName k.name, [k])] := by
  induction names with
  | nil => rfl
  | cons name names ih =>
    obtain ⟨hnew, hnodup⟩ := List.nodup_cons.mp hnodup
    rw [List.map_cons, joinGroup, List.map_cons]
    by_cases hname : name = namespaceName k.name
    · have hrest : ∀ n ∈ names, (n, members n) =
          (n, if n = namespaceName k.name then members n ++ [k] else members n) := by
        rintro n hn
        rw [if_neg]
        rintro rfl
        exact hnew (hname ▸ hn)
      rw [if_pos hname, if_pos hname, List.map_congr_left hrest, hname,
        if_pos List.mem_cons_self, List.append_nil]
    · rw [if_neg hname, if_neg hname, ih hnodup, List.cons_append]
      simp only [List.mem_cons, Ne.symm hname, false_or]

/-- **The groups of controllers**: for each namespace its controllers, in order. -/
theorem groupByNamespace_eq (ks : List Controller) :
    groupByNamespace ks = (namespaceNames ks).map fun name => (name, inNamespace ks name) := by
  induction ks using List.reverseRecOn with
  | nil => rfl
  | append_singleton ks k ih =>
    have hstep : groupByNamespace (ks ++ [k]) = joinGroup k (groupByNamespace ks) :=
      List.foldl_concat _ _ _ _
    have hnames : namespaceNames (ks ++ [k]) = if namespaceName k.name ∈ namespaceNames ks
        then namespaceNames ks else namespaceNames ks ++ [namespaceName k.name] := by
      simp only [(firsts_namespaceNames ks).mem_iff]
      rw [namespaceNames, List.map_append, List.map_singleton, eraseDups_append_singleton]
      rfl
    rw [hstep, ih, joinGroup_map k (firsts_namespaceNames ks).nodup, hnames]
    simp only [inNamespace_append_singleton]
    split_ifs with hmem
    · rw [List.append_nil]
    · have hnone : inNamespace ks (namespaceName k.name) = [] :=
        List.filter_eq_nil_iff.mpr fun j hj hname =>
          hmem (mem_namespaceNames.mpr ⟨j, hj, of_decide_eq_true hname⟩)
      rw [List.map_append, List.map_singleton, if_pos rfl, hnone, List.nil_append]

/-! ## The order of the functions -/

/-- The requests of controllers, each with its controller. -/
def requestsOf (ks : List Controller) : List (Controller × Request) :=
  ks.flatMap fun k => k.requests.map fun r => (k, r)

/-- The requests whose functions stand in a namespace, each with its controller. -/
def renderedIn (ks : List Controller) (name : String) : List (Controller × Request) :=
  (requestsOf ks).filter fun x => namespaceName x.1.name = name

/-- The requests of controllers in the order of their functions, namespace by namespace. -/
def rendered (ks : List Controller) : List (Controller × Request) :=
  (namespaceNames ks).flatMap (renderedIn ks)

theorem renderedIn_eq (ks : List Controller) (name : String) :
    renderedIn ks name = requestsOf (inNamespace ks name) := by
  induction ks with
  | nil => rfl
  | cons k ks ih =>
    unfold renderedIn requestsOf inNamespace at *
    rw [List.flatMap_cons, List.filter_append, ih, List.filter_cons]
    by_cases hname : namespaceName k.name = name
    · simp [hname]
    · simp [hname]

/-- What is sorted by a key is what was there before. -/
theorem perm_flatMap_filter {α : Type} (key : α → String) {names : List String} {xs : List α}
    (hnodup : names.Nodup) (h : ∀ x ∈ xs, key x ∈ names) :
    (names.flatMap fun name => xs.filter fun x => key x = name).Perm xs := by
  induction names generalizing xs with
  | nil =>
    cases xs with
    | nil => rfl
    | cons x xs => exact absurd (h x List.mem_cons_self) List.not_mem_nil
  | cons name names ih =>
    obtain ⟨hnew, hnodup⟩ := List.nodup_cons.mp hnodup
    have hothers : ∀ n ∈ names, (xs.filter fun x => key x = n) =
        (xs.filter fun x => !decide (key x = name)).filter fun x => key x = n := by
      intro n hn
      rw [List.filter_filter]
      refine List.filter_congr fun x _ => ?_
      by_cases hx : key x = n
      · have hne : n ≠ name := fun heq => hnew (heq ▸ hn)
        simp [hx, hne]
      · simp [hx]
    have hrest : ∀ x ∈ xs.filter (fun x => !decide (key x = name)), key x ∈ names := by
      intro x hx
      obtain ⟨hx, hne⟩ := List.mem_filter.mp hx
      exact (List.mem_cons.mp (h x hx)).resolve_left (by simpa using hne)
    have hperm := (ih hnodup hrest).append_left (xs.filter fun x => key x = name)
    rw [List.flatMap_cons, List.flatMap_congr hothers]
    exact hperm.trans (List.filter_append_perm _ xs)

theorem namespaceName_mem {ks : List Controller} {x : Controller × Request}
    (hx : x ∈ requestsOf ks) : namespaceName x.1.name ∈ namespaceNames ks := by
  obtain ⟨k, hk, hx⟩ := List.mem_flatMap.mp hx
  obtain ⟨r, -, rfl⟩ := List.mem_map.mp hx
  exact mem_namespaceNames.mpr ⟨k, hk, rfl⟩

/-- **Each request has one function.** -/
theorem perm_rendered (ks : List Controller) : (rendered ks).Perm (requestsOf ks) := by
  have hnodup := (firsts_namespaceNames ks).nodup
  have hperm := perm_flatMap_filter (fun x : Controller × Request => namespaceName x.1.name) hnodup
    fun _ => namespaceName_mem
  exact hperm

theorem requests_eq (ks : List Controller) :
    ks.flatMap (·.requests) = (requestsOf ks).map Prod.snd := by
  simp [requestsOf, List.map_flatMap, List.map_map]

/-- A namespace with the functions of requests. -/
def namespaceBlock (s : ClientSettings) (name : String) (xs : List (Controller × Request)) :
    List Line :=
  nested ("export namespace " ++ name ++ " \x7b")
    (spaced (xs.map fun x => functionLines s (callTarget s) x.2)) "\x7d"

theorem functionText_eq (s : ClientSettings) (ks : List Controller) :
    functionText s ks = render s.format.indent (spaced ((namespaceNames ks).map fun name =>
      namespaceBlock s name (renderedIn ks name))) := by
  unfold functionText namespaces
  rw [groupByNamespace_eq, List.map_map]
  congr 2
  refine List.map_congr_left fun name _ => ?_
  rw [Function.comp_apply, namespaceLines, requests_eq, ← renderedIn_eq, List.map_map]
  rfl

/-- A text has the given namespaces, one behind the other, and in each, one level deeper, the
functions of all requests of its controllers in order, each exported once. An empty line stands
between two namespaces and between two functions. -/
def WritesNamespaces (s : ClientSettings) (ks : List Controller) (names : List String)
    (text : String) : Prop :=
  ∃ written : Request → List Line,
    (∀ r, WritesFunction s r (written r) ∧ exports (written r) = [functionHead s r]) ∧
    text = "\n".intercalate (names.map fun name =>
      "export namespace " ++ name ++ " \x7b\n" ++
        "\n".intercalate (((requestsOf ks).filter fun x => namespaceName x.1.name = name).map
          fun x => laid s.format.indent 1 (written x.2)) ++ "\x7d\n")

/-- **The namespaces of a client.** -/
theorem writes_functionText (s : ClientSettings) (ks : List Controller) :
    WritesNamespaces s ks (namespaceNames ks) (functionText s ks) := by
  refine ⟨functionLines s (callTarget s), fun r => ?_, ?_⟩
  · have h := writes_functionLines s r
    exact ⟨h, h.exports_eq⟩
  · have hblock : ∀ name xs, laid s.format.indent 0 (namespaceBlock s name xs) =
        "export namespace " ++ name ++ " \x7b\n" ++ "\n".intercalate (xs.map fun x =>
          laid s.format.indent 1 (functionLines s (callTarget s) x.2)) ++ "\x7d\n" := by
      intro name xs
      have hopening : "export namespace " ++ name ++ " \x7b" ≠ "" := by simp
      rw [← render_eq_laid, namespaceBlock, render_nested_spaced _ hopening (by decide),
        List.map_map]
      simp only [String.append_assoc]
      rfl
    rw [functionText_eq, render_eq_laid, laid_spaced, List.map_map]
    refine congrArg _ (List.map_congr_left fun name _ => ?_)
    exact hblock name _

/-- **Namespaces lose and repeat nothing.** A client has one namespace for each identifier that the
names of its controllers come down to, in the order in which they first come up. In it stand the
functions of all requests of the controllers whose names come down to it, in order, so that each
request has one function. A name comes down to its characters in upper case, with `_` for those that
no identifier has and in front of a digit or of nothing; these are identifiers without small letters
that come down to themselves. -/
theorem functionText_namespaces (s : ClientSettings) (ks : List Controller) :
    ∃ names : List String,
      (names.Nodup ∧ Firsts names (ks.map fun k => namespaceName k.name)) ∧
      WritesNamespaces s ks names (functionText s ks) ∧
      (names.flatMap fun name =>
        (requestsOf ks).filter fun x => namespaceName x.1.name = name).Perm (requestsOf ks) ∧
      ∀ text, (namespaceName text).toList =
          (if text.toList.head?.all Char.isDigit then ['_'] else []) ++ text.toList.map (fun c =>
            if c.isAlphanum || c == '_' || c == '$' then c.toUpper else '_') ∧
        IsNamespace (namespaceName text) ∧
        namespaceName (namespaceName text) = namespaceName text := by
  have hfirsts := firsts_namespaceNames ks
  refine ⟨namespaceNames ks, ⟨hfirsts.nodup, hfirsts⟩, writes_functionText s ks, perm_rendered ks,
    fun text => ?_⟩
  have hname := isNamespace_namespaceName text
  exact ⟨toList_namespaceName text, hname, namespaceName_of_isNamespace hname⟩

end ApiSurface.Client
