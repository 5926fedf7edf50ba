import ApiSurface.Proofs.Json.Parts
import ApiSurface.Proofs.Source.Argument
import ApiSurface.Proofs.Source.TypeCodec
import Mathlib.Data.List.Nodup

/-!
# Decorator arguments as JSON

An expression is written as an object with a string under `$expression`. An object argument that
holds such a string has no written form of its own: what is written for it is read as an expression.
The reader gives such an argument only where the member `$expression` is repeated.

* `Argument.Part`: one argument stands somewhere in another, or is that argument;
* `Argument.HidesExpression`: an object with a string under `$expression` stands in the argument;
* `ordered_of_readArgument`: what is read holds its fields in the order of their names;
* **`ofJson?_toJson_iff`**: what was read is read again from its written form if it hides no
  expression, and only then;
* **`not_hidesExpression`**: an argument hides no expression if the member is never repeated.
-/

namespace ApiSurface

open ApiSurface.Json ApiSurface.Dict

namespace Argument

/-- An argument stands somewhere in another, or is that argument. -/
inductive Part : Argument → Argument → Prop
  | self (a : Argument) : Part a a
  | item {b a : Argument} {items : List Argument} (ha : a ∈ items) (hb : Part b a) :
      Part b (.list items)
  | field {b a : Argument} {k : String} {fields : List (String × Argument)} (ha : (k, a) ∈ fields)
      (hb : Part b a) : Part b (.object fields)

/-- Every object in the argument has its fields in the order of their names. -/
def Ordered (a : Argument) : Prop := ∀ fields, Part (.object fields) a → Sorted fields

/-- An object with a string under `$expression` stands in the argument. -/
def HidesExpression (a : Argument) : Prop :=
  ∃ fields s, Part (.object fields) a ∧ ("$expression", .string s) ∈ fields

/-! ## Arguments and their items and fields -/

section Items

variable {items : List Argument} {fields : List (String × Argument)}

theorem ordered_list_iff : (list items).Ordered ↔ ∀ a ∈ items, a.Ordered := by
  constructor
  · exact fun h a ha fs hfs => h fs (.item ha hfs)
  · rintro h fs (_ | ⟨ha, hfs⟩)
    exact h _ ha fs hfs

theorem ordered_object_iff :
    (object fields).Ordered ↔ Sorted fields ∧ ∀ f ∈ fields, f.2.Ordered := by
  constructor
  · exact fun h => ⟨h fields (.self _), fun f hf fs hfs => h fs (.field hf hfs)⟩
  · rintro ⟨hsorted, h⟩ fs (_ | _ | ⟨ha, hfs⟩)
    · exact hsorted
    · exact h _ ha fs hfs

theorem hidesExpression_list_iff :
    (list items).HidesExpression ↔ ∃ a ∈ items, a.HidesExpression := by
  constructor
  · rintro ⟨fs, s, _ | ⟨ha, hfs⟩, hs⟩
    exact ⟨_, ha, fs, s, hfs, hs⟩
  · rintro ⟨a, ha, fs, s, hfs, hs⟩
    exact ⟨fs, s, .item ha hfs, hs⟩

theorem hidesExpression_object_iff :
    (object fields).HidesExpression ↔
      (∃ s, ("$expression", .string s) ∈ fields) ∨ ∃ f ∈ fields, f.2.HidesExpression := by
  constructor
  · rintro ⟨fs, s, _ | _ | ⟨ha, hfs⟩, hs⟩
    · exact Or.inl ⟨s, hs⟩
    · exact Or.inr ⟨_, ha, fs, s, hfs, hs⟩
  · rintro (⟨s, hs⟩ | ⟨f, hf, fs, s, hfs, hs⟩)
    · exact ⟨fields, s, .self _, hs⟩
    · exact ⟨fs, s, .field hf hfs, hs⟩

theorem argumentsToJson_eq (items : List Argument) :
    argumentsToJson items = items.map toJson := by
  induction items with
  | nil => rfl
  | cons a items ih => rw [argumentsToJson, ih, List.map_cons]

theorem fieldsToJson_eq (fields : List (String × Argument)) :
    fieldsToJson fields = fields.map fun f => (f.1, f.2.toJson) := by
  induction fields with
  | nil => rfl
  | cons f fields ih => rw [fieldsToJson, ih, List.map_cons]

theorem fit_toJson (a : Argument) : a.toJson.fit = true := by
  induction a with
  | list items ih => simpa [toJson, fit, argumentsToJson_eq, fitItems_iff] using ih
  | object fields ih =>
    rw [toJson, fit, fieldsToJson_eq, fitMembers_iff, List.forall_mem_map]
    exact ih
  | expression source => simp [toJson, fit, fitMembers]
  | _ => rfl

end Items

/-! ## Reading -/

/-- Read one field of an object argument. -/
def readField (m : String × Json) : Option (String × Argument) :=
  (readArgument m.2).map fun a => (m.1, a)

theorem readArguments_eq (vs : List Json) : readArguments vs = vs.mapM readArgument := by
  induction vs with
  | nil => rfl
  | cons v vs ih =>
    rw [readArguments, ih, List.mapM_cons]

theorem readFields_eq (done : List (String × Argument)) (ms : List (String × Json)) :
    readFields done ms =
      (ms.mapM readField).map fun fs => fs.foldl (fun d f => Dict.insert f.1 f.2 d) done := by
  induction ms generalizing done with
  | nil => rfl
  | cons m ms ih =>
    obtain ⟨k, v⟩ := m
    rw [readFields, List.mapM_cons, readField]
    cases readArgument v with
    | none => rfl
    | some a =>
      have hms := ih (Dict.insert k a done)
      cases h : ms.mapM readField <;> simp_all

theorem readArgument_eq_string {v : Json} {s : String} (h : readArgument v = some (.string s)) :
    v = .text s := by
  cases v with
  | text t =>
    cases h
    rfl
  | list vs =>
    obtain ⟨as, -, has⟩ := Option.map_eq_some_iff.mp h
    cases has
  | object ms =>
    rw [readArgument] at h
    split at h
    · cases h
    · obtain ⟨fs, -, hfs⟩ := Option.map_eq_some_iff.mp h
      cases hfs
  | _ => cases h

/-- An object is read as an expression, or as an object whose fields are read from its members. -/
theorem readArgument_object {ms : List (String × Json)} {a : Argument}
    (h : readArgument (.object ms) = some a) : (∃ s, a = .expression s) ∨
      ∃ fields, a = .object fields ∧ expressionOf? ms = none ∧ Sorted fields ∧
        ∀ f ∈ fields, ∃ v, (f.1, v) ∈ ms ∧ readArgument v = some f.2 := by
  rw [readArgument] at h
  split at h
  · cases h
    exact Or.inl ⟨_, rfl⟩
  · next hnone =>
    obtain ⟨fields, hfields, rfl⟩ := Option.map_eq_some_iff.mp h
    rw [readFields_eq] at hfields
    obtain ⟨fs, hfs, rfl⟩ := Option.map_eq_some_iff.mp hfields
    refine Or.inr ⟨_, rfl, hnone, sorted_nil.foldl_insert fs, fun f hf => ?_⟩
    have hmem : f ∈ fs := (mem_foldl_insert hf).resolve_left List.not_mem_nil
    obtain ⟨m, hm, hread⟩ := exists_of_mem_mapM hfs hmem
    obtain ⟨b, hb, rfl⟩ := Option.map_eq_some_iff.mp hread
    exact ⟨m.2, hm, hb⟩

theorem ordered_of_readArgument {v : Json} {a : Argument} (h : readArgument v = some a) :
    a.Ordered := by
  induction v generalizing a with
  | list vs ih =>
    obtain ⟨items, hitems, rfl⟩ := Option.map_eq_some_iff.mp h
    rw [readArguments_eq] at hitems
    refine ordered_list_iff.mpr fun b hb => ?_
    obtain ⟨w, hw, hread⟩ := exists_of_mem_mapM hitems hb
    exact ih w hw hread
  | object ms ih =>
    rcases readArgument_object h with ⟨s, rfl⟩ | ⟨fields, rfl, -, hsorted, hfields⟩
    · rintro fs ⟨⟩
    · refine ordered_object_iff.mpr ⟨hsorted, fun f hf => ?_⟩
      obtain ⟨w, hw, hread⟩ := hfields f hf
      exact ih _ hw hread
  | null | unfit => cases h
  | bool | number | text =>
    cases h
    rintro fs ⟨⟩

/-! ## Expressions -/

theorem lookup_of_occurrences {k : String} {v : Json} {ms : List (String × Json)}
    (hone : occurrences k ms ≤ 1) (hv : (k, v) ∈ ms) : ms.lookup k = some v := by
  induction ms with
  | nil => exact absurd hv List.not_mem_nil
  | cons m ms ih =>
    obtain ⟨l, w⟩ := m
    rw [occurrences_cons] at hone
    rw [lookup_member]
    by_cases hk : k = l
    · subst hk
      have hnone : occurrences k ms = 0 := by
        rw [if_pos rfl] at hone
        omega
      rw [if_pos rfl]
      rcases List.mem_cons.mp hv with hv | hv
      · cases hv
        rfl
      · have hmem : (k, v) ∈ ms.filter fun m => m.1 = k := List.mem_filter.mpr ⟨hv, by simp⟩
        exact absurd hmem (by rw [List.length_eq_zero_iff.mp hnone]; exact List.not_mem_nil)
    · rw [if_neg hk]
      rcases List.mem_cons.mp hv with hv | hv
      · exact absurd (congrArg Prod.fst hv) hk
      · exact ih (by omega) hv

theorem expressionOf?_eq_some_iff {fields : List (String × Argument)} (h : Sorted fields)
    {s : String} :
    expressionOf? (fieldsToJson fields) = some s ↔ ("$expression", .string s) ∈ fields := by
  have hone : occurrences "$expression" (fieldsToJson fields) ≤ 1 := by
    refine occurrences_le_one ?_ _
    rw [fieldsToJson_eq, List.map_map]
    exact (sorted_iff_keys.mp h).imp ne_of_lt
  have hlookup : expressionOf? (fieldsToJson fields) =
      ((fieldsToJson fields).lookup "$expression").bind text? := by
    simp [expressionOf?, hone]
  rw [hlookup, Option.bind_eq_some_iff]
  constructor
  · rintro ⟨v, hv, htext⟩
    have hmem := mem_of_get? hv
    rw [fieldsToJson_eq] at hmem
    obtain ⟨f, hf, hfv⟩ := List.mem_map.mp hmem
    obtain ⟨k, a⟩ := f
    cases hfv
    cases a <;> cases htext
    exact hf
  · intro hs
    refine ⟨.text s, lookup_of_occurrences hone ?_, rfl⟩
    rw [fieldsToJson_eq]
    exact List.mem_map_of_mem hs

theorem readFields_fieldsToJson_iff {fields : List (String × Argument)} (h : Sorted fields) :
    readFields [] (fieldsToJson fields) = some fields ↔
      ∀ f ∈ fields, readArgument f.2.toJson = some f.2 := by
  have hfield : ∀ f : String × Argument,
      readField (f.1, f.2.toJson) = some f ↔ readArgument f.2.toJson = some f.2 := by
    intro f
    rw [readField]
    cases readArgument f.2.toJson <;> simp [Prod.ext_iff]
  have hall : (fieldsToJson fields).mapM readField = some fields ↔
      ∀ f ∈ fields, readArgument f.2.toJson = some f.2 := by
    rw [fieldsToJson_eq, mapM_map_eq_some_iff]
    exact forall₂_congr fun f _ => hfield f
  rw [readFields_eq, ← hall]
  constructor
  · intro hread
    obtain ⟨fs, hfs, hinsert⟩ := Option.map_eq_some_iff.mp hread
    have hname : ∀ m f, readField m = some f → f.1 = m.1 := by
      intro m f hf
      obtain ⟨a, -, rfl⟩ := Option.map_eq_some_iff.mp hf
      rfl
    have hkeys : fs.map (·.1) = fields.map (·.1) := by
      rw [map_eq_of_mapM (·.1) (·.1) hname hfs, fieldsToJson_eq, List.map_map]
      rfl
    have hsorted : Sorted ([] ++ fs) := by
      rw [List.nil_append, sorted_iff_keys, keys, hkeys]
      exact sorted_iff_keys.mp h
    rw [foldl_insert hsorted] at hinsert
    exact hinsert ▸ hfs
  · intro hread
    have hsorted : Sorted ([] ++ fields) := h
    rw [hread, Option.map_some, foldl_insert hsorted, List.nil_append]

/-! ## Reading what was written -/

theorem readArgument_toJson_iff {a : Argument} (h : a.Ordered) :
    readArgument a.toJson = some a ↔ ¬ a.HidesExpression := by
  induction a with
  | list items ih =>
    have hread : readArgument (list items).toJson =
        (readArguments (argumentsToJson items)).map list := rfl
    rw [hread, readArguments_eq, argumentsToJson_eq, hidesExpression_list_iff]
    have hitems : (items.map toJson).mapM readArgument = some items ↔
        ∀ a ∈ items, ¬ a.HidesExpression := by
      rw [mapM_map_eq_some_iff]
      exact forall₂_congr fun a ha => ih a ha (ordered_list_iff.mp h a ha)
    simpa using hitems
  | object fields ih =>
    obtain ⟨hsorted, hfields⟩ := ordered_object_iff.mp h
    have hbelow : readFields [] (fieldsToJson fields) = some fields ↔
        ∀ f ∈ fields, ¬ f.2.HidesExpression := by
      rw [readFields_fieldsToJson_iff hsorted]
      exact forall₂_congr fun f hf => ih f hf (hfields f hf)
    rw [hidesExpression_object_iff, toJson, readArgument]
    cases hexpr : expressionOf? (fieldsToJson fields) with
    | some s =>
      have hs := (expressionOf?_eq_some_iff hsorted).mp hexpr
      exact iff_of_false (by simp) fun hnot => hnot (Or.inl ⟨s, hs⟩)
    | none =>
      have hno : ¬ ∃ s, ("$expression", .string s) ∈ fields := by
        rintro ⟨s, hs⟩
        rw [(expressionOf?_eq_some_iff hsorted).mpr hs] at hexpr
        cases hexpr
      simpa [hno] using hbelow
  | _ =>
    refine iff_of_true rfl ?_
    rintro ⟨fs, s, ⟨⟩, -⟩

theorem readArgument_of_ofJson? {v : Json} {a : Argument} (h : Argument.ofJson? v = some a) :
    readArgument v = some a := by
  rw [Argument.ofJson?] at h
  split at h
  · exact h
  · cases h

/-- **What was read is read again from its written form unless it hides an expression.** -/
theorem ofJson?_toJson_iff {v : Json} {a : Argument} (h : Argument.ofJson? v = some a) :
    Argument.ofJson? a.toJson = some a ↔ ¬ a.HidesExpression := by
  rw [Argument.ofJson?, if_pos a.fit_toJson,
    readArgument_toJson_iff (ordered_of_readArgument (readArgument_of_ofJson? h))]

/-- **Without a repeated member `$expression`, no argument hides an expression.** -/
theorem not_hidesExpression {v : Json} {a : Argument}
    (hone : ∀ ms, Json.Part (.object ms) v → occurrences "$expression" ms ≤ 1)
    (h : Argument.ofJson? v = some a) : ¬ a.HidesExpression := by
  replace h := readArgument_of_ofJson? h
  induction v generalizing a with
  | list vs ih =>
    obtain ⟨items, hitems, rfl⟩ := Option.map_eq_some_iff.mp h
    rw [readArguments_eq] at hitems
    rw [hidesExpression_list_iff]
    rintro ⟨b, hb, hhides⟩
    obtain ⟨w, hw, hread⟩ := exists_of_mem_mapM hitems hb
    exact ih w hw (fun ms hms => hone ms (.item hw hms)) hread hhides
  | object ms ih =>
    rcases readArgument_object h with ⟨s, rfl⟩ | ⟨fields, rfl, hnone, -, hfields⟩
    · rintro ⟨fs, s, ⟨⟩, -⟩
    · have hocc := hone ms (.self _)
      rw [hidesExpression_object_iff]
      rintro (⟨s, hs⟩ | ⟨f, hf, hhides⟩)
      · obtain ⟨w, hw, hread⟩ := hfields _ hs
        cases readArgument_eq_string hread
        have hexpr : expressionOf? ms = some s := by
          simp [expressionOf?, hocc, lookup_of_occurrences hocc hw]
        rw [hexpr] at hnone
        cases hnone
      · obtain ⟨w, hw, hread⟩ := hfields f hf
        exact ih _ hw (fun ns hns => hone ns (.member hw hns)) hread hhides
  | null | unfit => cases h
  | bool | number | text =>
    cases h
    rintro ⟨fs, s, ⟨⟩, -⟩

end Argument
end ApiSurface
