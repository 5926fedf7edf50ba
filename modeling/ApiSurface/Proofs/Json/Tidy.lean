import ApiSurface.Proofs.Json.Parts

/-!
# Tidy JSON values

* `TidyMembers`: no name twice, and required names are those of properties;
* `Tidy`: so are the members of all objects in a value;
* `tidy_object_iff`, `tidy_list_iff`: tidy values are made of tidy parts.
-/

namespace ApiSurface.Json

/-- No name occurs twice among the members, and required names are different and have properties
beside them. -/
structure TidyMembers (ms : List (String × Json)) : Prop where
  distinct : (ms.map (·.1)).Nodup
  required : ∀ items, ("required", .list items) ∈ ms → ∃ names : List String,
    items = names.map .text ∧ names.Nodup ∧
      ∃ ps, ("properties", .object ps) ∈ ms ∧ ∀ n ∈ names, n ∈ ps.map (·.1)

/-- The members of every object in a value are tidy. -/
def Tidy (v : Json) : Prop := ∀ ms, Part (.object ms) v → TidyMembers ms

@[simp] theorem tidy_text (s : String) : Tidy (.text s) := nofun

@[simp] theorem tidy_bool (b : Bool) : Tidy (.bool b) := nofun

@[simp] theorem tidy_number (n : Number) : Tidy (.number n) := nofun

@[simp] theorem tidy_list_iff {vs : List Json} : Tidy (.list vs) ↔ ∀ v ∈ vs, Tidy v := by
  constructor
  · exact fun h v hv ms hms => h ms (.item hv hms)
  · intro h ms hms
    cases hms with
    | item hv hms => exact h _ hv ms hms

theorem tidy_object_iff {ms : List (String × Json)} :
    Tidy (.object ms) ↔ TidyMembers ms ∧ ∀ m ∈ ms, Tidy m.2 := by
  constructor
  · exact fun h => ⟨h ms (.self _), fun m hm ns hns => h ns (.member hm hns)⟩
  · rintro ⟨hself, hmembers⟩ ns hns
    cases hns with
    | self => exact hself
    | member hm hns => exact hmembers _ hm ns hns

/-- Without a list of required names only the names of the members matter. -/
theorem tidy_object_iff_of_not_required {ms : List (String × Json)}
    (h : ∀ items, ("required", .list items) ∉ ms) :
    Tidy (.object ms) ↔ (ms.map (·.1)).Nodup ∧ ∀ m ∈ ms, Tidy m.2 := by
  rw [tidy_object_iff]
  exact and_congr_left fun _ => ⟨(·.distinct), fun hd => ⟨hd, fun items hi => absurd hi (h items)⟩⟩

/-- Objects by name are tidy if the names are different and the objects tidy. -/
theorem tidy_object_map_iff {α : Type} {as : List α} {name : α → String}
    {members : α → List (String × Json)} :
    Tidy (.object (as.map fun a => (name a, .object (members a)))) ↔
      (as.map name).Nodup ∧ ∀ a ∈ as, Tidy (.object (members a)) := by
  rw [tidy_object_iff_of_not_required (by simp), List.map_map]
  exact and_congr_right fun _ => by simp only [List.forall_mem_map]

theorem mem_memberIf {name : String} {value : Option Json} {m : String × Json} :
    m ∈ memberIf name value ↔ ∃ v, value = some v ∧ m = (name, v) := by
  cases value <;> simp [memberIf]

end ApiSurface.Json
