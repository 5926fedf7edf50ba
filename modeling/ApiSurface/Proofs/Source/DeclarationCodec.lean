import ApiSurface.Proofs.Reading
import ApiSurface.Proofs.Source.TypeCodec

/-!
# Declarations as JSON

* `Declaration.fitMembers_toMembers`: nothing in a written declaration is unfit;
* **`Declaration.ofJson?_toJson`**: a written declaration is read as itself.
-/

namespace ApiSurface

open ApiSurface.Json ApiSurface.Dict

/-! ## Members that are written only when there is something to say -/

theorem fitMembers_append (ms ns : List (String × Json)) :
    fitMembers (ms ++ ns) = (fitMembers ms && fitMembers ns) := by
  induction ms with
  | nil => rfl
  | cons m ms ih => rw [List.cons_append, fitMembers, fitMembers, ih, Bool.and_assoc]

theorem fitMembers_docsMember (docs : Option String) : fitMembers (docsMember docs) = true := by
  cases docs <;> rfl

theorem fitMembers_textsIfAny (name : String) (values : List String) :
    fitMembers (textsIfAny name values) = true := by
  have htexts : fitItems (values.map text) = true := by simp [fitItems_iff, fit]
  unfold textsIfAny
  split <;> simp [fitMembers, fit, htexts]

theorem occurrences_append (k : String) (ms ns : List (String × Json)) :
    occurrences k (ms ++ ns) = occurrences k ms + occurrences k ns := by
  simp [occurrences]

theorem occurrences_textsIfAny {k name : String} (h : name ≠ k) (values : List String) :
    occurrences k (textsIfAny name values) = 0 := by
  cases values <;> simp [textsIfAny, h]

theorem lookup_of_occurrences_eq_zero {k : String} {ms : List (String × Json)}
    (h : occurrences k ms = 0) : ms.lookup k = none := by
  induction ms with
  | nil => rfl
  | cons m ms ih =>
    obtain ⟨l, v⟩ := m
    rw [occurrences_cons] at h
    have hkl : k ≠ l := by
      rintro rfl
      simp at h
    rw [lookup_member, if_neg hkl]
    exact ih (by omega)

theorem textsOrNone_list (values : List String) :
    textsOrNone (some (list (values.map text))) = some values :=
  mapM_map_eq_some_iff.mpr fun _ _ => rfl

/-! ## Bodies -/

theorem EnumMember.ofJson?_toJson (m : EnumMember) : EnumMember.ofJson? m.toJson = some m := by
  simp [toJson, ofJson?, slots, lookup_member, Literal.ofJson?_toJson]

theorem EnumMember.fit_toJson (m : EnumMember) : m.toJson.fit = true := by
  simp [toJson, fit, fitMembers, Literal.fit_toJson]

theorem ObjectShape.fitMembers_toMembers (s : ObjectShape) : fitMembers s.toMembers = true := by
  have hproperties : fitItems (propertiesToJson s.properties) = true :=
    TypeExpr.fitItems_propertiesToJson fun p _ => p.type.fit_toJson
  simp [toMembers, fitMembers, fitMembers_append, fitMembers_textsIfAny, fit, hproperties]

theorem DeclarationBody.fitMembers_toMembers (b : DeclarationBody) :
    fitMembers b.toMembers = true := by
  cases b with
  | enumeration members =>
    have hmembers : fitItems (members.map EnumMember.toJson) = true := by
      simp [fitItems_iff, EnumMember.fit_toJson]
    simp [toMembers, fitMembers, fit, hmembers]
  | interface shape => exact shape.fitMembers_toMembers
  | classType shape => exact shape.fitMembers_toMembers
  | «alias» target typeParameters =>
    simp [toMembers, fitMembers, fitMembers_textsIfAny, target.fit_toJson]

/-! ## Declarations -/

namespace Declaration

/-- The members of a written declaration that stand in front of those of its body. -/
def headMembers (d : Declaration) : List (String × Json) :=
  ("name", .text d.name) :: docsMember d.docs ++
    [("exported", .bool d.exported), ("kind", .text d.kindName)]

theorem toJson_eq (d : Declaration) : d.toJson = .object (d.headMembers ++ d.body.toMembers) := rfl

theorem fitMembers_toMembers (d : Declaration) :
    fitMembers (d.headMembers ++ d.body.toMembers) = true := by
  have hdocs := fitMembers_docsMember d.docs
  simp [headMembers, fitMembers, fitMembers_append, fit, hdocs, d.body.fitMembers_toMembers]

/-- The body has no members of the names that the head uses. -/
theorem occurrences_toMembers (d : Declaration) :
    ∀ k ∈ ["name", "docs", "exported", "kind"], occurrences k d.body.toMembers = 0 := by
  cases d.body <;>
    simp [DeclarationBody.toMembers, ObjectShape.toMembers, occurrences_append,
      occurrences_textsIfAny]

theorem ofMembers?_shape (d : Declaration) (s : ObjectShape) :
    ObjectShape.ofMembers? (d.headMembers ++ s.toMembers) = some s := by
  obtain ⟨properties, supertypes, typeParameters⟩ := s
  have hproperties : readProperties (propertiesToJson properties) = some properties :=
    TypeExpr.readProperties_propertiesToJson fun p _ => p.type.readType_toJson true
  have hsupertypes := textsOrNone_list supertypes
  have hparameters := textsOrNone_list typeParameters
  have hnone : textsOrNone none = some [] := rfl
  unfold headMembers
  cases d.docs <;> cases supertypes <;> cases typeParameters <;>
    simp_all [ObjectShape.ofMembers?, ObjectShape.toMembers, textsIfAny, lookup_member,
      readPropertiesAt]

theorem lookup_kind (d : Declaration) (ms : List (String × Json)) :
    (d.headMembers ++ ms).lookup "kind" = some (.text d.kindName) := by
  unfold headMembers
  cases d.docs <;> simp [lookup_member]

theorem ofMembers?_body (d : Declaration) :
    DeclarationBody.ofMembers? (d.headMembers ++ d.body.toMembers) = some d.body := by
  rw [DeclarationBody.ofMembers?, lookup_kind]
  have hshape := d.ofMembers?_shape
  obtain ⟨name, docs, exported, body⟩ := d
  cases body with
  | enumeration members =>
    have hmembers : (members.map EnumMember.toJson).mapM EnumMember.ofJson? = some members :=
      mapM_map_eq_some_iff.mpr fun m _ => m.ofJson?_toJson
    cases docs <;>
      simp [headMembers, DeclarationBody.toMembers, lookup_member, kindName, tag?,
        declarationKinds, hmembers]
  | interface shape | classType shape =>
    simp [DeclarationBody.toMembers, kindName, tag?, declarationKinds, hshape shape]
  | «alias» target typeParameters =>
    have htarget := target.readType_toJson true
    have hparameters := textsOrNone_list typeParameters
    have hnone : textsOrNone none = some [] := rfl
    cases docs <;> cases typeParameters <;>
      simp_all [headMembers, DeclarationBody.toMembers, lookup_member, kindName, tag?,
        declarationKinds, textsIfAny, readTypeAt]

/-- **A written declaration is read as itself.** -/
theorem ofJson?_toJson (d : Declaration) : Declaration.ofJson? d.toJson = some d := by
  have hbody := d.ofMembers?_body
  have hnew := d.occurrences_toMembers
  simp only [List.forall_mem_cons, List.not_mem_nil, false_imp_iff, implies_true, and_true] at hnew
  obtain ⟨hname, hdocs, hexported, hkind⟩ := hnew
  have hone : once ["name", "docs", "exported", "kind"] (d.headMembers ++ d.body.toMembers) =
      true := by
    unfold headMembers
    cases d.docs <;> simp [hname, hdocs, hexported, hkind]
  have hreadDocs : nullable text? ((d.headMembers ++ d.body.toMembers).lookup "docs") =
      some d.docs := by
    have hno := lookup_of_occurrences_eq_zero hdocs
    unfold headMembers
    cases d.docs <;> simp only [docsMember_none, docsMember_some, List.cons_append, List.nil_append,
      lookup_member, hno] <;> rfl
  have hreadName : (d.headMembers ++ d.body.toMembers).lookup "name" = some (.text d.name) := by
    simp [headMembers]
  have hreadExported : (d.headMembers ++ d.body.toMembers).lookup "exported" =
      some (.bool d.exported) := by
    unfold headMembers
    cases d.docs <;> simp [lookup_member]
  rw [toJson_eq, ofJson?]
  simp [hone, d.fitMembers_toMembers, hreadName, hreadDocs, hreadExported, hbody]

end Declaration
end ApiSurface
