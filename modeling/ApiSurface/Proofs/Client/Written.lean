import ApiSurface.Client.Emit
import ApiSurface.Proofs.Client.Layout
import Mathlib.Data.List.Forall2

/-!
# What the lines of a client say

Lines are read here without the functions that write them: which lines stand for a documentation
comment, for the function of a request and for a declaration, and which of them export a name.

* `exports`, `exports_block`: the lines at the margin that export something;
* `carried`: the parameters of a request, from its path, its query and its body;
* `functionHead`, `WritesFunction`: the line that exports the function of a request, and all lines;
* `declarationHead`, `WritesDeclaration`: the same for a declaration;
* **`writes_functionLines`**, **`writes_declarationLines`**: a client writes such lines;
* `importBlock`, `importText_eq`: the lines of imports.
-/

namespace ApiSurface

/-- A declaration is an interface or a class of a shape. -/
def Declaration.HasShape (d : Declaration) (shape : ObjectShape) : Prop :=
  d.body = .interface shape ∨ d.body = .classType shape

namespace Client

open ApiSurface.Text

/-! ## Lines that export -/

/-- A text starts with the word that exports what follows. -/
def Exports (text : String) : Prop := "export ".toList <+: text.toList

instance (text : String) : Decidable (Exports text) :=
  inferInstanceAs (Decidable ("export ".toList <+: text.toList))

/-- The lines at the margin that export something. -/
def exports (ls : List Line) : List String :=
  (ls.filter fun l => l.depth = 0 ∧ Exports l.text).map (·.text)

theorem Exports.append {text : String} (h : Exports text) (rest : String) :
    Exports (text ++ rest) := by
  unfold Exports
  rw [String.toList_append]
  exact h.trans (List.prefix_append _ _)

theorem exports_append (ls ms : List Line) : exports (ls ++ ms) = exports ls ++ exports ms := by
  unfold exports
  rw [List.filter_append, List.map_append]

theorem exports_eq_nil {ls : List Line} (h : ∀ l ∈ ls, l.depth = 0 → ¬ Exports l.text) :
    exports ls = [] := by
  refine List.map_eq_nil_iff.mpr (List.filter_eq_nil_iff.mpr fun l hl => ?_)
  rw [decide_eq_true_iff, not_and]
  exact h l hl

theorem exports_singleton {text : String} (h : Exports text) : exports [⟨0, text⟩] = [text] := by
  simp [exports, h]

/-! ## Comments -/

/-- Lines of a documentation comment at a depth. -/
def CommentLines (depth : ℕ) (ls : List Line) : Prop :=
  ∀ l ∈ ls, l.depth = depth ∧ ("/**".toList <+: l.text.toList ∨ " *".toList <+: l.text.toList)

theorem commentLines_docLines (docs : Option String) : CommentLines 0 (docLines docs) := by
  have hline : ∀ t : String, " *".toList <+: (docLine t).text.toList := by
    intro t
    unfold docLine line
    dsimp only
    split_ifs
    · exact List.prefix_rfl
    · rw [String.toList_append]
      exact .trans (by decide) (List.prefix_append _ _)
  unfold docLines
  split
  · exact fun l hl => absurd hl List.not_mem_nil
  · next text _ =>
    split_ifs
    · intro l hl
      simp only [List.cons_append, List.mem_cons, List.mem_append, List.mem_map,
        List.not_mem_nil, or_false] at hl
      rcases hl with rfl | ⟨t, -, rfl⟩ | rfl
      · exact ⟨rfl, Or.inl List.prefix_rfl⟩
      · exact ⟨rfl, Or.inr (hline t)⟩
      · exact ⟨rfl, Or.inr (by decide)⟩
    · intro l hl
      rw [List.mem_singleton.mp hl]
      refine ⟨rfl, Or.inl ?_⟩
      simp only [line, String.toList_append, List.append_assoc]
      exact .trans (by decide) (List.prefix_append _ _)

theorem CommentLines.deeper {ls : List Line} {depth : ℕ} (h : CommentLines depth ls) :
    CommentLines (depth + 1) (deeper ls) := by
  intro l hl
  obtain ⟨m, hm, rfl⟩ := List.mem_map.mp hl
  exact ⟨congrArg (· + 1) (h m hm).1, (h m hm).2⟩

/-- A comment exports nothing. -/
theorem CommentLines.exports_eq {ls : List Line} {depth : ℕ} (h : CommentLines depth ls) :
    exports ls = [] := by
  refine exports_eq_nil fun l hl _ hexports => ?_
  obtain ⟨r, hr⟩ := hexports
  rcases (h l hl).2 with ⟨r', hr'⟩ | ⟨r', hr'⟩
  · simpa using congrArg List.head? (hr.trans hr'.symm)
  · simpa using congrArg List.head? (hr.trans hr'.symm)

/-- A commented block with nothing but its first line at the margin exports what that line does. -/
theorem exports_block {comment body : List Line} {head : String} (hcomment : CommentLines 0 comment)
    (hhead : Exports head) (hbody : ∀ l ∈ body, l.depth ≠ 0) :
    exports (comment ++ ⟨0, head⟩ :: body ++ [⟨0, "\x7d"⟩]) = [head] := by
  have hlines : comment ++ ⟨0, head⟩ :: body ++ [⟨0, "\x7d"⟩] =
      comment ++ ([⟨0, head⟩] ++ (body ++ [⟨0, "\x7d"⟩])) := by simp
  have hclosing : exports [⟨0, "\x7d"⟩] = [] := by decide
  rw [hlines, exports_append, exports_append, exports_append, hcomment.exports_eq,
    exports_singleton hhead, exports_eq_nil fun l hl hzero => absurd hzero (hbody l hl), hclosing]
  rfl

/-! ## Functions -/

/-- The parameters that a payload takes. -/
def suppliers : Option Payload → List BoundParameter
  | none => []
  | some (.whole p) => [p]
  | some (.fields bs) => bs.map (·.parameter)

/-- The parameters of a request, from its path, its query and its body. -/
def carried (r : Request) : List BoundParameter :=
  r.params.map (·.parameter) ++ suppliers r.query ++ suppliers r.data

theorem parameters_eq_carried (r : Request) : r.parameters = carried r := by
  have hpayload : ∀ p, payloadParameters p = suppliers p := by
    intro p
    match p with
    | none => rfl
    | some (.whole _) => rfl
    | some (.fields _) => rfl
  rw [Request.parameters, hpayload, hpayload]
  rfl

/-- A parameter as a function declares it. -/
def declared (p : BoundParameter) : String :=
  p.name ++ (if p.optional then "?" else "") ++ ": " ++ p.type.text

/-- The function that performs calls, and the type of its options. -/
def callee (s : ClientSettings) : String × String :=
  if s.requestModule.isSome then ("request", "Partial<Parameters<typeof request>[0]>")
  else ("axios.request", "AxiosRequestConfig")

/-- The line that exports the function of a request, with its parameters and its answer. -/
def functionHead (s : ClientSettings) (r : Request) : String :=
  "export function " ++ r.name ++ "(" ++
    ", ".intercalate ((carried r).map declared ++
      (s.overridesParam.map fun o => o ++ "?: " ++ (callee s).2).toList) ++
    "): Promise<" ++ r.returnType.text ++ "> \x7b"

/-- What the lines with the options of a call start with. -/
def optionWords (s : ClientSettings) (r : Request) : List String :=
  ["method: ", "url: "] ++ (if r.query.isSome then ["params: "] else []) ++
    (if r.data.isSome then ["data: "] else []) ++ (s.overridesParam.map fun o => "..." ++ o).toList

/-- A line inside a call for one of its options. -/
def OptionLine (word : String) (l : Line) : Prop :=
  l.depth = 2 ∧ ∃ rest, l.text = word ++ rest ++ ","

/-- Lines are the function of a request: a comment, the line that exports it, and one call. -/
inductive WritesFunction (s : ClientSettings) (r : Request) : List Line → Prop
  | mk {comment options : List Line} (hcomment : CommentLines 0 comment)
    (hoptions : List.Forall₂ OptionLine (optionWords s r) options) :
    WritesFunction s r (comment ++ ⟨0, functionHead s r⟩ ::
      (⟨1, "return " ++ (callee s).1 ++ "(\x7b"⟩ :: options ++ [⟨1, "\x7d);"⟩]) ++ [⟨0, "\x7d"⟩])

theorem exports_functionHead (s : ClientSettings) (r : Request) : Exports (functionHead s r) := by
  have h : Exports "export function " := by decide
  exact (((((h.append _).append _).append _).append _).append _).append _

theorem depth_of_forall₂ {words : List String} {options : List Line}
    (h : List.Forall₂ OptionLine words options) : ∀ l ∈ options, l.depth = 2 := by
  induction h with
  | nil => exact fun l hl => absurd hl List.not_mem_nil
  | cons hl _ ih => exact List.forall_mem_cons.mpr ⟨hl.1, ih⟩

/-- A function is exported once. -/
theorem WritesFunction.exports_eq {s : ClientSettings} {r : Request} {ls : List Line}
    (h : WritesFunction s r ls) : exports ls = [functionHead s r] := by
  cases h with
  | @mk comment options hcomment hoptions =>
    refine exports_block hcomment (exports_functionHead s r) fun l hl => ?_
    simp only [List.cons_append, List.mem_cons, List.mem_append, List.not_mem_nil, or_false] at hl
    rcases hl with rfl | hl | rfl
    · exact Nat.one_ne_zero
    · rw [depth_of_forall₂ hoptions l hl]
      decide
    · exact Nat.one_ne_zero

theorem callee_eq (s : ClientSettings) :
    callee s = ((callTarget s).callee, (callTarget s).overridesType) := by
  unfold callee callTarget
  cases s.requestModule <;> rfl

theorem signature_eq (s : ClientSettings) (r : Request) : signature s (callTarget s) r =
    ", ".intercalate ((carried r).map declared ++
      (s.overridesParam.map fun o => o ++ "?: " ++ (callee s).2).toList) := by
  rw [signature, parameters_eq_carried, callee_eq]
  rfl

/-- The lines inside a call are those of its options, in order. -/
theorem forall₂_optionLines (s : ClientSettings) (r : Request) :
    List.Forall₂ OptionLine (optionWords s r) (deeper (deeper (optionLines s r))) := by
  have hone : ∀ word rest : String, OptionLine word ⟨2, word ++ rest ++ ","⟩ :=
    fun word rest => ⟨rfl, rest, rfl⟩
  have hpayload : ∀ (word : String) (p : Option Payload),
      List.Forall₂ OptionLine (if p.isSome then [word] else []) (deeper (deeper
        (p.map fun p => line (word ++ payloadExpression s.format.quote p ++ ",")).toList)) := by
    intro word p
    cases p with
    | none => exact .nil
    | some p => exact .cons (hone word _) .nil
  have hoverrides : List.Forall₂ OptionLine (s.overridesParam.map fun o => "..." ++ o).toList
      (deeper (deeper (s.overridesParam.map fun o => line ("..." ++ o ++ ",")).toList)) := by
    cases s.overridesParam with
    | none => exact .nil
    | some o => exact .cons ⟨rfl, "", by rw [String.append_empty]; rfl⟩ .nil
  have happend : ∀ ls ms : List Line, deeper (ls ++ ms) = deeper ls ++ deeper ms :=
    fun ls ms => List.map_append
  unfold optionWords optionLines
  simp only [happend]
  refine List.rel_append (List.rel_append (List.rel_append ?_ (hpayload _ _)) (hpayload _ _))
    hoverrides
  exact .cons (hone "method: " _) (.cons (hone "url: " _) .nil)

/-- **The lines of a request function.** -/
theorem writes_functionLines (s : ClientSettings) (r : Request) :
    WritesFunction s r (functionLines s (callTarget s) r) := by
  have h := WritesFunction.mk (commentLines_docLines r.docs) (forall₂_optionLines s r)
  have hlines : functionLines s (callTarget s) r = docLines r.docs ++ ⟨0, functionHead s r⟩ ::
      (⟨1, "return " ++ (callee s).1 ++ "(\x7b"⟩ :: deeper (deeper (optionLines s r)) ++
        [⟨1, "\x7d);"⟩]) ++ [⟨0, "\x7d"⟩] := by
    unfold functionLines nested functionHead
    rw [signature_eq, callee_eq]
    simp [deeper, line]
  rwa [hlines]

/-! ## Declarations -/

/-- Type parameters behind a name. -/
def generics (params : List String) : String :=
  if params = [] then "" else "<" ++ ", ".intercalate params ++ ">"

/-- Some member of an enumeration is a truth value. -/
def HoldsTruth (ms : List EnumMember) : Prop :=
  ∃ m ∈ ms, m.value = .boolean true ∨ m.value = .boolean false

instance (ms : List EnumMember) : Decidable (HoldsTruth ms) :=
  inferInstanceAs (Decidable (∃ m ∈ ms, m.value = .boolean true ∨ m.value = .boolean false))

/-- The line that exports a declaration: an interface with its supertypes, an enumeration, or a name
for a type. -/
def declarationHead (d : Declaration) : String :=
  match d.body with
  | .interface shape | .classType shape =>
    "export interface " ++ d.name ++ generics shape.typeParameters ++
      (if shape.supertypes = [] then "" else " extends " ++ ", ".intercalate shape.supertypes) ++
      " \x7b"
  | .enumeration ms =>
    if HoldsTruth ms then
      "export type " ++ d.name ++ " = " ++ " | ".intercalate (ms.map (·.value.text)) ++ ";"
    else "export enum " ++ d.name ++ " \x7b"
  | .alias target params =>
    "export type " ++ d.name ++ generics params ++ " = " ++ target.text ++ ";"

/-- A property in an interface. -/
def describedProperty (q : QuoteStyle) (p : Property) : String :=
  (if isIdentifier p.name then p.name else q.quote p.name) ++ (if p.optional then "?" else "") ++
    ": " ++ p.type.text ++ ";"

/-- A member of an enumeration. -/
def describedMember (q : QuoteStyle) (m : EnumMember) : String :=
  m.name ++ " = " ++ (match m.value with
    | .string s => q.quote s
    | .number n => n.text
    | .boolean b => toString b) ++ ","

/-- Lines inside an interface, one behind the comment of each property. -/
inductive WritesProperties (q : QuoteStyle) : List Property → List Line → Prop
  | nil : WritesProperties q [] []
  | cons {p : Property} {ps : List Property} {comment ls : List Line}
    (hcomment : CommentLines 1 comment) (rest : WritesProperties q ps ls) :
    WritesProperties q (p :: ps) (comment ++ ⟨1, describedProperty q p⟩ :: ls)

/-- Lines are a declaration: a comment, the line that exports it, and for an interface or an
enumeration its members. -/
inductive WritesDeclaration (q : QuoteStyle) (d : Declaration) : List Line → Prop
  | object {shape : ObjectShape} {comment members : List Line} (hshape : d.HasShape shape)
    (hcomment : CommentLines 0 comment) (hmembers : WritesProperties q shape.properties members) :
    WritesDeclaration q d (comment ++ ⟨0, declarationHead d⟩ :: members ++ [⟨0, "\x7d"⟩])
  | enumeration {ms : List EnumMember} {comment : List Line} (hbody : d.body = .enumeration ms)
    (htruth : ¬ HoldsTruth ms) (hcomment : CommentLines 0 comment) :
    WritesDeclaration q d (comment ++ ⟨0, declarationHead d⟩ ::
      ms.map (fun m => ⟨1, describedMember q m⟩) ++ [⟨0, "\x7d"⟩])
  | literals {ms : List EnumMember} {comment : List Line} (hbody : d.body = .enumeration ms)
    (htruth : HoldsTruth ms) (hcomment : CommentLines 0 comment) :
    WritesDeclaration q d (comment ++ [⟨0, declarationHead d⟩])
  | target {target : TypeExpr} {params : List String} {comment : List Line}
    (hbody : d.body = .alias target params) (hcomment : CommentLines 0 comment) :
    WritesDeclaration q d (comment ++ [⟨0, declarationHead d⟩])

theorem exports_declarationHead (d : Declaration) : Exports (declarationHead d) := by
  have hinterface : Exports "export interface " := by decide
  have henum : Exports "export enum " := by decide
  have htype : Exports "export type " := by decide
  unfold declarationHead
  split
  · exact (((hinterface.append _).append _).append _).append _
  · exact (((hinterface.append _).append _).append _).append _
  · split_ifs
    · exact (((htype.append _).append _).append _).append _
    · exact (henum.append _).append _
  · exact ((((htype.append _).append _).append _).append _).append _

theorem depth_of_writesProperties {q : QuoteStyle} {ps : List Property} {ls : List Line}
    (h : WritesProperties q ps ls) : ∀ l ∈ ls, l.depth = 1 := by
  induction h with
  | nil => exact fun l hl => absurd hl List.not_mem_nil
  | cons hcomment _ ih =>
    exact List.forall_mem_append.mpr
      ⟨fun l hl => (hcomment l hl).1, List.forall_mem_cons.mpr ⟨rfl, ih⟩⟩

/-- A declaration is exported once. -/
theorem WritesDeclaration.exports_eq {q : QuoteStyle} {d : Declaration} {ls : List Line}
    (h : WritesDeclaration q d ls) : exports ls = [declarationHead d] := by
  have hhead := exports_declarationHead d
  cases h with
  | object _ hcomment hmembers =>
    refine exports_block hcomment hhead fun l hl => ?_
    rw [depth_of_writesProperties hmembers l hl]
    exact Nat.one_ne_zero
  | enumeration _ _ hcomment =>
    refine exports_block hcomment hhead fun l hl => ?_
    obtain ⟨m, -, rfl⟩ := List.mem_map.mp hl
    exact Nat.one_ne_zero
  | literals _ _ hcomment | target _ hcomment =>
    rw [exports_append, hcomment.exports_eq, exports_singleton hhead]
    rfl

theorem generics_eq (params : List String) : typeParameterText params = generics params := by
  unfold typeParameterText generics
  cases params <;> rfl

theorem writes_properties (q : QuoteStyle) (ps : List Property) :
    WritesProperties q ps (deeper (ps.flatMap (propertyLines q))) := by
  induction ps with
  | nil => exact .nil
  | cons p ps ih =>
    have hlines : deeper ((p :: ps).flatMap (propertyLines q)) = deeper (docLines p.docs) ++
        ⟨1, describedProperty q p⟩ :: deeper (ps.flatMap (propertyLines q)) := by
      simp [deeper, propertyLines, line, describedProperty, propertyKey, optionalMark]
    rw [hlines]
    exact .cons (commentLines_docLines p.docs).deeper ih

theorem any_isTruthValue_iff (ms : List EnumMember) :
    (ms.any fun m => isTruthValue m.value) = true ↔ HoldsTruth ms := by
  have hone : ∀ v : Literal, isTruthValue v = true ↔ v = .boolean true ∨ v = .boolean false := by
    intro v
    cases v with
    | boolean b => cases b <;> simp [isTruthValue]
    | string s => simp [isTruthValue]
    | number n => simp [isTruthValue]
  simp only [List.any_eq_true, hone]
  rfl

theorem interfaceLines_eq (q : QuoteStyle) {d : Declaration} {shape : ObjectShape}
    (h : d.HasShape shape) : interfaceLines q d.name shape =
      ⟨0, declarationHead d⟩ :: deeper (shape.properties.flatMap (propertyLines q)) ++
        [⟨0, "\x7d"⟩] := by
  have hsupertypes : extendsText shape.supertypes =
      if shape.supertypes = [] then "" else " extends " ++ ", ".intercalate shape.supertypes := by
    unfold extendsText
    cases shape.supertypes <;> rfl
  have hhead : declarationHead d = "export interface " ++ d.name ++
      typeParameterText shape.typeParameters ++ extendsText shape.supertypes ++ " \x7b" := by
    rw [generics_eq, hsupertypes, declarationHead]
    rcases h with h | h <;> rw [h]
  rw [hhead]
  rfl

theorem enumLines_of_holdsTruth (q : QuoteStyle) {d : Declaration} {ms : List EnumMember}
    (hbody : d.body = .enumeration ms) (h : HoldsTruth ms) :
    enumLines q d.name ms = [⟨0, declarationHead d⟩] := by
  rw [enumLines, if_pos ((any_isTruthValue_iff ms).mpr h), declarationHead, hbody]
  dsimp only
  rw [if_pos h]
  rfl

theorem enumLines_of_not_holdsTruth (q : QuoteStyle) {d : Declaration} {ms : List EnumMember}
    (hbody : d.body = .enumeration ms) (h : ¬ HoldsTruth ms) :
    enumLines q d.name ms = ⟨0, declarationHead d⟩ ::
      ms.map (fun m => ⟨1, describedMember q m⟩) ++ [⟨0, "\x7d"⟩] := by
  have hmember : ∀ m : EnumMember,
      m.name ++ " = " ++ enumValue q m.value ++ "," = describedMember q m := by
    intro m
    unfold describedMember enumValue
    cases m.value with
    | boolean b => cases b <;> rfl
    | string s => rfl
    | number n => rfl
  rw [enumLines, if_neg (mt (any_isTruthValue_iff ms).mp h), declarationHead, hbody]
  dsimp only
  rw [if_neg h]
  simp [nested, deeper, line, hmember]

/-- **The lines of a declaration.** -/
theorem writes_declarationLines (q : QuoteStyle) (d : Declaration) :
    WritesDeclaration q d (declarationLines q d) := by
  have hcomment := commentLines_docLines d.docs
  unfold declarationLines bodyLines
  split
  · next shape hbody =>
    rw [interfaceLines_eq q (Or.inl hbody), ← List.append_assoc]
    exact .object (Or.inl hbody) hcomment (writes_properties q shape.properties)
  · next shape hbody =>
    rw [interfaceLines_eq q (Or.inr hbody), ← List.append_assoc]
    exact .object (Or.inr hbody) hcomment (writes_properties q shape.properties)
  · next ms hbody =>
    by_cases h : HoldsTruth ms
    · rw [enumLines_of_holdsTruth q hbody h]
      exact .literals hbody h hcomment
    · rw [enumLines_of_not_holdsTruth q hbody h, ← List.append_assoc]
      exact .enumeration hbody h hcomment
  · next target params hbody =>
    have hhead : declarationHead d =
        "export type " ++ d.name ++ typeParameterText params ++ " = " ++ target.text ++ ";" := by
      rw [generics_eq, declarationHead, hbody]
    rw [← hhead]
    exact .target hbody hcomment

/-! ## Imports -/

/-- An import as a line. -/
def importLine (q : QuoteStyle) (i : Import) : String :=
  "import " ++ ", ".intercalate (i.primary.toList ++
      if i.named = [] then [] else ["\x7b " ++ ", ".intercalate i.named ++ " \x7d"]) ++
    " from " ++ q.quote i.moduleName ++ ";"

/-- The lines of imports with an empty one behind them, or nothing. -/
def importBlock (q : QuoteStyle) (is : List Import) : String :=
  if is = [] then "" else "\n".intercalate (is.map (importLine q)) ++ "\n\n"

theorem importText_eq (q : QuoteStyle) (is : List Import) (body : String) :
    importText q is body = importBlock q (is.filterMap fun i => i.pruned body) := by
  have hline : Import.text q = importLine q := by
    funext i
    unfold Import.text importLine
    cases i.named <;> rfl
  unfold importText importBlock
  rw [hline]
  cases is.filterMap fun i => i.pruned body <;> rfl

end Client

end ApiSurface
