import ApiSurface.Proofs.Number
import ApiSurface.Proofs.Source.TypeReader

/-!
# Parts of types are read

What the reader of types makes of one operand, of members with marks between them, of arguments in
angle brackets and of the members of object types, whatever it has read before.

* `IsName`, `wordForm_name`, `isName_of_isIdentifier`: words that are read as names;
* `ReadsOperand`, `Reads`: what tokens are read as behind `&` and behind `|`;
* `run_joined`: parts with marks between them are read one after the other;
* **`reads_joined`**: members with `|` or `&` between them are read as the members of what they
  make together;
* `run_arguments`, `run_members`: what stands in brackets is read up to the closing mark.
-/

namespace ApiSurface

open ApiSurface.Text TypeForm

/-! ## Words -/

namespace TypeReader

/-- The characters that no word has. -/
def breaks : List Char := '"' :: Mark.all.map Mark.char

/-- Characters of a kind that has none of these stand in words. -/
theorem isWordChar_of {p : Char → Bool} (hp : breaks.any p = false) {c : Char} (hc : p c = true) :
    isWordChar c = true := by
  have hne : ∀ d ∈ breaks, d ≠ c := fun d hd hdc =>
    List.any_eq_false.mp hp d hd (hdc ▸ hc)
  obtain ⟨hquote, hmarks⟩ := List.forall_mem_cons.mp hne
  have hnone : Mark.ofChar? c = none :=
    List.find?_eq_none.mpr fun m hm => by simpa using hmarks m.char (List.mem_map_of_mem hm)
  simp [isWordChar, hnone, hquote.symm]

theorem isWord_of {p : Char → Bool} (hp : breaks.any p = false) {w : String} (hne : w ≠ "")
    (hw : w.toList.all p = true) : IsWord w :=
  ⟨hne, List.all_eq_true.mpr fun c hc => isWordChar_of hp (List.all_eq_true.mp hw c hc)⟩

/-- A name: a word that does not start like a number and has no meaning of its own. -/
def IsName (name : String) : Prop :=
  IsWord name ∧ startsNumber name = false ∧ ownWord? name = none

instance (name : String) : Decidable (IsName name) := inferInstanceAs (Decidable (_ ∧ _ ∧ _))

theorem wordForm_name {name : String} (h : IsName name) : wordForm name = .reference name [] := by
  rw [wordForm, h.2.1, h.2.2]
  rfl

theorem isWord_number (n : Number) : IsWord n.text := by
  obtain ⟨c, cs, hcs, -, -⟩ := n.exists_text_eq
  exact isWord_of (p := isNumberChar) (by decide) (fun h => by simp [h] at hcs) n.all_text

theorem wordForm_number (n : Number) : wordForm n.text = .atom (.number n.text) := by
  obtain ⟨c, cs, hcs, hc, -⟩ := n.exists_text_eq
  have hstarts : startsNumber n.text = true := by
    rw [startsNumber, hcs]
    simpa using hc
  rw [wordForm, hstarts]
  rfl

theorem isWord_of_isIdentifier {name : String} (h : isIdentifier name = true) : IsWord name := by
  obtain ⟨c, cs, hname, -, -⟩ := exists_isIdentifier h
  exact ⟨fun hempty => by simp [hempty] at hname,
    all_of_isIdentifier h (fun _ => isWordChar_of (p := isIdentStart) (by decide))
      fun _ => isWordChar_of (p := isIdentPart) (by decide)⟩

theorem not_startsNumber_of_isIdentStart {c : Char} (h : isIdentStart c = true) :
    (c.isDigit || c = '-') = false := by
  rw [Bool.or_eq_false_iff, decide_eq_false_iff_not]
  constructor
  · rw [Bool.eq_false_iff]
    intro hdigit
    rw [not_isIdentStart_of_isDigit hdigit] at h
    cases h
  · rintro rfl
    revert h
    decide

/-- An identifier is a name, unless it has a meaning of its own. -/
theorem isName_of_isIdentifier {name : String} (h : isIdentifier name = true)
    (hown : ownWord? name = none) : IsName name := by
  obtain ⟨c, cs, hname, hc, -⟩ := exists_isIdentifier h
  refine ⟨isWord_of_isIdentifier h, ?_, hown⟩
  rw [startsNumber, hname]
  exact not_startsNumber_of_isIdentStart hc

/-! ## What tokens are read as -/

section Reads

variable {r r' : Reading} {t : Token} {ts us : List Token} {f : TypeForm} {j : Joint}
  {l : Level} {around : List Context}

theorem run_cons (h : step r t = some r') (ts : List Token) : run r (t :: ts) = run r' ts := by
  rw [run, List.foldlM_cons, h]
  rfl

theorem run_append (h : run r ts = some r') (us : List Token) :
    run r (ts ++ us) = run r' us := by
  have h : ts.foldlM step r = some r' := h
  rw [run, List.foldlM_append, h]
  rfl

theorem run_singleton (r : Reading) (t : Token) : run r [t] = step r t := by
  rw [run, List.foldlM_cons]
  cases step r t <;> rfl

/-- Tokens that are read as one operand. -/
def ReadsOperand (ts : List Token) (f : TypeForm) : Prop :=
  ∀ l around, l.operand = none →
    run (.type l around) ts = some (.type { l with operand := some f } around)

/-- The mark between members that are joined. -/
def jointMark : Joint → Mark
  | .union => .bar
  | .intersection => .ampersand

/-- Before a member: no operand has been read yet, and before an alternative also no factor. -/
def Level.Fresh : Joint → Level → Prop
  | .union, l => l.factors = [] ∧ l.operand = none
  | .intersection, l => l.operand = none

/-- More members. -/
def Level.add : Joint → Level → List TypeForm → Level
  | .union, l, fs => { l with alternatives := l.alternatives ++ fs }
  | .intersection, l, fs => { l with factors := l.factors ++ fs }

/-- What the mark between members does. -/
def Level.finish : Joint → Level → Option Level
  | .union, l => l.bar
  | .intersection, l => l.ampersand

/-- Tokens that are read as members of a given form: the mark behind them adds these. -/
def Reads (j : Joint) (ts : List Token) (f : TypeForm) : Prop :=
  ∀ l around, Level.Fresh j l → ∃ m, run (.type l around) ts = some (.type m around) ∧
    Level.finish j m = some (Level.add j l (f.parts j))

theorem step_closeParenthesis (l outer : Level) (around : List Context) :
    step (.type l (.parenthesis outer :: around)) (.mark .closeParenthesis) =
      l.close.bind fun f => operand outer f around := rfl

theorem step_comma (l outer : Level) (name : String) (fs : List TypeForm)
    (around : List Context) :
    step (.type l (.argument outer name fs :: around)) (.mark .comma) =
      l.close.map fun f => .type .start (.argument outer name (fs ++ [f]) :: around) := rfl

theorem step_greater (l outer : Level) (name : String) (fs : List TypeForm)
    (around : List Context) :
    step (.type l (.argument outer name fs :: around)) (.mark .greater) =
      l.close.bind fun f => operand outer (.reference name (fs ++ [f])) around := rfl

theorem step_semicolon (l outer : Level) (fields : List FieldForm) (name : String)
    (optional : Bool) (around : List Context) :
    step (.type l (.member outer fields name optional :: around)) (.mark .semicolon) =
      l.close.map fun f => .key outer (fields ++ [⟨name, f, optional⟩]) around := rfl

theorem step_closeBrace (l outer : Level) (fields : List FieldForm) (name : String)
    (optional : Bool) (around : List Context) :
    step (.type l (.member outer fields name optional :: around)) (.mark .closeBrace) =
      l.close.bind fun f => operand outer (.object (fields ++ [⟨name, f, optional⟩])) around := rfl

theorem step_jointMark (j : Joint) (l : Level) (around : List Context) :
    step (.type l around) (.mark (jointMark j)) =
      (Level.finish j l).map fun l => .type l around := by
  cases j <;> rfl

theorem Level.Fresh.add (h : Level.Fresh j l) (fs : List TypeForm) :
    Level.Fresh j (Level.add j l fs) := by
  cases j <;> exact h

theorem Level.add_nil (j : Joint) (l : Level) : Level.add j l [] = l := by
  cases j <;> simp [Level.add]

theorem Level.add_add (j : Joint) (l : Level) (fs gs : List TypeForm) :
    Level.add j (Level.add j l fs) gs = Level.add j l (fs ++ gs) := by
  cases j <;> simp [Level.add]

/-- An operand is a factor. -/
theorem ReadsOperand.reads (h : ReadsOperand ts f) : Reads .intersection ts f := by
  rintro ⟨alternatives, factors, _⟩ around rfl
  exact ⟨_, h _ around rfl, rfl⟩

/-- A factor is an alternative. -/
theorem Reads.alternative (h : Reads .intersection ts f) (hf : f.Flat) : Reads .union ts f := by
  rintro ⟨alternatives, _, _⟩ around ⟨rfl, rfl⟩
  obtain ⟨m, hrun, hm⟩ := h ⟨alternatives, [], none⟩ around rfl
  refine ⟨m, hrun, ?_⟩
  change m.ampersand = some ⟨alternatives, f.parts .intersection, none⟩ at hm
  change m.bar = some ⟨alternatives ++ f.parts .union, [], none⟩
  rw [Level.bar, hm, Option.map_some, hf.gather_parts]

/-- Alternatives alone are the type. -/
theorem Reads.close (h : Reads .union ts f) (hf : f.Flat) (around : List Context) :
    ∃ m, run (.type .start around) ts = some (.type m around) ∧ m.close = some f := by
  obtain ⟨m, hrun, hm⟩ := h .start around ⟨rfl, rfl⟩
  refine ⟨m, hrun, ?_⟩
  change m.bar = some ⟨[] ++ f.parts .union, [], none⟩ at hm
  rw [Level.close, hm, Option.map_some, List.nil_append, hf.gather_parts]

/-- A type in parentheses is an operand. -/
theorem Reads.parenthesized (h : Reads .union ts f) (hf : f.Flat) :
    ReadsOperand (.mark .openParenthesis :: (ts ++ [.mark .closeParenthesis])) f := by
  rintro ⟨alternatives, factors, _⟩ around rfl
  obtain ⟨m, hrun, hm⟩ := h.close hf (.parenthesis ⟨alternatives, factors, none⟩ :: around)
  rw [run_cons rfl, run_append hrun, run_singleton, step_closeParenthesis, hm]
  rfl

/-- An operand before `[]`. -/
theorem ReadsOperand.array (h : ReadsOperand ts f) :
    ReadsOperand (ts ++ [.mark .openBracket, .mark .closeBracket]) (.array f) := by
  rintro ⟨alternatives, factors, _⟩ around rfl
  rw [run_append (h _ around rfl)]
  rfl

/-- Parts with marks between them, each read from where those before it lead to: what holds behind
the last one holds behind all of them. -/
theorem run_joined {α β : Type} {a : α → List Token} {g : α → List β} {marks : List Mark}
    {start : List β → Reading} {context : List β → α → List Context}
    {p : List β → α → Level → Prop} {xs : List α} (hne : xs ≠ [])
    (hread : ∀ x ∈ xs, ∀ bs, ∃ m, run (start bs) (a x) = some (.type m (context bs x)) ∧ p bs x m)
    (hmarks : ∀ bs x m, p bs x m →
      run (.type m (context bs x)) (marks.map Token.mark) = some (start (bs ++ g x)))
    (bs : List β) :
    ∃ cs x m, run (start bs) (joined marks (xs.map a)) = some (.type m (context cs x)) ∧ p cs x m ∧
      cs ++ g x = bs ++ xs.flatMap g := by
  induction xs generalizing bs with
  | nil => exact absurd rfl hne
  | cons x xs ih =>
    obtain ⟨hx, hxs⟩ := List.forall_mem_cons.mp hread
    obtain ⟨m, hrun, hm⟩ := hx bs
    cases xs with
    | nil =>
      refine ⟨bs, x, m, ?_, hm, ?_⟩
      · rwa [List.map_singleton, joined_singleton]
      · rw [List.flatMap_singleton]
    | cons y ys =>
      obtain ⟨cs, z, n, hrest, hn, hcs⟩ := ih (List.cons_ne_nil _ _) hxs (bs ++ g x)
      refine ⟨cs, z, n, ?_, hn, ?_⟩
      · rw [List.map_cons, List.map_cons, joined_cons_cons, List.append_assoc, run_append hrun,
          run_append (hmarks bs x m hm)]
        exact hrest
      · rw [hcs, List.append_assoc, ← List.flatMap_cons]

/-- Members with marks between them are the members of what they make together. -/
theorem reads_joined {α : Type} {a : α → List Token} {b : α → TypeForm} {xs : List α}
    (hne : xs ≠ []) (h : ∀ x ∈ xs, Reads j (a x) (b x)) (hflat : ∀ x ∈ xs, (b x).Flat) :
    Reads j (joined [.blank, jointMark j, .blank] (xs.map a)) (join j (xs.map b)) := by
  intro l around hl
  have hread : ∀ x ∈ xs, ∀ fs, ∃ m,
      run (.type (Level.add j l fs) around) (a x) = some (.type m around) ∧
        Level.finish j m = some (Level.add j l (fs ++ (b x).parts j)) := by
    intro x hx fs
    obtain ⟨m, hrun, hm⟩ := h x hx (Level.add j l fs) around (hl.add fs)
    exact ⟨m, hrun, by rw [hm, Level.add_add]⟩
  have hmarks : ∀ fs x m, Level.finish j m = some (Level.add j l (fs ++ (b x).parts j)) →
      run (.type m around) ([.blank, jointMark j, .blank].map Token.mark) =
        some (.type (Level.add j l (fs ++ (b x).parts j)) around) := by
    intro fs x m hm
    rw [List.map_cons, List.map_cons, run_cons rfl, run_cons (by rw [step_jointMark, hm]; rfl)]
    rfl
  obtain ⟨fs, x, m, hrun, hm, hfs⟩ := run_joined hne hread hmarks []
  rw [Level.add_nil] at hrun
  refine ⟨m, hrun, ?_⟩
  rw [hm, hfs, parts_join (by simpa using hne) (List.forall_mem_map.mpr hflat), List.flatMap_map]
  rfl

/-- A name with arguments, up to the mark behind them. -/
theorem run_arguments {α : Type} {a : α → List Token} {b : α → TypeForm} {xs : List α}
    (hne : xs ≠ []) (h : ∀ x ∈ xs, Reads .union (a x) (b x)) (hflat : ∀ x ∈ xs, (b x).Flat)
    (outer : Level) (name : String) (around : List Context) :
    run (.type .start (.argument outer name [] :: around))
        (joined [.comma, .blank] (xs.map a) ++ [.mark .greater]) =
      operand outer (.reference name (xs.map b)) around := by
  have hread : ∀ x ∈ xs, ∀ fs, ∃ m, run (.type .start (.argument outer name fs :: around)) (a x) =
      some (.type m (.argument outer name fs :: around)) ∧ m.close = some (b x) :=
    fun x hx fs => (h x hx).close (hflat x hx) _
  have hmarks : ∀ fs x m, m.close = some (b x) →
      run (.type m (.argument outer name fs :: around)) ([.comma, .blank].map Token.mark) =
        some (.type .start (.argument outer name (fs ++ [b x]) :: around)) := by
    intro fs x m hm
    rw [List.map_cons, run_cons (by rw [step_comma, hm]; rfl)]
    rfl
  obtain ⟨fs, x, m, hrun, hm, hfs⟩ := run_joined hne hread hmarks []
  rw [run_append hrun, run_singleton, step_greater, hm, Option.bind_some, hfs, List.nil_append,
    ← List.map_eq_flatMap]

/-- A key, its mark and its colon. -/
def fieldStart (name : String) (optional : Bool) : List Token :=
  (if isIdentifier name then .word name else .text name) ::
    (if optional then [.question, .colon, .blank] else [.colon, .blank]).map Token.mark

theorem run_fieldStart (outer : Level) (fields : List FieldForm) (name : String) (optional : Bool)
    (around : List Context) :
    run (.key outer fields around) (fieldStart name optional) =
      some (.type .start (.member outer fields name optional :: around)) := by
  unfold fieldStart
  cases optional <;> cases isIdentifier name <;> rfl

/-- Members of an object type, up to the mark behind them. -/
theorem run_members {a : Property → List Token} {b : Property → TypeForm} {ps : List Property}
    (hne : ps ≠ []) (h : ∀ p ∈ ps, Reads .union (a p) (b p)) (hflat : ∀ p ∈ ps, (b p).Flat)
    (outer : Level) (around : List Context) :
    run (.key outer [] around)
        (joined [.semicolon, .blank] (ps.map fun p => fieldStart p.name p.optional ++ a p) ++
          [.mark .blank, .mark .closeBrace]) =
      operand outer (.object (ps.map fun p => ⟨p.name, b p, p.optional⟩)) around := by
  have hread : ∀ p ∈ ps, ∀ fs, ∃ m,
      run (.key outer fs around) (fieldStart p.name p.optional ++ a p) =
        some (.type m (.member outer fs p.name p.optional :: around)) ∧ m.close = some (b p) := by
    intro p hp fs
    rw [run_append (run_fieldStart _ _ _ _ _)]
    exact (h p hp).close (hflat p hp) _
  have hmarks : ∀ fs p m, m.close = some (b p) →
      run (.type m (.member outer fs p.name p.optional :: around))
          ([.semicolon, .blank].map Token.mark) =
        some (.key outer (fs ++ [⟨p.name, b p, p.optional⟩]) around) := by
    intro fs p m hm
    rw [List.map_cons, run_cons (by rw [step_semicolon, hm]; rfl)]
    rfl
  obtain ⟨fs, p, m, hrun, hm, hfs⟩ := run_joined hne hread hmarks []
  rw [run_append hrun, run_cons rfl, run_singleton, step_closeBrace, hm, Option.bind_some, hfs,
    List.nil_append, ← List.map_eq_flatMap]

end Reads

end TypeReader

end ApiSurface
