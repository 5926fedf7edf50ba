import ApiSurface.Proofs.Source.TypeForm
import ApiSurface.Proofs.Text.Quote
import Mathlib.Data.List.Chain

/-!
# Reading types

A reader of types in source notation. A text is cut into words, literals and marks, which are then
read from left to right: `[]` binds stronger than `&`, and `&` stronger than `|`.

* `Mark`, `Token`, `tokens?`: the marks of the notation, and a text cut at them;
* `Level`: where one type stands in between, with its members so far;
* `Context`, `Reading`, `step`: what surrounds it, and what one token does;
* `read?`: the form of the type that a text stands for;
* **`tokens?_chars`**: tokens of which no two words touch are cut again as they were.
-/

namespace ApiSurface

/-! ## Tokens -/

/-- The marks of the notation of types. -/
inductive Mark
  | blank
  | bar
  | ampersand
  | openParenthesis
  | closeParenthesis
  | openBracket
  | closeBracket
  | openBrace
  | closeBrace
  | less
  | greater
  | comma
  | semicolon
  | colon
  | question
deriving DecidableEq, Repr

namespace Mark

/-- All marks. -/
def all : List Mark :=
  [blank, bar, ampersand, openParenthesis, closeParenthesis, openBracket, closeBracket, openBrace,
    closeBrace, less, greater, comma, semicolon, colon, question]

/-- The character of a mark. -/
def char : Mark → Char
  | blank => ' '
  | bar => '|'
  | ampersand => '&'
  | openParenthesis => '('
  | closeParenthesis => ')'
  | openBracket => '['
  | closeBracket => ']'
  | openBrace => '\x7b'
  | closeBrace => '\x7d'
  | less => '<'
  | greater => '>'
  | comma => ','
  | semicolon => ';'
  | colon => ':'
  | question => '?'

/-- The mark of a character. -/
def ofChar? (c : Char) : Option Mark := all.find? fun m => m.char = c

@[simp] theorem ofChar?_char (m : Mark) : ofChar? m.char = some m := by cases m <;> rfl

end Mark

/-- A word, a literal in double quotes, or a mark. -/
inductive Token
  | word (text : String)
  | text (value : String)
  | mark (mark : Mark)
deriving DecidableEq, Repr

namespace TypeReader

open ApiSurface.Text

/-- What words of the notation consist of: neither marks nor quotes. -/
def isWordChar (c : Char) : Bool := c ≠ '"' && (Mark.ofChar? c).isNone

/-- Cut a text into tokens, if its literals end. -/
def tokens? : List Char → Option (List Token)
  | [] => some []
  | c :: cs =>
    match Mark.ofChar? c with
    | some m => (tokens? cs).map (.mark m :: ·)
    | none =>
      if c = '"' then
        match _h : scanBody '"' cs with
        | none => none
        | some (text, rest) => (tokens? rest).map (.text (String.ofList text) :: ·)
      else
        (tokens? (cs.dropWhile isWordChar)).map
          (.word (String.ofList (c :: cs.takeWhile isWordChar)) :: ·)
termination_by cs => cs.length
decreasing_by
  · exact Nat.lt_succ_self _
  · exact Nat.lt_succ_of_lt (length_scanBody_lt _h)
  · exact Nat.lt_succ_of_le (List.dropWhile_sublist _).length_le

/-! ## Words -/

/-- What the words with a meaning of their own stand for. -/
def ownWord? : String → Option Atom
  | "string" => some (.keyword .string)
  | "number" => some (.keyword .number)
  | "boolean" => some (.keyword .boolean)
  | "undefined" => some .undefined
  | "null" => some .null
  | "void" => some .void
  | "any" => some .any
  | "unknown" => some .unknown
  | "true" => some (.boolean true)
  | "false" => some (.boolean false)
  | _ => none

/-- A word that starts like a number. -/
def startsNumber (w : String) : Bool := w.toList.head?.any fun c => c.isDigit || c = '-'

/-- What a word stands for: a number, the meaning of its own, or what it names. -/
def wordForm (w : String) : TypeForm :=
  if startsNumber w then .atom (.number w)
  else match ownWord? w with
    | some a => .atom a
    | none => .reference w []

/-! ## One type -/

/-- A type in between: its alternatives up to the last `|`, the factors since then up to the last
`&`, and what has been read since then. -/
structure Level where
  alternatives : List TypeForm
  factors : List TypeForm
  operand : Option TypeForm

namespace Level

/-- Nothing has been read. -/
def start : Level := ⟨[], [], none⟩

/-- An operand, where there is none yet. -/
def put (l : Level) (f : TypeForm) : Option Level :=
  match l.operand with
  | none => some { l with operand := some f }
  | some _ => none

/-- After `&`, the operand is a factor. -/
def ampersand (l : Level) : Option Level :=
  l.operand.map fun f => ⟨l.alternatives, l.factors ++ f.parts .intersection, none⟩

/-- After `|`, the factors are an alternative. -/
def bar (l : Level) : Option Level :=
  l.ampersand.map fun k =>
    ⟨k.alternatives ++ (TypeForm.gather .intersection k.factors).parts .union, [], none⟩

/-- In the end, the alternatives are the type. -/
def close (l : Level) : Option TypeForm :=
  l.bar.map fun k => TypeForm.gather .union k.alternatives

end Level

/-! ## Types in types -/

/-- What a type in between is read for, with the type around it. -/
inductive Context
  | parenthesis (outer : Level)
  | argument (outer : Level) (name : String) (arguments : List TypeForm)
  | member (outer : Level) (fields : List FieldForm) (name : String) (optional : Bool)

/-- Where a reader stands: in a type, after `[`, before a key, or behind one. -/
inductive Reading
  | type (level : Level) (around : List Context)
  | bracket (level : Level) (element : TypeForm) (around : List Context)
  | key (outer : Level) (fields : List FieldForm) (around : List Context)
  | colon (outer : Level) (fields : List FieldForm) (name : String) (optional : Bool)
    (around : List Context)

/-- An operand is read. -/
def operand (l : Level) (f : TypeForm) (around : List Context) : Option Reading :=
  (l.put f).map fun l => .type l around

/-- What one token does. -/
def step : Reading → Token → Option Reading
  | r, .mark .blank => some r
  | .type l around, .word w => operand l (wordForm w) around
  | .type l around, .text s => operand l (.atom (.string s)) around
  | .type l around, .mark .ampersand => l.ampersand.map fun l => .type l around
  | .type l around, .mark .bar => l.bar.map fun l => .type l around
  | .type l around, .mark .openBracket =>
    l.operand.map fun f => .bracket { l with operand := none } f around
  | .bracket l f around, .mark .closeBracket => operand l (.array f) around
  | .type l around, .mark .openParenthesis => some (.type .start (.parenthesis l :: around))
  | .type l (.parenthesis outer :: around), .mark .closeParenthesis =>
    l.close.bind fun f => operand outer f around
  | .type l around, .mark .less =>
    match l.operand with
    | some (.reference name []) =>
      some (.type .start (.argument { l with operand := none } name [] :: around))
    | _ => none
  | .type l (.argument outer name arguments :: around), .mark .comma =>
    l.close.map fun f => .type .start (.argument outer name (arguments ++ [f]) :: around)
  | .type l (.argument outer name arguments :: around), .mark .greater =>
    l.close.bind fun f => operand outer (.reference name (arguments ++ [f])) around
  | .type l around, .mark .openBrace => some (.key l [] around)
  | .key outer fields around, .word w => some (.colon outer fields w false around)
  | .key outer fields around, .text s => some (.colon outer fields s false around)
  | .key outer [] around, .mark .closeBrace => operand outer (.object []) around
  | .colon outer fields name false around, .mark .question =>
    some (.colon outer fields name true around)
  | .colon outer fields name optional around, .mark .colon =>
    some (.type .start (.member outer fields name optional :: around))
  | .type l (.member outer fields name optional :: around), .mark .semicolon =>
    l.close.map fun f => .key outer (fields ++ [⟨name, f, optional⟩]) around
  | .type l (.member outer fields name optional :: around), .mark .closeBrace =>
    l.close.bind fun f => operand outer (.object (fields ++ [⟨name, f, optional⟩])) around
  | _, _ => none

/-- What some tokens do, one after the other. -/
def run (r : Reading) (ts : List Token) : Option Reading := ts.foldlM step r

/-- The form of the type that a text stands for. -/
def read? (text : String) : Option TypeForm :=
  (tokens? text.toList).bind fun ts =>
    match run (.type .start []) ts with
    | some (.type l []) => l.close
    | _ => none

/-! ## Cutting tokens again -/

/-- The characters of a token. -/
def chars : Token → List Char
  | .word w => w.toList
  | .text s => (quoted '"' s).toList
  | .mark m => [m.char]

/-- A word that a text can be cut into. -/
def IsWord (w : String) : Prop := w ≠ "" ∧ w.toList.all isWordChar = true

instance (w : String) : Decidable (IsWord w) := inferInstanceAs (Decidable (_ ∧ _))

/-- A word and what follows it, if that does not go on with it. -/
inductive Lexical : List Token → Prop
  | nil : Lexical []
  | text (s : String) {ts : List Token} (h : Lexical ts) : Lexical (.text s :: ts)
  | mark (m : Mark) {ts : List Token} (h : Lexical ts) : Lexical (.mark m :: ts)
  | lastWord {w : String} (hw : IsWord w) : Lexical [.word w]
  | wordMark {w : String} (hw : IsWord w) (m : Mark) {ts : List Token} (h : Lexical ts) :
    Lexical (.word w :: .mark m :: ts)

theorem isWordChar_char (m : Mark) : isWordChar m.char = false := by simp [isWordChar]

theorem tokens?_mark (m : Mark) (cs : List Char) :
    tokens? (m.char :: cs) = (tokens? cs).map (.mark m :: ·) := by
  rw [tokens?]
  simp

theorem tokens?_text (s : String) (cs : List Char) :
    tokens? ((quoted '"' s).toList ++ cs) = (tokens? cs).map (.text s :: ·) := by
  have hscan := scanBody_escape (q := '"') (by decide) s.toList cs
  rw [toList_quoted_append, tokens?]
  simp only [show Mark.ofChar? '"' = none from rfl, if_true]
  split
  · next h => rw [hscan] at h; cases h
  · next h =>
    rw [hscan] at h
    cases h
    rw [String.ofList_toList]

theorem tokens?_word {w : String} (hw : IsWord w) {cs : List Char}
    (hcs : ∀ c ∈ cs.head?, isWordChar c = false) :
    tokens? (w.toList ++ cs) = (tokens? cs).map (.word w :: ·) := by
  obtain ⟨hne, hall⟩ := hw
  obtain ⟨c, ds, hds⟩ := List.exists_cons_of_ne_nil (mt String.toList_eq_nil_iff.mp hne)
  rw [hds, List.all_cons, Bool.and_eq_true] at hall
  obtain ⟨hc, hall⟩ := hall
  have hstop : cs.takeWhile isWordChar = [] ∧ cs.dropWhile isWordChar = cs := by
    cases cs with
    | nil => exact ⟨rfl, rfl⟩
    | cons d cs => simp [hcs d rfl]
  have htake : (ds ++ cs).takeWhile isWordChar = ds := by
    rw [List.takeWhile_append_of_pos (List.all_eq_true.mp hall), hstop.1, List.append_nil]
  have hdrop : (ds ++ cs).dropWhile isWordChar = cs := by
    rw [List.dropWhile_append_of_pos (List.all_eq_true.mp hall), hstop.2]
  have hquote : c ≠ '"' ∧ Mark.ofChar? c = none := by simpa [isWordChar] using hc
  rw [hds, List.cons_append, tokens?, hquote.2]
  dsimp only
  rw [if_neg hquote.1, htake, hdrop, ← hds, String.ofList_toList]

/-- **Tokens of which no two words touch are cut again as they were.** -/
theorem tokens?_chars {ts : List Token} (h : Lexical ts) : tokens? (ts.flatMap chars) = some ts := by
  induction h with
  | nil => rw [List.flatMap_nil, tokens?]
  | text s _ ih => rw [List.flatMap_cons, chars, tokens?_text, ih]; rfl
  | mark m _ ih => rw [List.flatMap_cons, chars, List.singleton_append, tokens?_mark, ih]; rfl
  | lastWord hw =>
    rw [List.flatMap_singleton, chars, ← List.append_nil (String.toList _),
      tokens?_word hw (by simp), tokens?]
    rfl
  | wordMark hw m _ ih =>
    rw [List.flatMap_cons, List.flatMap_cons, chars, chars, List.singleton_append,
      tokens?_word hw (by simp [isWordChar_char]), tokens?_mark, ih]
    rfl

theorem Lexical.append_mark {ts us : List Token} (hts : Lexical ts) (m : Mark)
    (hus : Lexical us) : Lexical (ts ++ .mark m :: us) := by
  induction hts with
  | nil => exact hus.mark m
  | text s _ ih => exact ih.text s
  | mark k _ ih => exact ih.mark k
  | lastWord hw => exact .wordMark hw m hus
  | wordMark hw k _ ih => exact .wordMark hw k ih

/-! ## Tokens with marks between them -/

/-- Lists of tokens with the same marks between each two. -/
def joined (marks : List Mark) (tss : List (List Token)) : List Token :=
  (marks.map Token.mark).intercalate tss

theorem joined_singleton (marks : List Mark) (ts : List Token) : joined marks [ts] = ts := by
  simp [joined, List.intercalate]

theorem joined_cons_cons (marks : List Mark) (ts us : List Token) (tss : List (List Token)) :
    joined marks (ts :: us :: tss) = ts ++ marks.map Token.mark ++ joined marks (us :: tss) := by
  simp [joined, List.intercalate]

theorem chars_marks (marks : List Mark) : (marks.map Token.mark).flatMap chars =
    marks.map Mark.char := by
  induction marks with
  | nil => rfl
  | cons m marks ih => rw [List.map_cons, List.flatMap_cons, ih]; rfl

theorem chars_joined {marks : List Mark} {separator : String}
    (hmarks : marks.map Mark.char = separator.toList) {α : Type} {f : α → List Token}
    {g : α → String} {xs : List α} (h : ∀ x ∈ xs, (f x).flatMap chars = (g x).toList) :
    (joined marks (xs.map f)).flatMap chars = (separator.intercalate (xs.map g)).toList := by
  induction xs with
  | nil => rfl
  | cons x xs ih =>
    obtain ⟨hx, hxs⟩ := List.forall_mem_cons.mp h
    cases xs with
    | nil =>
      rw [List.map_singleton, List.map_singleton, joined_singleton, hx, String.intercalate_singleton]
    | cons y xs =>
      rw [List.map_cons, List.map_cons, List.map_cons, List.map_cons, joined_cons_cons,
        List.flatMap_append, List.flatMap_append, hx, chars_marks, hmarks,
        String.intercalate_cons_cons, String.toList_append, String.toList_append, ← List.map_cons,
        ← List.map_cons, ih hxs]

theorem Lexical.append_marks {ts us : List Token} (hts : Lexical ts) {marks : List Mark}
    (hmarks : marks ≠ []) (hus : Lexical us) :
    Lexical (ts ++ marks.map Token.mark ++ us) := by
  induction marks generalizing ts with
  | nil => exact absurd rfl hmarks
  | cons m marks ih =>
    rw [List.map_cons, List.append_assoc, List.cons_append]
    refine hts.append_mark m ?_
    cases marks with
    | nil => exact hus
    | cons k marks => exact ih .nil (List.cons_ne_nil _ _)

theorem lexical_joined {marks : List Mark} (hmarks : marks ≠ []) {tss : List (List Token)}
    (h : ∀ ts ∈ tss, Lexical ts) : Lexical (joined marks tss) := by
  induction tss with
  | nil => exact .nil
  | cons ts tss ih =>
    obtain ⟨hts, htss⟩ := List.forall_mem_cons.mp h
    cases tss with
    | nil => rwa [joined_singleton]
    | cons us tss =>
      rw [joined_cons_cons]
      exact hts.append_marks hmarks (ih htss)

end TypeReader

end ApiSurface
