import ApiSurface.Drift.Report
import ApiSurface.Proofs.Drift.Script

/-!
# Drift reports are patches

A report shows the changes that turn the lines of a file into those of the text that would replace
it, and leaves out unchanged lines only.

* `Lines`, `lines_iff`: the lines of a text, each with the line break that ends it;
* `join_keptLines`: a text is its lines put together;
* `Script.old`, `Script.new`, `old_ofOps`, `new_ofOps`: what a script leads from and to;
* `Group.old`, `Group.new`, `Hunk`: the lines of a group in either text, and those hidden behind it;
* `exists_hunks_groupsFrom`, `Script.Proper.exists_hunks`: the groups of a script, with what they hide;
* `shownLine`: a line of a group as a report shows it;
* **`report_patches`**: the groups of a report and what they hide make up both texts.
-/

namespace ApiSurface.Drift

/-! ## Lines -/

/-- A run of characters without a line break in it. -/
def Plain (cs : List Char) : Prop := ∀ c ∈ cs, c ≠ '\n' ∧ c ≠ '\r'

/-- The lines of a text. A line ends behind the first line feed, carriage return, or both; the last
one may lack a line break, but is not empty then. -/
inductive Lines : List Char → List (List Char) → Prop
  | nothing : Lines [] []
  | unended {l : List Char} (plain : Plain l) (hl : l ≠ []) : Lines l [l]
  | feed {l r : List Char} {ls : List (List Char)} (plain : Plain l) (rest : Lines r ls) :
    Lines (l ++ '\n' :: r) ((l ++ ['\n']) :: ls)
  | both {l r : List Char} {ls : List (List Char)} (plain : Plain l) (rest : Lines r ls) :
    Lines (l ++ '\r' :: '\n' :: r) ((l ++ ['\r', '\n']) :: ls)
  | carriage {l r : List Char} {ls : List (List Char)} (plain : Plain l)
    (alone : r.head? ≠ some '\n') (rest : Lines r ls) : Lines (l ++ '\r' :: r) ((l ++ ['\r']) :: ls)

theorem plain_nil : Plain [] := fun _ hc => absurd hc List.not_mem_nil

theorem Plain.cons {c : Char} {l : List Char} (hn : c ≠ '\n') (hr : c ≠ '\r') (h : Plain l) :
    Plain (c :: l) :=
  List.forall_mem_cons.mpr ⟨⟨hn, hr⟩, h⟩

/-- A character that breaks no line belongs to the first one. -/
theorem Lines.consKept {c : Char} (hn : c ≠ '\n') (hr : c ≠ '\r') {cs : List Char}
    {ls : List (List Char)} (h : Lines cs ls) : Lines (c :: cs) (consKept c ls) := by
  cases h with
  | nothing => exact .unended (plain_nil.cons hn hr) (List.cons_ne_nil c [])
  | unended plain _ => exact .unended (plain.cons hn hr) (List.cons_ne_nil c _)
  | feed plain rest => exact .feed (plain.cons hn hr) rest
  | both plain rest => exact .both (plain.cons hn hr) rest
  | carriage plain alone rest => exact .carriage (plain.cons hn hr) alone rest

theorem lines_splitKept (cs : List Char) : Lines cs (splitKept cs) := by
  fun_induction splitKept cs with
  | case1 => exact .nothing
  | case2 r ih => exact .feed plain_nil ih
  | case3 r ih => exact .both plain_nil ih
  | case4 r halone ih =>
    refine .carriage plain_nil (fun h => ?_) ih
    obtain ⟨r', rfl⟩ : ∃ r', r = '\n' :: r' := List.head?_eq_some_iff.mp h
    exact halone r' rfl
  | case5 c r hn hrn hr ih =>
    refine ih.consKept ?_ ?_
    · rintro rfl
      exact hn rfl
    · rintro rfl
      exact hr rfl

theorem splitKept_plain_append {l : List Char} (plain : Plain l) (r : List Char) :
    splitKept (l ++ r) = l.foldr consKept (splitKept r) := by
  induction l with
  | nil => rfl
  | cons c l ih =>
    obtain ⟨⟨hn, hr⟩, hl⟩ := List.forall_mem_cons.mp plain
    rw [List.cons_append, splitKept, ih hl, List.foldr_cons] <;> simp_all

theorem foldr_consKept_cons (l m : List Char) (ls : List (List Char)) :
    l.foldr consKept (m :: ls) = (l ++ m) :: ls := by
  induction l with
  | nil => rfl
  | cons c l ih => rw [List.foldr_cons, ih]; rfl

/-- A text has one list of lines. -/
theorem lines_iff {cs : List Char} {ls : List (List Char)} :
    Lines cs ls ↔ ls = splitKept cs := by
  constructor
  · intro h
    induction h with
    | nothing => rfl
    | @unended l plain hl =>
      have h := splitKept_plain_append plain []
      obtain ⟨front, c, rfl⟩ : ∃ front c, l = front ++ [c] :=
        ⟨_, _, (List.dropLast_append_getLast hl).symm⟩
      rw [List.append_nil, List.foldr_append] at h
      exact (foldr_consKept_cons front [c] []).symm.trans h.symm
    | feed plain _ ih => rw [splitKept_plain_append plain, splitKept, foldr_consKept_cons, ih]
    | both plain _ ih => rw [splitKept_plain_append plain, splitKept, foldr_consKept_cons, ih]
    | @carriage l r ls plain alone _ ih =>
      rw [splitKept_plain_append plain, splitKept, foldr_consKept_cons, ih]
      rintro r' rfl
      exact alone rfl
  · rintro rfl
    exact lines_splitKept cs

theorem flatten_consKept (c : Char) (ls : List (List Char)) :
    (consKept c ls).flatten = c :: ls.flatten := by
  cases ls <;> rfl

theorem flatten_splitKept (cs : List Char) : (splitKept cs).flatten = cs := by
  fun_induction splitKept cs with
  | case1 => rfl
  | case2 r ih | case3 r ih | case4 r _ ih => simp [ih]
  | case5 c r _ _ _ ih => rw [flatten_consKept, ih]

/-- A text is its lines put together. -/
theorem join_keptLines (s : String) : String.join (keptLines s) = s := by
  rw [← String.toList_inj, keptLines, String.toList_join, List.flatMap_map]
  simp [flatten_splitKept]

theorem keptLines_inj {s t : String} : keptLines s = keptLines t ↔ s = t :=
  ⟨fun h => by rw [← join_keptLines s, h, join_keptLines], congrArg keptLines⟩

/-! ## Scripts -/

/-- The lines that a script leads from. -/
def Script.old (s : Script) : List String :=
  s.kept ++ s.changes.flatMap fun c => c.removed ++ c.kept

/-- The lines that a script leads to. -/
def Script.new (s : Script) : List String := s.kept ++ s.changes.flatMap fun c => c.added ++ c.kept

/-- Every change of a script removes or adds something. -/
def Script.Proper (s : Script) : Prop := ∀ c ∈ s.changes, c.removed ≠ [] ∨ c.added ≠ []

theorem Script.old_cons (op : Op) (s : Script) : (s.cons op).old = op.old ++ s.old := by
  unfold Script.cons
  split
  · simp [Script.old, Op.old]
  · split_ifs with h
    · rw [Op.old, List.isEmpty_iff.mp h, List.nil_append]
    · split <;> simp_all [Script.old, Op.old]
  · split_ifs with h
    · rw [Op.old, List.nil_append]
    · split <;> simp_all [Script.old, Op.old]

theorem Script.new_cons (op : Op) (s : Script) : (s.cons op).new = op.new ++ s.new := by
  unfold Script.cons
  split
  · simp [Script.new, Op.new]
  · split_ifs with h
    · rw [Op.new, List.nil_append]
    · split <;> simp_all [Script.new, Op.new]
  · split_ifs with h
    · rw [Op.new, List.isEmpty_iff.mp h, List.nil_append]
    · split <;> simp_all [Script.new, Op.new]

theorem Script.Proper.cons {s : Script} (h : s.Proper) (op : Op) : (s.cons op).Proper := by
  unfold Script.cons
  split
  · exact h
  · split_ifs with hempty
    · exact h
    · split <;> simp_all [Script.Proper]
  · split_ifs with hempty
    · exact h
    · split <;> simp_all [Script.Proper]

theorem old_ofOps (ops : List Op) : (Script.ofOps ops).old = oldLines ops := by
  induction ops with
  | nil => rfl
  | cons op ops ih =>
    rw [oldLines_cons, ← ih]
    exact Script.old_cons op _

theorem new_ofOps (ops : List Op) : (Script.ofOps ops).new = newLines ops := by
  induction ops with
  | nil => rfl
  | cons op ops ih =>
    rw [newLines_cons, ← ih]
    exact Script.new_cons op _

theorem proper_ofOps (ops : List Op) : (Script.ofOps ops).Proper := by
  induction ops with
  | nil => exact fun c hc => absurd hc List.not_mem_nil
  | cons op ops ih => exact ih.cons op

/-- **A script leads from the old lines to the new ones.** -/
theorem old_scriptOf (old new : List String) : (scriptOf old new).old = old :=
  (old_ofOps _).trans (turns_compacted _ old new).old_eq

theorem new_scriptOf (old new : List String) : (scriptOf old new).new = new :=
  (new_ofOps _).trans (turns_compacted _ old new).new_eq

/-- Between equal lists, and only there, nothing changes. -/
theorem changes_scriptOf_eq_nil_iff {old new : List String} :
    (scriptOf old new).changes = [] ↔ old = new := by
  constructor
  · intro h
    have hold := old_scriptOf old new
    have hnew := new_scriptOf old new
    rw [Script.old, h] at hold
    rw [Script.new, h] at hnew
    exact hold.symm.trans hnew
  · rintro rfl
    rw [scriptOf, conquer_self, compacted_run_keep]
    cases old <;> rfl

/-! ## Groups -/

namespace Group

/-- The lines of a group in the old text. -/
def old (g : Group) : List String := (g.filter fun l => l.1 ≠ .added).map Prod.snd

/-- The lines of a group in the new text. -/
def new (g : Group) : List String := (g.filter fun l => l.1 ≠ .removed).map Prod.snd

/-- Some line of a group is removed or added. -/
def Changes (g : Group) : Prop := ∃ l ∈ g, l.1 ≠ .kept

@[simp] theorem old_append (g g' : Group) : old (g ++ g') = old g ++ old g' := by
  simp [old]

@[simp] theorem new_append (g g' : Group) : new (g ++ g') = new g ++ new g' := by
  simp [new]

@[simp] theorem old_marked (m : Mark) (ls : List String) :
    old (marked m ls) = if m = .added then [] else ls := by
  cases m <;> simp [old, marked, Function.comp_def, List.filter_map]

@[simp] theorem new_marked (m : Mark) (ls : List String) :
    new (marked m ls) = if m = .removed then [] else ls := by
  cases m <;> simp [new, marked, Function.comp_def, List.filter_map]

end Group

/-- A group, and the unchanged lines behind it that the report hides. -/
structure Hunk where
  group : Group
  hidden : List String

/-- What stands in the old text where the hunks are. -/
def oldOf (hs : List Hunk) : List String := hs.flatMap fun h => h.group.old ++ h.hidden

/-- What stands in the new text there. -/
def newOf (hs : List Hunk) : List String := hs.flatMap fun h => h.group.new ++ h.hidden

@[simp] theorem oldOf_cons (h : Hunk) (hs : List Hunk) :
    oldOf (h :: hs) = h.group.old ++ h.hidden ++ oldOf hs := rfl

@[simp] theorem newOf_cons (h : Hunk) (hs : List Hunk) :
    newOf (h :: hs) = h.group.new ++ h.hidden ++ newOf hs := rfl

/-- A group that shows a change. -/
theorem Group.changes_append {c : Change} (h : c.removed ≠ [] ∨ c.added ≠ []) (front back : Group) :
    Group.Changes (front ++ marked .removed c.removed ++ marked .added c.added ++ back) := by
  rcases h with h | h
  · obtain ⟨l, ls, hls⟩ := List.exists_cons_of_ne_nil h
    exact ⟨(.removed, l), by simp [hls, marked], by simp⟩
  · obtain ⟨l, ls, hls⟩ := List.exists_cons_of_ne_nil h
    exact ⟨(.added, l), by simp [hls, marked], by simp⟩

/-- The lines of a long unchanged run that are shown neither behind the change in front of it nor
before the one behind it. -/
def middleLines (ls : List String) : List String :=
  (ls.take (ls.length - contextSize)).drop contextSize

theorem take_middleLines_lastLines {ls : List String} (h : 2 * contextSize < ls.length)
    (rest : List String) :
    ls.take contextSize ++ (middleLines ls ++ (lastLines ls ++ rest)) = ls ++ rest := by
  have hle : contextSize ≤ ls.length - contextSize := by omega
  have htake : ls.take contextSize = (ls.take (ls.length - contextSize)).take contextSize := by
    rw [List.take_take, Nat.min_eq_left hle]
  rw [htake, middleLines, lastLines, ← List.append_assoc, List.take_append_drop,
    ← List.append_assoc, List.take_append_drop]

/-- **The groups of changes** show every change, with what they hide between unchanged lines. -/
theorem exists_hunks_groupsFrom (started : Group) {cs : List Change} (hne : cs ≠ [])
    (hcs : ∀ c ∈ cs, c.removed ≠ [] ∨ c.added ≠ []) :
    ∃ hs : List Hunk, hs.map (·.group) = groupsFrom started cs ∧
      oldOf hs = started.old ++ cs.flatMap (fun c => c.removed ++ c.kept) ∧
      newOf hs = started.new ++ cs.flatMap (fun c => c.added ++ c.kept) ∧
      ∀ h ∈ hs, h.group.Changes := by
  fun_induction groupsFrom started cs with
  | case1 => exact absurd rfl hne
  | case2 started c =>
    refine ⟨[⟨_, c.kept.drop contextSize⟩], rfl, ?_, ?_, ?_⟩
    · simp [oldOf]
    · simp [newOf]
    · exact List.forall_mem_singleton.mpr
        (Group.changes_append (hcs c (List.mem_singleton_self c)) started _)
  | case3 started c cs hcs' g hlong ih =>
    obtain ⟨hs, hgroups, hold, hnew, hchanges⟩ :=
      ih hcs' fun d hd => hcs d (List.mem_cons_of_mem c hd)
    refine ⟨⟨g ++ marked .kept (c.kept.take contextSize), middleLines c.kept⟩ :: hs, ?_, ?_, ?_, ?_⟩
    · rw [List.map_cons, hgroups]
    · rw [oldOf_cons, hold]
      simp [g, take_middleLines_lastLines hlong]
    · rw [newOf_cons, hnew]
      simp [g, take_middleLines_lastLines hlong]
    · exact List.forall_mem_cons.mpr
        ⟨Group.changes_append (hcs c List.mem_cons_self) started _, hchanges⟩
  | case4 started c cs hcs' g hshort ih =>
    obtain ⟨hs, hgroups, hold, hnew, hchanges⟩ :=
      ih hcs' fun d hd => hcs d (List.mem_cons_of_mem c hd)
    refine ⟨hs, hgroups, ?_, ?_, hchanges⟩
    · rw [hold]
      simp [g]
    · rw [hnew]
      simp [g]

/-- **A script is its groups with what they hide**, behind unchanged lines. -/
theorem Script.Proper.exists_hunks {s : Script} (h : s.Proper) :
    ∃ (front : List String) (hunks : List Hunk), s.old = front ++ oldOf hunks ∧
      s.new = front ++ newOf hunks ∧ hunks.map (·.group) = groups s ∧
      ∀ h ∈ hunks, h.group.Changes := by
  by_cases hs : s.changes = []
  · refine ⟨s.kept, [], ?_, ?_, ?_, fun h hh => absurd hh List.not_mem_nil⟩
    · rw [Script.old, hs]
      rfl
    · rw [Script.new, hs]
      rfl
    · rw [groups, hs]
      rfl
  · obtain ⟨hunks, hgroups, hold, hnew, hchanges⟩ :=
      exists_hunks_groupsFrom (marked .kept (lastLines s.kept)) hs h
    have hkept : ∀ rest, s.kept.take (s.kept.length - contextSize) ++ (lastLines s.kept ++ rest) =
        s.kept ++ rest := fun rest => by
      rw [lastLines, ← List.append_assoc, List.take_append_drop]
    refine ⟨s.kept.take (s.kept.length - contextSize), hunks, ?_, ?_, hgroups, hchanges⟩
    · rw [hold, Group.old_marked, if_neg (by decide), hkept, Script.old]
    · rw [hnew, Group.new_marked, if_neg (by decide), hkept, Script.new]

/-- A line of a group as a report shows it: behind the sign of its mark, and with a line break if it
has none. -/
def shownLine (l : Mark × String) : String :=
  (match l.1 with
    | .kept => " "
    | .removed => "-"
    | .added => "+") ++ l.2 ++
  if l.2.toList.getLast? = some '\n' ∨ l.2.toList.getLast? = some '\r' then "" else "\n"

theorem lineText_eq (l : Mark × String) : lineText l = shownLine l := by
  have hends : endsLine l.2 = true ↔
      l.2.toList.getLast? = some '\n' ∨ l.2.toList.getLast? = some '\r' := by
    unfold endsLine
    cases l.2.toList.getLast? <;> simp
  obtain ⟨mark, line⟩ := l
  unfold lineText shownLine
  simp only [hends]
  cases mark <;> rfl

theorem groupText_eq (g : Group) : groupText g = String.join (g.map shownLine) :=
  congrArg String.join (List.map_congr_left fun l _ => lineText_eq l)

/-- The text of a report. -/
theorem report_eq (path current generated : String) :
    report path current generated =
      "--- " ++ path ++ " (on disk)\n" ++ "+++ " ++ path ++ " (generated)\n" ++
        "...\n".intercalate ((groups (scriptOf (keptLines current) (keptLines generated))).map
          fun g => String.join (g.map shownLine)) := by
  have hheading : heading path =
      "--- " ++ path ++ " (on disk)\n" ++ "+++ " ++ path ++ " (generated)\n" := by
    simp only [heading, String.append_assoc]
    rfl
  have htexts : groupText = fun g => String.join (g.map shownLine) := funext groupText_eq
  rw [← hheading, ← htexts]
  rfl

/-- **A drift report is a patch.** The lines of the file and those of the text that would replace it
are the same unchanged lines around the two sides of the groups. Below its two header lines the
report shows every line of the groups, in order, with `...` between two groups. Every group has a
change, and there are none exactly if the lines, and so the texts, are equal. -/
theorem report_patches (path current generated : String) :
    ∃ (old new front : List String) (hunks : List Hunk),
      (∀ ls, Lines current.toList ls ↔ ls = old.map String.toList) ∧
      (∀ ls, Lines generated.toList ls ↔ ls = new.map String.toList) ∧
      old = front ++ hunks.flatMap (fun h => h.group.old ++ h.hidden) ∧
      new = front ++ hunks.flatMap (fun h => h.group.new ++ h.hidden) ∧
      report path current generated =
        "--- " ++ path ++ " (on disk)\n" ++ "+++ " ++ path ++ " (generated)\n" ++
          "...\n".intercalate (hunks.map fun h => String.join (h.group.map shownLine)) ∧
      (∀ h ∈ hunks, ∃ l ∈ h.group, l.1 ≠ .kept) ∧
      (hunks = [] ↔ old = new) ∧ (old = new ↔ current = generated) := by
  have hlines : ∀ s ls, Lines s.toList ls ↔ ls = (keptLines s).map String.toList := fun s ls => by
    rw [lines_iff]
    simp [keptLines]
  have hproper : (scriptOf (keptLines current) (keptLines generated)).Proper := proper_ofOps _
  obtain ⟨front, hunks, hold, hnew, hgroups, hchanges⟩ := hproper.exists_hunks
  rw [old_scriptOf] at hold
  rw [new_scriptOf] at hnew
  refine ⟨_, _, front, hunks, hlines current, hlines generated, hold, hnew, ?_, hchanges,
    ⟨?_, fun hsame => ?_⟩, keptLines_inj⟩
  · rw [report_eq, ← hgroups, List.map_map]
    rfl
  · rintro rfl
    exact hold.trans hnew.symm
  · rw [groups, changes_scriptOf_eq_nil_iff.mpr hsame] at hgroups
    exact List.map_eq_nil_iff.mp hgroups

end ApiSurface.Drift
