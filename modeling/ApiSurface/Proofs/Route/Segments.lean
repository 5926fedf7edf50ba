import ApiSurface.Proofs.Path
import ApiSurface.Proofs.Route.Fragment
import Mathlib.Data.List.Chain

/-!
# Segments of joined urls

A url stands for its segments, the pieces between separators that are not empty, and joining urls is
appending their segments.

* `IsSegment`, `rooted`: a segment, and the url of segments;
* `segments_eq_iff`: the segments of a url, from any pieces with separators between them;
* `segments_rooted`: segments are found again in their url;
* `segments_joinUrl`, `joinUrl_congr`: joining depends on segments only, and appends them;
* `foldl_joinUrl`: joining texts one after another is joining them put together;
* **`joinUrl_concatenates`**: the laws of joining;
* `not_joined_of_nothing`: joining an empty list of texts is not joining nothing.
-/

namespace ApiSurface.Route

open ApiSurface.Text

/-! ## Segments -/

/-- A piece of a url that is not empty. -/
def IsSegment (s : String) : Prop := s ≠ "" ∧ '/' ∉ s.toList

/-- The url of segments, each after a separator; the root if there are none. -/
def rooted (ss : List String) : String := "/" ++ "/".intercalate ss

theorem joinUrl_eq (a b : String) : joinUrl a b = rooted (segments a ++ segments b) := rfl

theorem isSegment_of_mem_segments {url s : String} (h : s ∈ segments url) : IsSegment s := by
  obtain ⟨hs, hne⟩ := List.mem_filter.mp h
  exact ⟨of_decide_eq_true hne, separator_not_mem hs⟩

/-- **The segments of a url** are, in order, those that are not empty of the pieces without a
separator that make it up with one separator between each two. -/
theorem segments_eq_iff {url : String} {ss : List String} :
    segments url = ss ↔ ∃ pieces : List String, pieces ≠ [] ∧ (∀ piece ∈ pieces,
      '/' ∉ piece.toList) ∧ "/".intercalate pieces = url ∧ pieces.filter (· ≠ "") = ss := by
  constructor
  · rintro rfl
    exact ⟨splitOn '/' url, splitOn_ne_nil '/' url, fun piece => separator_not_mem,
      intercalate_splitOn '/' url, rfl⟩
  · rintro ⟨pieces, hne, hpieces, rfl, rfl⟩
    rw [segments]
    exact congrArg _ (splitOn_intercalate hne hpieces)

theorem isSegment_of_mem_append {a b s : String} (h : s ∈ segments a ++ segments b) :
    IsSegment s :=
  (List.mem_append.mp h).elim isSegment_of_mem_segments isSegment_of_mem_segments

theorem segments_append_separator (s t : String) :
    segments (s ++ "/" ++ t) = segments s ++ segments t := by
  unfold segments
  rw [← List.filter_append, ← splitOn_append_separator]
  rfl

theorem segments_empty : segments "" = [] := by decide

theorem segments_intercalate (ss : List String) :
    segments ("/".intercalate ss) = ss.flatMap segments := by
  induction ss with
  | nil => exact segments_empty
  | cons s ss ih =>
    cases ss with
    | nil => rw [String.intercalate_singleton, List.flatMap_singleton]
    | cons t ss =>
      rw [String.intercalate_cons_cons, segments_append_separator, ih]
      rfl

theorem IsSegment.segments_eq {s : String} (h : IsSegment s) : segments s = [s] := by
  have hsplit : splitOn '/' s = [s] := by
    have hs := @splitOn_intercalate '/' [s] (by simp) (by simpa using h.2)
    rwa [String.intercalate_singleton] at hs
  rw [segments, hsplit]
  exact List.filter_eq_self.mpr (by simpa using h.1)

/-- **Segments are found again in their url.** -/
theorem segments_rooted {ss : List String} (h : ∀ s ∈ ss, IsSegment s) :
    segments (rooted ss) = ss := by
  have hroot : rooted ss = "" ++ "/" ++ "/".intercalate ss := by
    rw [String.empty_append]
    rfl
  have heach : ∀ s ∈ ss, segments s = [s] := fun s hs => (h s hs).segments_eq
  rw [hroot, segments_append_separator, segments_empty, List.nil_append, segments_intercalate,
    List.flatMap_congr heach, List.flatMap_singleton']

/-- **Joining appends segments.** -/
theorem segments_joinUrl (a b : String) : segments (joinUrl a b) = segments a ++ segments b :=
  segments_rooted fun _ hs => isSegment_of_mem_append hs

theorem joinUrl_congr {a a' b b' : String} (ha : segments a' = segments a)
    (hb : segments b' = segments b) : joinUrl a' b' = joinUrl a b := by
  rw [joinUrl_eq, joinUrl_eq, ha, hb]

theorem joinUrl_assoc (a b c : String) : joinUrl (joinUrl a b) c = joinUrl a (joinUrl b c) := by
  rw [joinUrl_eq (joinUrl a b), joinUrl_eq a (joinUrl b c), segments_joinUrl, segments_joinUrl,
    List.append_assoc]

/-! ## Separators -/

theorem toList_rooted_cons (s : String) (ss : List String) :
    (rooted (s :: ss)).toList = (s :: ss).flatMap fun t => '/' :: t.toList := by
  have hroot : ∀ t, (rooted [t]).toList = '/' :: t.toList := fun t => by
    rw [rooted, String.intercalate_singleton, String.toList_append]
    rfl
  induction ss generalizing s with
  | nil => rw [hroot, List.flatMap_singleton]
  | cons t ss ih =>
    have hcons : rooted (s :: t :: ss) = rooted [s] ++ rooted (t :: ss) := by
      rw [rooted, rooted, rooted, String.intercalate_cons_cons, String.intercalate_singleton]
      simp only [String.append_assoc]
    rw [hcons, String.toList_append, ih, hroot]
    rfl

/-- No two separators stand next to each other in the url of segments. -/
theorem isChain_rooted {ss : List String} (h : ∀ s ∈ ss, IsSegment s) :
    (ss.flatMap fun t => '/' :: t.toList).IsChain fun a b => a = '/' → b ≠ '/' := by
  induction ss with
  | nil => exact .nil
  | cons s ss ih =>
    have hs := h s List.mem_cons_self
    obtain ⟨c, cs, hcs⟩ := List.exists_cons_of_ne_nil (mt String.toList_eq_nil_iff.mp hs.1)
    have hslash : ∀ d ∈ c :: cs, d ≠ '/' := fun d hd heq => hs.2 (hcs ▸ heq ▸ hd)
    have hsegment : (c :: cs).IsChain fun a b => a = '/' → b ≠ '/' := by
      refine List.Pairwise.isChain ?_
      exact List.pairwise_of_forall_mem_list fun _ _ d hd _ => hslash d hd
    rw [List.flatMap_cons, hcs, List.cons_append, List.cons_append, List.isChain_cons_cons,
      ← List.cons_append]
    refine ⟨fun _ => hslash c List.mem_cons_self, List.isChain_append.mpr ⟨hsegment,
      ih fun t ht => h t (List.mem_cons_of_mem s ht), fun a ha _ _ hroot => ?_⟩⟩
    exact absurd hroot (hslash a (List.mem_of_getLast? ha))

theorem getLast?_rooted {ss : List String} {s : String} (hs : s ≠ "") :
    ((ss ++ [s]).flatMap fun t => '/' :: t.toList).getLast? = s.toList.getLast? := by
  obtain ⟨c, cs, hcs⟩ := List.exists_cons_of_ne_nil (mt String.toList_eq_nil_iff.mp hs)
  rw [List.flatMap_append, List.flatMap_singleton, hcs, List.getLast?_append_cons,
    List.getLast?_cons_cons]

/-- The url of segments starts with a separator, has no two of them next to each other, and ends
with one only if it is nothing else. -/
theorem rooted_separators {ss : List String} (h : ∀ s ∈ ss, IsSegment s) :
    (rooted ss).toList.head? = some '/' ∧ ¬ ['/', '/'] <:+: (rooted ss).toList ∧
      ((rooted ss).toList.getLast? = some '/' → rooted ss = "/") := by
  cases ss with
  | nil => exact ⟨rfl, by decide, fun _ => rfl⟩
  | cons s ss =>
    rw [toList_rooted_cons]
    refine ⟨rfl, fun hinfix => ?_, fun hlast => ?_⟩
    · obtain ⟨front, back, heq⟩ := hinfix
      have hchain := isChain_rooted h
      rw [← heq] at hchain
      exact (List.isChain_cons_cons.mp hchain.left_of_append.right_of_append).1 rfl rfl
    · obtain ⟨front, t, heq⟩ := List.eq_nil_or_concat (s :: ss) |>.resolve_left (List.cons_ne_nil s ss)
      have ht : IsSegment t := h t (by rw [heq, List.concat_eq_append]; simp)
      rw [heq, List.concat_eq_append, getLast?_rooted ht.1] at hlast
      exact absurd (List.mem_of_getLast? hlast) ht.2

/-! ## Lists of texts -/

/-- Joining texts one after another is joining them with separators between them. -/
theorem foldl_joinUrl (base s : String) (ss : List String) :
    (s :: ss).foldl joinUrl base = joinUrl base ("/".intercalate (s :: ss)) := by
  induction ss generalizing base s with
  | nil => rw [String.intercalate_singleton, List.foldl_cons, List.foldl_nil]
  | cons t ss ih =>
    rw [List.foldl_cons, ih, joinUrl_assoc, String.intercalate_cons_cons]
    refine joinUrl_congr rfl ?_
    rw [segments_joinUrl, segments_append_separator]

/-- **Joining urls is appending their segments.** The segments of a joined url are those of both
urls (`segments_eq_iff` says which these are), and the url has single separators in front of them
and none behind. So joining is associative and depends on nothing but segments. The fragment of a
list of texts joins as its texts do one after another, unless there are none: then only the base is
put in its joined form. -/
theorem joinUrl_concatenates (a b c : String) :
    segments (joinUrl a b) = segments a ++ segments b ∧
      ((joinUrl a b).toList.head? = some '/' ∧ ¬ ['/', '/'] <:+: (joinUrl a b).toList ∧
        ((joinUrl a b).toList.getLast? = some '/' → joinUrl a b = "/")) ∧
      joinUrl (joinUrl a b) c = joinUrl a (joinUrl b c) ∧
      (∀ a' b', segments a' = segments a → segments b' = segments b →
        joinUrl a' b' = joinUrl a b) ∧
      ∀ (texts : List String) (context : String) (objectAllowed : Bool), ∃ fragment,
        routeFragment (some (.list (texts.map .string))) context objectAllowed = .ok fragment ∧
          (joinUrl a fragment = texts.foldl joinUrl a ↔ texts ≠ [] ∨ joinUrl a "" = a) := by
  refine ⟨segments_joinUrl a b, rooted_separators fun s hs => isSegment_of_mem_append hs,
    joinUrl_assoc a b c, fun a' b' ha hb => joinUrl_congr ha hb,
    fun texts context objectAllowed =>
      ⟨"/".intercalate texts, routeFragment_of_denotes (.texts texts), ?_⟩⟩
  cases texts with
  | nil => exact ⟨Or.inr, fun h => h.resolve_left (absurd rfl)⟩
  | cons s ss => exact iff_of_true (foldl_joinUrl a s ss).symm (Or.inl (List.cons_ne_nil s ss))

theorem joinUrl_concatenates_sample :
    let a := "//api/v1"
    let b := ":id"
    segments (joinUrl a b) = ["api", "v1", ":id"] ∧
      (segments "/api//v1/" = segments a ∧ segments ":id/" = segments b ∧
        joinUrl "/api//v1/" ":id/" = joinUrl a b) ∧
      ((joinUrl "/" "").toList.getLast? = some '/' ∧ joinUrl "/" "" = "/") := by
  obtain ⟨hsegments, -, -, hcongr, -⟩ := joinUrl_concatenates "//api/v1" ":id" ""
  obtain ⟨-, ⟨-, -, hroot⟩, -⟩ := joinUrl_concatenates "/" "" ""
  have ha : segments "/api//v1/" = segments "//api/v1" := by decide
  have hb : segments ":id/" = segments ":id" := by decide
  have hlast : (joinUrl "/" "").toList.getLast? = some '/' := by decide
  exact ⟨hsegments.trans (by decide), ⟨ha, hb, hcongr _ _ ha hb⟩, hlast, hroot hlast⟩

/-- The fragment of an empty list puts a separator in front of a base that has none, although there
is no text to join. -/
theorem not_joined_of_nothing :
    routeFragment (some (.list [])) "users.list" false = .ok "" ∧
      joinUrl "users" "" = "/users" ∧ ([] : List String).foldl joinUrl "users" = "users" := by
  decide

end ApiSurface.Route
