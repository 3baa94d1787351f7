import SyntaxRepair.Schema.Pointer

/-!
# Pointers read back

A pointer is read by cutting it at its slashes and undoing two replacements in each segment.  What
comes out are the texts of the path (`pointerOf_tells_path`), so two paths of names never share a
pointer.

## Strategy

Escaping is two replacements, one after the other: first each tilde becomes `~0`, and then each
slash becomes `~1` (`escapeSegment_eq_replaceEach`).

* Behind the second one there is no slash left (`slash_not_mem_escapeSegment`), so a pointer is cut
  between its segments and nowhere else.
* Behind the first one each tilde has a `0` behind it.  A `~1` was therefore made by the second one,
  and undoing that one first gives back what the first one has left
  (`replacePair_escapeSegment`).
-/

namespace SyntaxRepair

namespace Text

/-! ## Replacements -/

/-- Puts `new` in place of each code point `old`. -/
def replaceEach (old : CodePoint) (new : Text) (text : Text) : Text :=
  text.flatMap fun c => if c = old then new else [c]

/-- Puts `new` in place of each `first` with a `second` behind it, from the front on. -/
def replacePair (first second new : CodePoint) : Text → Text
  | [] => []
  | [c] => [c]
  | c :: next :: rest =>
    if c = first ∧ next = second then new :: replacePair first second new rest
    else c :: replacePair first second new (next :: rest)

variable {first second new c next : CodePoint}

theorem replacePair_cons_of_ne (hc : c ≠ first) (rest : Text) :
    replacePair first second new (c :: rest) = c :: replacePair first second new rest := by
  cases rest with
  | nil => rfl
  | cons next rest => rw [replacePair, if_neg fun hpair => hc hpair.1]

theorem replacePair_pair (rest : Text) :
    replacePair first second new (first :: second :: rest) =
      new :: replacePair first second new rest := by
  rw [replacePair, if_pos ⟨rfl, rfl⟩]

/-- Two code points that are not the pair stay if no pair begins with the second of them. -/
theorem replacePair_cons_cons_of_ne (hsecond : next ≠ second) (hfirst : next ≠ first)
    (rest : Text) :
    replacePair first second new (c :: next :: rest) =
      c :: next :: replacePair first second new rest := by
  rw [replacePair, if_neg fun hpair => hsecond hpair.2, replacePair_cons_of_ne hfirst]

/-- A code point that was made a pair is put back. -/
theorem replacePair_replaceEach (first second : CodePoint) (text : Text) :
    replacePair first second first (replaceEach first [first, second] text) = text := by
  induction text with
  | nil => rfl
  | cons c rest ih =>
      rw [replaceEach, List.flatMap_cons, ← replaceEach]
      by_cases hc : c = first
      · rw [if_pos hc, List.cons_append, List.singleton_append, replacePair_pair, ih, hc]
      · rw [if_neg hc, List.singleton_append, replacePair_cons_of_ne hc, ih]

end Text

namespace Schema

open Text (replaceEach replacePair replacePair_cons_of_ne replacePair_pair
  replacePair_cons_cons_of_ne replacePair_replaceEach)

/-! ## Segments -/

/-- A segment is escaped by two replacements. -/
theorem escapeSegment_eq_replaceEach (text : Text) :
    escapeSegment text = replaceEach '/' ['~', '1'] (replaceEach '~' ['~', '0'] text) := by
  rw [escapeSegment, replaceEach, replaceEach, List.flatMap_assoc]
  refine congrArg (text.flatMap ·) (funext fun c => ?_)
  by_cases htilde : c = '~'
  · rw [escapePoint, if_pos htilde, if_pos htilde]
    rfl
  · rw [escapePoint, if_neg htilde, if_neg htilde, List.flatMap_cons, List.flatMap_nil,
      List.append_nil]

theorem slash_not_mem_escapeSegment (text : Text) : .char '/' ∉ escapeSegment text := by
  rw [escapeSegment_eq_replaceEach, replaceEach, List.mem_flatMap]
  rintro ⟨c, -, hmem⟩
  by_cases hslash : c = '/'
  · rw [if_pos hslash] at hmem
    exact absurd hmem (by decide)
  · rw [if_neg hslash, List.mem_singleton] at hmem
    exact hslash hmem.symm

/-- The slashes of a segment put back: what is left are its tildes. -/
theorem replacePair_escapeSegment (text : Text) :
    replacePair '~' '1' '/' (escapeSegment text) = replaceEach '~' ['~', '0'] text := by
  induction text with
  | nil => rfl
  | cons c rest ih =>
      rw [escapeSegment, List.flatMap_cons, ← escapeSegment, replaceEach, List.flatMap_cons,
        ← replaceEach, escapePoint]
      by_cases htilde : c = '~'
      · -- the zero behind the tilde keeps it from being taken for a slash
        rw [if_pos htilde, if_pos htilde, List.cons_append, List.singleton_append,
          replacePair_cons_cons_of_ne (by decide) (by decide), ih]
        rfl
      · rw [if_neg htilde, if_neg htilde, List.singleton_append]
        by_cases hslash : c = '/'
        · rw [if_pos hslash, List.cons_append, List.singleton_append, replacePair_pair, ih, hslash]
        · rw [if_neg hslash, List.singleton_append, replacePair_cons_of_ne htilde, ih]

/-- The text of an escaped segment: `~1` is read as a slash, and what is left of `~0` as a tilde. -/
def unescapeSegment (text : Text) : Text :=
  replacePair '~' '0' '~' (replacePair '~' '1' '/' text)

theorem unescapeSegment_escapeSegment (text : Text) :
    unescapeSegment (escapeSegment text) = text := by
  rw [unescapeSegment, replacePair_escapeSegment, replacePair_replaceEach]

/-! ## Paths -/

/-- The texts of the segments that a pointer shows, each behind a slash. -/
def segmentsOf (pointer : Text) : List Text :=
  (pointer.splitOn (.char '/')).tail.map unescapeSegment

theorem intercalate_cons (separator first : Text) (rest : List Text) :
    List.intercalate separator (first :: rest) = first ++ rest.flatMap (separator ++ ·) := by
  induction rest generalizing first with
  | nil => rw [List.intercalate_singleton, List.flatMap_nil, List.append_nil]
  | cons next others ih =>
      rw [List.intercalate_cons_cons, ih next, List.flatMap_cons, List.append_assoc,
        List.append_assoc]

/-- The slashes of a pointer stand in front of its segments and between them. -/
theorem pointerOf_eq_intercalate (path : List Segment) :
    pointerOf path =
      List.intercalate [.char '/'] ([] :: (path.map Segment.text).map escapeSegment) := by
  rw [intercalate_cons, List.nil_append, List.map_map, List.flatMap_map]
  rfl

theorem segmentsOf_pointerOf (path : List Segment) :
    segmentsOf (pointerOf path) = path.map Segment.text := by
  have hslashes : ∀ part ∈ [] :: (path.map Segment.text).map escapeSegment,
      CodePoint.char '/' ∉ part := by
    rw [List.forall_mem_cons, List.forall_mem_map]
    exact ⟨List.not_mem_nil, fun text _ => slash_not_mem_escapeSegment text⟩
  rw [segmentsOf, pointerOf_eq_intercalate,
    List.splitOn_intercalate _ hslashes (List.cons_ne_nil _ _), List.tail_cons, List.map_map]
  exact (List.map_congr_left fun text _ => unescapeSegment_escapeSegment text).trans
    (List.map_id _)

/-- **A pointer tells its path.**  Read back, it gives the texts of the segments, so two paths share
a pointer exactly if their segments have the same texts.  Paths of names share none. -/
theorem pointerOf_tells_path :
    (∀ path : List Segment, segmentsOf (pointerOf path) = path.map Segment.text) ∧
      (∀ first second : List Segment,
        pointerOf first = pointerOf second ↔ first.map Segment.text = second.map Segment.text) ∧
      ∀ first second : List Text,
        pointerOf (first.map Segment.name) = pointerOf (second.map Segment.name) ↔
          first = second := by
  have hshare : ∀ first second : List Segment,
      pointerOf first = pointerOf second ↔ first.map Segment.text = second.map Segment.text := by
    intro first second
    constructor
    · intro hsame
      rw [← segmentsOf_pointerOf first, hsame, segmentsOf_pointerOf second]
    · intro hsame
      rw [pointerOf_eq_intercalate, pointerOf_eq_intercalate, hsame]
  have htexts : ∀ names : List Text, (names.map Segment.name).map Segment.text = names := by
    intro names
    rw [List.map_map]
    exact List.map_id names
  refine ⟨segmentsOf_pointerOf, hshare, fun first second => ?_⟩
  rw [hshare, htexts, htexts]

example : segmentsOf "/~01//~1~00/~001" =
    (["~1", "", "/~0", "~01"] : List String).map Text.ofString := by
  decide

end Schema

end SyntaxRepair
