import SyntaxRepair.Proofs.Edit.Splice
import SyntaxRepair.Proofs.Sequences

/-!
# The buffer against the spliced text

A buffer that accepts a run of writes holds the text that `Text.spliceAll` makes of
them, in whatever order of places they come.

## Strategy

`Buffer.Records` is what the buffer remembers of the writes: its history is the arranged
writes, its ranges are theirs, and no two of them meet.  It is kept by every accepted
write, whatever the text (`Records.perform`).  The text itself is followed under two
conditions on the writes.

* `Write.Inside`: no write reaches past the end of the text as it was.
* `Write.Admits`: nothing is inserted at the start of a range after that range was
  replaced.  The history would carry such an insertion behind what stands in place of the
  range.

Then a write meets the part of the spliced text that `Text.exists_splits` tells of,
and replaces it (`Records.perform_split`).
-/

namespace SyntaxRepair

open History (shift)

/-! ## Ranges that do not meet -/

/-- Two ranges do not meet exactly if one of them is over where the other begins. -/
theorem Range.meets_eq_false_iff {range earlier : Range} (hrange : range.start ≤ range.stop)
    (hearlier : earlier.start ≤ earlier.stop) :
    range.meets earlier = false ↔ range.stop ≤ earlier.start ∨ earlier.stop ≤ range.start := by
  rcases Int.lt_or_eq_of_le hrange with hfull | hempty
  · rcases Int.lt_or_eq_of_le hearlier with hfull' | hempty'
    · rw [meets, if_neg (by omega), if_neg (by omega), if_neg (by omega)]
      simp only [Bool.and_eq_false_iff, decide_eq_false_iff_not]
      omega
    · rw [meets, if_neg (by omega), if_neg (by omega), if_pos hempty']
      simp only [Bool.and_eq_false_iff, decide_eq_false_iff_not]
      omega
  · rcases Int.lt_or_eq_of_le hearlier with hfull' | hempty'
    · rw [meets, if_neg (by omega), if_pos hempty]
      simp only [Bool.and_eq_false_iff, decide_eq_false_iff_not]
      omega
    · rw [meets, if_pos ⟨hempty, hempty'⟩]
      simp only [true_iff]
      omega

/-! ## Conditions on writes -/

namespace Write

/-- A write that reaches no further than a text of `size` characters. -/
def Inside (size : Nat) (write : Write) : Prop := write.offset + write.length ≤ size

instance (size : Nat) (write : Write) : Decidable (Inside size write) :=
  inferInstanceAs (Decidable (_ ≤ _))

/-- A write behind which a later one may be made: one that does not insert anything
where this one has removed characters. -/
def Admits (earlier later : Write) : Prop :=
  later.length = 0 → later.inserted ≠ [] → 0 < earlier.length → earlier.offset ≠ later.offset

instance (earlier later : Write) : Decidable (Admits earlier later) :=
  inferInstanceAs (Decidable (_ → _ → _ → _))

variable {earlier later : Write}

/-- Of two writes that do not meet one is over where the other begins. -/
theorem stop_le_or_stop_le (hearlier : 0 ≤ earlier.length) (hlater : 0 ≤ later.length)
    (hapart : later.range.meets earlier.range = false) :
    later.offset + later.length ≤ earlier.offset ∨
      earlier.offset + earlier.length ≤ later.offset :=
  (Range.meets_eq_false_iff (Int.le_add_of_nonneg_right hlater)
    (Int.le_add_of_nonneg_right hearlier)).mp hapart

/-- A write leaves the range of an admitted later one alone, unless that is idle. -/
theorem Admits.spares (hadmits : Admits earlier later) (hearlier : 0 ≤ earlier.length)
    (hlater : 0 ≤ later.length) (hapart : later.range.meets earlier.range = false) :
    later.length = 0 ∧ later.inserted = [] ∨
      earlier.offset + earlier.length ≤ later.offset ∨
        later.offset < earlier.offset ∧ later.offset + later.length ≤ earlier.offset := by
  rcases stop_le_or_stop_le hearlier hlater hapart with hbehind | hfront
  · by_cases hidle : later.inserted = []
    · by_cases hempty : later.length = 0
      · exact Or.inl ⟨hempty, hidle⟩
      · exact Or.inr (Or.inr ⟨by omega, hbehind⟩)
    · by_cases hsame : earlier.offset = later.offset
      · have hnothing : ¬ 0 < earlier.length := fun hpositive =>
          hadmits (by omega) hidle hpositive hsame
        exact Or.inr (Or.inl (by omega))
      · exact Or.inr (Or.inr ⟨by omega, hbehind⟩)
  · exact Or.inr (Or.inl hfront)

end Write

/-- Where no two writes meet and each admits the later ones, the changes stand one
behind the other. -/
theorem arrange_clears {writes : List Write} (hnonneg : ∀ write ∈ writes, 0 ≤ write.length)
    (hapart : writes.Pairwise fun earlier later => later.range.meets earlier.range = false)
    (hadmits : writes.Pairwise Write.Admits) : (arrange writes).Pairwise Change.Clears := by
  induction writes using List.reverseRecOn with
  | nil => exact List.Pairwise.nil
  | append_singleton writes write ih =>
      rw [List.pairwise_append] at hapart hadmits
      have hearlier : ∀ earlier ∈ writes, 0 ≤ earlier.length := fun earlier hmem =>
        hnonneg earlier (List.mem_append_left _ hmem)
      have hlast : write ∈ [write] := List.mem_singleton_self write
      have hlength : 0 ≤ write.length := hnonneg write (List.mem_append_right _ hlast)
      rw [arrange_concat]
      refine Anchor.pairwise_insert (arrange_sorted writes) (ih hearlier hapart.1 hadmits.1) ?_ ?_
      · intro change hmem hbehind
        rw [before_iff_of_mem_arrange write hmem] at hbehind
        obtain ⟨-, earlier, hwrite, hoffset, hchange, -⟩ := exists_write_of_mem_arrange hmem
        have hspares := (hadmits.2.2 earlier hwrite write hlast).spares (hearlier earlier hwrite)
          hlength (hapart.2.2 earlier hwrite write hlast)
        rcases hspares with hidle | hfront | hback
        · exact Or.inl hidle
        · refine Or.inr ?_
          rw [Change.stop, hoffset, hchange]
          exact hfront
        · omega
      · intro change hmem hbefore
        rw [before_iff_of_mem_arrange write hmem] at hbefore
        obtain ⟨-, earlier, hwrite, hoffset, hchange, -⟩ := exists_write_of_mem_arrange hmem
        have hlengthEarlier := hearlier earlier hwrite
        rcases Write.stop_le_or_stop_le hlengthEarlier hlength
          (hapart.2.2 earlier hwrite write hlast) with hback | hfront
        · refine Or.inr ?_
          rw [hoffset]
          exact hback
        · omega

/-! ## Accepted writes -/

namespace Buffer

/-- A replacement is accepted exactly if it begins in the text, removes no less than
nothing and meets no earlier one. -/
theorem replace_eq_ok_iff {buffer after : Buffer} {offset length : Int} {inserted : Text} :
    buffer.replace offset length inserted = .ok after ↔
      0 ≤ offset ∧ 0 ≤ length ∧
        (∀ earlier ∈ buffer.written, Range.meets ⟨offset, offset + length⟩ earlier = false) ∧
        after =
          { text := buffer.text.splice (buffer.carry offset) (buffer.carry offset + length) inserted
            history := buffer.history.add offset (inserted.length - length)
            written := buffer.written ++ [⟨offset, offset + length⟩] } := by
  unfold replace
  split
  · rename_i hnegative
    constructor
    · intro h
      cases h
    · rintro ⟨hoffset, hlength, -⟩
      omega
  · rename_i hvalid
    rw [not_or, Int.not_lt, Int.not_lt] at hvalid
    dsimp only
    split
    · rename_i earlier hfind
      constructor
      · intro h
        cases h
      · rintro ⟨-, -, hmeets, -⟩
        have hearlier := List.find?_some hfind
        rw [hmeets earlier (List.mem_of_find?_eq_some hfind)] at hearlier
        cases hearlier
    · rename_i hnone
      rw [List.find?_eq_none] at hnone
      simp only [Except.ok.injEq, Bool.not_eq_true] at hnone ⊢
      constructor
      · rintro rfl
        exact ⟨hvalid.1, hvalid.2, hnone, rfl⟩
      · rintro ⟨-, -, -, rfl⟩
        rfl

/-- Makes several writes, one after another. -/
def performAll (buffer : Buffer) (writes : List Write) : Except Violation Buffer :=
  writes.foldlM Write.perform buffer

theorem performAll_append {buffer after : Buffer} {first second : List Write} :
    buffer.performAll (first ++ second) = .ok after ↔
      ∃ between, buffer.performAll first = .ok between ∧ between.performAll second = .ok after := by
  rw [performAll, List.foldlM_append]
  exact except_bind_eq_ok

theorem performAll_singleton (buffer : Buffer) (write : Write) :
    buffer.performAll [write] = write.perform buffer := by
  rw [performAll, List.foldlM_cons]
  cases write.perform buffer <;> rfl

theorem performAll_concat {buffer after : Buffer} {writes : List Write} {write : Write} :
    buffer.performAll (writes ++ [write]) = .ok after ↔
      ∃ between, buffer.performAll writes = .ok between ∧ write.perform between = .ok after := by
  simp only [performAll_append, performAll_singleton]

/-! ## What a buffer remembers -/

/-- A buffer that has accepted some writes and no others. -/
structure Records (buffer : Buffer) (writes : List Write) : Prop where
  edits_eq : buffer.history.edits = (arrange writes).map Change.edit
  next_eq : buffer.history.next = writes.length
  written_eq : buffer.written = writes.map Write.range
  nonneg : ∀ write ∈ writes, 0 ≤ write.offset ∧ 0 ≤ write.length
  apart : writes.Pairwise fun earlier later => later.range.meets earlier.range = false

theorem records_nil (text : Text) : Records { text } [] :=
  ⟨rfl, rfl, rfl, List.forall_mem_nil _, List.Pairwise.nil⟩

variable {buffer after : Buffer} {writes : List Write} {write : Write}

/-- One more accepted write is remembered behind the others. -/
theorem Records.perform (records : buffer.Records writes)
    (hperform : write.perform buffer = .ok after) : after.Records (writes ++ [write]) := by
  rw [Write.perform_eq_replace, replace_eq_ok_iff] at hperform
  obtain ⟨hoffset, hlength, hmeets, rfl⟩ := hperform
  refine ⟨?_, ?_, ?_, ?_, ?_⟩
  · rw [arrange_concat, Anchor.map_insert Change.toAnchor Edit.toAnchor Change.edit (fun _ => rfl),
      ← records.edits_eq, ← records.next_eq]
    rfl
  · rw [List.length_append, ← records.next_eq]
    rfl
  · rw [List.map_append, ← records.written_eq]
    rfl
  · rw [List.forall_mem_append]
    exact ⟨records.nonneg, List.forall_mem_singleton.mpr ⟨hoffset, hlength⟩⟩
  · refine List.pairwise_append.mpr ⟨records.apart, List.pairwise_singleton .., ?_⟩
    intro earlier hearlier later hlater
    rw [List.mem_singleton.mp hlater]
    refine hmeets earlier.range ?_
    rw [records.written_eq]
    exact List.mem_map_of_mem hearlier

/-- A buffer remembers what it has accepted since the pass began. -/
theorem records_of_performAll {text : Text}
    (hperform : performAll { text } writes = .ok buffer) : buffer.Records writes := by
  induction writes using List.reverseRecOn generalizing buffer with
  | nil =>
      cases hperform
      exact records_nil text
  | append_singleton writes write ih =>
      obtain ⟨between, hwrites, hwrite⟩ := performAll_concat.mp hperform
      exact (ih hwrites).perform hwrite

/-! ## What a buffer holds -/

variable {text : Text}

theorem Records.fits (records : buffer.Records writes)
    (hinside : ∀ write ∈ writes, write.Inside text.length) :
    ∀ change ∈ arrange writes, change.Fits text.length := by
  intro change hmem
  obtain ⟨-, write, hwrite, hoffset, hlength, -⟩ := exists_write_of_mem_arrange hmem
  have hnonneg := records.nonneg write hwrite
  refine ⟨hoffset ▸ hnonneg.1, hlength ▸ hnonneg.2, ?_⟩
  rw [Change.stop, hoffset, hlength]
  exact hinside write hwrite

/-- The text of a buffer around a range that no write has touched: the range as it was
between a front part that ends where the offset is carried to and a back part.  A write
of the range replaces it in the spliced text. -/
theorem Records.split (records : buffer.Records writes)
    (hinside : ∀ write ∈ writes, write.Inside text.length)
    (hadmits : writes.Pairwise Write.Admits) {offset length : Nat}
    (hstop : offset + length ≤ text.length)
    (hspares : ∀ change ∈ arrange writes, change.Spares offset length) :
    ∃ front back : Text,
      text.spliceAll writes = front ++ (text.take (offset + length)).drop offset ++ back ∧
        (front.length : Int) = buffer.carry offset ∧
        ∀ write : Write, write.offset = offset → write.length = length →
          text.spliceAll (writes ++ [write]) = front ++ write.inserted ++ back := by
  have hfits := records.fits hinside
  obtain ⟨front, back, hsplits⟩ :=
    Text.exists_splits text (Nat.zero_le offset) hstop hfits
      (fun change hmem => Or.inr (hfits change hmem).offset_nonneg)
      (arrange_clears (fun write hmem => (records.nonneg write hmem).2) records.apart hadmits)
      hspares
  refine ⟨front, back, hsplits.text_eq, ?_, ?_⟩
  · rw [hsplits.length_eq, carry, History.carry, records.edits_eq]
    omega
  · intro write hoffset hwrite
    rw [Text.spliceAll, arrange_concat]
    exact hsplits.insert_eq (write.change writes.length) hoffset hwrite fun other hmem =>
      (exists_write_of_mem_arrange hmem).1

/-- Where one more write meets no earlier one and is admitted by all of them, no change
touches its range, unless the write is idle. -/
theorem Records.spares (records : buffer.Records writes) {offset length : Nat}
    (hoffset : write.offset = offset) (hlength : write.length = length)
    (hidle : ¬ (write.length = 0 ∧ write.inserted = []))
    (hearlier : ∀ earlier ∈ writes,
      earlier.Admits write ∧ write.range.meets earlier.range = false) :
    ∀ change ∈ arrange writes, change.Spares offset length := by
  intro change hmem
  obtain ⟨-, earlier, hwrite, hchangeOffset, hchangeLength, -⟩ := exists_write_of_mem_arrange hmem
  obtain ⟨hadmits, hapart⟩ := hearlier earlier hwrite
  have hspares := hadmits.spares (records.nonneg earlier hwrite).2 (by omega) hapart
  rw [Change.Spares, Change.stop, hchangeOffset, hchangeLength]
  rw [hoffset, hlength] at hspares
  rcases hspares with ⟨hempty, hnothing⟩ | hfront | hback
  · exact absurd ⟨hlength.trans hempty, hnothing⟩ hidle
  · exact Or.inl hfront
  · exact Or.inr hback

/-- **One more accepted write.**  The text of a buffer consists of what stood in the range
of the write, between a front part and a back part.  Both the buffer and the spliced text
go on with what is inserted in place of the range. -/
theorem Records.perform_split (records : buffer.Records writes)
    (htext : buffer.text = text.spliceAll writes)
    (hinside : ∀ other ∈ writes ++ [write], other.Inside text.length)
    (hadmits : (writes ++ [write]).Pairwise Write.Admits)
    (hperform : write.perform buffer = .ok after) :
    ∃ front back : Text,
      buffer.text = front ++ text.slice write.offset (write.offset + write.length) ++ back ∧
        after.text = front ++ write.inserted ++ back ∧
        text.spliceAll (writes ++ [write]) = front ++ write.inserted ++ back := by
  have hafter := (records.perform hperform).apart
  rw [Write.perform_eq_replace, replace_eq_ok_iff] at hperform
  obtain ⟨hoffset, hlength, -, rfl⟩ := hperform
  rw [List.pairwise_append] at hadmits hafter
  have hlast : write ∈ [write] := List.mem_singleton_self write
  have hwrite : write.Inside text.length := hinside write (List.mem_append_right _ hlast)
  have hearlier : ∀ earlier ∈ writes, earlier.Inside text.length := fun earlier hmem =>
    hinside earlier (List.mem_append_left _ hmem)
  obtain ⟨offset, hoffsetNat⟩ := Int.eq_ofNat_of_zero_le hoffset
  obtain ⟨length, hlengthNat⟩ := Int.eq_ofNat_of_zero_le hlength
  rw [Write.Inside, hoffsetNat, hlengthNat] at hwrite
  have hslice : text.slice write.offset (write.offset + write.length) =
      (text.take (offset + length)).drop offset := by
    rw [hoffsetNat, hlengthNat, ← Int.natCast_add, Text.slice_of_nat]
  rw [hslice]
  by_cases hidle : write.length = 0 ∧ write.inserted = []
  · -- nothing is removed and nothing inserted, wherever the offset is carried to
    have hchange : (write.change writes.length).Idle := hidle
    obtain ⟨hempty, hnothing⟩ := hidle
    have hlengthZero : length = 0 := by omega
    refine ⟨buffer.text, [], ?_, ?_, ?_⟩
    · rw [hlengthZero, Nat.add_zero, List.drop_take_self, List.append_nil, List.append_nil]
    · rw [hempty, hnothing, Int.add_zero, Text.splice, List.append_nil, List.append_nil,
        List.append_nil, List.take_append_drop]
    · rw [Text.spliceAll, arrange_concat, Text.spliceFrom_insert_idle text hchange 0
        fun change hmem => (records.fits hearlier change hmem).length_nonneg]
      rw [← Text.spliceAll, ← htext, hnothing, List.append_nil, List.append_nil]
  · have hspares := records.spares hoffsetNat hlengthNat hidle fun earlier hmem =>
      ⟨hadmits.2.2 earlier hmem write hlast, hafter.2.2 earlier hmem write hlast⟩
    obtain ⟨front, back, hsplit, hcarry, hnew⟩ :=
      records.split hearlier hadmits.1 (by omega) hspares
    have hsplice := Text.splice_middle front ((text.take (offset + length)).drop offset) back
      write.inserted
    rw [Text.length_take_drop (by omega), Int.natCast_add, hcarry] at hsplice
    refine ⟨front, back, htext.trans hsplit, ?_, hnew write hoffsetNat hlengthNat⟩
    rw [htext, hsplit, hoffsetNat, hlengthNat]
    exact hsplice

/-- A buffer holds the spliced text of the writes that it has accepted. -/
theorem text_of_performAll (hinside : ∀ write ∈ writes, write.Inside text.length)
    (hadmits : writes.Pairwise Write.Admits)
    (hperform : performAll { text } writes = .ok buffer) :
    buffer.text = text.spliceAll writes := by
  induction writes using List.reverseRecOn generalizing buffer with
  | nil =>
      cases hperform
      rfl
  | append_singleton writes write ih =>
      obtain ⟨between, hwrites, hwrite⟩ := performAll_concat.mp hperform
      have hbetween := ih (fun earlier hmem => hinside earlier (List.mem_append_left _ hmem))
        (List.pairwise_append.mp hadmits).1 hwrites
      obtain ⟨front, back, -, hafter, hspliced⟩ :=
        (records_of_performAll hwrites).perform_split hbetween hinside hadmits hwrite
      rw [hafter, hspliced]

/-- **The buffer is a splice.**  Whatever writes a buffer accepts, and in whatever order
of places they come, it holds the text as it was with what each write inserts in place of
its range, the writes taken by their offsets and at one offset in the order in which they
were made.  In that order each write is over where the next one begins, so that the
characters between them are kept, once and in order. -/
theorem performAll_eq_spliceAll {text : Text} {writes : List Write} {buffer : Buffer}
    (hinside : ∀ write ∈ writes, write.Inside text.length)
    (hadmits : writes.Pairwise Write.Admits)
    (hperform : performAll { text } writes = .ok buffer) :
    buffer.text = text.spliceAll writes ∧ (arrange writes).Pairwise Change.Clears := by
  have records := records_of_performAll hperform
  refine ⟨text_of_performAll hinside hadmits hperform, ?_⟩
  exact arrange_clears (fun write hmem => (records.nonneg write hmem).2) records.apart hadmits

/-- Six writes out of order: two insertions at the end of a removed range, one in front
of a range that grows, and one that puts back what it removes. -/
theorem performAll_eq_spliceAll_six :
    ∃ (writes : List Write) (buffer : Buffer), writes.length = 6 ∧
      (∀ write ∈ writes, write.Inside 6) ∧ writes.Pairwise Write.Admits ∧
      performAll { text := "abcdef" } writes = .ok buffer ∧
      buffer.text = Text.spliceAll "abcdef" writes ∧ buffer.text = "apQrsdXYZf" := by
  refine ⟨[.delete 4 1, .insert 5 "XY", .insert 1 "p", .replace 1 2 "Qrs", .insert 5 "Z",
    .replace 3 1 "d"], _, rfl, by decide, by decide, rfl, ?_, by decide⟩
  exact (performAll_eq_spliceAll (by decide) (by decide) rfl).1

end Buffer

end SyntaxRepair
