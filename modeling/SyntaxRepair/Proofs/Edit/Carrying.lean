import SyntaxRepair.Proofs.Edit.Performing
import Mathlib.Algebra.BigOperators.Group.List.Basic
import Mathlib.Algebra.GroupWithZero.Nat
import Mathlib.Algebra.Ring.Int.Defs

/-!
# Where characters are carried

A character that no write removes stands where the history carries its offset, whatever writes a
buffer has accepted.  Nothing is asked of the writes but that they lie inside the text.

An insertion may be made where a range was replaced before.  It then goes in front of what
stands in place of the range or somewhere into it, and the spliced text of `Text.spliceAll` does
not tell where.  The characters around the range do not depend on that.

## Strategy

Everything rests on one inequality between carried offsets (`Arranged.add_shift_le`): what lies
between two offsets is not pushed together, because the ranges that are removed between them do
not meet.  Hence each cut is made in front of a character that is kept or behind it
(`Buffer.holdsAt_carry`).
-/

namespace SyntaxRepair

open History (shift)

/-! ## Uprooted places -/

/-- A change that removes characters on both sides of a place, and more of them in front of the
place than it leaves. -/
def Change.Uproots (change : Change) (place : Int) : Prop :=
  change.offset < place ∧ place < change.stop ∧ place + change.edit.delta < change.offset

theorem Change.not_uproots_of_clear {change : Change} {place : Int}
    (hclear : change.stop ≤ place ∨ place ≤ change.offset) : ¬ change.Uproots place := by
  rw [Uproots]
  omega

/-! ## Changes that do not meet -/

/-- Changes in the order of their places, whose ranges do not meet. -/
structure Arranged (changes : List Change) : Prop where
  sorted : changes.Pairwise fun first second => Anchor.Before first.toAnchor second.toAnchor
  apart : changes.Pairwise fun first second =>
    first.stop ≤ second.offset ∨ second.stop ≤ first.offset
  nonneg : ∀ change ∈ changes, 0 ≤ change.length

namespace Arranged

variable {changes rest : List Change} {next : Change} {start offset length : Int}

theorem tail (harranged : Arranged (next :: rest)) : Arranged rest :=
  ⟨(List.pairwise_cons.mp harranged.sorted).2, (List.pairwise_cons.mp harranged.apart).2,
    (List.forall_mem_cons.mp harranged.nonneg).2⟩

theorem offset_le (harranged : Arranged (next :: rest)) {change : Change} (hmem : change ∈ rest) :
    next.offset ≤ change.offset := by
  have hbefore := (List.pairwise_cons.mp harranged.sorted).1 change hmem
  unfold Anchor.Before at hbefore
  omega

/-- A change that removes something begins behind the changes in front of it. -/
theorem stop_le (harranged : Arranged (next :: rest)) {change : Change} (hmem : change ∈ rest)
    (hpositive : 0 < change.length) : next.stop ≤ change.offset := by
  have hoffset := harranged.offset_le hmem
  rcases (List.pairwise_cons.mp harranged.apart).1 change hmem with hfront | hback
  · exact hfront
  · rw [Change.stop] at hback
    omega

/-- If nothing is removed in front of a place, no offset behind it is carried in front of it unless
it is uprooted. -/
theorem le_add_shift (harranged : Arranged changes)
    (hfrom : ∀ change ∈ changes, 0 < change.length → start ≤ change.offset)
    (hstart : start ≤ offset) (hrooted : ∀ change ∈ changes, ¬ change.Uproots offset) :
    start ≤ offset + shift offset (changes.map Change.edit) := by
  induction changes generalizing start with
  | nil =>
      rw [List.map_nil, shift, Int.add_zero]
      exact hstart
  | cons next rest ih =>
      rw [List.forall_mem_cons] at hfrom hrooted
      have hlength := harranged.nonneg next (List.mem_cons_self ..)
      have hdelta : next.edit.delta = next.inserted.length - next.length := rfl
      have hplace : next.edit.offset = next.offset := rfl
      have hstop : next.stop = next.offset + next.length := rfl
      have hnext := hrooted.1
      unfold Change.Uproots at hnext
      rw [List.map_cons, shift, hplace]
      split
      · omega
      · split
        · omega
        · rename_i hreached hkept
          by_cases hremoves : 0 < next.length
          · have hbegin := hfrom.1 hremoves
            by_cases hover : next.stop ≤ offset
            · -- the change is over at the offset, and the others remove nothing in front of its end
              have hrest := ih harranged.tail (fun change hmem => harranged.stop_le hmem) hover
                hrooted.2
              omega
            · -- the offset is inside of the change, and the others remove nothing in front of it
              have hrest := ih harranged.tail (fun change hmem hpositive => by
                have hbehind := harranged.stop_le hmem hpositive
                omega) (Int.le_refl offset) hrooted.2
              omega
          · have hrest := ih harranged.tail hfrom.2 hstart hrooted.2
            omega

/-- **Carried offsets keep their distance.**  What no change removes between two offsets still
lies between them. -/
theorem add_shift_le (harranged : Arranged changes) (hlength : 0 ≤ length)
    (hle : start + length ≤ offset)
    (hspared : ∀ change ∈ changes, change.stop ≤ start ∨ start + length ≤ change.offset)
    (hclear : ∀ change ∈ changes, change.stop ≤ offset ∨ offset ≤ change.offset) :
    start + shift start (changes.map Change.edit) + length ≤
      offset + shift offset (changes.map Change.edit) := by
  induction changes with
  | nil =>
      rw [List.map_nil, shift, shift]
      omega
  | cons next rest ih =>
      have hrest := ih harranged.tail (List.forall_mem_cons.mp hspared).2
        (List.forall_mem_cons.mp hclear).2
      have hnext := harranged.nonneg next (List.mem_cons_self ..)
      have hbound := hclear next (List.mem_cons_self ..)
      have hdelta : next.edit.delta = next.inserted.length - next.length := rfl
      have hplace : next.edit.offset = next.offset := rfl
      have hstop : next.stop = next.offset + next.length := rfl
      rcases hspared next (List.mem_cons_self ..) with hfront | hback
      · -- the change is over in front of both offsets
        rw [List.map_cons, shift_cons_of_stop_le _ hnext hfront,
          shift_cons_of_stop_le _ hnext (by omega : next.stop ≤ offset)]
        omega
      · -- from here on nothing is removed in front of the second offset
        have hbehind : start + length ≤ offset + shift offset ((next :: rest).map Change.edit) := by
          refine harranged.le_add_shift ?_ hle fun change hmem =>
            Change.not_uproots_of_clear (hclear change hmem)
          intro change hmem _
          rcases List.mem_cons.mp hmem with rfl | hmem
          · exact hback
          · exact Int.le_trans hback (harranged.offset_le hmem)
        by_cases hsame : next.offset = start ∧ ¬ next.edit.delta < 0
        · -- an insertion at the first offset moves both, or they are the same
          rcases Int.lt_or_eq_of_le (by omega : start ≤ offset) with hlt | heq
          · rw [List.map_cons, shift, shift]
            simp only [hplace]
            rw [if_neg (by omega), if_neg (by omega), if_neg (by omega), if_neg (by omega)]
            omega
          · rw [heq]
            omega
        · have hzero : shift start ((next :: rest).map Change.edit) = 0 := by
            rw [List.map_cons, shift, hplace]
            split
            · rfl
            · rw [if_pos (by omega)]
          rw [hzero]
          omega

/-- Where the first change is not reached, and no place behind it, no change is. -/
theorem filter_eq_nil (harranged : Arranged (next :: rest)) {reached : Int → Bool}
    (hbehind : ∀ place, next.offset ≤ place → reached place = false) :
    ((next :: rest).filter fun change => reached change.offset) = [] := by
  refine List.filter_eq_nil_iff.mpr fun change hmem => ?_
  have hle : next.offset ≤ change.offset := by
    rcases List.mem_cons.mp hmem with rfl | hmem
    · exact Int.le_refl _
    · exact harranged.offset_le hmem
  rw [hbehind change.offset hle]
  exact Bool.false_ne_true

/-- Where the changes at an offset all count or all do not count, its shift is the sum of the
changes of length that it reaches. -/
theorem shift_eq_sum (harranged : Arranged changes) {reached : Int → Bool}
    (hfront : ∀ place, place < offset → reached place = true)
    (hback : ∀ place, offset < place → reached place = false)
    (hsame : ∀ change ∈ changes, change.offset = offset →
      if reached offset then 0 ≤ change.edit.delta else change.edit.delta ≤ 0) :
    shift offset (changes.map Change.edit) =
      ((changes.filter fun change => reached change.offset).map fun change =>
        change.edit.delta).sum := by
  induction changes with
  | nil => rfl
  | cons next rest ih =>
      rw [List.forall_mem_cons] at hsame
      have hrest := ih harranged.tail hsame.2
      have hplace : next.edit.offset = next.offset := rfl
      rw [List.map_cons, shift, hplace]
      rcases Int.lt_trichotomy next.offset offset with hlt | heq | hgt
      · have hreached : reached next.offset = true := hfront _ hlt
        rw [if_neg (by omega), if_neg (by omega), hrest, List.filter_cons, if_pos hreached,
          List.map_cons, List.sum_cons]
      · have hnext := hsame.1 heq
        rw [if_neg (by omega)]
        cases hreached : reached offset with
        | true =>
            rw [if_pos hreached] at hnext
            rw [if_neg (by omega), hrest, List.filter_cons, heq, if_pos hreached, List.map_cons,
              List.sum_cons]
        | false =>
            rw [hreached, if_neg Bool.false_ne_true] at hnext
            by_cases hremoves : next.edit.delta < 0
            · rw [if_pos ⟨heq, hremoves⟩, harranged.filter_eq_nil, List.map_nil, List.sum_nil]
              intro place hle
              rcases Int.lt_or_eq_of_le (heq ▸ hle) with hlt | hoffset
              · exact hback _ hlt
              · rw [← hoffset, hreached]
            · rw [if_neg (by omega), hrest, List.filter_cons, heq, hreached,
                if_neg Bool.false_ne_true]
              omega
      · rw [if_pos hgt, harranged.filter_eq_nil, List.map_nil, List.sum_nil]
        intro place hle
        exact hback _ (Int.lt_of_lt_of_le hgt hle)

end Arranged

/-! ## The growth of a text -/

/-- By how much a write makes a text longer. -/
def Write.growth (write : Write) : Int := write.inserted.length - write.length

/-- By how much the writes at some offsets make a text longer. -/
def grown (reached : Int → Bool) (writes : List Write) : Int :=
  ((writes.filter fun write => reached write.offset).map Write.growth).sum

section

variable {reached : Int → Bool}

theorem grown_append (first second : List Write) :
    grown reached (first ++ second) = grown reached first + grown reached second := by
  rw [grown, List.filter_append, List.map_append, List.sum_append]
  rfl

theorem grown_singleton (write : Write) :
    grown reached [write] = if reached write.offset then write.growth else 0 := by
  rw [grown, List.filter_cons, List.filter_nil]
  split
  · exact List.sum_singleton
  · rfl

theorem grown_eq_sum {writes : List Write} (hall : ∀ write ∈ writes, reached write.offset = true) :
    grown reached writes = (writes.map Write.growth).sum := by
  rw [grown, List.filter_eq_self.mpr hall]

/-- In the order of their places the writes grow as much. -/
theorem sum_arrange (writes : List Write) :
    (((arrange writes).filter fun change => reached change.offset).map fun change =>
      change.edit.delta).sum = grown reached writes := by
  induction writes using List.reverseRecOn with
  | nil => rfl
  | append_singleton writes write ih =>
      have hperm := Anchor.insert_perm Change.toAnchor (write.change writes.length) (arrange writes)
      have hsum := ((hperm.filter fun change => reached change.offset).map fun change =>
        change.edit.delta).sum_eq
      have hoffset : (write.change writes.length).offset = write.offset := rfl
      have hdelta : (write.change writes.length).edit.delta = write.growth := rfl
      calc _
          = (((write.change writes.length :: arrange writes).filter fun change =>
              reached change.offset).map fun change => change.edit.delta).sum := by
            rw [arrange_concat, hsum]
        _ = (if reached write.offset then write.growth else 0) + grown reached writes := by
            rw [List.filter_cons, hoffset, ← ih]
            split
            · rw [List.map_cons, List.sum_cons, hdelta]
            · rw [Int.zero_add]
        _ = grown reached (writes ++ [write]) := by
            rw [grown_append, grown_singleton, Int.add_comm]

end

/-! ## What a text holds -/

/-- A text in which `content` stands at a place. -/
def Text.HoldsAt (text : Text) (place : Int) (content : Text) : Prop :=
  ∃ front back : Text, text = front ++ content ++ back ∧ (front.length : Int) = place

namespace Text

variable {text content inserted : Text} {place start stop : Int}

theorem HoldsAt.place_nonneg (hholds : text.HoldsAt place content) : 0 ≤ place := by
  obtain ⟨front, back, -, rfl⟩ := hholds
  exact Int.natCast_nonneg _

theorem HoldsAt.slice_eq (hholds : text.HoldsAt place content) :
    text.slice place (place + content.length) = content := by
  obtain ⟨front, back, rfl, rfl⟩ := hholds
  rw [← Int.natCast_add]
  exact slice_middle front content back

theorem HoldsAt.pick?_eq {c : CodePoint} (hholds : text.HoldsAt place [c]) :
    pick? text place = some c := by
  obtain ⟨front, back, rfl, rfl⟩ := hholds
  rw [pick?_natCast, List.append_assoc, List.getElem?_append_right (Nat.le_refl _), Nat.sub_self]
  rfl

theorem holdsAt_take_drop (text : Text) {offset length : Nat}
    (hinside : offset + length ≤ text.length) :
    text.HoldsAt offset ((text.take (offset + length)).drop offset) := by
  refine ⟨text.take offset, text.drop (offset + length),
    text.eq_append_take_drop_append (Nat.le_add_right offset length), ?_⟩
  rw [List.length_take]
  omega

/-- What stands behind a cut moves with it. -/
theorem HoldsAt.splice_front (hholds : text.HoldsAt place content) (hstart : 0 ≤ start)
    (hle : start ≤ stop) (hstop : stop ≤ place) :
    (text.splice start stop inserted).HoldsAt (place + (inserted.length - (stop - start)))
      content := by
  obtain ⟨front, back, rfl, rfl⟩ := hholds
  obtain ⟨start, rfl⟩ := Int.eq_ofNat_of_zero_le hstart
  obtain ⟨stop, rfl⟩ := Int.eq_ofNat_of_zero_le (Int.le_trans hstart hle)
  refine ⟨front.take start ++ inserted ++ front.drop stop, back, ?_, ?_⟩
  · rw [splice_of_nat, List.append_assoc front, List.take_append_of_le_length (by omega),
      List.drop_append_of_le_length (by omega)]
    simp only [List.append_assoc]
  · simp only [List.length_append, List.length_take, List.length_drop]
    omega

/-- What stands in front of a cut stays where it is. -/
theorem HoldsAt.splice_back (hholds : text.HoldsAt place content)
    (hstart : place + content.length ≤ start) (hle : start ≤ stop) :
    (text.splice start stop inserted).HoldsAt place content := by
  have hplace := hholds.place_nonneg
  obtain ⟨front, back, rfl, rfl⟩ := hholds
  obtain ⟨start, rfl⟩ := Int.eq_ofNat_of_zero_le (by omega : 0 ≤ start)
  obtain ⟨stop, rfl⟩ := Int.eq_ofNat_of_zero_le (by omega : 0 ≤ stop)
  have hlength : (front ++ content).length ≤ start := by
    rw [List.length_append]
    omega
  refine ⟨front, back.take (start - (front ++ content).length) ++ inserted ++
    (front ++ content ++ back).drop stop, ?_, rfl⟩
  rw [splice_of_nat, List.take_append, List.take_of_length_le hlength]
  simp only [List.append_assoc]

end Text

/-! ## Accepted writes -/

/-- The characters that a write removes are those from its offset up to its end. -/
def Write.Removes (write : Write) (offset : Int) : Prop :=
  write.offset ≤ offset ∧ offset < write.offset + write.length

instance (write : Write) (offset : Int) : Decidable (write.Removes offset) :=
  inferInstanceAs (Decidable (_ ∧ _))

/-- A write that uproots a place, as its change does. -/
def Write.Uproots (write : Write) (place : Int) : Prop :=
  write.offset < place ∧ place < write.offset + write.length ∧ place + write.growth < write.offset

instance (write : Write) (place : Int) : Decidable (write.Uproots place) :=
  inferInstanceAs (Decidable (_ ∧ _))

namespace Buffer

variable {text : Text} {buffer after : Buffer} {writes : List Write} {write : Write}
  {start offset length : Int}

namespace Records

/-- The changes leave out what the writes leave out. -/
theorem clear_of_mem_arrange {stop : Int} (hclear : ∀ write ∈ writes,
    write.offset + write.length ≤ start ∨ stop ≤ write.offset) :
    ∀ change ∈ arrange writes, change.stop ≤ start ∨ stop ≤ change.offset := by
  intro change hmem
  obtain ⟨-, write, hwrite, hoffset, hlength, -⟩ := exists_write_of_mem_arrange hmem
  rw [Change.stop, hoffset, hlength]
  exact hclear write hwrite

theorem rooted_of_mem_arrange (hrooted : ∀ write ∈ writes, ¬ write.Uproots offset) :
    ∀ change ∈ arrange writes, ¬ change.Uproots offset := by
  intro change hmem huproots
  obtain ⟨-, write, hwrite, hoffset, hlength, hinserted⟩ := exists_write_of_mem_arrange hmem
  have hdelta : change.edit.delta = write.growth := by
    rw [Write.growth, ← hlength, ← hinserted]
    rfl
  rw [Change.Uproots, Change.stop, hoffset, hlength, hdelta] at huproots
  exact hrooted write hwrite huproots

theorem arranged (records : buffer.Records writes) : Arranged (arrange writes) := by
  have hnonneg : ∀ change ∈ arrange writes, 0 ≤ change.length := by
    intro change hmem
    obtain ⟨-, write, hwrite, -, hlength, -⟩ := exists_write_of_mem_arrange hmem
    rw [hlength]
    exact (records.nonneg write hwrite).2
  refine ⟨arrange_sorted writes, ?_, hnonneg⟩
  have hapart := records.apart
  have hlengths := fun write hmem => (records.nonneg write hmem).2
  clear records hnonneg
  induction writes using List.reverseRecOn with
  | nil => exact List.Pairwise.nil
  | append_singleton writes write ih =>
      rw [List.pairwise_append] at hapart
      rw [List.forall_mem_append, List.forall_mem_singleton] at hlengths
      have hperm := Anchor.insert_perm Change.toAnchor (write.change writes.length) (arrange writes)
      rw [arrange_concat, hperm.pairwise_iff fun h => h.symm, List.pairwise_cons]
      refine ⟨?_, ih hapart.1 hlengths.1⟩
      intro change hmem
      obtain ⟨-, earlier, hearlier, hoffset, hlength, -⟩ := exists_write_of_mem_arrange hmem
      have hclear := Write.stop_le_or_stop_le (hlengths.1 earlier hearlier) hlengths.2
        (hapart.2.2 earlier hearlier write (List.mem_singleton_self write))
      rw [Change.stop, Change.stop, hoffset, hlength]
      exact hclear

theorem carry_add_le (records : buffer.Records writes) (hlength : 0 ≤ length)
    (hle : start + length ≤ offset)
    (hspared : ∀ write ∈ writes,
      write.offset + write.length ≤ start ∨ start + length ≤ write.offset)
    (hclear : ∀ write ∈ writes, write.offset + write.length ≤ offset ∨ offset ≤ write.offset) :
    buffer.carry start + length ≤ buffer.carry offset := by
  rw [carry, carry, History.carry, History.carry, records.edits_eq]
  exact records.arranged.add_shift_le hlength hle (clear_of_mem_arrange hspared)
    (clear_of_mem_arrange hclear)

theorem carry_nonneg_of_rooted (records : buffer.Records writes) (hoffset : 0 ≤ offset)
    (hrooted : ∀ write ∈ writes, ¬ write.Uproots offset) : 0 ≤ buffer.carry offset := by
  rw [carry, History.carry, records.edits_eq]
  refine records.arranged.le_add_shift ?_ hoffset (rooted_of_mem_arrange hrooted)
  intro change hmem _
  obtain ⟨-, write, hwrite, hchange, -, -⟩ := exists_write_of_mem_arrange hmem
  rw [hchange]
  exact (records.nonneg write hwrite).1

theorem carry_nonneg (records : buffer.Records writes) (hoffset : 0 ≤ offset)
    (hclear : ∀ write ∈ writes, write.offset + write.length ≤ offset ∨ offset ≤ write.offset) :
    0 ≤ buffer.carry offset := by
  refine records.carry_nonneg_of_rooted hoffset fun write hmem huproots => ?_
  have hspared := hclear write hmem
  rw [Write.Uproots] at huproots
  omega

/-- Where the writes at an offset all count or all do not count, it is moved by the growth of the
writes that it reaches. -/
theorem carry_eq (records : buffer.Records writes) (reached : Int → Bool)
    (hfront : ∀ place, place < offset → reached place = true)
    (hback : ∀ place, offset < place → reached place = false)
    (hsame : ∀ write ∈ writes, write.offset = offset →
      if reached offset then 0 ≤ write.growth else write.growth ≤ 0) :
    buffer.carry offset = offset + grown reached writes := by
  rw [carry, History.carry, records.edits_eq, ← sum_arrange,
    records.arranged.shift_eq_sum hfront hback]
  intro change hmem hchange
  obtain ⟨-, write, hwrite, hoffset, hlength, hinserted⟩ := exists_write_of_mem_arrange hmem
  have hdelta : change.edit.delta = write.growth := by
    rw [Write.growth, ← hlength, ← hinserted]
    rfl
  rw [hdelta]
  exact hsame write hwrite (hoffset.symm.trans hchange)

/-- An offset at which no write takes anything away from the length is moved by all writes that
begin no later. -/
theorem carry_eq_of_nonneg (records : buffer.Records writes)
    (hsame : ∀ write ∈ writes, write.offset = offset → 0 ≤ write.growth) :
    buffer.carry offset = offset + grown (· ≤ offset) writes := by
  apply records.carry_eq
  · intro place hplace
    exact decide_eq_true (Int.le_of_lt hplace)
  · intro place hplace
    exact decide_eq_false (Int.not_le.mpr hplace)
  · intro write hmem hoffset
    rw [if_pos (decide_eq_true (Int.le_refl offset))]
    exact hsame write hmem hoffset

/-- An offset at which no write adds anything to the length is moved by all writes that begin
earlier. -/
theorem carry_eq_of_nonpos (records : buffer.Records writes)
    (hsame : ∀ write ∈ writes, write.offset = offset → write.growth ≤ 0) :
    buffer.carry offset = offset + grown (· < offset) writes := by
  apply records.carry_eq
  · intro place hplace
    exact decide_eq_true hplace
  · intro place hplace
    exact decide_eq_false (Int.not_lt.mpr (Int.le_of_lt hplace))
  · intro write hmem hoffset
    rw [decide_eq_false (Int.lt_irrefl offset), if_neg Bool.false_ne_true]
    exact hsame write hmem hoffset

theorem carry_eq_of_kept (records : buffer.Records writes)
    (hkept : ∀ write ∈ writes, ¬ write.Removes offset) :
    buffer.carry offset = offset + grown (· ≤ offset) writes := by
  apply records.carry_eq_of_nonneg
  intro write hmem hoffset
  have hnot := hkept write hmem
  have hlength := (records.nonneg write hmem).2
  rw [Write.Removes] at hnot
  rw [Write.growth]
  omega

/-- A write that is accepted spares the ranges of the earlier ones, and cuts inside the text. -/
theorem spared_of_perform (records : buffer.Records writes)
    (hperform : write.perform buffer = .ok after) :
    0 ≤ write.length ∧ 0 ≤ buffer.carry write.offset ∧ ∀ earlier ∈ writes,
      earlier.offset + earlier.length ≤ write.offset ∨
        write.offset + write.length ≤ earlier.offset := by
  have hrecords := records.perform hperform
  have hapart := (List.pairwise_append.mp hrecords.apart).2.2
  have hlast : write ∈ writes ++ [write] :=
    List.mem_append_right _ (List.mem_singleton_self write)
  obtain ⟨hoffset, hlength⟩ := hrecords.nonneg write hlast
  have hspared : ∀ earlier ∈ writes, earlier.offset + earlier.length ≤ write.offset ∨
      write.offset + write.length ≤ earlier.offset := by
    intro earlier hearlier
    have hclear := Write.stop_le_or_stop_le (records.nonneg earlier hearlier).2 hlength
      (hapart earlier hearlier write (List.mem_singleton_self write))
    exact hclear.symm
  refine ⟨hlength, ?_, hspared⟩
  apply records.carry_nonneg hoffset
  intro earlier hmem
  have hclear := hspared earlier hmem
  omega

end Records

theorem text_of_perform (hperform : write.perform buffer = .ok after) :
    after.text = buffer.text.splice (buffer.carry write.offset)
      (buffer.carry write.offset + write.length) write.inserted := by
  rw [Write.perform_eq_replace, replace_eq_ok_iff] at hperform
  obtain ⟨-, -, -, rfl⟩ := hperform
  rfl

/-- What stands behind the cut of a write moves with its growth. -/
theorem Records.holdsAt_front (records : buffer.Records writes)
    (hperform : write.perform buffer = .ok after) {place : Int} {content : Text}
    (hholds : buffer.text.HoldsAt place content)
    (hcut : buffer.carry write.offset + write.length ≤ place) :
    after.text.HoldsAt (place + write.growth) content := by
  obtain ⟨hlength, hnonneg, -⟩ := records.spared_of_perform hperform
  have hmoved := @Text.HoldsAt.splice_front _ _ write.inserted _ _ _ hholds hnonneg
    (Int.le_add_of_nonneg_right hlength) hcut
  have hgrowth : write.growth = write.inserted.length -
      (buffer.carry write.offset + write.length - buffer.carry write.offset) := by
    rw [Write.growth]
    omega
  rw [text_of_perform hperform, hgrowth]
  exact hmoved

/-- What stands in front of the cut of a write stays where it is. -/
theorem Records.holdsAt_back (records : buffer.Records writes)
    (hperform : write.perform buffer = .ok after) {place : Int} {content : Text}
    (hholds : buffer.text.HoldsAt place content)
    (hcut : place + content.length ≤ buffer.carry write.offset) :
    after.text.HoldsAt place content := by
  obtain ⟨hlength, -, -⟩ := records.spared_of_perform hperform
  rw [text_of_perform hperform]
  exact hholds.splice_back hcut (Int.le_add_of_nonneg_right hlength)

/-- The end of the text as it was is moved by all writes. -/
theorem Records.carry_length (records : buffer.Records writes)
    (hinside : ∀ write ∈ writes, write.Inside text.length) :
    buffer.carry text.length = text.length + (writes.map Write.growth).sum := by
  rw [records.carry_eq_of_kept, grown_eq_sum]
  · intro write hmem
    have hwrite := hinside write hmem
    have hlength := (records.nonneg write hmem).2
    rw [Write.Inside] at hwrite
    exact decide_eq_true (by omega)
  · intro write hmem hremoves
    have hwrite := hinside write hmem
    rw [Write.Inside] at hwrite
    rw [Write.Removes] at hremoves
    omega

/-- **The end of the text.**  It is carried to the end of the text as it is. -/
theorem carry_length_of_performAll (hinside : ∀ write ∈ writes, write.Inside text.length)
    (hperform : performAll { text } writes = .ok buffer) :
    buffer.carry text.length = buffer.text.length := by
  induction writes using List.reverseRecOn generalizing buffer with
  | nil =>
      cases hperform
      exact History.carry_empty text.length
  | append_singleton writes write ih =>
      obtain ⟨between, hwrites, hwrite⟩ := performAll_concat.mp hperform
      have hall := ((records_of_performAll hwrites).perform hwrite).carry_length hinside
      rw [List.forall_mem_append, List.forall_mem_singleton] at hinside
      have records := records_of_performAll hwrites
      obtain ⟨hlength, hnonneg, hspared⟩ := records.spared_of_perform hwrite
      have hbetween := ih hinside.1 hwrites
      have hsize := records.carry_length hinside.1
      have hcut : between.carry write.offset + write.length ≤ between.carry text.length :=
        records.carry_add_le hlength hinside.2 hspared fun earlier hmem =>
          Or.inl (hinside.1 earlier hmem)
      have hsplice : (buffer.text.length : Int) = between.text.length + write.growth := by
        rw [text_of_perform hwrite, Text.length_splice _ hnonneg (by omega) (by omega),
          Write.growth]
        omega
      calc buffer.carry text.length
          = text.length + ((writes ++ [write]).map Write.growth).sum := hall
        _ = between.carry text.length + write.growth := by
            rw [hsize, List.map_append, List.sum_append, List.map_singleton, List.sum_singleton,
              Int.add_assoc]
        _ = buffer.text.length := by rw [hbetween, hsplice]

/-- Where a write is made, its range lies inside the text as it is. -/
theorem carry_add_le_length (hinside : ∀ other ∈ writes ++ [write], other.Inside text.length)
    (hwrites : performAll { text } writes = .ok buffer)
    (hwrite : write.perform buffer = .ok after) :
    buffer.carry write.offset + write.length ≤ buffer.text.length := by
  rw [List.forall_mem_append, List.forall_mem_singleton] at hinside
  have records := records_of_performAll hwrites
  obtain ⟨hlength, -, hspared⟩ := records.spared_of_perform hwrite
  rw [← carry_length_of_performAll hinside.1 hwrites]
  apply records.carry_add_le hlength hinside.2 hspared
  intro earlier hmem
  exact Or.inl (hinside.1 earlier hmem)

/-- One more write carries a stretch along that it does not touch, and no earlier write. -/
theorem Records.holdsAt_carry_perform (records : buffer.Records writes)
    (hperform : write.perform buffer = .ok after) {offset : Int} {content : Text}
    (hspared : ∀ other ∈ writes ++ [write], other.offset + other.length ≤ offset ∨
      offset < other.offset ∧ offset + content.length ≤ other.offset)
    (hholds : buffer.text.HoldsAt (buffer.carry offset) content) :
    after.text.HoldsAt (after.carry offset) content := by
  obtain ⟨hlength, -, hclear⟩ := records.spared_of_perform hperform
  have hkept : ∀ other ∈ writes ++ [write], ¬ other.Removes offset := by
    intro other hmem hremoves
    have hother := hspared other hmem
    rw [Write.Removes] at hremoves
    omega
  have hcarried := (records.perform hperform).carry_eq_of_kept hkept
  have hearlier := records.carry_eq_of_kept (List.forall_mem_append.mp hkept).1
  rw [grown_append, grown_singleton] at hcarried
  rw [List.forall_mem_append, List.forall_mem_singleton] at hspared
  rcases hspared.2 with hfront | ⟨hlt, hback⟩
  · -- the cut is in front of the stretch
    have hcut : buffer.carry write.offset + write.length ≤ buffer.carry offset := by
      refine records.carry_add_le hlength hfront hclear fun earlier hmem => ?_
      have hother := hspared.1 earlier hmem
      omega
    have hplace : after.carry offset = buffer.carry offset + write.growth := by
      rw [if_pos (decide_eq_true (by omega))] at hcarried
      omega
    rw [hplace]
    exact records.holdsAt_front hperform hholds hcut
  · -- the cut is behind the stretch
    have hcut : buffer.carry offset + content.length ≤ buffer.carry write.offset := by
      refine records.carry_add_le (Int.natCast_nonneg _) hback ?_ ?_
      · intro earlier hmem
        have hother := hspared.1 earlier hmem
        omega
      · intro earlier hmem
        have hother := hclear earlier hmem
        omega
    have hplace : after.carry offset = buffer.carry offset := by
      rw [if_neg (by simpa using hlt)] at hcarried
      omega
    rw [hplace]
    exact records.holdsAt_back hperform hholds hcut

/-- **Kept characters.**  A stretch of the text that no write touches stands where its offset is
carried. -/
theorem holdsAt_carry (hperform : performAll { text } writes = .ok buffer) {offset length : Nat}
    (hstop : offset + length ≤ text.length)
    (hspared : ∀ write ∈ writes, write.offset + write.length ≤ offset ∨
      (offset : Int) < write.offset ∧ (offset + length : Nat) ≤ write.offset) :
    buffer.text.HoldsAt (buffer.carry offset) ((text.take (offset + length)).drop offset) := by
  induction writes using List.reverseRecOn generalizing buffer with
  | nil =>
      cases hperform
      have hcarry : carry { text } offset = offset := History.carry_empty offset
      rw [hcarry]
      exact text.holdsAt_take_drop hstop
  | append_singleton writes write ih =>
      obtain ⟨between, hwrites, hwrite⟩ := performAll_concat.mp hperform
      have hbetween := ih hwrites (List.forall_mem_append.mp hspared).1
      refine (records_of_performAll hwrites).holdsAt_carry_perform hwrite ?_ hbetween
      rw [Text.length_take_drop hstop]
      exact hspared

theorem holdsAt_carry_of_kept (hperform : performAll { text } writes = .ok buffer) {offset : Nat}
    {c : CodePoint} (hc : text[offset]? = some c)
    (hkept : ∀ write ∈ writes, ¬ write.Removes offset) :
    buffer.text.HoldsAt (buffer.carry offset) [c] := by
  obtain ⟨hlt, -⟩ := List.getElem?_eq_some_iff.mp hc
  have hone : (text.take (offset + 1)).drop offset = [c] := by
    rw [List.take_add_one, hc, List.drop_append_of_le_length (by rw [List.length_take]; omega),
      List.drop_eq_nil_of_le (by rw [List.length_take]; omega)]
    rfl
  rw [← hone]
  apply holdsAt_carry hperform hlt
  intro write hmem
  have hnot := hkept write hmem
  rw [Write.Removes] at hnot
  omega

/-- **Carried offsets and the text agree.**  Whatever writes inside the text a buffer has
accepted, in whatever order of places and with insertions at the start of ranges that were
replaced before: offsets of characters that no write removes keep their order and stay inside the
text, each leads to its character, and the end of the text leads to the end. -/
theorem carry_matches_text (hinside : ∀ write ∈ writes, write.Inside text.length)
    (hperform : performAll { text } writes = .ok buffer) :
    buffer.carry text.length = buffer.text.length ∧
      ∀ first second : Nat, first < second → second ≤ text.length →
        (∀ write ∈ writes, ¬ write.Removes first ∧ ¬ write.Removes second) →
          0 ≤ buffer.carry first ∧ buffer.carry first < buffer.carry second ∧
            buffer.carry second ≤ buffer.text.length ∧
            ∀ offset ∈ [first, second], ∀ c, text[offset]? = some c →
              Text.pick? buffer.text (buffer.carry offset) = some c := by
  have hend := carry_length_of_performAll hinside hperform
  have records := records_of_performAll hperform
  refine ⟨hend, ?_⟩
  intro first second hlt hle hkept
  have hfirst : ∀ write ∈ writes,
      write.offset + write.length ≤ (first : Int) ∨ (first : Int) < write.offset := by
    intro write hmem
    have hnot := (hkept write hmem).1
    rw [Write.Removes] at hnot
    omega
  have hsecond : ∀ write ∈ writes,
      write.offset + write.length ≤ (second : Int) ∨ (second : Int) < write.offset := by
    intro write hmem
    have hnot := (hkept write hmem).2
    rw [Write.Removes] at hnot
    omega
  have hstart : 0 ≤ buffer.carry first := by
    apply records.carry_nonneg (Int.natCast_nonneg first)
    intro write hmem
    have hwrite := hfirst write hmem
    omega
  have hdistance : buffer.carry first + 1 ≤ buffer.carry second := by
    apply records.carry_add_le (by omega) (by omega)
    · intro write hmem
      have hwrite := hfirst write hmem
      omega
    · intro write hmem
      have hwrite := hsecond write hmem
      omega
  have hstop : buffer.carry second + 0 ≤ buffer.carry text.length := by
    apply records.carry_add_le (Int.le_refl 0) (by omega)
    · intro write hmem
      have hwrite := hsecond write hmem
      omega
    · intro write hmem
      exact Or.inl (hinside write hmem)
  refine ⟨hstart, by omega, by omega, ?_⟩
  intro offset hoffset c hc
  refine (holdsAt_carry_of_kept hperform hc fun write hmem => ?_).pick?_eq
  rcases List.mem_cons.mp hoffset with rfl | hoffset
  · exact (hkept write hmem).1
  · rw [List.mem_singleton.mp hoffset]
    exact (hkept write hmem).2

/-- Insertions at the start of a range that has grown and of one that was removed: the first goes
into what stands in place of the range, and all characters around are found. -/
theorem carry_matches_text_four :
    ∃ (writes : List Write) (buffer : Buffer), writes.length = 4 ∧
      (∀ write ∈ writes, write.Inside 6) ∧
      performAll { text := "abcdef" } writes = .ok buffer ∧ buffer.text = "aXiYZdjf" ∧
      (∀ write ∈ writes, ¬ write.Removes 3 ∧ ¬ write.Removes 5) ∧
      buffer.carry 3 < buffer.carry 5 ∧
      Text.pick? buffer.text (buffer.carry 3) = some (.char 'd') ∧
      Text.pick? buffer.text (buffer.carry 5) = some (.char 'f') := by
  let writes : List Write := [.replace 1 2 "XYZ", .insert 1 "i", .delete 4 1, .insert 4 "j"]
  have hinside : ∀ write ∈ writes, write.Inside 6 := by decide
  have hkept : ∀ write ∈ writes, ¬ write.Removes 3 ∧ ¬ write.Removes 5 := by decide
  refine ⟨writes, _, rfl, hinside, rfl, by decide, hkept, ?_⟩
  obtain ⟨-, hmatches⟩ := @carry_matches_text "abcdef" _ writes hinside rfl
  obtain ⟨-, hlt, -, hcharacters⟩ := hmatches 3 5 (by decide) (by decide) hkept
  exact ⟨hlt, hcharacters 3 (by decide) _ (by decide), hcharacters 5 (by decide) _ (by decide)⟩

end Buffer

end SyntaxRepair
