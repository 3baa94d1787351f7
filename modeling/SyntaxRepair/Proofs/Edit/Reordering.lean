import SyntaxRepair.Proofs.Edit.Carrying
import Mathlib.Data.List.Pairwise

/-!
# Writes in another order

Writes whose ranges do not meet are accepted in every order.  The text they leave does not depend
on the order but for one case: an insertion at the start of a range that grows.  Made first, it
stands in front of what replaces the range; made afterwards, it stands behind as many of the new
characters as the range has grown by.

## Strategy

Only two neighbouring writes are compared.  Behind the same earlier writes they leave the same text
in both orders exactly if they commute (`Buffer.text_eq_iff_commutes`), and every reordering is
made of such exchanges and of one more last write, which finds the same text and is carried to the
same place (`Buffer.text_eq_of_perm`).
-/

namespace SyntaxRepair

open History (shift)

theorem Range.meets_comm (range earlier : Range) : range.meets earlier = earlier.meets range := by
  unfold meets
  by_cases hrange : range.start = range.stop
  · by_cases hearlier : earlier.start = earlier.stop
    · rw [if_pos ⟨hrange, hearlier⟩, if_pos ⟨hearlier, hrange⟩]
    · rw [if_neg (fun h => hearlier h.2), if_pos hrange, if_neg (fun h => hearlier h.1),
        if_neg hearlier, if_pos hrange]
  · by_cases hearlier : earlier.start = earlier.stop
    · rw [if_neg (fun h => hrange h.1), if_neg hrange, if_pos hearlier,
        if_neg (fun h => hrange h.2), if_pos hearlier]
    · rw [if_neg (fun h => hrange h.1), if_neg hrange, if_neg hearlier,
        if_neg (fun h => hrange h.2), if_neg hearlier, if_neg hrange, Bool.and_comm]

/-! ## One more edit -/

section

variable {edit : Edit} {edits : List Edit} {offset : Int}

theorem shift_insert_of_lt (hlt : edit.offset < offset) :
    shift offset (Anchor.insert Edit.toAnchor edit edits) = shift offset edits + edit.delta := by
  induction edits with
  | nil =>
      simp only [Anchor.insert, shift]
      rw [if_neg (by omega), if_neg (by omega), Int.add_comm]
  | cons next rest ih =>
      unfold Anchor.insert
      split
      · rw [shift, if_neg (by omega), if_neg (by omega), Int.add_comm]
      · rename_i hbehind
        unfold Anchor.Before at hbehind
        rw [shift, shift, ih, if_neg (by omega), if_neg (by omega), if_neg (by omega),
          if_neg (by omega)]
        omega

theorem shift_insert_of_gt (hgt : offset < edit.offset) :
    shift offset (Anchor.insert Edit.toAnchor edit edits) = shift offset edits := by
  induction edits with
  | nil =>
      simp only [Anchor.insert, shift]
      rw [if_pos hgt]
  | cons next rest ih =>
      unfold Anchor.insert
      split
      · rename_i hbefore
        unfold Anchor.Before at hbefore
        have hnext : shift offset (next :: rest) = 0 := by
          rw [shift, if_pos (by omega)]
        rw [hnext, shift, if_pos hgt]
      · rw [shift, shift, ih]

/-- The only edit at an offset moves it by what it adds, if it adds anything. -/
theorem shift_insert_of_eq (heq : edit.offset = offset)
    (hnone : ∀ other ∈ edits, other.offset ≠ offset) :
    shift offset (Anchor.insert Edit.toAnchor edit edits) =
      shift offset edits + max 0 edit.delta := by
  induction edits with
  | nil =>
      simp only [Anchor.insert, shift]
      rw [if_neg (by omega)]
      split <;> omega
  | cons next rest ih =>
      rw [List.forall_mem_cons] at hnone
      unfold Anchor.insert
      split
      · rename_i hbefore
        unfold Anchor.Before at hbefore
        have hnext : shift offset (next :: rest) = 0 := by
          rw [shift, if_pos (by omega)]
        rw [shift, hnext, if_neg (by omega)]
        split <;> omega
      · rename_i hbehind
        unfold Anchor.Before at hbehind
        rw [shift, shift, ih hnone.2, if_neg (by omega), if_neg (by omega), if_neg (by omega),
          if_neg (by omega)]
        omega

end

/-! ## Writes that may be exchanged -/

namespace Write

variable {first second : Write}

/-- Writes whose ranges do not meet, and that do not both insert at one place. -/
def Apart (first second : Write) : Prop :=
  second.range.meets first.range = false ∧
    (first.length = 0 → second.length = 0 → first.offset ≠ second.offset)

instance (first second : Write) : Decidable (Apart first second) :=
  inferInstanceAs (Decidable (_ ∧ (_ → _ → _)))

/-- What a write leaves in front of the place where an insertion at its offset would be carried. -/
def lead (write : Write) : Text :=
  write.inserted.take (write.inserted.length - write.length.toNat)

/-- An insertion that may be made at the start of a range before it is replaced and afterwards. -/
def Yields (point block : Write) : Prop :=
  point.length = 0 → 0 < block.length → point.offset = block.offset →
    point.inserted ++ block.lead = block.lead ++ point.inserted

instance (point block : Write) : Decidable (Yields point block) :=
  inferInstanceAs (Decidable (_ → _ → _ → _))

/-- Two writes that leave the same text in both orders. -/
def Commutes (first second : Write) : Prop := first.Yields second ∧ second.Yields first

instance (first second : Write) : Decidable (Commutes first second) :=
  inferInstanceAs (Decidable (_ ∧ _))

theorem Apart.symm (hapart : Apart first second) : Apart second first := by
  refine ⟨?_, fun hsecond hfirst hsame => hapart.2 hfirst hsecond hsame.symm⟩
  rw [Range.meets_comm]
  exact hapart.1

instance : Std.Symm Apart := ⟨fun _ _ => Apart.symm⟩

theorem Commutes.symm (hcommutes : Commutes first second) : Commutes second first :=
  ⟨hcommutes.2, hcommutes.1⟩

/-- Of two writes at one place one is an insertion and the other is not. -/
theorem Apart.length_of_eq (hapart : Apart first second) (hfirst : 0 ≤ first.length)
    (hsecond : 0 ≤ second.length) (hsame : first.offset = second.offset) :
    first.length = 0 ∧ 0 < second.length ∨ second.length = 0 ∧ 0 < first.length := by
  have hclear := stop_le_or_stop_le hfirst hsecond hapart.1
  by_cases hempty : first.length = 0
  · by_cases hempty' : second.length = 0
    · exact absurd hsame (hapart.2 hempty hempty')
    · left
      omega
  · right
    omega

theorem length_lead (write : Write) (hlength : 0 ≤ write.length) :
    (write.lead.length : Int) = max 0 write.growth := by
  rw [lead, List.length_take, growth]
  omega

theorem yields_iff {point block : Write} (hempty : point.length = 0) (hpositive : 0 < block.length)
    (hsame : point.offset = block.offset) :
    point.Yields block ↔ point.inserted ++ block.lead = block.lead ++ point.inserted :=
  ⟨fun hyields => hyields hempty hpositive hsame, fun heq _ _ _ => heq⟩

/-- An insertion and a range at one place commute if the insertion yields. -/
theorem commutes_iff_of_insertion {point block : Write} (hempty : point.length = 0)
    (hpositive : 0 < block.length) (hsame : point.offset = block.offset) :
    point.Commutes block ↔ point.inserted ++ block.lead = block.lead ++ point.inserted := by
  rw [Commutes, yields_iff hempty hpositive hsame, and_iff_left]
  intro hnothing
  omega

theorem commutes_of_ne (hne : first.offset ≠ second.offset) : first.Commutes second :=
  ⟨fun _ _ hsame => absurd hsame hne, fun _ _ hsame => absurd hsame.symm hne⟩

theorem commutes_comm : first.Commutes second ↔ second.Commutes first :=
  ⟨Commutes.symm, Commutes.symm⟩

/-- A range that does not grow leaves every insertion in front of it. -/
theorem yields_of_growth_le {point block : Write} (hgrowth : block.growth ≤ 0) :
    point.Yields block := by
  intro _ _ _
  have hlead : block.lead = [] := by
    rw [growth] at hgrowth
    rw [lead, List.take_eq_nil_iff]
    omega
  rw [hlead, List.append_nil, List.nil_append]

end Write

/-- Writes in a text of `size` characters, any two of them apart. -/
structure Scattered (size : Nat) (writes : List Write) : Prop where
  nonneg : ∀ write ∈ writes, 0 ≤ write.offset ∧ 0 ≤ write.length
  inside : ∀ write ∈ writes, write.Inside size
  apart : writes.Pairwise Write.Apart

instance (size : Nat) (writes : List Write) : Decidable (Scattered size writes) :=
  decidable_of_iff ((∀ write ∈ writes, 0 ≤ write.offset ∧ 0 ≤ write.length) ∧
      (∀ write ∈ writes, write.Inside size) ∧ writes.Pairwise Write.Apart)
    ⟨fun ⟨hnonneg, hinside, hapart⟩ => ⟨hnonneg, hinside, hapart⟩,
      fun hscattered => ⟨hscattered.nonneg, hscattered.inside, hscattered.apart⟩⟩

namespace Scattered

variable {size : Nat} {writes first second : List Write} {write : Write}

theorem perm (hscattered : Scattered size first) (hperm : first.Perm second) :
    Scattered size second := by
  refine ⟨?_, ?_, ?_⟩
  · intro write hmem
    exact hscattered.nonneg write (hperm.mem_iff.mpr hmem)
  · intro write hmem
    exact hscattered.inside write (hperm.mem_iff.mpr hmem)
  · exact (hperm.pairwise_iff Write.Apart.symm).mp hscattered.apart

theorem sublist (hscattered : Scattered size second) (hsublist : first.Sublist second) :
    Scattered size first :=
  ⟨fun write hmem => hscattered.nonneg write (hsublist.mem hmem),
    fun write hmem => hscattered.inside write (hsublist.mem hmem),
    hscattered.apart.sublist hsublist⟩

theorem init (hscattered : Scattered size (first ++ second)) : Scattered size first :=
  hscattered.sublist (List.sublist_append_left first second)

theorem apart_last (hscattered : Scattered size (writes ++ [write])) {earlier : Write}
    (hmem : earlier ∈ writes) : earlier.Apart write :=
  (List.pairwise_append.mp hscattered.apart).2.2 earlier hmem write (List.mem_singleton_self write)

theorem nonneg_last (hscattered : Scattered size (writes ++ [write])) :
    0 ≤ write.offset ∧ 0 ≤ write.length :=
  hscattered.nonneg write (List.mem_append_right _ (List.mem_singleton_self write))

/-- The earlier writes at the place of the last one all add to the text, or none of them does:
there is but one, or they are insertions. -/
theorem uniform (hscattered : Scattered size (writes ++ [write])) :
    (∀ earlier ∈ writes, earlier.offset = write.offset → 0 ≤ earlier.growth) ∨
      (∀ earlier ∈ writes, earlier.offset = write.offset → earlier.growth ≤ 0) := by
  by_cases hshrinks : ∃ earlier ∈ writes, earlier.offset = write.offset ∧ earlier.growth < 0
  · right
    obtain ⟨shrinking, hmem, hoffset, hnegative⟩ := hshrinks
    have hpositive : 0 < shrinking.length := by
      rw [Write.growth] at hnegative
      omega
    intro earlier hearlier hsame
    by_cases heq : earlier = shrinking
    · rw [heq]
      exact Int.le_of_lt hnegative
    · have hnonneg := (hscattered.init.nonneg earlier hearlier).2
      have hpair := hscattered.init.apart.forall hearlier hmem heq
      -- an insertion there would stand at one place with the last write
      have hempty : earlier.length = 0 := by
        have hcase := hpair.length_of_eq hnonneg (Int.le_of_lt hpositive) (hsame.trans hoffset.symm)
        omega
      have hlast : write.length = 0 := by
        have hcase := (hscattered.apart_last hmem).length_of_eq (Int.le_of_lt hpositive)
          hscattered.nonneg_last.2 hoffset
        omega
      exact absurd hsame ((hscattered.apart_last hearlier).2 hempty hlast)
  · left
    intro earlier hearlier hsame
    by_contra hnegative
    exact hshrinks ⟨earlier, hearlier, hsame, Int.not_le.mp hnegative⟩

end Scattered

/-! ## Two neighbouring writes -/

theorem grown_perm {reached : Int → Bool} {first second : List Write} (hperm : first.Perm second) :
    grown reached first = grown reached second :=
  ((hperm.filter _).map Write.growth).sum_eq

namespace Buffer

variable {text : Text} {buffer before after : Buffer} {writes rest : List Write} {write : Write}
  {offset : Int}

/-- The edit that the history keeps of an accepted write. -/
theorem history_of_perform (hperform : write.perform buffer = .ok after) :
    after.history = buffer.history.add write.offset write.growth := by
  rw [Write.perform_eq_replace, replace_eq_ok_iff] at hperform
  obtain ⟨-, -, -, rfl⟩ := hperform
  rfl

theorem carry_of_perform (hperform : write.perform buffer = .ok after) (offset : Int) :
    after.carry offset = offset + shift offset (Anchor.insert Edit.toAnchor
      (buffer.history.nextEdit write.offset write.growth) buffer.history.edits) := by
  rw [carry, history_of_perform hperform]
  rfl

theorem carry_of_perform_lt (hperform : write.perform buffer = .ok after)
    (hlt : write.offset < offset) : after.carry offset = buffer.carry offset + write.growth := by
  have hshift := @shift_insert_of_lt (buffer.history.nextEdit write.offset write.growth)
    buffer.history.edits offset hlt
  calc after.carry offset
      = offset + (shift offset buffer.history.edits + write.growth) := by
        rw [carry_of_perform hperform, hshift]
        rfl
    _ = buffer.carry offset + write.growth := (Int.add_assoc ..).symm

theorem carry_of_perform_gt (hperform : write.perform buffer = .ok after)
    (hgt : offset < write.offset) : after.carry offset = buffer.carry offset := by
  have hshift := @shift_insert_of_gt (buffer.history.nextEdit write.offset write.growth)
    buffer.history.edits offset hgt
  rw [carry_of_perform hperform, hshift]
  rfl

theorem Records.carry_of_perform_eq (records : buffer.Records writes)
    (hperform : write.perform buffer = .ok after)
    (hnone : ∀ earlier ∈ writes, earlier.offset ≠ write.offset) :
    after.carry write.offset = buffer.carry write.offset + max 0 write.growth := by
  have hedits : ∀ edit ∈ buffer.history.edits, edit.offset ≠ write.offset := by
    intro edit hmem
    rw [records.edits_eq, List.mem_map] at hmem
    obtain ⟨change, hchange, rfl⟩ := hmem
    obtain ⟨-, earlier, hearlier, hoffset, -, -⟩ := exists_write_of_mem_arrange hchange
    intro hsame
    exact hnone earlier hearlier (hoffset.symm.trans hsame)
  have hshift := @shift_insert_of_eq (buffer.history.nextEdit write.offset write.growth)
    buffer.history.edits write.offset rfl hedits
  calc after.carry write.offset
      = write.offset + (shift write.offset buffer.history.edits + max 0 write.growth) := by
        rw [carry_of_perform hperform, hshift]
        rfl
    _ = buffer.carry write.offset + max 0 write.growth := (Int.add_assoc ..).symm

section

variable {front back point block : Write} {afterFront afterBack first second : Buffer}

/-- Two writes one behind the other leave the same text in both orders. -/
theorem text_eq_of_lt (hscattered : Scattered text.length (rest ++ [back]))
    (hbefore : performAll { text } rest = .ok before)
    (hfront : front.perform before = .ok afterFront) (hfirst : back.perform afterFront = .ok first)
    (hback : back.perform before = .ok afterBack) (hsecond : front.perform afterBack = .ok second)
    (hle : front.offset + front.length ≤ back.offset) (hlt : front.offset < back.offset) :
    first.text = second.text := by
  have records := records_of_performAll hbefore
  obtain ⟨hlength, hstart, hfrontSpared⟩ := records.spared_of_perform hfront
  obtain ⟨hwidth, -, hbackSpared⟩ := records.spared_of_perform hback
  have hdistance : before.carry front.offset + front.length ≤ before.carry back.offset := by
    apply records.carry_add_le hlength hle hfrontSpared
    intro earlier hmem
    have hspared := hbackSpared earlier hmem
    omega
  have hstop := carry_add_le_length hscattered.inside hbefore hback
  have hfrontCarry := carry_of_perform_gt hback hlt
  have hbackCarry := carry_of_perform_lt hfront hlt
  rw [text_of_perform hfirst, text_of_perform hsecond, text_of_perform hfront,
    text_of_perform hback, hbackCarry, hfrontCarry]
  exact Text.splice_comm before.text hstart hlength hdistance hwidth hstop

/-- An insertion at the start of a range that is replaced: made first, it stands in front of what
replaces the range, and made afterwards behind the lead. -/
theorem text_eq_iff_of_insertion (hscattered : Scattered text.length (rest ++ [block]))
    (hapart : ∀ earlier ∈ rest, earlier.offset ≠ block.offset)
    (hbefore : performAll { text } rest = .ok before)
    (hpoint : point.perform before = .ok afterFront) (hfirst : block.perform afterFront = .ok first)
    (hblock : block.perform before = .ok afterBack) (hsecond : point.perform afterBack = .ok second)
    (hempty : point.length = 0) (hsame : point.offset = block.offset) :
    first.text = second.text ↔ point.inserted ++ block.lead = block.lead ++ point.inserted := by
  have records := records_of_performAll hbefore
  obtain ⟨hlength, hstart, -⟩ := records.spared_of_perform hblock
  have hstop := carry_add_le_length hscattered.inside hbefore hblock
  obtain ⟨front, removed, back, htext, hfront, hremoved⟩ :=
    before.text.exists_eq_append hstart hlength hstop
  obtain ⟨tail, htail⟩ : ∃ tail, block.inserted = block.lead ++ tail :=
    ⟨_, (List.take_append_drop _ block.inserted).symm⟩
  have hpointCarry : afterFront.carry block.offset =
      before.carry block.offset + point.inserted.length := by
    have hcarry := records.carry_of_perform_eq hpoint (by rw [hsame]; exact hapart)
    rw [hsame, Write.growth, hempty] at hcarry
    omega
  have hblockCarry : afterBack.carry block.offset =
      before.carry block.offset + block.lead.length := by
    rw [records.carry_of_perform_eq hblock hapart, block.length_lead hlength]
  have hafterFront : afterFront.text = front ++ point.inserted ++ (removed ++ back) := by
    rw [text_of_perform hpoint, hsame, hempty]
    exact @Text.splice_of_append _ _ _ _ [] _ _ (by simp [htext]) hfront rfl
  have hafterBack : afterBack.text = front ++ block.inserted ++ back := by
    rw [text_of_perform hblock]
    exact Text.splice_of_append htext hfront hremoved
  have hfirstText : first.text = front ++ (point.inserted ++ block.lead) ++ (tail ++ back) := by
    have hplace : ((front ++ point.inserted).length : Int) =
        before.carry block.offset + point.inserted.length := by
      rw [List.length_append]
      omega
    have hcut := @Text.splice_of_append afterFront.text block.inserted _ _ _ back _
      (by rw [hafterFront]; simp only [List.append_assoc]) hplace hremoved
    rw [text_of_perform hfirst, hpointCarry, hcut, htail]
    simp only [List.append_assoc]
  have hsecondText : second.text = front ++ (block.lead ++ point.inserted) ++ (tail ++ back) := by
    have hplace : ((front ++ block.lead).length : Int) =
        before.carry block.offset + block.lead.length := by
      rw [List.length_append]
      omega
    have hcut := @Text.splice_of_append afterBack.text point.inserted _ (front ++ block.lead) []
      (tail ++ back) 0 (by rw [hafterBack, htail]; simp) hplace rfl
    rw [text_of_perform hsecond, hsame, hblockCarry, hempty, hcut]
    simp only [List.append_assoc]
  rw [hfirstText, hsecondText, List.append_left_inj, List.append_right_inj]

/-- **Two neighbours.**  Behind the same earlier writes two writes leave the same text in both
orders exactly if they commute. -/
theorem text_eq_iff_commutes (hscattered : Scattered text.length (rest ++ [front, back]))
    (hbefore : performAll { text } rest = .ok before)
    (hfront : front.perform before = .ok afterFront) (hfirst : back.perform afterFront = .ok first)
    (hback : back.perform before = .ok afterBack)
    (hsecond : front.perform afterBack = .ok second) :
    first.text = second.text ↔ front.Commutes back := by
  have hwithFront : Scattered text.length (rest ++ [front]) :=
    hscattered.sublist ((List.Sublist.refl rest).append (by simp))
  have hwithBack : Scattered text.length (rest ++ [back]) :=
    hscattered.sublist ((List.Sublist.refl rest).append (by simp))
  have hapart : front.Apart back := by
    have hpair := (List.pairwise_append.mp hscattered.apart).2.1
    exact List.rel_of_pairwise_cons hpair (List.mem_singleton_self back)
  have hlength := hwithFront.nonneg_last.2
  have hwidth := hwithBack.nonneg_last.2
  have hclear := Write.stop_le_or_stop_le hlength hwidth hapart.1
  rcases Int.lt_trichotomy front.offset back.offset with hlt | hsame | hgt
  · have htexts := text_eq_of_lt hwithBack hbefore hfront hfirst hback hsecond (by omega) hlt
    exact iff_of_true htexts (Write.commutes_of_ne (Int.ne_of_lt hlt))
  · -- the earlier writes keep away from a place with an insertion and a range
    have haway : ∀ earlier ∈ rest, earlier.offset ≠ back.offset := by
      intro earlier hmem hoffset
      have hearlier := (hwithFront.init.nonneg earlier hmem).2
      have hcase := hapart.length_of_eq hlength hwidth hsame
      have hcaseFront := (hwithFront.apart_last hmem).length_of_eq hearlier hlength
        (hoffset.trans hsame.symm)
      have hcaseBack := (hwithBack.apart_last hmem).length_of_eq hearlier hwidth hoffset
      omega
    rcases hapart.length_of_eq hlength hwidth hsame with ⟨hempty, hpositive⟩ | ⟨hempty, hpositive⟩
    · rw [text_eq_iff_of_insertion hwithBack haway hbefore hfront hfirst hback hsecond hempty hsame,
        Write.commutes_iff_of_insertion hempty hpositive hsame]
    · rw [eq_comm, text_eq_iff_of_insertion hwithFront (hsame ▸ haway) hbefore hback hsecond hfront
        hfirst hempty hsame.symm, Write.commutes_comm,
        Write.commutes_iff_of_insertion hempty hpositive hsame.symm]
  · have htexts := text_eq_of_lt hwithFront hbefore hback hsecond hfront hfirst (by omega) hgt
    exact iff_of_true htexts.symm (Write.commutes_of_ne (Int.ne_of_gt hgt))

end

/-! ## All orders -/

/-- Scattered writes are accepted. -/
theorem exists_performAll (hscattered : Scattered text.length writes) :
    ∃ buffer, performAll { text } writes = .ok buffer := by
  induction writes using List.reverseRecOn with
  | nil => exact ⟨{ text }, rfl⟩
  | append_singleton writes write ih =>
      obtain ⟨before, hbefore⟩ := ih hscattered.init
      obtain ⟨hoffset, hlength⟩ := hscattered.nonneg_last
      have hmeets : ∀ range ∈ before.written, write.range.meets range = false := by
        intro range hmem
        rw [(records_of_performAll hbefore).written_eq, List.mem_map] at hmem
        obtain ⟨earlier, hearlier, rfl⟩ := hmem
        exact (hscattered.apart_last hearlier).1
      obtain ⟨after, hwrite⟩ : ∃ after, write.perform before = .ok after := by
        rw [Write.perform_eq_replace]
        exact ⟨_, replace_eq_ok_iff.mpr ⟨hoffset, hlength, hmeets, rfl⟩⟩
      exact ⟨after, performAll_concat.mpr ⟨before, hbefore, hwrite⟩⟩

/-- After the same writes in another order one more scattered write is carried to the same
place. -/
theorem carry_eq_of_perm {first second : List Write} {firstBuffer secondBuffer : Buffer}
    (hscattered : Scattered text.length (first ++ [write])) (hperm : first.Perm second)
    (hfirst : performAll { text } first = .ok firstBuffer)
    (hsecond : performAll { text } second = .ok secondBuffer) :
    firstBuffer.carry write.offset = secondBuffer.carry write.offset := by
  have records := records_of_performAll hfirst
  have records' := records_of_performAll hsecond
  rcases hscattered.uniform with hgrows | hshrinks
  · have hgrows' : ∀ earlier ∈ second, earlier.offset = write.offset → 0 ≤ earlier.growth := by
      intro earlier hmem
      exact hgrows earlier (hperm.mem_iff.mpr hmem)
    calc firstBuffer.carry write.offset
        = write.offset + grown (· ≤ write.offset) first := records.carry_eq_of_nonneg hgrows
      _ = write.offset + grown (· ≤ write.offset) second := by rw [grown_perm hperm]
      _ = secondBuffer.carry write.offset := (records'.carry_eq_of_nonneg hgrows').symm
  · have hshrinks' : ∀ earlier ∈ second, earlier.offset = write.offset → earlier.growth ≤ 0 := by
      intro earlier hmem
      exact hshrinks earlier (hperm.mem_iff.mpr hmem)
    calc firstBuffer.carry write.offset
        = write.offset + grown (· < write.offset) first := records.carry_eq_of_nonpos hshrinks
      _ = write.offset + grown (· < write.offset) second := by rw [grown_perm hperm]
      _ = secondBuffer.carry write.offset := (records'.carry_eq_of_nonpos hshrinks').symm

/-- The last two of some writes may be exchanged, if they commute. -/
theorem text_eq_of_swap {front back : Write} {first second : Buffer}
    (hscattered : Scattered text.length (rest ++ [front] ++ [back]))
    (hcommutes : front.Commutes back)
    (hfirst : performAll { text } (rest ++ [front] ++ [back]) = .ok first)
    (hsecond : performAll { text } (rest ++ [back] ++ [front]) = .ok second) :
    first.text = second.text := by
  obtain ⟨afterFront, hrestFront, hback⟩ := performAll_concat.mp hfirst
  obtain ⟨before, hbefore, hfront⟩ := performAll_concat.mp hrestFront
  obtain ⟨afterBack, hrestBack, hfront'⟩ := performAll_concat.mp hsecond
  obtain ⟨before', hbefore', hback'⟩ := performAll_concat.mp hrestBack
  rw [hbefore] at hbefore'
  cases hbefore'
  rw [List.append_assoc] at hscattered
  exact (text_eq_iff_commutes hscattered hbefore hfront hback hback' hfront').mpr hcommutes

/-- Writes that commute leave the same text in every order. -/
theorem text_eq_of_perm {first second : List Write} {firstBuffer secondBuffer : Buffer}
    (hperm : first.Perm second) (hscattered : Scattered text.length first)
    (hcommutes : first.Pairwise Write.Commutes)
    (hfirst : performAll { text } first = .ok firstBuffer)
    (hsecond : performAll { text } second = .ok secondBuffer) :
    firstBuffer.text = secondBuffer.text := by
  -- the last write is the head of the reversed list
  have hreverse : first.reverse.Perm second.reverse :=
    (List.reverse_perm first).trans (hperm.trans (List.reverse_perm second).symm)
  rw [← List.reverse_reverse first] at hscattered hcommutes hfirst
  rw [← List.reverse_reverse second] at hsecond
  clear hperm
  generalize first.reverse = first at *
  generalize second.reverse = second at *
  induction hreverse generalizing firstBuffer secondBuffer with
  | nil =>
      rw [hfirst] at hsecond
      cases hsecond
      rfl
  | @cons write first second hperm ih =>
      rw [List.reverse_cons] at hscattered hcommutes hfirst hsecond
      obtain ⟨before, hbefore, hwrite⟩ := performAll_concat.mp hfirst
      obtain ⟨before', hbefore', hwrite'⟩ := performAll_concat.mp hsecond
      have htexts := ih hscattered.init (List.pairwise_append.mp hcommutes).1 hbefore hbefore'
      have hreverse : first.reverse.Perm second.reverse :=
        (List.reverse_perm first).trans (hperm.trans (List.reverse_perm second).symm)
      rw [text_of_perform hwrite, text_of_perform hwrite', htexts,
        carry_eq_of_perm hscattered hreverse hbefore hbefore']
  | swap front back rest =>
      rw [List.reverse_cons, List.reverse_cons] at hscattered hcommutes hfirst hsecond
      have hlast := (List.pairwise_append.mp hcommutes).2.2
      have hpair := hlast front (List.mem_append_right _ (List.mem_singleton_self front)) back
        (List.mem_singleton_self back)
      exact text_eq_of_swap hscattered hpair hfirst hsecond
  | @trans first middle second hfirstMiddle _ ih ih' =>
      have hreverse : first.reverse.Perm middle.reverse :=
        (List.reverse_perm first).trans (hfirstMiddle.trans (List.reverse_perm middle).symm)
      have hmiddle := hscattered.perm hreverse
      obtain ⟨middleBuffer, hbetween⟩ := exists_performAll hmiddle
      have hstart := ih hscattered hcommutes hfirst hbetween
      rw [hstart]
      exact ih' hmiddle ((hreverse.pairwise_iff Write.Commutes.symm).mp hcommutes) hbetween hsecond

/-- **Orders of writes.**  Writes in a text whose ranges do not meet, and no two of which insert at
one place, are accepted in every order.  All orders leave the same text exactly if every insertion
at the start of one of the ranges yields to it, as it does wherever the range does not grow
(`Write.yields_of_growth_le`). -/
theorem performAll_text_unique_iff (hscattered : Scattered text.length writes) :
    (∀ order : List Write, order.Perm writes → ∃ buffer, performAll { text } order = .ok buffer) ∧
      ((∀ (first second : List Write) (firstBuffer secondBuffer : Buffer),
          first.Perm writes → second.Perm writes →
            performAll { text } first = .ok firstBuffer →
              performAll { text } second = .ok secondBuffer →
                firstBuffer.text = secondBuffer.text) ↔
        writes.Pairwise Write.Commutes) := by
  refine ⟨?_, ?_, ?_⟩
  · intro order hperm
    exact exists_performAll (hscattered.perm hperm.symm)
  · intro hunique
    rw [List.pairwise_iff_forall_sublist]
    intro front back hsublist
    -- the two are made last, in both orders
    obtain ⟨rest, hrest⟩ := hsublist.exists_perm_append
    have hfirst : (rest ++ [front, back]).Perm writes := (hrest.trans List.perm_append_comm).symm
    have hsecond : (rest ++ [back, front]).Perm writes :=
      ((List.Perm.swap front back []).append_left rest).trans hfirst
    obtain ⟨first, hfirstBuffer⟩ := exists_performAll (hscattered.perm hfirst.symm)
    obtain ⟨second, hsecondBuffer⟩ := exists_performAll (hscattered.perm hsecond.symm)
    have htexts := hunique _ _ first second hfirst hsecond hfirstBuffer hsecondBuffer
    rw [List.append_cons, performAll_concat] at hfirstBuffer hsecondBuffer
    obtain ⟨afterFront, hrestFront, hback⟩ := hfirstBuffer
    obtain ⟨before, hbefore, hfront⟩ := performAll_concat.mp hrestFront
    obtain ⟨afterBack, hrestBack, hfront'⟩ := hsecondBuffer
    obtain ⟨before', hbefore', hback'⟩ := performAll_concat.mp hrestBack
    rw [hbefore] at hbefore'
    cases hbefore'
    exact (text_eq_iff_commutes (hscattered.perm hfirst.symm) hbefore hfront hback hback'
      hfront').mp htexts
  · intro hcommutes first second firstBuffer secondBuffer hfirst hsecond hfirstBuffer hsecondBuffer
    exact text_eq_of_perm (hfirst.trans hsecond.symm) (hscattered.perm hfirst.symm)
      ((hfirst.pairwise_iff Write.Commutes.symm).mpr hcommutes) hfirstBuffer hsecondBuffer

/-- Insertions at the start of a range that shrinks and of one that is removed, and one at the end
of a range that grows: each of the 720 orders leaves one text. -/
theorem performAll_text_unique_iff_six :
    ∃ writes : List Write, writes.length = 6 ∧ Scattered 6 writes ∧
      ∀ (order : List Write) (buffer : Buffer), order.Perm writes →
        performAll { text := "abcdef" } order = .ok buffer → buffer.text = "pXqYZd-ef" := by
  let writes : List Write := [.replace 0 2 "X", .insert 0 "p", .delete 2 1, .insert 2 "q",
    .insert 4 "-", .replace 3 1 "YZd"]
  have hscattered : Scattered 6 writes := by decide
  have hcommutes : writes.Pairwise Write.Commutes := by decide
  refine ⟨writes, rfl, hscattered, ?_⟩
  intro order buffer hperm hperform
  have hunique := (@performAll_text_unique_iff "abcdef" writes hscattered).2.mpr hcommutes
  exact hunique order writes buffer _ hperm (List.Perm.refl writes) hperform rfl

/-- An insertion at the start of a range that has grown goes into what replaces the range. -/
theorem performAll_text_insertion_order :
    ∃ (first second : List Write) (firstBuffer secondBuffer : Buffer), Scattered 4 first ∧
      second.Perm first ∧ performAll { text := "abcd" } first = .ok firstBuffer ∧
      performAll { text := "abcd" } second = .ok secondBuffer ∧
      firstBuffer.text = "aXiYZd" ∧ secondBuffer.text = "aiXYZd" := by
  refine ⟨[.replace 1 2 "XYZ", .insert 1 "i"], [.insert 1 "i", .replace 1 2 "XYZ"], _, _,
    by decide, List.Perm.swap .., rfl, rfl, by decide, by decide⟩

end Buffer

end SyntaxRepair
