import SyntaxRepair.Proofs.Edit.Carrying

/-!
# Where writes land

What a write puts in place of its range stands behind everything that the other writes make of the
text in front of the range.  `landing` counts that: it is told by the writes alone, in whatever
order they are made.

The history of a buffer does not tell it directly.  At the start of a range that has grown an offset
is carried into what replaces the range, so the changes of that place are left out of the count
first (`Arranged.shift_elsewhere_of_gt`), and what is left keeps its distances.
-/

namespace SyntaxRepair

open History (shift)

/-! ## Changes of other places -/

namespace Arranged

variable {changes : List Change} {place offset : Int}

/-- The changes of all other places. -/
theorem elsewhere (harranged : Arranged changes) (place : Int) :
    Arranged (changes.filter fun change => change.offset ≠ place) :=
  ⟨harranged.sorted.filter _, harranged.apart.filter _, fun change hmem =>
    harranged.nonneg change (List.mem_of_mem_filter hmem)⟩

/-- Changes that begin behind an offset do not move it. -/
theorem shift_eq_zero_of_lt (hbehind : ∀ change ∈ changes, offset < change.offset) :
    shift offset (changes.map Change.edit) = 0 := by
  cases changes with
  | nil => rfl
  | cons next rest => exact shift_cons_of_lt _ (hbehind next (List.mem_cons_self ..))

/-- Offsets in front of a place are not moved by its changes. -/
theorem shift_elsewhere_of_lt (harranged : Arranged changes) (hlt : offset < place) :
    shift offset ((changes.filter fun change => change.offset ≠ place).map Change.edit) =
      shift offset (changes.map Change.edit) := by
  induction changes with
  | nil => rfl
  | cons next rest ih =>
      have hrest := ih harranged.tail
      by_cases hsame : next.offset = place
      · -- the place is reached, so what is left begins behind the offset
        have hlt' : offset < next.offset := by omega
        rw [List.filter_cons_of_neg (by simpa using hsame), List.map_cons, shift_cons_of_lt _ hlt']
        apply shift_eq_zero_of_lt
        intro change hmem
        have hle := harranged.offset_le (List.mem_of_mem_filter hmem)
        omega
      · rw [List.filter_cons_of_pos (by simpa using hsame), List.map_cons, List.map_cons, shift,
          shift, hrest]

/-- Offsets behind a place are moved by all of its changes. -/
theorem shift_elsewhere_of_gt (harranged : Arranged changes) (hgt : place < offset) :
    shift offset ((changes.filter fun change => change.offset ≠ place).map Change.edit) +
        ((changes.filter fun change => change.offset = place).map fun change =>
          change.edit.delta).sum =
      shift offset (changes.map Change.edit) := by
  induction changes with
  | nil => rfl
  | cons next rest ih =>
      have hrest := ih harranged.tail
      have hplace : next.edit.offset = next.offset := rfl
      by_cases hsame : next.offset = place
      · rw [List.filter_cons_of_neg (by simpa using hsame),
          List.filter_cons_of_pos (by simpa using hsame), List.map_cons, List.sum_cons,
          List.map_cons, shift, hplace, if_neg (by omega), if_neg (by omega), ← hrest]
        omega
      · rw [List.filter_cons_of_pos (by simpa using hsame),
          List.filter_cons_of_neg (by simpa using hsame), List.map_cons, List.map_cons, shift,
          shift, hplace, ← hrest]
        -- where the count stops, the place lies in front of all that follows
        have hnone : offset ≤ next.offset →
            (rest.filter fun change => change.offset = place) = [] := by
          intro hle
          refine List.filter_eq_nil_iff.mpr fun change hmem hchange => ?_
          have hbehind := harranged.offset_le hmem
          have hequal := of_decide_eq_true hchange
          omega
        split
        · rw [hnone (by omega)]
          rfl
        · split
          · rw [hnone (by omega)]
            rfl
          · omega

/-- Without its own changes a place is moved by all that begin in front of it. -/
theorem shift_elsewhere_self (harranged : Arranged changes) :
    shift place ((changes.filter fun change => change.offset ≠ place).map Change.edit) =
      ((changes.filter fun change => change.offset < place).map fun change =>
        change.edit.delta).sum := by
  have hnone : ∀ change ∈ changes.filter fun change => change.offset ≠ place,
      change.offset ≠ place := by
    intro change hmem
    simpa using (List.mem_filter.mp hmem).2
  have hsum := @shift_eq_sum _ place (harranged.elsewhere place) (· < place)
    (fun _ hlt => decide_eq_true hlt)
    (fun _ hlt => decide_eq_false (Int.not_lt.mpr (Int.le_of_lt hlt)))
    (fun change hmem hsame => absurd hsame (hnone change hmem))
  rw [hsum, List.filter_filter]
  refine congrArg (fun changes : List Change => (changes.map fun change => change.edit.delta).sum)
    (List.filter_congr fun change _ => ?_)
  rw [Bool.and_eq_left_iff_imp, decide_eq_true_iff, decide_eq_true_iff]
  exact Int.ne_of_lt

end Arranged

/-! ## Landing -/

/-- Where what stands at a place gets to by the writes in front of it. -/
def landing (writes : List Write) (place : Int) : Int := place + grown (· < place) writes

theorem landing_concat (writes : List Write) (write : Write) (place : Int) :
    landing (writes ++ [write]) place =
      landing writes place + if write.offset < place then write.growth else 0 := by
  have hlast : grown (· < place) [write] = if write.offset < place then write.growth else 0 := by
    simp only [grown_singleton, decide_eq_true_eq]
  calc landing (writes ++ [write]) place
      = place + (grown (· < place) writes + grown (· < place) [write]) := by
        rw [landing, grown_append]
    _ = landing writes place + grown (· < place) [write] := (Int.add_assoc ..).symm
    _ = landing writes place + if write.offset < place then write.growth else 0 := by rw [hlast]

/-- Two counts agree if they differ only in writes that leave the length as it is. -/
theorem grown_congr {reached reached' : Int → Bool} {writes : List Write}
    (hsame : ∀ write ∈ writes, reached write.offset = reached' write.offset ∨ write.growth = 0) :
    grown reached writes = grown reached' writes := by
  induction writes with
  | nil => rfl
  | cons write rest ih =>
      rw [List.forall_mem_cons] at hsame
      rw [← List.singleton_append, grown_append, grown_append, ih hsame.2, grown_singleton,
        grown_singleton]
      rcases hsame.1 with heq | hzero
      · rw [heq]
      · rw [hzero, ite_self, ite_self]

theorem grown_false (writes : List Write) : grown (fun _ => false) writes = 0 := by
  rw [grown, List.filter_false]
  rfl

/-- A write that only one of two counts takes in makes their difference. -/
theorem grown_eq_add {reached reached' : Int → Bool} {front back : List Write} {write : Write}
    (hothers : ∀ other ∈ front ++ back,
      reached other.offset = reached' other.offset ∨ other.growth = 0)
    (hreached : reached write.offset = true) (hunreached : reached' write.offset = false) :
    grown reached (front ++ write :: back) =
      grown reached' (front ++ write :: back) + write.growth := by
  rw [List.forall_mem_append] at hothers
  have hsplit : ∀ counted : Int → Bool, grown counted (front ++ write :: back) =
      grown counted front + (grown counted [write] + grown counted back) := by
    intro counted
    rw [← List.singleton_append, grown_append, grown_append]
  have hown : grown reached [write] = write.growth := by
    rw [grown_singleton, hreached, if_pos rfl]
  have hnone : grown reached' [write] = 0 := by
    rw [grown_singleton, hunreached, if_neg Bool.false_ne_true]
  calc grown reached (front ++ write :: back)
      = grown reached front + (write.growth + grown reached back) := by rw [hsplit, hown]
    _ = grown reached' front + (write.growth + grown reached' back) := by
        rw [grown_congr hothers.1, grown_congr hothers.2]
    _ = grown reached' front + (0 + grown reached' back) + write.growth := by omega
    _ = grown reached' (front ++ write :: back) + write.growth := by rw [hsplit, hnone]

/-- A write whose place no other write changes in length. -/
structure Write.Lone (writes : List Write) (write : Write) : Prop where
  mem : write ∈ writes
  positive : 0 < write.length
  idle : ∀ other ∈ writes, other.offset = write.offset → other.length = 0 → other.inserted = []

namespace Buffer

variable {buffer : Buffer} {writes : List Write} {write : Write}

namespace Records

/-- The other writes lie in front of a lone one or behind it, or do nothing at its start. -/
theorem others_of_lone (records : buffer.Records writes) (hlone : write.Lone writes) :
    ∃ front back, writes = front ++ write :: back ∧ ∀ other ∈ front ++ back,
      (other.offset + other.length ≤ write.offset ∧ other.offset < write.offset) ∨
        write.offset + write.length ≤ other.offset ∨
        other.offset = write.offset ∧ other.length = 0 ∧ other.growth = 0 := by
  obtain ⟨front, back, rfl⟩ := List.append_of_mem hlone.mem
  refine ⟨front, back, rfl, ?_⟩
  intro other hmem
  have hall : other ∈ front ++ write :: back := by
    rcases List.mem_append.mp hmem with hfront | hback
    · exact List.mem_append_left _ hfront
    · exact List.mem_append_right _ (List.mem_cons_of_mem _ hback)
  have hpositive := hlone.positive
  have hlength := (records.nonneg other hall).2
  have hclear : other.offset + other.length ≤ write.offset ∨
      write.offset + write.length ≤ other.offset := by
    have hapart := List.pairwise_append.mp records.apart
    rcases List.mem_append.mp hmem with hfront | hback
    · have hpair := hapart.2.2 other hfront write (List.mem_cons_self ..)
      have hspared := Write.stop_le_or_stop_le hlength (Int.le_of_lt hpositive) hpair
      exact hspared.symm
    · have hpair := (List.pairwise_cons.mp hapart.2.1).1 other hback
      exact Write.stop_le_or_stop_le (Int.le_of_lt hpositive) hlength hpair
  by_cases hsame : other.offset = write.offset
  · have hempty : other.length = 0 := by omega
    have hnothing := hlone.idle other hall hsame hempty
    right
    right
    refine ⟨hsame, hempty, ?_⟩
    rw [Write.growth, hnothing, hempty]
    rfl
  · rcases hclear with hfront | hback
    · left
      omega
    · right
      left
      exact hback

theorem other_of_lone (records : buffer.Records writes) (hlone : write.Lone writes) {other : Write}
    (hmem : other ∈ writes) (hne : other ≠ write) :
    (other.offset + other.length ≤ write.offset ∧ other.offset < write.offset) ∨
      write.offset + write.length ≤ other.offset ∨
      other.offset = write.offset ∧ other.length = 0 ∧ other.growth = 0 := by
  obtain ⟨front, back, rfl, hothers⟩ := records.others_of_lone hlone
  apply hothers
  rw [List.mem_append, List.mem_cons] at hmem
  rw [List.mem_append]
  exact hmem.imp_right fun h => h.resolve_left hne

/-- The two ends of the range of a lone write get as far apart as what replaces the range is
long. -/
theorem landing_stop (records : buffer.Records writes) (hlone : write.Lone writes) :
    landing writes (write.offset + write.length) =
      landing writes write.offset + write.inserted.length := by
  obtain ⟨front, back, hsplit, hothers⟩ := records.others_of_lone hlone
  have hpositive := hlone.positive
  have hgrown := @grown_eq_add (· < write.offset + write.length) (· < write.offset) front back write
    (by
      intro other hmem
      have hother := hothers other hmem
      rw [decide_eq_decide]
      omega)
    (decide_eq_true (by omega)) (decide_eq_false (by omega))
  rw [← hsplit] at hgrown
  have hgrowth : write.growth = write.inserted.length - write.length := rfl
  calc landing writes (write.offset + write.length)
      = write.offset + write.length + (grown (· < write.offset) writes + write.growth) := by
        rw [landing, hgrown]
    _ = write.offset + grown (· < write.offset) writes + write.inserted.length := by omega

/-- An offset is carried to its landing, if nothing that begins there adds to the length. -/
theorem carry_eq_landing (records : buffer.Records writes) {offset : Int}
    (hsame : ∀ write ∈ writes, write.offset = offset → write.growth ≤ 0) :
    buffer.carry offset = landing writes offset :=
  records.carry_eq_of_nonpos hsame

/-- At its start only a lone write changes the length. -/
theorem grown_same (records : buffer.Records writes) (hlone : write.Lone writes) :
    grown (· = write.offset) writes = write.growth := by
  obtain ⟨front, back, hsplit, hothers⟩ := records.others_of_lone hlone
  have hpositive := hlone.positive
  have hgrown := @grown_eq_add (· = write.offset) (fun _ => false) front back write
    (by
      intro other hmem
      have hother := hothers other hmem
      rw [decide_eq_false_iff_not]
      omega)
    (decide_eq_true rfl) rfl
  calc grown (· = write.offset) writes
      = grown (fun _ => false) (front ++ write :: back) + write.growth := by rw [hsplit, hgrown]
    _ = write.growth := by rw [grown_false, Int.zero_add]

/-- The start of a lone write that does not add to the length is carried to its landing. -/
theorem carry_eq_landing_of_lone (records : buffer.Records writes) (hlone : write.Lone writes)
    (hgrowth : write.growth ≤ 0) : buffer.carry write.offset = landing writes write.offset := by
  apply records.carry_eq_landing
  intro other hmem hsame
  by_cases heq : other = write
  · rw [heq]
    exact hgrowth
  · have hpositive := hlone.positive
    have hother := records.other_of_lone hlone hmem heq
    omega

theorem clear_of_lone (records : buffer.Records writes) (hlone : write.Lone writes) :
    ∀ other ∈ writes, other.offset = write.offset ∨
      other.offset + other.length ≤ write.offset ∧ other.offset < write.offset ∨
      write.offset + write.length ≤ other.offset := by
  intro other hmem
  by_cases hsame : other = write
  · left
    rw [hsame]
  · have hother := records.other_of_lone hlone hmem hsame
    omega

/-- What lies in front of a place stays in front of its landing, if no write removes characters on
both sides of the place. -/
theorem carry_add_le_landing_of_clear (records : buffer.Records writes) {place start length : Int}
    (hplace : ∀ earlier ∈ writes,
      earlier.offset + earlier.length ≤ place ∨ place ≤ earlier.offset)
    (hlength : 0 ≤ length) (hle : start + length ≤ place) (hlt : start < place)
    (hspared : ∀ earlier ∈ writes,
      earlier.offset + earlier.length ≤ start ∨ start + length ≤ earlier.offset) :
    buffer.carry start + length ≤ landing writes place := by
  have hdistance := (records.arranged.elsewhere place).add_shift_le hlength hle
    (fun change hmem => clear_of_mem_arrange hspared change (List.mem_of_mem_filter hmem))
    (fun change hmem => clear_of_mem_arrange hplace change (List.mem_of_mem_filter hmem))
  rw [records.arranged.shift_elsewhere_of_lt hlt,
    records.arranged.shift_elsewhere_self] at hdistance
  have hgrown := @sum_arrange (· < place) writes
  rw [carry, History.carry, records.edits_eq, landing, ← hgrown]
  exact hdistance

/-- What lies in front of a lone write stays in front of its landing. -/
theorem carry_add_le_landing (records : buffer.Records writes) (hlone : write.Lone writes)
    {start length : Int} (hlength : 0 ≤ length) (hle : start + length ≤ write.offset)
    (hlt : start < write.offset)
    (hspared : ∀ earlier ∈ writes,
      earlier.offset + earlier.length ≤ start ∨ start + length ≤ earlier.offset) :
    buffer.carry start + length ≤ landing writes write.offset := by
  refine records.carry_add_le_landing_of_clear ?_ hlength hle hlt hspared
  intro earlier hmem
  have hearlier := records.clear_of_lone hlone earlier hmem
  have hpositive := hlone.positive
  omega

/-- What lies behind a range stays behind all that stands at its landing, if the writes of other
places leave the range alone. -/
theorem landing_add_le_carry_of_clear (records : buffer.Records writes)
    {place length offset : Int} (hlength : 0 ≤ length)
    (hothers : ∀ earlier ∈ writes, earlier.offset ≠ place →
      earlier.offset + earlier.length ≤ place ∨ place + length ≤ earlier.offset)
    (hle : place + length ≤ offset) (hlt : place < offset)
    (hclear : ∀ earlier ∈ writes,
      earlier.offset + earlier.length ≤ offset ∨ offset ≤ earlier.offset) :
    landing writes place + length + grown (· = place) writes ≤ buffer.carry offset := by
  have hspared : ∀ change ∈ (arrange writes).filter fun change => change.offset ≠ place,
      change.stop ≤ place ∨ place + length ≤ change.offset := by
    intro change hmem
    obtain ⟨-, earlier, hearlier, hoffset, hchange, -⟩ :=
      exists_write_of_mem_arrange (List.mem_of_mem_filter hmem)
    have hne : change.offset ≠ place := by simpa using (List.mem_filter.mp hmem).2
    have hcase := hothers earlier hearlier (hoffset ▸ hne)
    rw [Change.stop]
    omega
  have hdistance := (records.arranged.elsewhere place).add_shift_le hlength hle hspared
    (fun change hmem => clear_of_mem_arrange hclear change (List.mem_of_mem_filter hmem))
  have hwhole := records.arranged.shift_elsewhere_of_gt hlt
  have hfront := @sum_arrange (· < place) writes
  have hsame := @sum_arrange (· = place) writes
  rw [records.arranged.shift_elsewhere_self, hfront] at hdistance
  rw [hsame] at hwhole
  rw [carry, History.carry, records.edits_eq, landing, ← hwhole]
  omega

/-- What lies behind a lone write stays behind what replaces its range. -/
theorem landing_add_le_carry (records : buffer.Records writes) (hlone : write.Lone writes)
    {offset : Int} (hle : write.offset + write.length ≤ offset)
    (hclear : ∀ earlier ∈ writes,
      earlier.offset + earlier.length ≤ offset ∨ offset ≤ earlier.offset) :
    landing writes write.offset + write.inserted.length ≤ buffer.carry offset := by
  have hpositive := hlone.positive
  have hdistance := records.landing_add_le_carry_of_clear (Int.le_of_lt hpositive)
    (fun earlier hmem hne => by
      have hcase := records.clear_of_lone hlone earlier hmem
      omega) hle (by omega) hclear
  have hgrowth : write.growth = write.inserted.length - write.length := rfl
  rw [records.grown_same hlone] at hdistance
  omega

end Records

variable {text : Text} {after : Buffer} {last : Write}

/-- One more write moves what a lone one has left to the next landing. -/
theorem Records.holdsAt_landing_perform (records : buffer.Records writes)
    (hperform : last.perform buffer = .ok after) (hlone : write.Lone (writes ++ [last]))
    (hmem : write ∈ writes)
    (hholds : buffer.text.HoldsAt (landing writes write.offset) write.inserted) :
    after.text.HoldsAt (landing (writes ++ [last]) write.offset) write.inserted := by
  obtain ⟨hlength, -, hspared⟩ := records.spared_of_perform hperform
  have hearlier : write.Lone writes := ⟨hmem, hlone.positive, fun other hother =>
    hlone.idle other (List.mem_append_left _ hother)⟩
  have hcase := hspared write hmem
  have hpositive := hlone.positive
  rw [landing_concat]
  by_cases hsame : last.offset = write.offset
  · -- at its place only an idle write is accepted
    have hempty : last.length = 0 := by omega
    have hnothing := hlone.idle last
      (List.mem_append_right _ (List.mem_singleton_self last)) hsame hempty
    have htext : after.text = buffer.text := by
      rw [text_of_perform hperform, hempty, hnothing, Int.add_zero, Text.splice, List.append_nil,
        List.take_append_drop]
    rw [if_neg (by omega), Int.add_zero, htext]
    exact hholds
  · rcases hcase with hback | hfront
    · rw [if_neg (by omega), Int.add_zero]
      apply records.holdsAt_back hperform hholds
      apply records.landing_add_le_carry hearlier hback
      intro other hother
      have hspace := hspared other hother
      omega
    · have hlt : last.offset < write.offset := by omega
      rw [if_pos hlt]
      apply records.holdsAt_front hperform hholds
      exact records.carry_add_le_landing hearlier hlength hfront hlt hspared

/-- A lone write that is made last cuts at its landing. -/
theorem Records.carry_eq_landing_of_last (records : buffer.Records writes)
    (hperform : write.perform buffer = .ok after) (hlone : write.Lone (writes ++ [write])) :
    buffer.carry write.offset = landing writes write.offset := by
  obtain ⟨-, -, hspared⟩ := records.spared_of_perform hperform
  apply records.carry_eq_landing
  intro other hother hsame
  have hspace := hspared other hother
  have hpositive := hlone.positive
  have hempty : other.length = 0 := by
    have hnonneg := (records.nonneg other hother).2
    omega
  rw [Write.growth, hlone.idle other (List.mem_append_left _ hother) hsame hempty, hempty]
  exact Int.le_refl 0

/-- **What a write leaves.**  What it puts in place of its range is found where the writes in front
of the range have moved it to, in whatever order all of them are made. -/
theorem holdsAt_landing (hinside : ∀ other ∈ writes, other.Inside text.length)
    (hperform : performAll { text } writes = .ok buffer) (hlone : write.Lone writes) :
    buffer.text.HoldsAt (landing writes write.offset) write.inserted := by
  -- the write is made somewhere among the others, and those behind it leave it whole
  induction writes using List.reverseRecOn generalizing buffer with
  | nil => exact absurd hlone.mem List.not_mem_nil
  | append_singleton writes last ih =>
      obtain ⟨between, hwrites, hlast⟩ := performAll_concat.mp hperform
      have records := records_of_performAll hwrites
      by_cases hmem : write ∈ writes
      · have hearlier : write.Lone writes := ⟨hmem, hlone.positive, fun other hother =>
          hlone.idle other (List.mem_append_left _ hother)⟩
        have hholds := ih (List.forall_mem_append.mp hinside).1 hwrites hearlier
        exact records.holdsAt_landing_perform hlast hlone hmem hholds
      · obtain rfl : write = last :=
          List.mem_singleton.mp ((List.mem_append.mp hlone.mem).resolve_left hmem)
        have hplace := records.carry_eq_landing_of_last hlast hlone
        have hstop := carry_add_le_length hinside hwrites hlast
        obtain ⟨hlength, hnonneg, -⟩ := records.spared_of_perform hlast
        obtain ⟨front, removed, back, htext, hfront, hremoved⟩ :=
          between.text.exists_eq_append hnonneg hlength hstop
        rw [landing_concat, if_neg (Int.lt_irrefl _), Int.add_zero, ← hplace, text_of_perform hlast]
        exact ⟨front, back, Text.splice_of_append htext hfront hremoved, hfront⟩

end Buffer

end SyntaxRepair
