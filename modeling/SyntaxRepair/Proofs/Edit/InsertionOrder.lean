import SyntaxRepair.Proofs.Edit.Insertions
import SyntaxRepair.Proofs.Edit.Landing
import SyntaxRepair.Proofs.Edit.Reordering

/-!
# Insertions at one place

Insertions at one place keep the order of the calls, unless a range that begins there was replaced
by something shorter before.  The history counts nothing at the place from such a replacement on, so
each later insertion stands in front of the one before it.

```text
no range                  early
a range that shrinks      early ++ (late, the last one first) ++ what replaces the range
any other range           early ++ the lead of the range ++ late ++ the trail of the range
```

## Strategy

A `Stand` is what the writes of one place have come to.  Its text is cut in two by the point where
the next insertion goes (`Stand.text_eq_append`).  The history tells this point, because it
counts the writes of the place in the order of the calls up to the first one that shrinks
(`Records.carry_eq_landing_add`), and one more write at the place goes there (`Stand.text_add`).
Writes of other places leave the stand whole (`Records.holdsAt_stand`).
-/

namespace SyntaxRepair

open History (shift)

/-! ## How far the writes of a place reach -/

/-- How far some changes of length at one place move it: none counts from the first loss on. -/
def reach : List Int → Int
  | [] => 0
  | growth :: rest => if growth < 0 then 0 else growth + reach rest

theorem reach_append_of_nonneg {growths : List Int} (hnonneg : ∀ growth ∈ growths, 0 ≤ growth)
    (rest : List Int) : reach (growths ++ rest) = growths.sum + reach rest := by
  induction growths with
  | nil => exact (Int.zero_add _).symm
  | cons growth growths ih =>
      rw [List.forall_mem_cons] at hnonneg
      rw [List.cons_append, reach, if_neg (by omega), ih hnonneg.2, List.sum_cons, Int.add_assoc]

/-- The changes at an offset move it by what they reach, behind all that begins in front of it. -/
theorem Arranged.shift_eq_add_reach {changes : List Change} {place : Int}
    (harranged : Arranged changes) :
    shift place (changes.map Change.edit) =
      ((changes.filter fun change => change.offset < place).map fun change =>
          change.edit.delta).sum +
        reach ((changes.filter fun change => change.offset = place).map fun change =>
          change.edit.delta) := by
  induction changes with
  | nil => rfl
  | cons next rest ih =>
      have hrest := ih harranged.tail
      have hplace : next.edit.offset = next.offset := rfl
      -- from the place on nothing begins in front of it
      have hnone : place ≤ next.offset →
          (rest.filter fun change => change.offset < place) = [] := by
        intro hle
        refine List.filter_eq_nil_iff.mpr fun change hmem hchange => ?_
        have hoffset := harranged.offset_le hmem
        have hlt := of_decide_eq_true hchange
        omega
      rw [List.map_cons, shift, hplace]
      rcases Int.lt_trichotomy next.offset place with hlt | heq | hgt
      · rw [List.filter_cons_of_pos (by simpa using hlt),
          List.filter_cons_of_neg (by simpa using Int.ne_of_lt hlt), List.map_cons, List.sum_cons,
          if_neg (by omega), if_neg (by omega), hrest, Int.add_assoc]
      · rw [List.filter_cons_of_neg (by simp [heq]), hnone (by omega),
          List.filter_cons_of_pos (by simpa using heq), List.map_cons, reach, List.map_nil,
          List.sum_nil, Int.zero_add, if_neg (by omega)]
        rw [hnone (by omega), List.map_nil, List.sum_nil, Int.zero_add] at hrest
        by_cases hlost : next.edit.delta < 0
        · rw [if_pos ⟨heq, hlost⟩, if_pos hlost]
        · rw [if_neg (fun h => hlost h.2), if_neg hlost, hrest]
      · have hlater : (rest.filter fun change => change.offset = place) = [] := by
          refine List.filter_eq_nil_iff.mpr fun change hmem hchange => ?_
          have hoffset := harranged.offset_le hmem
          have hsame := of_decide_eq_true hchange
          omega
        rw [if_pos hgt, List.filter_cons_of_neg (by simpa using Int.le_of_lt hgt),
          hnone (by omega), List.filter_cons_of_neg (by simpa using Int.ne_of_gt hgt), hlater]
        rfl

/-- The writes of a place stand in the order of the calls. -/
theorem map_growth_filter_eq (writes : List Write) (place : Int) :
    ((arrange writes).filter fun change => change.offset = place).map
        (fun change => change.edit.delta) =
      (writes.filter fun write => write.offset = place).map Write.growth := by
  induction writes using List.reverseRecOn with
  | nil => rfl
  | append_singleton writes write ih =>
      have hlast := Anchor.filter_insert_last (write.change writes.length)
        (fun change => change.offset = place) (arrange_sorted writes)
        (fun change hmem => (exists_write_of_mem_arrange hmem).1)
        (fun change hitem hother =>
          (of_decide_eq_true hother).trans (of_decide_eq_true hitem).symm)
      have hsame : (write.change writes.length).offset = write.offset := rfl
      have hdelta : (write.change writes.length).edit.delta = write.growth := rfl
      rw [arrange_concat, hlast, List.filter_append, List.map_append, List.map_append, ih]
      refine congrArg (_ ++ ·) ?_
      rw [List.filter_cons, List.filter_cons, hsame]
      split
      · rw [List.filter_nil, List.filter_nil, List.map_singleton, List.map_singleton, hdelta]
      · rfl

/-- An offset is carried to its landing, and past what the writes that begin there reach. -/
theorem Buffer.Records.carry_eq_landing_add {buffer : Buffer} {writes : List Write}
    (records : buffer.Records writes) (place : Int) :
    buffer.carry place = landing writes place +
      reach ((writes.filter fun write => write.offset = place).map Write.growth) := by
  have hfront := @sum_arrange (· < place) writes
  rw [carry, History.carry, records.edits_eq, records.arranged.shift_eq_add_reach, hfront,
    map_growth_filter_eq, landing, Int.add_assoc]

/-! ## What stands at a place -/

/-- What stands behind the lead of a write. -/
def Write.trail (write : Write) : Text :=
  write.inserted.drop (write.inserted.length - write.length.toNat)

theorem Write.lead_append_trail (write : Write) : write.lead ++ write.trail = write.inserted :=
  List.take_append_drop ..

/-- What several writes insert, one behind another. -/
def insertedBy (writes : List Write) : Text := writes.flatMap Write.inserted

theorem insertedBy_concat (writes : List Write) (write : Write) :
    insertedBy (writes ++ [write]) = insertedBy writes ++ write.inserted := by
  rw [insertedBy, List.flatMap_append, List.flatMap_singleton]
  rfl

theorem length_insertedBy {writes : List Write} (hempty : ∀ write ∈ writes, write.length = 0) :
    ((insertedBy writes).length : Int) = (writes.map Write.growth).sum := by
  induction writes with
  | nil => rfl
  | cons write rest ih =>
      rw [List.forall_mem_cons] at hempty
      have hrest := ih hempty.2
      rw [insertedBy, List.flatMap_cons, List.length_append, List.map_cons, List.sum_cons,
        Int.natCast_add, Write.growth, hempty.1]
      rw [insertedBy] at hrest
      omega

/-- The writes that begin at one place, in the order of the calls: insertions alone, or a range that
is replaced between early and late insertions. -/
inductive Stand
  | insertions (early : List Write)
  | range (early : List Write) (replaced : Write) (late : List Write)
deriving Repr, DecidableEq

namespace Stand

/-- All writes in the order of the calls. -/
def writes : Stand → List Write
  | insertions early => early
  | range early replaced late => early ++ replaced :: late

/-- What stands at the place. -/
def text : Stand → Text
  | insertions early => insertedBy early
  | range early replaced late =>
    if replaced.growth < 0 then insertedBy early ++ insertedBy late.reverse ++ replaced.inserted
    else insertedBy early ++ replaced.lead ++ insertedBy late ++ replaced.trail

/-- What stands in front of the point where the next insertion goes. -/
def ahead : Stand → Text
  | insertions early => insertedBy early
  | range early replaced late =>
    if replaced.growth < 0 then insertedBy early
    else insertedBy early ++ replaced.lead ++ insertedBy late

/-- What stands behind the point where the next insertion goes. -/
def behind : Stand → Text
  | insertions _ => []
  | range _ replaced late =>
    if replaced.growth < 0 then insertedBy late.reverse ++ replaced.inserted else replaced.trail

/-- How many characters are removed behind the place. -/
def removed : Stand → Int
  | insertions _ => 0
  | range _ replaced _ => replaced.length

/-- The insertions remove nothing, and the range is not empty. -/
def Valid : Stand → Prop
  | insertions early => ∀ write ∈ early, write.length = 0
  | range early replaced late => 0 < replaced.length ∧ ∀ write ∈ early ++ late, write.length = 0

/-- One more write at the place. -/
def add (stand : Stand) (write : Write) : Stand :=
  match stand with
  | insertions early =>
    if write.length = 0 then insertions (early ++ [write]) else range early write []
  | range early replaced late => range early replaced (late ++ [write])

variable {stand : Stand} {write : Write}

theorem text_eq_append (stand : Stand) : stand.text = stand.ahead ++ stand.behind := by
  cases stand with
  | insertions early => exact (List.append_nil _).symm
  | range early replaced late =>
      rw [text, ahead, behind]
      split
      · exact List.append_assoc ..
      · rfl

theorem writes_add : (stand.add write).writes = stand.writes ++ [write] := by
  cases stand with
  | insertions early =>
      rw [add]
      split <;> rfl
  | range early replaced late =>
      rw [add, writes, writes, List.append_assoc]
      rfl

/-- At most one range begins at a place. -/
theorem valid_add (hvalid : stand.Valid) (hlength : 0 ≤ write.length)
    (hone : write.length = 0 ∨ stand.removed = 0) : (stand.add write).Valid := by
  cases stand with
  | insertions early =>
      rw [add]
      split
      · rename_i hempty
        exact List.forall_mem_append.mpr ⟨hvalid, List.forall_mem_singleton.mpr hempty⟩
      · refine ⟨by omega, ?_⟩
        rw [List.append_nil]
        exact hvalid
  | range early replaced late =>
      obtain ⟨hpositive, hinsertions⟩ := hvalid
      have hempty : write.length = 0 := by
        refine hone.resolve_right ?_
        exact Int.ne_of_gt hpositive
      refine ⟨hpositive, ?_⟩
      rw [← List.append_assoc]
      exact List.forall_mem_append.mpr ⟨hinsertions, List.forall_mem_singleton.mpr hempty⟩

theorem length_ahead (hvalid : stand.Valid) :
    (stand.ahead.length : Int) = reach (stand.writes.map Write.growth) := by
  have hgrows : ∀ insertions : List Write, (∀ write ∈ insertions, write.length = 0) →
      ∀ growth ∈ insertions.map Write.growth, 0 ≤ growth := by
    intro insertions hempty growth hmem
    obtain ⟨write, hwrite, rfl⟩ := List.mem_map.mp hmem
    rw [Write.growth, hempty write hwrite]
    omega
  have hall : ∀ insertions : List Write, (∀ write ∈ insertions, write.length = 0) →
      reach (insertions.map Write.growth) = (insertedBy insertions).length := by
    intro insertions hempty
    have hreach := reach_append_of_nonneg (hgrows insertions hempty) []
    rw [List.append_nil] at hreach
    rw [hreach, length_insertedBy hempty, reach, Int.add_zero]
  cases stand with
  | insertions early => exact (hall early hvalid).symm
  | range early replaced late =>
      obtain ⟨hpositive, hempty⟩ := hvalid
      rw [List.forall_mem_append] at hempty
      rw [writes, List.map_append, reach_append_of_nonneg (hgrows early hempty.1),
        ← length_insertedBy hempty.1, List.map_cons, reach, ahead]
      split
      · exact (Int.add_zero _).symm
      · rename_i hgrowth
        have hlead := replaced.length_lead (Int.le_of_lt hpositive)
        rw [hall late hempty.2, List.length_append, List.length_append]
        omega

/-- The text of a stand is as long as what is removed and the growth of its writes. -/
theorem length_text (hvalid : stand.Valid) :
    (stand.text.length : Int) = stand.removed + (stand.writes.map Write.growth).sum := by
  cases stand with
  | insertions early =>
      rw [text, length_insertedBy hvalid]
      exact (Int.zero_add _).symm
  | range early replaced late =>
      obtain ⟨hpositive, hempty⟩ := hvalid
      rw [List.forall_mem_append] at hempty
      have hearly := length_insertedBy hempty.1
      have hlate := length_insertedBy hempty.2
      have hreverse : (insertedBy late.reverse).length = (insertedBy late).length :=
        ((List.reverse_perm late).flatMap_right _).length_eq
      have hinserted := congrArg List.length replaced.lead_append_trail
      have hgrowth : replaced.growth = replaced.inserted.length - replaced.length := rfl
      rw [List.length_append] at hinserted
      rw [writes, removed, List.map_append, List.sum_append, List.map_cons, List.sum_cons, text]
      split
      · rw [List.length_append, List.length_append]
        omega
      · rw [List.length_append, List.length_append, List.length_append]
        omega

/-- One more insertion goes between what stands ahead and what stands behind, and so does what
replaces a range. -/
theorem text_add (hone : write.length = 0 ∨ stand.removed = 0) (hvalid : stand.Valid) :
    (stand.add write).text = stand.ahead ++ write.inserted ++ stand.behind := by
  cases stand with
  | insertions early =>
      rw [add]
      split
      · rw [text, ahead, behind, insertedBy_concat, List.append_nil]
      · have hnothing : insertedBy [] = [] := rfl
        rw [text, ahead, behind, List.reverse_nil, hnothing, List.append_nil, List.append_nil,
          List.append_nil]
        split
        · rfl
        · rw [List.append_assoc, write.lead_append_trail]
  | range early replaced late =>
      rw [add, text, ahead, behind]
      split
      · rw [List.reverse_append, List.reverse_singleton, List.singleton_append, insertedBy,
          insertedBy, insertedBy, List.flatMap_cons]
        simp only [List.append_assoc]
      · rw [insertedBy_concat]
        simp only [List.append_assoc]

/-- Where nothing is removed, all stands ahead. -/
theorem behind_eq_nil (hvalid : stand.Valid) (hremoved : stand.removed = 0) :
    stand.behind = [] := by
  cases stand with
  | insertions early => rfl
  | range early replaced late => exact absurd hremoved (Int.ne_of_gt hvalid.1)

/-- What is removed is the range of one of the writes. -/
theorem removed_eq_zero_or (hvalid : stand.Valid) :
    stand.removed = 0 ∨
      ∃ replaced ∈ stand.writes, 0 < replaced.length ∧ replaced.length = stand.removed := by
  cases stand with
  | insertions early => exact Or.inl rfl
  | range early replaced late =>
      exact Or.inr ⟨replaced, List.mem_append_right _ (List.mem_cons_self ..), hvalid.1, rfl⟩

end Stand

/-! ## Cuts inside of what stands at a place -/

namespace Text

variable {text content first gone second inserted : Text} {place length : Int}

/-- What stands at a place may be taken with some of the characters behind it. -/
theorem HoldsAt.extend (hholds : text.HoldsAt place content) (hlength : 0 ≤ length)
    (hle : place + content.length + length ≤ text.length) :
    ∃ gone : Text, (gone.length : Int) = length ∧ text.HoldsAt place (content ++ gone) := by
  obtain ⟨front, back, rfl, rfl⟩ := hholds
  obtain ⟨length, rfl⟩ := Int.eq_ofNat_of_zero_le hlength
  simp only [List.length_append] at hle
  refine ⟨back.take length, ?_, front, back.drop length, ?_, rfl⟩
  · rw [List.length_take]
    omega
  · rw [← List.append_assoc front, List.append_assoc (front ++ content), List.take_append_drop]

theorem HoldsAt.splice_middle (hholds : text.HoldsAt place (first ++ gone ++ second)) :
    (text.splice (place + first.length) (place + first.length + gone.length) inserted).HoldsAt place
      (first ++ inserted ++ second) := by
  obtain ⟨front, back, htext, rfl⟩ := hholds
  refine ⟨front, back, ?_, rfl⟩
  have hcut := @splice_of_append text inserted _ (front ++ first) gone (second ++ back) gone.length
    (by rw [htext]; simp only [List.append_assoc]) rfl rfl
  rw [List.length_append, Int.natCast_add] at hcut
  rw [hcut]
  simp only [List.append_assoc]

end Text

/-! ## The writes of a run -/

namespace Buffer

variable {text : Text} {buffer after : Buffer} {writes : List Write} {write other : Write}
  {place : Int} {stand : Stand}

namespace Records

/-- Of two different writes one is over where the other begins. -/
theorem stop_le_of_ne (records : buffer.Records writes) (hwrite : write ∈ writes)
    (hother : other ∈ writes) (hne : other ≠ write) :
    other.offset + other.length ≤ write.offset ∨ write.offset + write.length ≤ other.offset := by
  have hsymm : Std.Symm fun earlier later : Write =>
      later.range.meets earlier.range = false := by
    refine ⟨fun first second hapart => ?_⟩
    rw [Range.meets_comm]
    exact hapart
  have hapart := records.apart.forall hwrite hother hne.symm
  exact Write.stop_le_or_stop_le (records.nonneg write hwrite).2 (records.nonneg other hother).2
    hapart

/-- No write removes characters on both sides of the place of another one. -/
theorem clear_of_mem (records : buffer.Records writes) (hwrite : write ∈ writes) :
    ∀ other ∈ writes,
      other.offset + other.length ≤ write.offset ∨ write.offset ≤ other.offset := by
  intro other hother
  by_cases hsame : other = write
  · exact Or.inr (Int.le_of_eq (congrArg Write.offset hsame.symm))
  · have hcase := records.stop_le_of_ne hwrite hother hsame
    have hlength := (records.nonneg write hwrite).2
    omega

/-- The next insertion at a place goes behind what stands ahead. -/
theorem carry_eq_ahead (records : buffer.Records writes) (hvalid : stand.Valid)
    (hwrites : stand.writes = writes.filter fun write => write.offset = place) :
    buffer.carry place = landing writes place + stand.ahead.length := by
  rw [records.carry_eq_landing_add, ← hwrites, Stand.length_ahead hvalid]

/-- What begins behind a place stays behind its stand. -/
theorem stand_le_carry (records : buffer.Records writes) (hvalid : stand.Valid)
    (hwrites : stand.writes = writes.filter fun write => write.offset = place)
    (hclear : ∀ other ∈ writes, other.offset + other.length ≤ place ∨ place ≤ other.offset)
    (hperform : write.perform buffer = .ok after) (hlt : place < write.offset) :
    landing writes place + stand.text.length ≤ buffer.carry write.offset := by
  obtain ⟨hlength, -, hspared⟩ := records.spared_of_perform hperform
  have hremoved : 0 ≤ stand.removed ∧ place + stand.removed ≤ write.offset ∧
      ∀ other ∈ writes, other.offset ≠ place →
        other.offset + other.length ≤ place ∨ place + stand.removed ≤ other.offset := by
    rcases Stand.removed_eq_zero_or hvalid with hnothing | ⟨replaced, hmem, hpositive, hreplaced⟩
    · rw [hnothing, Int.add_zero]
      exact ⟨Int.le_refl 0, Int.le_of_lt hlt, fun other hother _ => hclear other hother⟩
    · rw [hwrites, List.mem_filter, decide_eq_true_eq] at hmem
      obtain ⟨hmem, rfl⟩ := hmem
      have hcase := hspared replaced hmem
      refine ⟨by omega, by omega, ?_⟩
      intro other hother hne
      rw [← hreplaced]
      exact records.stop_le_of_ne hmem hother fun hsame => hne (congrArg Write.offset hsame)
  have hdistance := records.landing_add_le_carry_of_clear hremoved.1 hremoved.2.2 hremoved.2.1 hlt
    (fun earlier hmem => by
      have hcase := hspared earlier hmem
      omega)
  have hgrown : grown (· = place) writes = (stand.writes.map Write.growth).sum := by
    rw [hwrites]
    rfl
  rw [Stand.length_text hvalid]
  omega

end Records

/-- **One more write at a place.**  It goes between what stands ahead and what stands behind. -/
theorem holdsAt_add (hinside : ∀ other ∈ writes ++ [write], other.Inside text.length)
    (hwrites : performAll { text } writes = .ok buffer) (hwrite : write.perform buffer = .ok after)
    (hvalid : stand.Valid)
    (hstand : stand.writes = writes.filter fun other => other.offset = write.offset)
    (hholds : buffer.text.HoldsAt (landing writes write.offset) stand.text) :
    (stand.add write).Valid ∧
      after.text.HoldsAt (landing writes write.offset) (stand.add write).text := by
  have records := records_of_performAll hwrites
  obtain ⟨hlength, -, hspared⟩ := records.spared_of_perform hwrite
  have hone : write.length = 0 ∨ stand.removed = 0 := by
    rcases Stand.removed_eq_zero_or hvalid with hnothing | ⟨replaced, hmem, hpositive, -⟩
    · exact Or.inr hnothing
    · rw [hstand, List.mem_filter, decide_eq_true_eq] at hmem
      have hcase := hspared replaced hmem.1
      left
      omega
  have hplace := records.carry_eq_ahead hvalid hstand
  have hstop := carry_add_le_length hinside hwrites hwrite
  refine ⟨Stand.valid_add hvalid hlength hone, ?_⟩
  rw [Stand.text_add hone hvalid, text_of_perform hwrite, hplace]
  by_cases hempty : write.length = 0
  · rw [hempty]
    refine @Text.HoldsAt.splice_middle _ stand.ahead [] stand.behind _ _ ?_
    rw [List.append_nil, ← stand.text_eq_append]
    exact hholds
  · have hbehind := Stand.behind_eq_nil hvalid (hone.resolve_left hempty)
    rw [stand.text_eq_append, hbehind, List.append_nil] at hholds
    obtain ⟨gone, hgone, hwhole⟩ := hholds.extend hlength (by omega)
    rw [hbehind, ← hgone]
    refine @Text.HoldsAt.splice_middle _ stand.ahead gone [] _ _ ?_
    rw [List.append_nil]
    exact hwhole

/-- What the writes of a place come to is found at its landing. -/
theorem holdsAt_stand (hinside : ∀ other ∈ writes, other.Inside text.length)
    (hperform : performAll { text } writes = .ok buffer) (hplace : 0 ≤ place)
    (hle : place ≤ text.length)
    (hclear : ∀ other ∈ writes, other.offset + other.length ≤ place ∨ place ≤ other.offset) :
    ∃ stand : Stand, stand.Valid ∧
      stand.writes = (writes.filter fun other => other.offset = place) ∧
      buffer.text.HoldsAt (landing writes place) stand.text := by
  induction writes using List.reverseRecOn generalizing buffer with
  | nil =>
      cases hperform
      obtain ⟨place, rfl⟩ := Int.eq_ofNat_of_zero_le hplace
      have hholds := @Text.holdsAt_take_drop text place 0 (by omega)
      rw [Nat.add_zero, List.drop_take_self] at hholds
      have hlanding : landing [] place = place := Int.add_zero _
      exact ⟨.insertions [], List.forall_mem_nil _, rfl, hlanding.symm ▸ hholds⟩
  | append_singleton writes last ih =>
      obtain ⟨between, hwrites, hlast⟩ := performAll_concat.mp hperform
      have records := records_of_performAll hwrites
      obtain ⟨hlength, -, hspared⟩ := records.spared_of_perform hlast
      rw [List.forall_mem_append, List.forall_mem_singleton] at hclear
      obtain ⟨stand, hvalid, hstand, hholds⟩ :=
        ih (List.forall_mem_append.mp hinside).1 hwrites hclear.1
      rw [landing_concat]
      rcases Int.lt_trichotomy last.offset place with hlt | rfl | hgt
      · -- the cut is in front of the stand
        refine ⟨stand, hvalid, ?_, ?_⟩
        · rw [List.filter_append, ← hstand,
            List.filter_cons_of_neg (by simpa using Int.ne_of_lt hlt), List.filter_nil,
            List.append_nil]
        · rw [if_pos hlt]
          apply records.holdsAt_front hlast hholds
          have hstop : last.offset + last.length ≤ place := by omega
          exact records.carry_add_le_landing_of_clear hclear.1 hlength hstop hlt hspared
      · obtain ⟨hvalid', hholds'⟩ := holdsAt_add hinside hwrites hlast hvalid hstand hholds
        refine ⟨stand.add last, hvalid', ?_, ?_⟩
        · rw [Stand.writes_add, List.filter_append, hstand,
            List.filter_cons_of_pos (by simp), List.filter_nil]
        · rw [if_neg (Int.lt_irrefl _), Int.add_zero]
          exact hholds'
      · -- the cut is behind the stand
        refine ⟨stand, hvalid, ?_, ?_⟩
        · rw [List.filter_append, ← hstand,
            List.filter_cons_of_neg (by simpa using Int.ne_of_gt hgt), List.filter_nil,
            List.append_nil]
        · rw [if_neg (Int.not_lt.mpr (Int.le_of_lt hgt)), Int.add_zero]
          apply records.holdsAt_back hlast hholds
          exact records.stand_le_carry hvalid hstand hclear.1 hlast hgt

/-- **Insertions at one place.**  Whatever writes inside the text a buffer has accepted: the writes
that begin where one of them begins are insertions, or insertions and a single range, and what they
come to stands together in the text, at the landing of the place.  The insertions keep the order of
the calls, but for those that are made after the range was replaced by something shorter: they stand
behind the early ones and in front of what replaces the range, the last one first. -/
theorem insertions_stand (hinside : ∀ other ∈ writes, other.Inside text.length)
    (hperform : performAll { text } writes = .ok buffer) (hmem : write ∈ writes) :
    ∃ stand : Stand, stand.Valid ∧
      stand.writes = (writes.filter fun other => other.offset = write.offset) ∧
      buffer.text.HoldsAt (landing writes write.offset) stand.text := by
  have records := records_of_performAll hperform
  have hnonneg := records.nonneg write hmem
  have hstop := hinside write hmem
  rw [Write.Inside] at hstop
  exact holdsAt_stand hinside hperform hnonneg.1 (by omega) (records.clear_of_mem hmem)

/-- Two late insertions at the start of a range that shrinks, and two at the start of one that
grows. -/
theorem insertions_stand_seven :
    ∃ (writes : List Write) (buffer : Buffer), writes.length = 7 ∧
      (∀ write ∈ writes, write.Inside 6) ∧ performAll { text := "abcdef" } writes = .ok buffer ∧
      buffer.text = "psrqcXtuYef" ∧ ∃ first second : Stand, first.Valid ∧ second.Valid ∧
        first.writes = [.insert 0 "p", .replace 0 2 "q", .insert 0 "r", .insert 0 "s"] ∧
        buffer.text.HoldsAt 0 first.text ∧
        second.writes = [.replace 3 1 "XY", .insert 3 "t", .insert 3 "u"] ∧
        buffer.text.HoldsAt 5 second.text := by
  let writes : List Write := [.insert 0 "p", .replace 0 2 "q", .replace 3 1 "XY", .insert 0 "r",
    .insert 3 "t", .insert 0 "s", .insert 3 "u"]
  have hinside : ∀ write ∈ writes, write.Inside 6 := by decide
  refine ⟨writes, _, rfl, hinside, rfl, by decide, ?_⟩
  obtain ⟨first, hvalid, hfirst, hholds⟩ :=
    @insertions_stand "abcdef" _ writes (.insert 0 "p") hinside rfl (by decide)
  obtain ⟨second, hvalid', hsecond, hholds'⟩ :=
    @insertions_stand "abcdef" _ writes (.insert 3 "t") hinside rfl (by decide)
  exact ⟨first, second, hvalid, hvalid', hfirst.trans (by decide), hholds, hsecond.trans (by decide),
    hholds'⟩

/-- Behind a replacement that shrinks the range the second insertion stands in front of the
first. -/
theorem insertions_out_of_order :
    ∃ buffer : Buffer,
      performAll { text := "xyz" } [.replace 0 2 "q", .insert 0 "A", .insert 0 "B"] = .ok buffer ∧
        buffer.text = "BAqz" :=
  ⟨_, rfl, by decide⟩

end Buffer

end SyntaxRepair
