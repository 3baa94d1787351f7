import SyntaxRepair.Proofs.Edit.Reordering
import SyntaxRepair.Repair.Workspace

/-!
# Removals beyond the end

A cut ends where the text ends, but the history counts as many characters as the write asks to
remove.  What it asks for behind the end of the text is its overhang (`Write.overhang`), and this is
all that the history misses: the text is longer than its recorded changes of length tell by the
overhangs of the accepted writes, each taken when the write is made (`Workspace.calls_account`).

Where a cut begins is never in question: no accepted write is carried in front of the text
(`Buffer.performAll_cuts`).

Calls may be refused.  Such a call leaves no trace, so a sequence of calls comes to the same as the
accepted ones among them (`Workspace.performAll_accepted`).
-/

namespace SyntaxRepair

/-! ## What a history has recorded -/

/-- The sum of the recorded changes of length. -/
def History.recorded (history : History) : Int := (history.edits.map Edit.delta).sum

theorem History.recorded_add (history : History) (offset delta : Int) :
    (history.add offset delta).recorded = history.recorded + delta := by
  have hperm := Anchor.insert_perm Edit.toAnchor (history.nextEdit offset delta) history.edits
  calc (history.add offset delta).recorded
      = ((history.nextEdit offset delta :: history.edits).map Edit.delta).sum :=
        (hperm.map Edit.delta).sum_eq
    _ = delta + history.recorded := List.sum_cons
    _ = history.recorded + delta := Int.add_comm ..

/-! ## Overhangs -/

namespace Write

/-- How many of the characters that a write is to remove lie behind the end of the text. -/
def overhang (write : Write) (buffer : Buffer) : Int :=
  max 0 (min write.length (buffer.carry write.offset + write.length - buffer.text.length))

/-- A write that is to remove characters behind the end of the text. -/
def Overhangs (write : Write) (buffer : Buffer) : Prop :=
  0 < write.length ∧ (buffer.text.length : Int) < buffer.carry write.offset + write.length

theorem overhang_nonneg (write : Write) (buffer : Buffer) : 0 ≤ write.overhang buffer :=
  Int.le_max_left ..

theorem overhang_eq_zero_iff (write : Write) (buffer : Buffer) :
    write.overhang buffer = 0 ↔ ¬ write.Overhangs buffer := by
  unfold overhang Overhangs
  omega

end Write

namespace Buffer

variable {text : Text} {buffer after : Buffer} {earlier writes : List Write} {write : Write}

/-- How many characters behind the end of the text some writes are to remove, each counted when it
is made. -/
def overhang (buffer : Buffer) : List Write → Int
  | [] => 0
  | write :: rest =>
    match write.perform buffer with
    | .ok after => write.overhang buffer + after.overhang rest
    | .error _ => 0

theorem performAll_cons {rest : List Write} :
    buffer.performAll (write :: rest) = .ok after ↔
      ∃ between, write.perform buffer = .ok between ∧ between.performAll rest = .ok after := by
  rw [← List.singleton_append, performAll_append]
  simp only [performAll_singleton]

theorem overhang_cons (hperform : write.perform buffer = .ok after) (rest : List Write) :
    buffer.overhang (write :: rest) = write.overhang buffer + after.overhang rest := by
  rw [overhang, hperform]

theorem overhang_nonneg (buffer : Buffer) (writes : List Write) : 0 ≤ buffer.overhang writes := by
  induction writes generalizing buffer with
  | nil => exact Int.le_refl 0
  | cons write rest ih =>
      rw [overhang]
      split
      · exact Int.add_nonneg (write.overhang_nonneg buffer) (ih _)
      · exact Int.le_refl 0

/-- One accepted write: its overhang is all that its recorded change of length misses. -/
theorem Records.length_of_perform (records : buffer.Records earlier)
    (hperform : write.perform buffer = .ok after) :
    (after.text.length : Int) - after.history.recorded =
      buffer.text.length - buffer.history.recorded + write.overhang buffer := by
  obtain ⟨hlength, hstart, -⟩ := records.spared_of_perform hperform
  rw [text_of_perform hperform, Text.length_splice_clamped _ _ hstart hlength,
    history_of_perform hperform, History.recorded_add, Write.growth, Write.overhang]
  omega

/-- A run of accepted writes. -/
theorem Records.length_of_performAll (records : buffer.Records earlier)
    (hperform : buffer.performAll writes = .ok after) :
    (after.text.length : Int) - after.history.recorded =
      buffer.text.length - buffer.history.recorded + buffer.overhang writes := by
  induction writes generalizing buffer earlier with
  | nil =>
      cases hperform
      exact (Int.add_zero _).symm
  | cons write rest ih =>
      obtain ⟨between, hwrite, hrest⟩ := performAll_cons.mp hperform
      have hstep := records.length_of_perform hwrite
      have hrun := ih (records.perform hwrite) hrest
      rw [overhang_cons hwrite]
      omega

/-- Nothing is missed exactly if no write reaches past the end of the text when it is made. -/
theorem overhang_eq_zero_iff (hperform : buffer.performAll writes = .ok after) :
    buffer.overhang writes = 0 ↔
      ∀ (front : List Write) (write : Write) (back : List Write) (between : Buffer),
        writes = front ++ write :: back → buffer.performAll front = .ok between →
          ¬ write.Overhangs between := by
  induction writes generalizing buffer with
  | nil =>
      refine iff_of_true rfl ?_
      intro front write back between hsplit
      exact absurd hsplit.symm (List.append_ne_nil_of_right_ne_nil front (List.cons_ne_nil _ _))
  | cons write rest ih =>
      obtain ⟨between, hwrite, hrest⟩ := performAll_cons.mp hperform
      have hown := write.overhang_nonneg buffer
      have hothers := between.overhang_nonneg rest
      have hboth : write.overhang buffer + between.overhang rest = 0 ↔
          write.overhang buffer = 0 ∧ between.overhang rest = 0 := by omega
      rw [overhang_cons hwrite, hboth, write.overhang_eq_zero_iff buffer, ih hrest]
      constructor
      · rintro ⟨hfirst, hlater⟩ front other back state hsplit hfront
        cases front with
        | nil =>
            cases hsplit
            cases hfront
            exact hfirst
        | cons head front =>
            obtain ⟨rfl, hrest'⟩ := List.cons.inj hsplit
            obtain ⟨next, hnext, hfront⟩ := performAll_cons.mp hfront
            rw [hwrite] at hnext
            cases hnext
            exact hlater front other back state hrest' hfront
      · intro hall
        refine ⟨hall [] write rest buffer rfl rfl, ?_⟩
        intro front other back state hsplit hfront
        exact hall (write :: front) other back state (congrArg (write :: ·) hsplit)
          (performAll_cons.mpr ⟨between, hwrite, hfront⟩)

/-- Some writes make a text no longer than all do, if the others do not make it shorter. -/
theorem grown_le_sum {reached : Int → Bool}
    (hunreached : ∀ write ∈ writes, reached write.offset = false → 0 ≤ write.growth) :
    grown reached writes ≤ (writes.map Write.growth).sum := by
  induction writes with
  | nil => exact Int.le_refl 0
  | cons write rest ih =>
      rw [List.forall_mem_cons] at hunreached
      have hrest := ih hunreached.2
      rw [← List.singleton_append, grown_append, grown_singleton, List.singleton_append,
        List.map_cons, List.sum_cons]
      cases hreached : reached write.offset with
      | true =>
          rw [if_pos rfl]
          omega
      | false =>
          have hgrowth := hunreached.1 hreached
          rw [if_neg Bool.false_ne_true]
          omega

/-- A history has recorded the growth of the writes. -/
theorem Records.recorded_eq (records : buffer.Records writes) :
    buffer.history.recorded = (writes.map Write.growth).sum := by
  have hall := @sum_arrange (fun _ => true) writes
  rw [List.filter_true, grown_eq_sum fun _ _ => rfl] at hall
  rw [History.recorded, records.edits_eq, List.map_map]
  exact hall

/-- A write does not reach past the end of the text, if what it removes lies in the text as it was,
like all that was removed before. -/
theorem Records.not_overhangs (records : buffer.Records earlier)
    (hperform : write.perform buffer = .ok after)
    (hinside : ∀ other ∈ earlier ++ [write], 0 < other.length → other.Inside text.length)
    (haccounts : (text.length : Int) + buffer.history.recorded ≤ buffer.text.length) :
    ¬ write.Overhangs buffer := by
  rintro ⟨hpositive, hbeyond⟩
  rw [List.forall_mem_append, List.forall_mem_singleton] at hinside
  obtain ⟨hlength, -, hspared⟩ := records.spared_of_perform hperform
  have hremovals : ∀ other ∈ earlier, 0 < other.length →
      other.offset + other.length ≤ text.length := hinside.1
  have hkept : ∀ other ∈ earlier, ¬ other.Removes text.length := by
    intro other hmem hremoves
    have hother := hremovals other hmem
    rw [Write.Removes] at hremoves
    omega
  have hcut : buffer.carry write.offset + write.length ≤ buffer.carry text.length := by
    apply records.carry_add_le hlength (hinside.2 hpositive) hspared
    intro other hmem
    have hother := hremovals other hmem
    have hnonneg := (records.nonneg other hmem).2
    omega
  -- only insertions begin behind the end, and they add to the length
  have hbehind : grown (· ≤ (text.length : Int)) earlier ≤ (earlier.map Write.growth).sum := by
    apply grown_le_sum
    intro other hmem hunreached
    have hother := hremovals other hmem
    have hnonneg := (records.nonneg other hmem).2
    rw [decide_eq_false_iff_not] at hunreached
    rw [Write.growth]
    omega
  rw [records.carry_eq_of_kept hkept] at hcut
  rw [records.recorded_eq] at haccounts
  omega

/-- What the history of a run misses. -/
theorem length_of_performAll (hperform : performAll { text } writes = .ok buffer) :
    (buffer.text.length : Int) =
      text.length + buffer.history.recorded + overhang { text } writes := by
  have hrun := (records_nil text).length_of_performAll hperform
  have hnothing : (History.recorded {} : Int) = 0 := rfl
  dsimp only at hrun
  omega

/-- Where all that is removed lies in the text as it was, nothing is missed. -/
theorem overhang_eq_zero_of_inside (hperform : performAll { text } writes = .ok buffer)
    (hinside : ∀ write ∈ writes, 0 < write.length → write.Inside text.length) :
    overhang { text } writes = 0 := by
  rw [overhang_eq_zero_iff hperform]
  rintro front write back between rfl hfront
  obtain ⟨state, hstate, hrest⟩ := performAll_append.mp hperform
  rw [hfront] at hstate
  cases hstate
  obtain ⟨after, hwrite, -⟩ := performAll_cons.mp hrest
  have hlength := length_of_performAll hfront
  have hmissed := overhang_nonneg { text } front
  apply (records_of_performAll hfront).not_overhangs hwrite
  · intro other hmem
    refine hinside other ?_
    rw [List.append_cons]
    exact List.mem_append_left _ hmem
  · omega

/-! ## Where a cut begins -/

/-- **Cuts are counted from the beginning.**  Whatever writes are accepted, in whatever order and
however far behind the end of the text, none is carried in front of the text when it is made.  It
keeps what stands in front of a place in the text, and what stands behind as many characters from
there on as it removes, or as there are. -/
theorem performAll_cuts {front back : List Write} (hperform : performAll { text } writes = .ok buffer)
    (hsplit : writes = front ++ write :: back) :
    ∃ (before after : Buffer) (place length : Nat),
      performAll { text } front = .ok before ∧ write.perform before = .ok after ∧
        after.performAll back = .ok buffer ∧
        before.carry write.offset = place ∧ write.length = length ∧
        after.text = before.text.take place ++ write.inserted ++
          before.text.drop (place + length) := by
  rw [hsplit, performAll_append] at hperform
  obtain ⟨before, hfront, hrest⟩ := hperform
  obtain ⟨after, hwrite, hback⟩ := performAll_cons.mp hrest
  -- the earlier ranges in front of the write do not meet, so they remove no more than stands there
  obtain ⟨hlength, hplace, -⟩ := (records_of_performAll hfront).spared_of_perform hwrite
  obtain ⟨place, hplace⟩ := Int.eq_ofNat_of_zero_le hplace
  obtain ⟨length, hlength⟩ := Int.eq_ofNat_of_zero_le hlength
  refine ⟨before, after, place, length, hfront, hwrite, hback, hplace, hlength, ?_⟩
  rw [text_of_perform hwrite, hplace, hlength, ← Int.natCast_add, Text.splice_of_nat]

/-- A removal of ten characters where there are two, an insertion behind the end, and a write
between them that is carried to where the removed ones stood. -/
theorem performAll_cuts_behind_end :
    ∃ (before after : Buffer) (place length : Nat),
      performAll { text := "abcdef" } [.delete 4 10, .insert 20 "xy"] = .ok before ∧
        (Write.replace 14 3 "z").perform before = .ok after ∧ before.text = "abcdxy" ∧
        before.carry 14 = place ∧ (3 : Int) = length ∧ after.text = "abcdz" ∧
        after.text = before.text.take place ++ "z" ++ before.text.drop (place + length) := by
  have hrun : ∃ buffer, performAll { text := "abcdef" }
      [.delete 4 10, .insert 20 "xy", .replace 14 3 "z", .insert 4 "p"] = .ok buffer := ⟨_, rfl⟩
  obtain ⟨buffer, hrun⟩ := hrun
  obtain ⟨before, after, place, length, hbefore, hafter, -, hplace, hlength, htext⟩ :=
    @performAll_cuts "abcdef" buffer _ _ [.delete 4 10, .insert 20 "xy"] [.insert 4 "p"] hrun rfl
  have hbeforeText : before.text = "abcdxy" := by
    cases hbefore
    rfl
  have hafterText : after.text = "abcdz" := by
    cases hbefore
    cases hafter
    rfl
  exact ⟨before, after, place, length, hbefore, hafter, hbeforeText, hplace, hlength, hafterText,
    htext⟩

end Buffer

/-! ## Calls that may be refused -/

namespace Workspace

variable {workspace : Workspace} {call : Write}

/-- The workspace behind a call, accepted or refused. -/
def called (workspace : Workspace) (call : Write) : Workspace :=
  ((edit fun buffer => call.perform buffer).start workspace).2

/-- The calls of a sequence that are accepted. -/
def accepted (workspace : Workspace) : List Write → List Write
  | [] => []
  | call :: rest =>
    match call.perform workspace.buffer with
    | .ok _ => call :: accepted (workspace.called call) rest
    | .error _ => accepted (workspace.called call) rest

theorem called_of_ok {buffer : Buffer} (hperform : call.perform workspace.buffer = .ok buffer) :
    workspace.called call = { workspace with buffer } := by
  simp only [called, edit, Step.start_bind, Step.start_get, hperform, Step.start_modify]

/-- A refused call leaves no trace. -/
theorem called_of_error {violation : Violation}
    (hperform : call.perform workspace.buffer = .error violation) :
    workspace.called call = workspace := by
  simp only [called, edit, Step.start_bind, Step.start_get, hperform, Step.start_throw]

/-- A sequence of calls comes to the same as the accepted ones among them. -/
theorem performAll_accepted (workspace : Workspace) (calls : List Write) :
    workspace.buffer.performAll (workspace.accepted calls) =
      .ok (calls.foldl called workspace).buffer := by
  induction calls generalizing workspace with
  | nil => rfl
  | cons call rest ih =>
      have hrest := ih (workspace.called call)
      rw [accepted, List.foldl_cons]
      split
      · rename_i buffer hperform
        rw [called_of_ok hperform] at hrest ⊢
        exact Buffer.performAll_cons.mpr ⟨buffer, hperform, hrest⟩
      · rename_i violation hperform
        rw [called_of_error hperform] at hrest ⊢
        exact hrest

/-- **The length of the text.**  After any calls, accepted or refused, the text is longer than its
recorded changes of length tell by the overhangs of the accepted calls.  The history accounts for
the length exactly if no accepted call reached past the end of the text, as it does if all that is
removed lies in the text as it was.  A refused call leaves everything as it is. -/
theorem calls_account (text : Text) (queue : Queue) (journal : List Event) (calls : List Write) :
    let before : Workspace := { buffer := { text }, queue, journal }
    let after := calls.foldl called before
    let made := before.accepted calls
    (after.buffer.text.length : Int) =
        text.length + after.buffer.history.recorded + Buffer.overhang { text } made ∧
      ((after.buffer.text.length : Int) = text.length + after.buffer.history.recorded ↔
        ∀ (front : List Write) (write : Write) (back : List Write) (between : Buffer),
          made = front ++ write :: back → Buffer.performAll { text } front = .ok between →
            ¬ write.Overhangs between) ∧
      ((∀ write ∈ made, 0 < write.length → write.Inside text.length) →
        (after.buffer.text.length : Int) = text.length + after.buffer.history.recorded) ∧
      ∀ (call : Write) (violation : Violation),
        call.perform after.buffer = .error violation → after.called call = after := by
  intro before after made
  have hperform : Buffer.performAll { text } made = .ok after.buffer :=
    performAll_accepted before calls
  have hlength := Buffer.length_of_performAll hperform
  have hexact : (after.buffer.text.length : Int) = text.length + after.buffer.history.recorded ↔
      Buffer.overhang { text } made = 0 := by omega
  refine ⟨hlength, ?_, ?_, ?_⟩
  · rw [hexact]
    exact Buffer.overhang_eq_zero_iff hperform
  · intro hinside
    exact hexact.mpr (Buffer.overhang_eq_zero_of_inside hperform hinside)
  · intro call violation
    exact called_of_error

/-- A removal past the end is recorded in full: the text is one character shorter, and the history
tells of nine. -/
theorem calls_unaccounted :
    let after := called { buffer := { text := "abc" } } (.replace 1 10 "x")
    after.buffer.text = "ax" ∧ after.buffer.history.recorded = -9 ∧
      (after.buffer.text.length : Int) ≠ 3 + after.buffer.history.recorded := by
  decide

end Workspace

end SyntaxRepair
