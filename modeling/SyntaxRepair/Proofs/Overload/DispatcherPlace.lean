import Mathlib.Data.List.TakeWhile
import SyntaxRepair.Proofs.Overload.NewNames
import SyntaxRepair.Proofs.Repair.Dispatching

/-!
# Where dispatchers go

A dispatcher goes to the beginning of the line of its first definition, not to the definition.
Both are the same for a definition that begins its line.  Otherwise what stands in front of the
definition in its line ends up behind the dispatcher, and where that is the head of a class, the
dispatcher goes out of the class that its definitions are in.

So the lead of a definition decides (`Location.lead`), which is the part of its line in front of
it.  The dispatcher stands immediately before the definition exactly if the lead is blank, and then
it is in the same nodes of the tree (`makePass_dispatcher_places`).
-/

namespace SyntaxRepair

/-! ## The beginning of a line -/

namespace Text

variable {text : Text}

/-- How many blanks a line begins with. -/
def margin (line : Text) : Nat := (line.takeWhile isBlank).length

/-- The front of a line is blank exactly if it is not longer than the margin of the line. -/
theorem all_isBlank_iff {front line : Text} (h : front <+: line) :
    front.all isBlank = true ↔ front.length ≤ line.margin := by
  rw [List.all_eq_true]
  constructor
  · intro hblank
    obtain ⟨rest, rfl⟩ := h
    rw [margin, List.takeWhile_append_of_pos hblank, List.length_append]
    exact Nat.le_add_right ..
  · intro hle c hc
    have hfront : front <+: line.takeWhile isBlank :=
      List.prefix_of_prefix_length_le h (List.takeWhile_prefix _) hle
    exact List.mem_takeWhile_imp (hfront.subset hc)

/-- Between the beginning of a line and an offset in the line there is no newline. -/
theorem LineOrigin.slice_prefix {origin offset : Nat} (h : text.LineOrigin origin offset) :
    text.slice origin offset <+: text.lineFrom origin := by
  rw [slice_of_nat, List.drop_take]
  have hline : ∀ c ∈ (text.drop origin).take (offset - origin),
      decide (c ≠ .char '\n') = true := by
    intro c hc
    obtain ⟨index, hindex⟩ := List.mem_iff_getElem?.mp hc
    rw [List.getElem?_take, Option.ite_none_right_eq_some, List.getElem?_drop] at hindex
    obtain ⟨hlt, hplace⟩ := hindex
    refine decide_eq_true fun hnewline => ?_
    rw [hnewline] at hplace
    -- a line would begin behind the newline
    have hnext := h.greatest _ (mem_lineStarts.mpr (Or.inr ⟨_, hplace, rfl⟩)) (by omega)
    omega
  rw [lineFrom, ← List.take_append_drop (offset - origin) (text.drop origin),
    List.takeWhile_append_of_pos hline]
  simp

end Text

/-! ## Leads -/

namespace Range

/-- Whether a range of a text neither begins nor ends with a blank. -/
def isSolid (text : Text) (range : Range) : Bool :=
  0 ≤ range.start && (text[range.start.toNat]?).any (!Text.isBlank ·) &&
    0 < range.stop && (text[(range.stop - 1).toNat]?).any (!Text.isBlank ·)

theorem exists_of_isSolid {text : Text} {range : Range} (h : range.isSolid text = true) :
    ∃ first last : Nat, range = ⟨first, last + 1⟩ ∧
      (∃ c, text[first]? = some c ∧ Text.isBlank c = false) ∧
      ∃ c, text[last]? = some c ∧ Text.isBlank c = false := by
  obtain ⟨start, stop⟩ := range
  simp only [isSolid, Bool.and_eq_true, decide_eq_true_iff, Option.any_eq_true,
    Bool.not_eq_true'] at h
  obtain ⟨⟨⟨hstart, hfirst⟩, hstop⟩, hlast⟩ := h
  refine ⟨start.toNat, (stop - 1).toNat, ?_, hfirst, hlast⟩
  rw [Int.toNat_of_nonneg hstart, Int.toNat_of_nonneg (by omega), Int.sub_add_cancel]

/-- A place is inside of a range. -/
def Surrounds (range : Range) (place : Int) : Prop := range.start < place ∧ place < range.stop

instance (range : Range) (place : Int) : Decidable (range.Surrounds place) :=
  inferInstanceAs (Decidable (_ ∧ _))

/-- A range that neither begins nor ends with a blank surrounds the beginning of a blank part
exactly if it surrounds the end of the part. -/
theorem surrounds_iff {text : Text} {range : Range} {start stop : Nat} (hle : start ≤ stop)
    (hsolid : range.isSolid text = true)
    (hblank : (text.slice start stop).all Text.isBlank = true) :
    range.Surrounds stop ↔ range.Surrounds start := by
  obtain ⟨first, last, rfl, hfirst, hlast⟩ := exists_of_isSolid hsolid
  -- neither end of the range is in the part
  have hapart : ∀ place : Nat, (∃ c, text[place]? = some c ∧ Text.isBlank c = false) →
      place < start ∨ stop ≤ place := by
    rintro place ⟨c, hplace, hc⟩
    by_contra hinside
    have hmem : c ∈ text.slice start stop :=
      Text.mem_slice_of_getElem? (by omega) (by omega) hplace
    rw [List.all_eq_true.mp hblank c hmem] at hc
    cases hc
  have hbefore := hapart first hfirst
  have hbehind := hapart last hlast
  simp only [Surrounds]
  omega

end Range

namespace Location

/-- What stands between the beginning of the line of a location and the location. -/
def lead (text : Text) (location : Location) : Text :=
  text.slice (location.start.whole - location.column.whole) location.start.whole

/-- A location that tells the line it begins in, and how far behind its beginning. -/
structure Settled (result : Parse) (location : Location) : Prop where
  line_eq : result.lineStart? location.line =
    .ok (some (location.start.whole - location.column.whole))
  aligned : location.Aligned result.text

instance (result : Parse) (location : Location) : Decidable (location.Settled result) :=
  decidable_of_iff (result.lineStart? location.line =
      .ok (some (location.start.whole - location.column.whole)) ∧ location.Aligned result.text)
    ⟨fun h => ⟨h.1, h.2⟩, fun h => ⟨h.1, h.2⟩⟩

/-- The lead of a location is the front of a line from `origin` on, and decides whether both ends
of it are at the same places of the tree. -/
structure LedFrom (result : Parse) (origin : Nat) (location : Location) : Prop where
  origin_add : (origin : Int) + location.column.whole = location.start.whole
  lead_prefix : location.lead result.text <+: result.text.lineFrom origin
  blank_iff : (location.lead result.text).all Text.isBlank = true ↔
    (location.lead result.text).length ≤ (result.text.lineFrom origin).margin
  surrounds_iff : (location.lead result.text).all Text.isBlank = true →
    ∀ node ∈ result.tree.index.nodes.toList, node.location.values.isSolid result.text = true →
      (node.location.values.Surrounds location.start.whole ↔
        node.location.values.Surrounds origin)

theorem Settled.ledFrom {result : Parse} {location : Location} (hsettled : location.Settled result)
    {origin : Int} (horigin : result.lineStart? location.line = .ok (some origin)) :
    ∃ place : Nat, origin = place ∧ location.LedFrom result place := by
  obtain ⟨place, -, rfl⟩ := Parse.mem_lineStarts_of_lineStart? horigin
  have hplace : location.start.whole - location.column.whole = (place : Int) :=
    Option.some.inj (Except.ok.inj (hsettled.line_eq.symm.trans horigin))
  have haligned : result.text.LineOrigin place location.start.whole := by
    rw [← hplace]
    exact hsettled.aligned
  obtain ⟨stop, hstop⟩ :=
    Int.eq_ofNat_of_zero_le (Int.le_trans (Int.natCast_nonneg place) haligned.le)
  have hlead : location.lead result.text = result.text.slice place stop := by
    rw [lead, hplace, hstop]
  rw [hstop] at haligned
  refine ⟨place, rfl, by omega, ?_, ?_, ?_⟩
  · rw [hlead]
    exact haligned.slice_prefix
  · rw [hlead]
    exact Text.all_isBlank_iff haligned.slice_prefix
  · intro hblank node _ hsolid
    rw [hlead] at hblank
    rw [hstop]
    exact Range.surrounds_iff (Int.ofNat_le.mp haligned.le) hsolid hblank

end Location

/-- What goes above a definition that tells its line and column goes to where its lead begins. -/
theorem Write.PutsAbove.exists_ledFrom {result : Parse} {definition : Outline} {script : Text}
    {write : Write} (habove : write.PutsAbove result definition script)
    (hsettled : definition.location.Settled result) :
    ∃ origin : Nat, write.offset = origin ∧ definition.location.LedFrom result origin := by
  obtain ⟨start, depth, inserted, hstart, -, -, rfl⟩ := habove
  exact hsettled.ledFrom hstart

/-! ## A first pass -/

/-- **The places of the dispatchers.**  A first pass that succeeds over a report whose definitions
tell their lines and columns has made, behind the writes of its findings, those of one merge for
each group with several definitions.  The dispatcher of a group goes to the beginning of the line
of its first definition, as far to the right as the definition.  What is left between the two is
the lead of the definition.  It is blank exactly if it is not longer than the margin of the line,
and then each node that neither begins nor ends with a blank has the dispatcher inside of it if
and only if it has the definition there. -/
theorem makePass_dispatcher_places {options : Options} {result : Parse} {before after : Workspace}
    (hsettled : ∀ node ∈ result.tree.index.nodes.toList, node.kind = definitionKind →
      node.location.Settled result)
    (h : (makePass options 1 result).start before = (.ok ⟨⟩, after)) :
    ∃ merged : List (OverloadGroup × Merge),
      before.buffer.performAll (result.findings.map (Finding.write result.text) ++
        (merged.map Prod.snd).flatMap Merge.writes) = .ok after.buffer ∧
      merged.map Prod.fst = (result.collected before).filter OverloadGroup.merges ∧
      ∀ entry ∈ merged, ∃ first ∈ entry.1.overloads.head?,
        ∃ definition ∈ result.tree.index.nodes.toList, definition.id = first.definition ∧
          entry.2.dispatcher.PutsAbove result definition
            (dispatcherText options.names entry.1.key.name (entry.1.overloads.map (·.types))) ∧
          ∃ origin : Nat, entry.2.dispatcher.offset = origin ∧
            definition.location.LedFrom result origin := by
  obtain ⟨hsound, hcovered⟩ := result.collected_covered before
  rw [makePass, Step.start_bind_eq_ok, decide_eq_true rfl] at h
  obtain ⟨⟨resolved, groups⟩, swept, hsweep, h⟩ := h
  obtain ⟨rfl, hfindings⟩ := sweep_collects hsweep
  rw [Step.start_bind_eq_ok] at h
  obtain ⟨_, merging, hmerge, h⟩ := h
  obtain ⟨merges, hmerges, hperform⟩ := mergeOverloads_eq_ok hmerge
  obtain ⟨hbuffer, -⟩ := Workspace.closing_eq_ok h
  obtain ⟨merged, hgroups, rfl, hall⟩ := Parse.mergesOf?_eq_some hmerges
  refine ⟨merged, ?_, hgroups, ?_⟩
  · rw [hbuffer]
    exact Buffer.performAll_append.mpr ⟨swept.buffer, hfindings, hperform⟩
  · intro entry hentry
    obtain ⟨first, hfirst, -, hdispatcher⟩ := hall entry hentry
    obtain ⟨definition, hfound, habove⟩ := Parse.dispatcher?_eq_some hdispatcher
    have hgroup : entry.1 ∈ result.collected before := by
      have hmem := List.mem_map_of_mem (f := Prod.fst) hentry
      rw [hgroups] at hmem
      exact List.mem_of_mem_filter hmem
    -- the first definition of the group is the node that the dispatcher was placed by
    obtain ⟨parent, node, hcovers, hid⟩ :=
      hcovered.of_overload hsound hgroup (List.mem_of_mem_head? hfirst)
    have hnode := result.tree.child_mem_nodes hcovers.parent_mem hcovers.child_mem
    rw [← hid, Parse.definition?_eq_some] at hfound
    have hsame := result.tree.eq_of_node?_id hnode hfound
    subst hsame
    exact ⟨first, hfirst, _, hnode, hid, habove,
      habove.exists_ledFrom (hsettled _ hnode hcovers.kind_eq)⟩

/-! ### Definitions behind the head of their class -/

/-- A definition `def f(A=>a)end` that begins at `column` of line `line`, with the type as its
parameter and the parameter as its body. -/
def indentedDefinition (origin line column : Int) : Node :=
  .mk { kind := definitionKind, location := Run.sampleLocation origin line column 14,
        name := some "f", nameLocation := some (Run.sampleLocation origin line (column + 4) 1) }
    [some (.mk { kind := parametersKind, location := Run.sampleLocation origin line (column + 6) 1 }
      [some (.mk { kind := "parameter_node",
                   location := Run.sampleLocation origin line (column + 6) 1 } [])]),
     some (.mk { kind := "statements_node",
                 location := Run.sampleLocation origin line (column + 9) 1 }
      [some (.mk { kind := "call_node",
                   location := Run.sampleLocation origin line (column + 9) 1 } [])])]

/-- A class with two definitions of one name in its line `line`, behind `head` and the first
`column` characters of that line. -/
def classParse (head : Text) (line column : Int) : Parse :=
  let origin : Int := head.length - column
  let whole : Location := Run.sampleLocation 0 1 0 (head.length + 33)
  { text := head ++ "def f(A=>a)end;def f(B=>b)end;end"
    tree := .mk { kind := "program_node", location := whole }
      [some (.mk { kind := "class_node", location := whole }
        [some (indentedDefinition origin line column),
         some (indentedDefinition origin line (column + 15))])]
    diagnostics :=
      [⟨"unexpected_token_ignore", Run.sampleLocation origin line (column + 7) 2, []⟩,
       ⟨"unexpected_token_ignore", Run.sampleLocation origin line (column + 22) 2, []⟩] }

/-- The class with its definitions in a line below its head. -/
def belowHead : Parse := classParse "class C\n  " 2 2

/-- The class with everything in one line. -/
def behindHead : Parse := classParse "class C;" 1 8

/-- The groups with several definitions that a first pass over a report collects, each with the
location of its first definition. -/
def Parse.leading (result : Parse) : List (OverloadGroup × Option Location) :=
  ((result.collected { buffer := { text := result.text } }).filter OverloadGroup.merges).map
    fun group => (group, group.overloads.head?.bind fun first =>
      (result.definition? first.definition).map Outline.location)

/-- Below the head of the class the lead is blank, and the dispatcher goes into the class. -/
theorem makePass_dispatcher_places_below :
    ∃ after, (makePass {} 1 belowHead).start { buffer := { text := belowHead.text } } =
        (.ok ⟨⟩, after) ∧
      ∃ (merge : Merge) (definition : Outline),
        definition.location = Run.sampleLocation 8 2 2 14 ∧
        merge.dispatcher.PutsAbove belowHead definition
          (dispatcherText [] "f" [["A"], ["B"]]) ∧
        merge.dispatcher.offset = 8 ∧
        (definition.location.lead belowHead.text).all Text.isBlank = true ∧
        ∀ node ∈ belowHead.tree.index.nodes.toList,
          node.location.values.isSolid belowHead.text = true →
          (node.location.values.Surrounds 10 ↔ node.location.values.Surrounds 8) := by
  have hsettled : ∀ node ∈ belowHead.tree.index.nodes.toList, node.kind = definitionKind →
      node.location.Settled belowHead := by decide +kernel
  have hpass := @Step.eq_ok_of_fst _ Unit
    ((makePass {} 1 belowHead).start { buffer := { text := belowHead.text } }) ⟨⟩
    (by decide +kernel)
  obtain ⟨merged, -, hgroups, hall⟩ := makePass_dispatcher_places hsettled hpass
  have hlength : merged.length = 1 := by
    rw [← List.length_map Prod.fst, hgroups]
    decide +kernel
  obtain ⟨⟨group, merge⟩, rfl⟩ := List.length_eq_one_iff.mp hlength
  obtain ⟨first, hfirst, definition, hdefinition, hid, habove, origin, horigin, hled⟩ :=
    hall _ (List.mem_singleton_self _)
  have hgroup : group ∈ (belowHead.collected { buffer := { text := belowHead.text } }).filter
      OverloadGroup.merges := by
    rw [← hgroups]
    exact List.mem_singleton_self _
  have hsample : ∀ group ∈ (belowHead.collected { buffer := { text := belowHead.text } }).filter
      OverloadGroup.merges, group.key.name = "f" ∧
        group.overloads.map (·.types) = ([["A"], ["B"]] : List (List Text)) ∧
        ∀ first ∈ group.overloads.head?, ∀ node ∈ belowHead.tree.index.nodes.toList,
          node.id = first.definition → node.location = Run.sampleLocation 8 2 2 14 := by
    decide +kernel
  obtain ⟨hname, htypes, hlocation⟩ := hsample group hgroup
  have hplace := hlocation first hfirst definition hdefinition hid
  dsimp only at habove horigin
  rw [hname, htypes] at habove
  have height : origin = 8 := by
    have hadd := hled.origin_add
    rw [hplace, Run.sampleLocation, Json.Number.whole_int, Json.Number.whole_int] at hadd
    omega
  subst height
  have hblank : (definition.location.lead belowHead.text).all Text.isBlank = true := by
    rw [hled.blank_iff, hplace]
    decide +kernel
  refine ⟨_, hpass, merge, definition, hplace, habove, horigin, hblank, ?_⟩
  have hsurrounds := hled.surrounds_iff hblank
  rw [hplace] at hsurrounds
  exact hsurrounds

/-- Behind the head of the class the dispatcher goes above the class, although the definitions
tell their lines and columns. -/
theorem makePass_dispatcher_places_behind :
    (∀ node ∈ behindHead.tree.index.nodes.toList, node.kind = definitionKind →
      node.location.Settled behindHead) ∧
    ((makePass {} 1 behindHead).start { buffer := { text := behindHead.text } }).1 = .ok ⟨⟩ ∧
    behindHead.leading.map Prod.snd = [some (Run.sampleLocation 0 1 8 14)] ∧
    (behindHead.mergesOf? [] (behindHead.leading.map Prod.fst)).map
      (List.map fun merge => merge.dispatcher.offset) = some [0] ∧
    behindHead.text.slice 0 8 = "class C;" ∧
    ∃ node ∈ behindHead.tree.index.nodes.toList, node.kind = "class_node" ∧
      node.location.values.Surrounds 8 ∧ ¬ node.location.values.Surrounds 0 := by
  decide +kernel

end SyntaxRepair
