import SyntaxRepair.Proofs.Overload.Updating
import SyntaxRepair.Proofs.Repair.Findings

/-!
# Resolving the diagnostics of a pass

The diagnostics of a pass make exactly the writes of its findings, in their order, and
collect the types that stood in the text before the pass.

`Buffer.Follows` is the invariant of a sweep: its buffer has accepted the writes of the
findings so far, each lies inside the text, and each leaves less than it removes.  Hence
what a later finding reads in the buffer is what stood there in the first place
(`Follows.found_eq`).
-/

namespace SyntaxRepair

/-! ## Locations inside the text -/

/-- A location whose end is no earlier than its start and no later than the end of a text
of `size` characters. -/
structure Location.Within (size : Nat) (location : Location) : Prop where
  start_le_stop : location.values.start ≤ location.values.stop
  stop_le : location.values.stop ≤ size

instance (size : Nat) (location : Location) : Decidable (location.Within size) :=
  decidable_of_iff (location.values.start ≤ location.values.stop ∧ location.values.stop ≤ size)
    ⟨fun h => ⟨h.1, h.2⟩, fun h => ⟨h.1, h.2⟩⟩

/-- All locations that a node tells. -/
def Label.locations (label : Label) : List Location :=
  label.location ::
    (label.nameLocation.toList ++ label.bodyLocation.toList ++ label.endLocation.toList)

namespace Parse

/-- All locations of a report. -/
def locations (result : Parse) : List Location :=
  result.diagnostics.map Diagnostic.location ++
    result.tree.index.nodes.toList.flatMap fun node => node.label.locations

theorem location_mem_of_diagnostic {result : Parse} {diagnostic : Diagnostic}
    (hmem : diagnostic ∈ result.diagnostics) : diagnostic.location ∈ result.locations :=
  List.mem_append_left _ (List.mem_map_of_mem hmem)

theorem location_mem_of_node {result : Parse} {node : Outline} {location : Location}
    (hnode : node ∈ result.tree.index.nodes.toList) (hmem : location ∈ node.label.locations) :
    location ∈ result.locations :=
  List.mem_append_right _ (List.mem_flatMap.mpr ⟨node, hnode, hmem⟩)

end Parse

/-- What a site consists of: the definition is a node of the tree, and its body one of its
children. -/
theorem Sweep.site?_mem {tree : Node} {offset : Int} {site : Sweep.Site}
    (h : Sweep.site? tree.index offset = some site) :
    site.definition ∈ tree.index.nodes.toList ∧ site.body ∈ site.definition.children := by
  simp only [Sweep.site?, bind, Option.bind_eq_some_iff] at h
  obtain ⟨definition, hdefinition, _, -, _, -, _, -, body, hbody, _, -, hsite⟩ := h
  cases hsite
  exact ⟨tree.mem_nodes_of_innermost hdefinition, List.mem_of_find?_eq_some hbody⟩

namespace Parse

variable {result : Parse} {seen : List Int} {diagnostic : Diagnostic}

/-- What is found in a typed parameter is the range from the last parameter up to the first
child of the body behind the marker. -/
theorem finding?_eq_some_of_typed {finding : Finding}
    (hkind : diagnostic.extension? = some .typedParameter)
    (h : result.finding? seen diagnostic = some finding) :
    ∃ site right, result.site? diagnostic.location = some site ∧
      site.follower? diagnostic.location.values.stop = some right ∧
      finding = .typed site ⟨site.parameter.whole, right.location.start.whole⟩ := by
  simp only [finding?, hkind, bind, Option.bind_eq_some_iff] at h
  obtain ⟨site, hsite, h⟩ := h
  split at h
  · cases h
  · obtain ⟨right, hright, h⟩ := Option.bind_eq_some_iff.mp h
    cases h
    exact ⟨site, right, hsite, hright, rfl⟩

/-- What is found in a diagnostic is its own location, if it is not a typed parameter. -/
theorem finding?_eq_some {finding : Finding}
    (h : result.finding? seen diagnostic = some finding) :
    finding = .field diagnostic.location.values ∨
      ∃ site right, result.site? diagnostic.location = some site ∧
        site.follower? diagnostic.location.values.stop = some right ∧
        finding = .typed site ⟨site.parameter.whole, right.location.start.whole⟩ := by
  by_cases hkind : diagnostic.extension? = some .typedParameter
  · exact Or.inr (finding?_eq_some_of_typed hkind h)
  · unfold finding? at h
    split at h
    · cases h
      exact Or.inl rfl
    · rename_i htyped
      exact absurd htyped hkind
    · cases h

/-- A finding reaches no further than the text. -/
theorem finding_stop_le {finding : Finding}
    (hlocations : ∀ location ∈ result.locations, location.Within result.text.length)
    (hdiagnostic : diagnostic ∈ result.diagnostics)
    (h : result.finding? seen diagnostic = some finding) :
    finding.range.stop ≤ result.text.length := by
  rcases finding?_eq_some h with rfl | ⟨site, right, hsite, hright, rfl⟩
  · exact (hlocations _ (location_mem_of_diagnostic hdiagnostic)).stop_le
  · unfold site? at hsite
    split at hsite
    · obtain ⟨hdefinition, hbody⟩ := Sweep.site?_mem hsite
      have hnode : right ∈ result.tree.index.nodes.toList :=
        result.tree.child_mem_nodes (result.tree.child_mem_nodes hdefinition hbody)
          (List.mem_of_find?_eq_some hright)
      have hwithin := hlocations right.location
        (location_mem_of_node hnode (List.mem_cons_self ..))
      exact Int.le_trans hwithin.start_le_stop hwithin.stop_le
    · cases hsite

end Parse

/-! ## Types without their missions -/

/-- A definition of a group without its missions. -/
def Overload.bare (overload : Overload) : Overload := { overload with missions := [] }

/-- A group without its missions. -/
def OverloadGroup.bare (group : OverloadGroup) : OverloadGroup :=
  { group with overloads := group.overloads.map Overload.bare }

namespace Groups

/-- Groups without their missions. -/
def bare (groups : Groups) : Groups := groups.map OverloadGroup.bare

/-- Adds a type to a definition of the group with a key, without a mission. -/
def gather (key : OverloadKey) (definition : Nat) (type : Text) (groups : Groups) : Groups :=
  updateFirst (fun group => group.key = key) { key }
    (fun group => { group with
      overloads := updateFirst (fun overload => overload.definition = definition) { definition }
        (fun overload => { overload with types := overload.types ++ [type] }) group.overloads })
    groups

end Groups

/-- Adding a type with its mission gathers the type. -/
theorem Groups.bare_add (key : OverloadKey) (definition : Nat) (type : Text) (mission : Mission)
    (groups : Groups) :
    (groups.add key definition type mission).bare = groups.bare.gather key definition type := by
  rw [bare, add, gather, bare]
  refine map_updateFirst OverloadGroup.bare ?_ ?_ ?_ groups
  · exact fun group => rfl
  · rfl
  · intro group
    rw [OverloadGroup.bare, OverloadGroup.mk.injEq]
    refine ⟨rfl, map_updateFirst Overload.bare ?_ ?_ ?_ group.overloads⟩
    · exact fun overload => rfl
    · rfl
    · exact fun overload => rfl

/-- The groups with the type of a finding, as it stands in the text before the pass. -/
def Finding.gather (text : Text) (groups : Groups) : Finding → Groups
  | field _ => groups
  | typed site range =>
      groups.gather site.key site.definition.id (dropMarker (text.slice range.start range.stop))

/-! ## The invariant of a sweep -/

namespace Buffer

/-- A buffer that has accepted the writes of some findings and no others, each of them
inside the text and smaller than what it removes. -/
structure Follows (buffer : Buffer) (text : Text) (findings : List Finding) : Prop where
  performed : performAll { text } (findings.map (Finding.write text)) = .ok buffer
  inside : ∀ write ∈ findings.map (Finding.write text), write.Inside text.length
  shrinks : ∀ write ∈ findings.map (Finding.write text), write.Shrinks

theorem follows_nil (text : Text) : Follows { text } text [] :=
  ⟨rfl, List.forall_mem_nil _, List.forall_mem_nil _⟩

variable {text : Text} {findings : List Finding} {finding : Finding} {before after : Buffer}

theorem Follows.text_eq (hfollows : before.Follows text findings) :
    before.text = text.spliceAll (findings.map (Finding.write text)) :=
  text_of_performAll hfollows.inside
    (List.pairwise_of_forall_mem_list fun _ _ later hlater =>
      (hfollows.shrinks later hlater).admits)
    hfollows.performed

/-- What a finding reads is what stood in the text before the pass. -/
theorem Follows.found_eq (hfollows : before.Follows text findings)
    (hstop : finding.range.stop ≤ text.length)
    (hperform : (finding.write text).perform before = .ok after) :
    finding.found text before = text.slice finding.range.start finding.range.stop := by
  cases finding with
  | field range => rfl
  | typed site range =>
      have records := records_of_performAll hfollows.performed
      obtain ⟨hoffset, hlength, hmeets, -⟩ := replace_eq_ok_iff.mp hperform
      obtain ⟨offset, hoffsetNat⟩ := Int.eq_ofNat_of_zero_le hoffset
      obtain ⟨length, hlengthNat⟩ := Int.eq_ofNat_of_zero_le hlength
      have hrange : range.stop = (offset + length : Nat) := by
        rw [Range.length] at hlengthNat
        omega
      rw [Finding.range, hrange] at hstop
      rw [Finding.found, Finding.range, hoffsetNat, hrange]
      refine records.slice_eq hfollows.text_eq hfollows.inside hfollows.shrinks (by omega) ?_
      intro write hmem
      have hwrite := records.nonneg write hmem
      have hapart : Range.meets ⟨range.start, range.start + range.length⟩ write.range = false := by
        refine hmeets write.range ?_
        rw [records.written_eq]
        exact List.mem_map_of_mem hmem
      have hclear := (Range.meets_eq_false_iff (by
        dsimp only
        omega) (Int.le_add_of_nonneg_right hwrite.2)).mp hapart
      dsimp only [Write.range] at hclear
      omega

/-- The write of a finding reaches no further than the finding. -/
theorem inside_of_stop_le (hstop : finding.range.stop ≤ text.length) :
    (finding.write text).Inside text.length := by
  have hend : finding.range.start + finding.range.length = finding.range.stop := by
    rw [Range.length]
    omega
  rw [← hend] at hstop
  cases finding <;> exact hstop

/-- A finding that is accepted leaves less than it removes: a field its name without the
mark, a type nothing. -/
theorem shrinks_of_perform (hmarked : finding.Marked text)
    (hperform : (finding.write text).perform before = .ok after) :
    (finding.write text).Shrinks := by
  rw [Write.perform_eq_replace, replace_eq_ok_iff] at hperform
  obtain ⟨hoffset, hlength, -, -⟩ := hperform
  cases finding with
  | field range =>
      obtain ⟨c, name, hslice⟩ := hmarked
      have hle : ((text.slice range.start range.stop).length : Int) ≤ range.length :=
        text.length_slice_le hoffset (Int.le_of_sub_nonneg hlength)
      refine Or.inl ?_
      rw [Finding.write, Write.inserted, Write.length]
      rw [hslice] at hle ⊢
      simp only [List.length_cons, List.tail_cons] at hle ⊢
      omega
  | typed site range =>
      rcases Int.lt_or_eq_of_le hlength with hpositive | hempty
      · exact Or.inl hpositive
      · exact Or.inr ⟨hempty.symm, rfl⟩

/-- One more finding is followed. -/
theorem Follows.perform (hfollows : before.Follows text findings)
    (hmarked : finding.Marked text) (hstop : finding.range.stop ≤ text.length)
    (hperform : (finding.write text).perform before = .ok after) :
    after.Follows text (findings ++ [finding]) := by
  have hinside := inside_of_stop_le hstop
  have hshrinks := shrinks_of_perform hmarked hperform
  refine ⟨?_, ?_, ?_⟩
  · rw [List.map_append]
    exact performAll_concat.mpr ⟨before, hfollows.performed, hperform⟩
  · rw [List.map_append, List.forall_mem_append]
    exact ⟨hfollows.inside, List.forall_mem_singleton.mpr hinside⟩
  · rw [List.map_append, List.forall_mem_append]
    exact ⟨hfollows.shrinks, List.forall_mem_singleton.mpr hshrinks⟩

/-- A finding changes its own range and nothing around it. -/
theorem Follows.perform_split (hfollows : before.Follows text findings)
    (hmarked : finding.Marked text) (hstop : finding.range.stop ≤ text.length)
    (hperform : (finding.write text).perform before = .ok after) :
    ∃ front back : Text,
      before.text = front ++ text.slice finding.range.start finding.range.stop ++ back ∧
        after.text = front ++ (finding.write text).inserted ++ back := by
  have hafter := hfollows.perform hmarked hstop hperform
  have hwrites : findings.map (Finding.write text) ++ [finding.write text] =
      (findings ++ [finding]).map (Finding.write text) := by
    rw [List.map_append]
    rfl
  have hoffset : (finding.write text).offset = finding.range.start := by
    cases finding <;> rfl
  have hend : (finding.write text).offset + (finding.write text).length = finding.range.stop := by
    have hrange : finding.range.start + (finding.range.stop - finding.range.start) =
        finding.range.stop := by omega
    cases finding <;> exact hrange
  obtain ⟨front, back, hbefore, hnew, -⟩ :=
    (records_of_performAll hfollows.performed).perform_split hfollows.text_eq
      (hwrites ▸ hafter.inside) (hwrites ▸ List.pairwise_of_forall_mem_list
        fun _ _ later hlater => (hafter.shrinks later hlater).admits) hperform
  rw [hend, hoffset] at hbefore
  exact ⟨front, back, hbefore, hnew⟩

end Buffer

/-! ## The diagnostics of a pass -/

namespace Parse

/-- The types of some findings gathered into groups. -/
def gatherAll (result : Parse) (findings : List Finding) (groups : Groups) : Groups :=
  findings.foldl (fun groups finding => finding.gather result.text groups) groups

/-- The overload groups of a parse. -/
def groups (result : Parse) : Groups := result.gatherAll result.findings []

end Parse

section

variable {result : Parse} {before after : Sweep} {found : List Finding}

/-- **One diagnostic.**  Resolving it keeps the sweep in step with its finding. -/
theorem resolveDiagnostic_follows
    (hlocations : ∀ location ∈ result.locations, location.Within result.text.length)
    {diagnostic : Diagnostic} (hdiagnostic : diagnostic ∈ result.diagnostics) {resolved : Bool}
    (hfollows : before.buffer.Follows result.text found)
    (h : (resolveDiagnostic result.tree.index result diagnostic).start before =
      (.ok resolved, after)) :
    after.buffer.Follows result.text (found ++ (result.finding? before.seen diagnostic).toList) ∧
      after.seen = result.seeing before.seen diagnostic ∧
      (after.groups.map Groups.bare = before.groups.map fun groups =>
        result.gatherAll (result.finding? before.seen diagnostic).toList groups.bare) ∧
      resolved = (result.finding? before.seen diagnostic).isSome := by
  rcases resolveDiagnostic_eq_ok h with
    ⟨hnone, rfl, rfl⟩ | ⟨finding, buffer, hsome, rfl, hmarked, hperform, rfl⟩
  · rw [hnone, Option.toList_none, List.append_nil]
    exact ⟨hfollows, rfl, rfl, rfl⟩
  · have hstop := Parse.finding_stop_le hlocations hdiagnostic hsome
    rw [hsome, Option.toList_some]
    refine ⟨hfollows.perform hmarked hstop hperform, rfl, ?_, rfl⟩
    simp only [Sweep.resolving, Option.map_map]
    refine congrArg (fun f => before.groups.map f) (funext fun groups => ?_)
    rw [hfollows.found_eq hstop hperform]
    cases finding with
    | field range => rfl
    | typed site range => exact Groups.bare_add ..

/-- **All diagnostics.**  What a sweep has written and collected in the end is told by its
findings. -/
theorem resolveDiagnostics_follows
    (hlocations : ∀ location ∈ result.locations, location.Within result.text.length)
    {diagnostics : List Diagnostic} (hsub : ∀ diagnostic ∈ diagnostics,
      diagnostic ∈ result.diagnostics) {count : Nat}
    (hfollows : before.buffer.Follows result.text found)
    (h : (resolveDiagnostics result.tree.index result diagnostics).start before =
      (.ok count, after)) :
    after.buffer.Follows result.text (found ++ result.findingsFrom before.seen diagnostics) ∧
      (after.groups.map Groups.bare = before.groups.map fun groups =>
        result.gatherAll (result.findingsFrom before.seen diagnostics) groups.bare) ∧
      count = (result.findingsFrom before.seen diagnostics).length := by
  induction diagnostics generalizing before found count with
  | nil =>
      obtain ⟨rfl, rfl⟩ := Step.start_pure_eq_ok.mp h
      rw [Parse.findingsFrom, List.append_nil]
      exact ⟨hfollows, rfl, rfl⟩
  | cons diagnostic rest ih =>
      obtain ⟨resolved, between, others, hfirst, hrest, rfl⟩ := resolveDiagnostics_cons_eq_ok.mp h
      obtain ⟨hbetween, hseen, hgroups, hresolved⟩ :=
        resolveDiagnostic_follows hlocations (hsub diagnostic (List.mem_cons_self ..)) hfollows
          hfirst
      obtain ⟨hafter, hgroupsAfter, hothers⟩ :=
        ih (fun other hmem => hsub other (List.mem_cons_of_mem _ hmem)) hbetween hrest
      rw [Parse.findingsFrom, ← hseen, ← List.append_assoc]
      refine ⟨hafter, ?_, ?_⟩
      · have hmap := congrArg (Option.map fun groups =>
          result.gatherAll (result.findingsFrom between.seen rest) groups) hgroups
        rw [Option.map_map, Option.map_map] at hmap
        rw [hgroupsAfter]
        simp only [Parse.gatherAll, List.foldl_append]
        exact hmap
      · rw [List.length_append, ← hothers, hresolved]
        cases result.finding? before.seen diagnostic with
        | none => exact (Nat.zero_add others).symm
        | some finding => exact Nat.add_comm others 1

/-- Wherever the locations of a report stand, diagnostics that are resolved one after another make
the writes of their findings. -/
theorem resolveDiagnostics_performs {diagnostics : List Diagnostic} {count : Nat}
    (h : (resolveDiagnostics result.tree.index result diagnostics).start before =
      (.ok count, after)) :
    before.buffer.performAll
      ((result.findingsFrom before.seen diagnostics).map (Finding.write result.text)) =
        .ok after.buffer := by
  induction diagnostics generalizing before count with
  | nil =>
      obtain ⟨rfl, rfl⟩ := Step.start_pure_eq_ok.mp h
      rfl
  | cons diagnostic rest ih =>
      obtain ⟨resolved, between, others, hfirst, hrest, -⟩ := resolveDiagnostics_cons_eq_ok.mp h
      have hothers := ih hrest
      rw [Parse.findingsFrom]
      rcases resolveDiagnostic_eq_ok hfirst with
        ⟨hnone, -, rfl⟩ | ⟨finding, buffer, hsome, -, -, hperform, rfl⟩
      · rw [hnone]
        exact hothers
      · rw [hsome, Option.toList_some, List.map_append, List.map_singleton]
        refine Buffer.performAll_append.mpr ⟨buffer, ?_, hothers⟩
        rw [Buffer.performAll_singleton]
        exact hperform

/-- **The sweep of a pass.**  It makes the writes of its findings and counts them, and
only the first one collects groups. -/
theorem sweep_eq_ok {first : Bool} {before after : Workspace} {resolved : Nat}
    {groups : Option Groups}
    (hlocations : ∀ location ∈ result.locations, location.Within result.text.length)
    (hfresh : before.buffer = { text := result.text })
    (h : (sweep first result).start before = (.ok (resolved, groups), after)) :
    after.buffer.Follows result.text result.findings ∧
      groups.map Groups.bare = (if first then some result.groups else none) ∧
      resolved = result.findings.length := by
  obtain ⟨swept, hresolve, rfl, rfl⟩ := start_sweep_eq_ok.mp h
  have hbegun : before.buffer.Follows result.text [] := by
    rw [hfresh]
    exact Buffer.follows_nil result.text
  obtain ⟨hfollows, hgroups, hcount⟩ :=
    resolveDiagnostics_follows hlocations (fun _ hmem => hmem) hbegun hresolve
  refine ⟨hfollows, ?_, hcount⟩
  rw [hgroups]
  cases first <;> rfl

end

end SyntaxRepair
