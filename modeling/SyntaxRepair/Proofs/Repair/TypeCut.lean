import SyntaxRepair.Proofs.Repair.Sweeping

/-!
# What is cut out with a type

A typed parameter is repaired by removing everything from the last parameter up to the
first child of the body behind the marker.  The mission carries the removed text without
the marker at its end.

Whether anything else goes with the type depends on the text alone: the removed text is
the type, blanks, the marker and blanks exactly if the parameter begins no later than the
marker and nothing but blanks follows up to the body (`markedAt_iff`).  A comment between
them, for one, is removed as well, and the mission carries it.
-/

namespace SyntaxRepair

/-! ## Markers at the end of a text -/

namespace Text

/-- Only blanks are trimmed from the end of a text. -/
theorem exists_trimEnd_append (text : Text) :
    ∃ gap : Text, gap.all isBlank = true ∧ text = trimEnd text ++ gap := by
  refine ⟨(text.reverse.takeWhile isBlank).reverse, ?_, ?_⟩
  · rw [List.all_reverse]
    exact List.all_takeWhile
  · rw [trimEnd, ← List.reverse_append, List.takeWhile_append_dropWhile, List.reverse_reverse]

end Text

/-- A marker with nothing but blanks behind it is dropped with the blanks in front of
it. -/
theorem dropMarker_append (front : Text) {gap : Text} (hgap : gap.all Text.isBlank = true) :
    dropMarker (front ++ typeMarker ++ gap) = front.trimEnd := by
  have hreverse : (front ++ typeMarker ++ gap).reverse =
      gap.reverse ++ (.char '>' :: .char '=' :: front.reverse) := by
    rw [List.reverse_append, List.reverse_append]
    rfl
  have hdrop : (gap.reverse ++ (.char '>' :: .char '=' :: front.reverse)).dropWhile Text.isBlank =
      .char '>' :: .char '=' :: front.reverse := by
    rw [List.dropWhile_append_of_pos fun c hc =>
        List.all_eq_true.mp hgap c (List.mem_reverse.mp hc),
      List.dropWhile_cons_of_neg (by decide)]
  rw [dropMarker, hreverse, hdrop]
  rfl

/-- A text that begins at `start` is a type, a marker at `place`, and blanks around the
marker. -/
def MarkedAt (start place : Int) (type text : Text) : Prop :=
  ∃ before behind : Text, before.all Text.isBlank = true ∧ behind.all Text.isBlank = true ∧
    text = type ++ before ++ typeMarker ++ behind ∧ start + (type ++ before).length = place

/-- A text with a marker in it is its type with that marker exactly if blanks follow. -/
theorem markedAt_append_iff (start : Int) (front gap : Text) :
    MarkedAt start (start + front.length) (dropMarker (front ++ typeMarker ++ gap))
        (front ++ typeMarker ++ gap) ↔
      gap.all Text.isBlank = true := by
  constructor
  · rintro ⟨before, behind, -, hbehind, htext, hplace⟩
    generalize dropMarker (front ++ typeMarker ++ gap) = type at htext hplace
    have hlength : front.length = (type ++ before).length := by omega
    rw [List.append_assoc front, List.append_assoc (type ++ before)] at htext
    obtain ⟨-, hrest⟩ := List.append_inj htext hlength
    rw [List.append_cancel_left hrest]
    exact hbehind
  · intro hgap
    obtain ⟨before, hbefore, hfront⟩ := front.exists_trimEnd_append
    rw [dropMarker_append front hgap]
    refine ⟨before, gap, hbefore, hgap, ?_, ?_⟩
    · rw [← hfront]
    · rw [← hfront]

/-- What stands from a parameter up to a place behind a marker is a type with that marker
exactly if the parameter begins no later than the marker and blanks follow the marker. -/
theorem markedAt_iff {text : Text} {start stop : Nat} {marker : Range}
    (hstop : stop ≤ text.length)
    (hslice : text.slice marker.start marker.stop = typeMarker)
    (hmarker : marker.start ≤ marker.stop) (hbehind : marker.stop ≤ stop) :
    MarkedAt start marker.start (dropMarker (text.slice start stop)) (text.slice start stop) ↔
      start ≤ marker.start ∧ (text.slice marker.stop stop).all Text.isBlank = true := by
  have hstart := Int.natCast_nonneg start
  by_cases hplace : start ≤ marker.start
  · have hsplit : text.slice start stop =
        text.slice start marker.start ++ typeMarker ++ text.slice marker.stop stop := by
      rw [← hslice, text.slice_append_slice hstart hplace hmarker,
        text.slice_append_slice hstart (Int.le_trans hplace hmarker) hbehind]
    have hend : (start : Int) + (text.slice start marker.start).length = marker.start := by
      rw [text.length_slice hstart hplace (by omega)]
      omega
    have hmarked := markedAt_append_iff start (text.slice start marker.start)
      (text.slice marker.stop stop)
    rw [hend, ← hsplit] at hmarked
    rw [hmarked, and_iff_right hplace]
  · constructor
    · rintro ⟨before, behind, -, -, -, hsum⟩
      omega
    · exact fun h => absurd h.1 hplace

/-! ## The text of a pass -/

/-- A site is looked for only where the marker of a type stands. -/
theorem Parse.slice_eq_of_site? (result : Parse) {location : Location} {site : Sweep.Site}
    (h : result.site? location = some site) :
    result.text.slice location.values.start location.values.stop = typeMarker := by
  unfold site? at h
  split at h
  · assumption
  · cases h

theorem Sweep.Site.le_of_follower? (site : Sweep.Site) {offset : Int} {child : Outline}
    (h : site.follower? offset = some child) : offset ≤ child.location.start.whole := by
  rw [follower?] at h
  have hfound := List.find?_some h
  exact of_decide_eq_true hfound

/-- **What a typed parameter loses.**  In every pass, at a typed parameter that is resolved,
the text from the last parameter up to the first child of the body behind the marker is
removed, as it stood before the pass, and nothing around it.  The mission carries it
without the marker at its end.  It is that type with the reported marker, and blanks around
the marker, exactly if the parameter begins no later than the marker and blanks follow the
marker. -/
theorem resolveDiagnostic_cuts_type {result : Parse} {first : Bool} {before : Workspace}
    {earlier later : List Diagnostic} {diagnostic : Diagnostic} {count : Nat}
    {reached after : Sweep}
    (hlocations : ∀ location ∈ result.locations, location.Within result.text.length)
    (hfresh : before.buffer = { text := result.text })
    (hdiagnostics : result.diagnostics = earlier ++ diagnostic :: later)
    (hkind : diagnostic.extension? = some .typedParameter)
    (hearlier : (resolveDiagnostics result.tree.index result earlier).start
      { before with groups := if first then some [] else none } = (.ok count, reached))
    (hresolve : (resolveDiagnostic result.tree.index result diagnostic).start reached =
      (.ok true, after)) :
    ∃ (site : Sweep.Site) (right : Outline) (front deleted back : Text),
      result.site? diagnostic.location = some site ∧
      site.follower? diagnostic.location.values.stop = some right ∧
      deleted = result.text.slice site.parameter.whole right.location.start.whole ∧
      reached.buffer.text = front ++ deleted ++ back ∧ after.buffer.text = front ++ back ∧
      after.queue = reached.queue.add site.parameter.whole .typeComment (dropMarker deleted) ∧
      (MarkedAt site.parameter.whole diagnostic.location.values.start (dropMarker deleted) deleted ↔
        site.parameter.whole ≤ diagnostic.location.values.start ∧
          (result.text.slice diagnostic.location.values.stop right.location.start.whole).all
            Text.isBlank = true) := by
  have hmem : diagnostic ∈ result.diagnostics := by
    rw [hdiagnostics]
    exact List.mem_append_right _ (List.mem_cons_self ..)
  have hbegun : before.buffer.Follows result.text [] := by
    rw [hfresh]
    exact Buffer.follows_nil result.text
  obtain ⟨hfollows, -, -⟩ := resolveDiagnostics_follows hlocations
    (fun other hother => hdiagnostics ▸ List.mem_append_left _ hother) hbegun hearlier
  rcases resolveDiagnostic_eq_ok hresolve with
    ⟨-, hfalse, -⟩ | ⟨finding, buffer, hsome, -, hmarked, hperform, rfl⟩
  · cases hfalse
  · have hstop := Parse.finding_stop_le hlocations hmem hsome
    obtain ⟨site, right, hsite, hright, rfl⟩ := Parse.finding?_eq_some_of_typed hkind hsome
    obtain ⟨front, back, hbefore, hafter⟩ := hfollows.perform_split hmarked hstop hperform
    rw [Finding.write, Write.inserted, List.append_nil] at hafter
    refine ⟨site, right, front, _, back, hsite, hright, rfl, hbefore, hafter, ?_, ?_⟩
    · rw [hfollows.found_eq hstop hperform]
      rfl
    · obtain ⟨hoffset, hlength, -, -⟩ := Buffer.replace_eq_ok_iff.mp hperform
      rw [Finding.range] at hstop
      rw [Range.length] at hlength
      obtain ⟨start, hstart⟩ := Int.eq_ofNat_of_zero_le hoffset
      obtain ⟨stop, hstopNat⟩ := Int.eq_ofNat_of_zero_le
        (Int.le_trans hoffset (Int.le_of_sub_nonneg hlength))
      have hbehind := site.le_of_follower? hright
      dsimp only at hstart hstopNat hstop
      rw [hstopNat] at hbehind hstop
      rw [hstart, hstopNat]
      exact markedAt_iff (Int.ofNat_le.mp hstop) (result.slice_eq_of_site? hsite)
        (hlocations _ (Parse.location_mem_of_diagnostic hmem)).start_le_stop hbehind

/-! ### A blank and a comment behind the marker -/

/-- A definition with one typed parameter, with `gap` between the marker and the
parameter. -/
def Parse.spaced (gap : Text) : Parse :=
  let size : Nat := gap.length
  let whole : Location := ⟨.int 0, .int (16 + size), 1, 0⟩
  let type : Location := ⟨.int 6, .int 7, 1, .int 6⟩
  let parameter : Location := ⟨.int (10 + size), .int (11 + size), 1, 0⟩
  { text := "def f(A =>" ++ gap ++ "a)\nend"
    tree := .mk { kind := "program_node", location := whole }
      [some (.mk { kind := definitionKind, location := whole, name := some "f" }
        [some (.mk { kind := parametersKind, location := type }
          [some (.mk { kind := "parameter_node", location := type } [])]),
         some (.mk { kind := "statements_node", location := parameter }
          [some (.mk { kind := "call_node", location := parameter } [])])])]
    diagnostics := [⟨"unexpected_token_ignore", ⟨.int 8, .int 10, 1, .int 8⟩, []⟩] }

/-- A blank behind the marker goes with it. -/
theorem resolveDiagnostic_cuts_type_blank :
    ∃ (diagnostic : Diagnostic) (after : Sweep),
      (Parse.spaced " ").diagnostics = [diagnostic] ∧
      (resolveDiagnostic (Parse.spaced " ").tree.index (Parse.spaced " ") diagnostic).start
        { buffer := { text := (Parse.spaced " ").text }, groups := some [] } = (.ok true, after) ∧
      after.buffer.text = "def f(a)\nend" ∧ MarkedAt 6 8 "A" "A => " := by
  let diagnostic : Diagnostic := ⟨"unexpected_token_ignore", ⟨.int 8, .int 10, 1, .int 8⟩, []⟩
  let result := Parse.spaced " "
  let begun : Sweep := { buffer := { text := result.text }, groups := some [] }
  have hresolve := @Step.eq_ok_of_fst _ _
    ((resolveDiagnostic result.tree.index result diagnostic).start begun) true (by decide +kernel)
  have hplaces : (result.site? diagnostic.location).map (fun site =>
      (site.parameter.whole, (site.follower? 10).map fun right => right.location.start.whole)) =
        some (6, some 11) := by decide +kernel
  have htext : ((resolveDiagnostic result.tree.index result diagnostic).start begun).2.buffer.text =
      "def f(a)\nend" := by decide +kernel
  refine ⟨diagnostic, _, rfl, hresolve, htext, ?_⟩
  obtain ⟨site, right, _, deleted, _, hsite, hright, hdeleted, -, -, -, hmarked⟩ :=
    @resolveDiagnostic_cuts_type result true { buffer := { text := result.text } } [] []
      diagnostic 0 begun _ (by decide +kernel) rfl rfl (by decide +kernel) rfl hresolve
  have hfollower : site.follower? 10 = some right := hright
  rw [hsite, Option.map_some, hfollower, Option.map_some, Option.some.injEq, Prod.mk.injEq,
    Option.some.injEq] at hplaces
  obtain ⟨hparameter, hstop⟩ := hplaces
  have hcut : deleted = "A => " := by
    rw [hdeleted, hparameter, hstop]
    decide
  have htype : dropMarker "A => " = "A" := by decide
  rw [hparameter, hcut, htype] at hmarked
  exact hmarked.mpr ⟨by decide, by rw [hstop]; decide⟩

/-- A comment behind the marker goes with it as well, and is carried by the mission: the
removed text is not a type with its marker. -/
theorem resolveDiagnostic_cuts_comment :
    ∃ (diagnostic : Diagnostic) (after : Sweep),
      (Parse.spaced " # c\n").diagnostics = [diagnostic] ∧
      (∀ location ∈ (Parse.spaced " # c\n").locations,
        location.Within (Parse.spaced " # c\n").text.length) ∧
      (resolveDiagnostic (Parse.spaced " # c\n").tree.index (Parse.spaced " # c\n")
          diagnostic).start
        { buffer := { text := (Parse.spaced " # c\n").text }, groups := some [] } =
          (.ok true, after) ∧
      (Parse.spaced " # c\n").text = "def f(" ++ "A => # c\n" ++ "a)\nend" ∧
      after.buffer.text = "def f(" ++ "a)\nend" ∧
      after.queue.missions.map (·.payload) = [("A => # c\n" : Text)] ∧
      ¬ MarkedAt 6 8 "A => # c\n" "A => # c\n" := by
  let diagnostic : Diagnostic := ⟨"unexpected_token_ignore", ⟨.int 8, .int 10, 1, .int 8⟩, []⟩
  let result := Parse.spaced " # c\n"
  let begun : Sweep := { buffer := { text := result.text }, groups := some [] }
  have hresolve := @Step.eq_ok_of_fst _ _
    ((resolveDiagnostic result.tree.index result diagnostic).start begun) true (by decide +kernel)
  refine ⟨diagnostic, _, rfl, by decide +kernel, hresolve, by decide, by decide +kernel,
    by decide +kernel, ?_⟩
  rintro ⟨before, behind, -, -, -, hplace⟩
  rw [List.length_append] at hplace
  have hlength : ("A => # c\n" : Text).length = 9 := by decide
  omega

end SyntaxRepair
