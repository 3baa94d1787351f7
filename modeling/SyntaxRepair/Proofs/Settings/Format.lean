import SyntaxRepair.Settings
import SyntaxRepair.Proofs.Parse.Format
import SyntaxRepair.Proofs.Tables

/-!
# The format of settings

What a document of settings may hold, said without rules: which members it has, and what is in
them.  The rules of `Settings.form` accept exactly this format (`Settings.form_eq_nil_iff`), and
settings are read from a document of the format unless it chooses a command parser without a
command (`Settings.ofValue_eq_ok_iff`).

The names that are read are the default ones, overridden by those of the document
(`Settings.lookup_names`).
-/

namespace SyntaxRepair

open Json (Number Value)

/-- The choice with a name is found by it. -/
theorem ParserChoice.ofName?_name (choice : ParserChoice) :
    ParserChoice.ofName? choice.name = some choice := by
  cases choice <;> decide

namespace Settings

variable {value : Value} {settings : Settings}

/-! ## The format -/

/-- What a name may be replaced by: an identifier, with or without a newline behind it. -/
def IsStem (text : Text) : Prop :=
  ∃ word, isIdentifier word = true ∧ (text = word ∨ text = word ++ "\n")

/-- Stems for some names. -/
def IsNames (value : Value) : Prop :=
  ∃ members, value = .object members ∧
    ∀ member ∈ members, ∃ stem, member.2 = .string stem ∧ IsStem stem

/-- The names of the members that settings may have. -/
def memberNames : List Text :=
  ["overload_names", "oracle", "oracle_cmd", "timeout_s", "max_passes"]

/-- A document of settings. -/
structure IsSettings (value : Value) : Prop where
  members : ∃ members, value = .object members ∧ ∀ member ∈ members, member.1 ∈ memberNames
  names : value.MayHave "overload_names" IsNames
  parser : value.MayHave "oracle" fun member =>
    ∃ choice : ParserChoice, member = .string choice.name
  command : value.MayHave "oracle_cmd" fun member => member = .null ∨ ∃ text, member = .string text
  limit : value.MayHave "timeout_s" (Document.IsWhole 1)
  maxPasses : value.MayHave "max_passes" fun member => member = .null ∨ Document.IsWhole 1 member

/-- A command parser comes with a command that is not empty. -/
def HasParser (value : Value) : Prop :=
  value.get? "oracle" = some (.string "cmd") →
    ∃ command, value.get? "oracle_cmd" = some (.string command) ∧ command ≠ []

/-! ## The rules of the format -/

open Schema

theorem accepts_iff {text : Text} : identifierForm.accepts text = true ↔ IsStem text := by
  rw [identifierForm, Bool.or_eq_true, Bool.and_eq_true, decide_eq_true_iff]
  constructor
  · rintro (hword | ⟨hlast, hword⟩)
    · exact ⟨text, hword, .inl rfl⟩
    · exact ⟨text.dropLast, hword, .inr (List.dropLast_append_getLast? _ hlast).symm⟩
  · rintro ⟨word, hword, rfl | rfl⟩
    · exact .inl hword
    · refine .inr ⟨List.getLast?_concat, ?_⟩
      rwa [show word ++ Text.ofString "\n" = word ++ [.char '\n'] from rfl, List.dropLast_concat]

theorem stem_eq_nil_iff :
    all [ofType [.string], ofForm identifierForm] value = [] ↔
      ∃ stem, value = .string stem ∧ IsStem stem := by
  simp only [all_eq_nil_iff, List.forall_mem_cons, Document.string_eq_nil_iff]
  constructor
  · rintro ⟨⟨stem, rfl⟩, hform, -⟩
    exact ⟨stem, rfl, accepts_iff.mp (ofForm_eq_nil_iff.mp hform)⟩
  · rintro ⟨stem, rfl, hstem⟩
    exact ⟨⟨stem, rfl⟩, ofForm_eq_nil_iff.mpr (accepts_iff.mpr hstem), List.forall_mem_nil _⟩

theorem names_eq_nil_iff :
    all [ofType [.object], eachMember (all [ofType [.string], ofForm identifierForm])] value = [] ↔
      IsNames value := by
  simp only [all_eq_nil_iff, List.forall_mem_cons, ofType_eq_nil_iff]
  constructor
  · rintro ⟨hobject, heach, -⟩
    obtain ⟨members, rfl⟩ := Document.exists_object_of_accepts hobject
    exact ⟨members, rfl, fun member hmem =>
      stem_eq_nil_iff.mp (eachMember_eq_nil_iff.mp heach member hmem)⟩
  · rintro ⟨members, rfl, hstems⟩
    exact ⟨rfl,
      eachMember_eq_nil_iff.mpr fun member hmem => stem_eq_nil_iff.mpr (hstems member hmem),
      List.forall_mem_nil _⟩

theorem parser_eq_nil_iff :
    all [ofType [.string], oneOf ["prism", "cmd"]] value = [] ↔
      ∃ choice : ParserChoice, value = .string choice.name := by
  simp only [all_eq_nil_iff, List.forall_mem_cons, Document.string_eq_nil_iff, oneOf_eq_nil_iff]
  constructor
  · rintro ⟨-, ⟨choice, hchoice, rfl⟩, -⟩
    rcases List.mem_pair.mp hchoice with rfl | rfl
    · exact ⟨.prism, rfl⟩
    · exact ⟨.command, rfl⟩
  · rintro ⟨choice, rfl⟩
    refine ⟨⟨_, rfl⟩, ⟨choice.name, ?_, rfl⟩, List.forall_mem_nil _⟩
    cases choice <;> decide

theorem maxPasses_eq_nil_iff :
    all [ofType [.integer, .null], atLeast 1] value = [] ↔
      value = .null ∨ Document.IsWhole 1 value := by
  have htypes : ofType [.integer, .null] value = [] ↔
      value = .null ∨ ofType [.integer] value = [] := by
    cases value <;> simp [ofType_eq_nil_iff_exists, JsonType.accepts]
  have hnull : value = .null → atLeast 1 value = [] := by
    rintro rfl
    rfl
  rw [← Document.wholeFrom_eq_nil_iff, Document.wholeFrom]
  simp only [all_eq_nil_iff, List.forall_mem_cons, htypes]
  tauto

/-- The rules of settings accept the format and nothing else. -/
theorem form_eq_nil_iff : form value = [] ↔ IsSettings value := by
  have hwhole : ∀ member, all [ofType [.integer], atLeast 1] member = [] ↔
      Document.IsWhole 1 member := fun _ => Document.wholeFrom_eq_nil_iff
  simp only [form, all_eq_nil_iff, List.forall_mem_cons, ofType_eq_nil_iff,
    ← Document.mayHave_iff fun _ => names_eq_nil_iff,
    ← Document.mayHave_iff fun _ => parser_eq_nil_iff,
    ← Document.mayHave_iff fun _ => Document.stringOrNull_eq_nil_iff,
    ← Document.mayHave_iff hwhole, ← Document.mayHave_iff fun _ => maxPasses_eq_nil_iff]
  constructor
  · rintro ⟨hobject, hclosed, hnames, hparser, hcommand, hlimit, hpasses, -⟩
    obtain ⟨members, rfl⟩ := Document.exists_object_of_accepts hobject
    exact ⟨⟨members, rfl, closed_eq_nil_iff.mp hclosed⟩, hnames, hparser, hcommand, hlimit, hpasses⟩
  · rintro ⟨⟨members, rfl, hmembers⟩, hnames, hparser, hcommand, hlimit, hpasses⟩
    exact ⟨rfl, closed_eq_nil_iff.mpr hmembers, hnames, hparser, hcommand, hlimit, hpasses,
      List.forall_mem_nil _⟩

/-! ## Settings that are read -/

/-- Without a choice the parser is Prism. -/
theorem parser_read (h : IsSettings value) :
    (value.get? "oracle" = none ∧ (read value).parser = .prism) ∨
      value.get? "oracle" = some (.string (read value).parser.name) := by
  cases hmember : value.get? "oracle" with
  | none =>
      refine .inl ⟨rfl, ?_⟩
      rw [read]
      dsimp only
      rw [hmember]
  | some member =>
      obtain ⟨choice, rfl⟩ := h.parser member hmember
      have hchoice : (read value).parser = choice := by
        rw [read]
        dsimp only
        rw [hmember]
        dsimp only
        rw [ParserChoice.ofName?_name]
        rfl
      rw [hchoice]
      exact .inr rfl

theorem parser_read_eq_command_iff (h : IsSettings value) :
    (read value).parser = .command ↔ value.get? "oracle" = some (.string "cmd") := by
  rcases parser_read h with ⟨hnone, hprism⟩ | hsome
  · rw [hnone, hprism]
    exact iff_of_false nofun nofun
  · rw [hsome]
    cases (read value).parser with
    | prism =>
        refine iff_of_false nofun fun h => ?_
        exact absurd (Value.string.inj (Option.some.inj h)) (by decide)
    | command => exact iff_of_true rfl rfl

theorem hasCommand_read_iff :
    hasCommand (read value).command = true ↔
      ∃ command, value.get? "oracle_cmd" = some (.string command) ∧ command ≠ [] := by
  rw [read]
  dsimp only
  split
  · next command hcommand => simp [hcommand, hasCommand]
  · next hnone =>
    refine iff_of_false (by decide) ?_
    rintro ⟨command, hcommand, -⟩
    exact hnone command hcommand

theorem hasParser_iff (h : IsSettings value) :
    HasParser value ↔
      ((read value).parser = .command → hasCommand (read value).command = true) := by
  rw [parser_read_eq_command_iff h, hasCommand_read_iff, HasParser]

/-- Settings are read from a document of the format, unless it chooses a command parser without a
command. -/
theorem ofValue_eq_ok_iff :
    ofValue value = .ok settings ↔ IsSettings value ∧ HasParser value ∧ read value = settings := by
  rw [← form_eq_nil_iff, ← check_eq_nil_iff, ofValue]
  cases hcheck : check form value with
  | cons mismatch others => simp
  | nil =>
      have hformat : IsSettings value := form_eq_nil_iff.mp (check_eq_nil_iff.mp hcheck)
      rw [and_iff_right rfl, hasParser_iff hformat]
      dsimp only
      constructor
      · intro h
        split at h
        · cases h
        · next hready =>
          obtain rfl := Except.ok.inj h
          refine ⟨fun hparser => ?_, rfl⟩
          simpa [hparser] using hready
      · rintro ⟨hready, rfl⟩
        rw [if_neg]
        simpa using hready

theorem limit_read (h : IsSettings value) : (read value).limit.WholeFrom 1 := by
  rw [read]
  dsimp only
  split
  · next number hmember =>
    obtain ⟨_, hsame, hwhole⟩ := h.limit _ hmember
    cases hsame
    exact hwhole
  · exact ⟨60, rfl, by decide⟩

theorem maxPasses_read (h : IsSettings value) :
    ∀ passes ∈ (read value).maxPasses, passes.WholeFrom 1 := by
  intro passes hpasses
  rw [read] at hpasses
  dsimp only at hpasses
  split at hpasses
  · next number hmember =>
    cases hpasses
    rcases h.maxPasses _ hmember with hnull | ⟨_, hsame, hwhole⟩
    · cases hnull
    · cases hsame
      exact hwhole
  · cases hpasses

/-! ## Names that are read -/

/-- The text of a string. -/
def text? : Value → Option Text
  | .string text => some text
  | _ => none

/-- The stem that an object has for a name: that of its last member for the name. -/
def memberStem? (members : List (Text × Value)) (name : Text) : Option Text :=
  (members.reverse.lookup name).bind text?

/-- The stem that a document has for a name. -/
def stemOf? (value : Value) (name : Text) : Option Text :=
  match value.get? "overload_names" with
  | some (.object members) => memberStem? members name
  | _ => none

theorem nodup_addName {table : NameTable} {name stem : Text}
    (hnodup : (table.map Prod.fst).Nodup) : ((addName table name stem).map Prod.fst).Nodup :=
  Table.nodup_keys_put hnodup

theorem lookup_addName {table : NameTable} {name other stem : Text} :
    (addName table name stem).lookup other =
      if other = name then some stem else table.lookup other :=
  Table.lookup_put

/-- A table that is overridden by the members of an object. -/
theorem lookup_foldl_addName {members : List (Text × Value)}
    (hstrings : ∀ member ∈ members, ∃ stem, member.2 = .string stem) (table : NameTable)
    (name : Text) :
    (members.foldl
        (fun table member =>
          match member.2 with
          | .string stem => addName table member.1 stem
          | _ => table) table).lookup name =
      (memberStem? members name).or (table.lookup name) := by
  induction members generalizing table with
  | nil => rfl
  | cons member rest ih =>
      obtain ⟨⟨stem, hstem⟩, hrest⟩ := List.forall_mem_cons.mp hstrings
      obtain ⟨key, held⟩ := member
      obtain rfl : held = .string stem := hstem
      rw [List.foldl_cons, ih hrest, lookup_addName, memberStem?, memberStem?, List.reverse_cons,
        List.lookup_append]
      cases hlater : rest.reverse.lookup name with
      | some value =>
          -- a later member of the same name wins, and it holds a stem as well
          obtain ⟨later, hvalue⟩ := hrest _ (List.mem_reverse.mp (Table.mem_of_lookup hlater))
          obtain rfl : value = .string later := hvalue
          rfl
      | none =>
          by_cases hname : name = key
          · simp [hname, text?]
          · simp [hname, List.lookup_cons, beq_false_of_ne hname]

/-- The names that are read are the default ones, overridden by those of the document. -/
theorem lookup_names (h : IsSettings value) (name : Text) :
    (read value).names.lookup name = (stemOf? value name).or (NameTable.default.lookup name) := by
  have hread : (read value).names = readNames (value.get? "overload_names") := rfl
  unfold stemOf?
  cases hmember : value.get? "overload_names" with
  | none => rw [hread, hmember]; rfl
  | some member =>
      obtain ⟨members, rfl, hstems⟩ := h.names member hmember
      rw [hread, hmember]
      exact lookup_foldl_addName (fun member hmem => (hstems member hmem).imp fun _ h => h.1) _ _

/-- What holds of the default names and is kept by each stem of the document holds of the names that
are read. -/
theorem readNames_induct {P : NameTable → Prop} {names : Option Value} (hdefault : P .default)
    (hadd : ∀ members, names = some (.object members) → ∀ name stem,
      (name, .string stem) ∈ members → ∀ table, P table → P (addName table name stem)) :
    P (readNames names) := by
  unfold readNames
  split
  · next members =>
    replace hadd := hadd members rfl
    generalize NameTable.default = table at hdefault
    induction members generalizing table with
    | nil => exact hdefault
    | cons member rest ih =>
        rw [List.foldl_cons]
        refine ih (fun name stem hmem => hadd name stem (List.mem_cons_of_mem _ hmem)) _ ?_
        split
        · next stem hstem =>
          exact hadd member.1 stem (hstem ▸ List.mem_cons_self ..) table hdefault
        · exact hdefault
  · exact hdefault

theorem nodup_names (value : Value) : ((read value).names.map Prod.fst).Nodup :=
  readNames_induct (P := fun table => (table.map Prod.fst).Nodup) (by decide)
    fun _ _ _ _ _ _ hnodup => nodup_addName hnodup

/-- The stems of a document have their form. -/
theorem isStem_of_stemOf? (h : IsSettings value) {name stem : Text}
    (hstem : stemOf? value name = some stem) : IsStem stem := by
  rw [stemOf?] at hstem
  split at hstem
  · next members hmember =>
    obtain ⟨_, hsame, hstems⟩ := h.names _ hmember
    cases hsame
    obtain ⟨held, hheld, htext⟩ := Option.bind_eq_some_iff.mp hstem
    obtain ⟨found, hfound, hform⟩ := hstems _ (List.mem_reverse.mp (Table.mem_of_lookup hheld))
    obtain rfl : held = .string found := hfound
    cases htext
    exact hform
  · cases hstem

end Settings

end SyntaxRepair
