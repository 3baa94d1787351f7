import SyntaxRepair.Text.DecimalDigit
import SyntaxRepair.Text.Quoted

/-!
# Command line arguments

A grammar lists the options of a command and says whether it takes one operand or
several.  Arguments are read in two steps: each becomes a token by itself, then
options and operands are taken from left to right.

* A long option may be cut short as long as only one option begins so, and its
  value may follow in the same argument behind `=`.  The value `--` is empty there.
* Short options may be put together in one argument; an `=` between the first of them
  and what follows is passed over.
* All operands must stand together: where options come between them, those behind
  the options are not recognized.
* Behind `--` every argument is an operand.
-/

namespace SyntaxRepair.Command

/-- What an option does. -/
inductive OptionRole
  /-- Shows the help text. -/
  | help
  /-- Is given or not. -/
  | flag
  /-- Takes a value, one of some choices if there are any. -/
  | value (choices : List Text)
deriving Repr, DecidableEq

/-- An option with all its names. -/
structure OptionSpec where
  names : List Text
  role : OptionRole
deriving Repr, DecidableEq

/-- The options and operands of a command. -/
structure Grammar where
  options : List OptionSpec
  /-- What an operand is called. -/
  operand : String
  /-- Whether several operands may be given. -/
  many : Bool

/-- What was given: the operands, the values of options with the last one first,
and the flags. -/
structure Arguments where
  operands : List Text := []
  values : List (OptionSpec × Text) := []
  flags : List OptionSpec := []
deriving Repr, DecidableEq

/-- Arguments that do not follow the grammar. -/
inductive ArgumentFault
  | ambiguous (argument : Text) (names : List Text)
  | noValue (option : OptionSpec)
  | unwantedValue (option : OptionSpec) (value : Text)
  | badChoice (option : OptionSpec) (value : Text) (choices : List Text)
  | noOperand (operand : String)
  | unrecognized (arguments : List Text)
deriving Repr, DecidableEq

/-- The names of an option in a message. -/
def OptionSpec.title (spec : OptionSpec) : Text := Text.join "/" spec.names

/-- The wording of a fault. -/
def ArgumentFault.message : ArgumentFault → Text
  | .ambiguous argument names =>
    "ambiguous option: " ++ argument ++ " could match " ++ Text.join ", " names
  | .noValue option => "argument " ++ option.title ++ ": expected one argument"
  | .unwantedValue option value =>
    "argument " ++ option.title ++ ": ignored explicit argument " ++ Text.quoted value
  | .badChoice option value choices =>
    "argument " ++ option.title ++ ": invalid choice: " ++ Text.quoted value ++
      " (choose from " ++ Text.join ", " (choices.map Text.quoted) ++ ")"
  | .noOperand operand => "the following arguments are required: " ++ operand
  | .unrecognized arguments => "unrecognized arguments: " ++ Text.join " " arguments

/-- Why reading ended early. -/
inductive Stop
  | help
  | fault (fault : ArgumentFault)
deriving Repr, DecidableEq

/-! ## Tokens -/

/-- An option as it stands in an argument, with what is attached to it. -/
structure OptionUse where
  spec : OptionSpec
  name : Text
  attached : Option Text := none
deriving Repr, DecidableEq

/-- What an argument is by itself. -/
inductive Token
  | operand (argument : Text)
  | separator
  | option (use : OptionUse)
  /-- Looks like an option, but the grammar has none of that name. -/
  | unknown (argument : Text)
deriving Repr, DecidableEq

/-- The argument that a token was read from; for an option its name. -/
def Token.argument : Token → Text
  | .operand argument => argument
  | .separator => "--"
  | .option use => use.name
  | .unknown argument => argument

/-- Whether a token is an option, known or not. -/
def Token.isOption : Token → Bool
  | .option _ => true
  | .unknown _ => true
  | _ => false

/-- Whether an argument is a negative number, which is an operand. -/
def isNegativeNumber (argument : Text) : Bool :=
  let argument :=
    if argument.getLast? = some (.char '\n') then argument.dropLast else argument
  match argument with
  | .char '-' :: rest =>
    let behind := rest.dropWhile Text.isDecimalDigit
    match behind with
    | [] => rest ≠ []
    | .char '.' :: digits => digits ≠ [] && digits.all Text.isDecimalDigit
    | _ => false
  | _ => false

namespace Grammar

/-- All names of all options, each with its option. -/
def names (grammar : Grammar) : List (Text × OptionSpec) :=
  grammar.options.flatMap fun spec => spec.names.map fun name => (name, spec)

/-- The option with a name. -/
def find? (grammar : Grammar) (name : Text) : Option OptionSpec := grammar.names.lookup name

/-- The options that an argument may stand for if it is no name itself. -/
def candidates (grammar : Grammar) (argument : Text) : List OptionUse :=
  match argument with
  | .char '-' :: .char '-' :: _ =>
    let cut := argument.takeWhile (· ≠ CodePoint.char '=')
    let attached :=
      if argument.contains (.char '=') then some (argument.drop (cut.length + 1)) else none
    grammar.names.filterMap fun (name, spec) =>
      if cut.isPrefixOf name then some ⟨spec, name, attached⟩ else none
  | .char '-' :: c :: rest =>
    grammar.names.filterMap fun (name, spec) =>
      if name = [CodePoint.char '-', c] then some ⟨spec, name, some rest⟩
      else if argument.isPrefixOf name then some ⟨spec, name, none⟩
      else none
  | _ => []

/-- Reads an argument that begins with a dash and is no name of an option. -/
def readDashed (grammar : Grammar) (argument : Text) : Except Stop Token :=
  match grammar.candidates argument with
  | [use] => .ok (.option use)
  | [] =>
    if isNegativeNumber argument || argument.contains (.char ' ') then .ok (.operand argument)
    else .ok (.unknown argument)
  | uses => .error (.fault (.ambiguous argument (uses.map OptionUse.name)))

/-- Reads an argument by itself. -/
def readToken (grammar : Grammar) (argument : Text) : Except Stop Token :=
  match argument with
  | .char '-' :: _ :: _ =>
    match grammar.find? argument with
    | some spec => .ok (.option ⟨spec, argument, none⟩)
    | none =>
      let name := argument.takeWhile (· ≠ CodePoint.char '=')
      match argument.contains (.char '='), grammar.find? name with
      | true, some spec =>
        .ok (.option ⟨spec, name, some (argument.drop (name.length + 1))⟩)
      | _, _ => grammar.readDashed argument
  | _ => .ok (.operand argument)

/-- Reads all arguments; those behind `--` are operands. -/
def readTokens (grammar : Grammar) : List Text → Except Stop (List Token)
  | [] => .ok []
  | argument :: rest =>
    if argument = "--" then .ok (.separator :: rest.map Token.operand)
    else do
      let token ← grammar.readToken argument
      let others ← grammar.readTokens rest
      return token :: others

end Grammar

/-! ## Taking options and operands -/

/-- An option that is to be applied, with its value. -/
structure Taken where
  spec : OptionSpec
  value : Option Text := none

/-- What one argument with options comes to. -/
structure Cluster where
  taken : List Taken := []
  /-- The last option, if nothing is attached to it. -/
  last : Option OptionSpec := none

/-- A cluster behind one more flag. -/
def Cluster.behind (spec : OptionSpec) (cluster : Cluster) : Cluster :=
  { cluster with taken := ⟨spec, none⟩ :: cluster.taken }

/-- Whether an option takes a value. -/
def OptionSpec.takesValue (spec : OptionSpec) : Bool :=
  match spec.role with
  | .value _ => true
  | _ => false

/-- Takes apart an option with something attached: its value, or further short
options.  Nothing is attached to a long flag, and each character behind a short flag
names another option. -/
def Grammar.readCluster (grammar : Grammar) (spec : OptionSpec) (long : Bool)
    (attached : Text) : Except Stop Cluster :=
  if spec.takesValue then .ok { taken := [⟨spec, some attached⟩] }
  else
    match attached with
    | [] => .error (.fault (.unwantedValue spec []))
    | c :: rest =>
      match long, grammar.find? [.char '-', c] with
      | false, some next =>
        match rest with
        | [] => .ok { taken := [⟨spec, none⟩], last := some next }
        | d :: more =>
          (grammar.readCluster next false (d :: more)).map (Cluster.behind spec)
      | _, _ => .error (.fault (.unwantedValue spec (c :: rest)))
termination_by attached.length

/-- The cluster of an option as it stands in an argument. -/
def Grammar.clusterOf (grammar : Grammar) (use : OptionUse) : Except Stop Cluster :=
  match use.attached with
  | none => .ok { last := some use.spec }
  | some attached => grammar.readCluster use.spec (("--" : Text).isPrefixOf use.name) attached

/-- Applies an option.  The value `--` empties the option, whatever its choices. -/
def Taken.apply (taken : Taken) (arguments : Arguments) : Except Stop Arguments :=
  match taken.spec.role, taken.value with
  | .help, _ => .error .help
  | .value choices, some value =>
    if value = "--" then
      .ok { arguments with values := (taken.spec, []) :: arguments.values }
    else if choices ≠ [] ∧ !choices.contains value then
      .error (.fault (.badChoice taken.spec value choices))
    else .ok { arguments with values := (taken.spec, value) :: arguments.values }
  | _, _ => .ok { arguments with flags := taken.spec :: arguments.flags }

/-- Arguments half read. -/
structure Progress where
  arguments : Arguments := {}
  /-- Whether the operands have been taken. -/
  served : Bool := false
  /-- What was not recognized, in order. -/
  extra : List Text := []

/-- How many tokens at the front of a run without options are the operands.  A
separator in front of them or behind them goes with them. -/
def Grammar.operandCount (grammar : Grammar) (tokens : List Token) : Nat :=
  let isSeparator (token : Token) : Bool := token = .separator
  let ahead := (tokens.takeWhile isSeparator).length
  match tokens.drop ahead with
  | [] => 0
  | _ :: others =>
    if grammar.many then tokens.length
    else ahead + 1 + (others.takeWhile isSeparator).length

/-- The operands among some tokens. -/
def operandsOf (tokens : List Token) : List Text :=
  tokens.filterMap fun
    | .operand argument => some argument
    | _ => none

/-- Takes the operands from the front of a run without options, unless they have been
taken; the rest of the run is not recognized. -/
def Grammar.takeOperands (grammar : Grammar) (tokens : List Token) (progress : Progress) :
    Progress :=
  let count := if progress.served then 0 else grammar.operandCount tokens
  let rest := (tokens.drop count).map Token.argument
  if count = 0 then { progress with extra := progress.extra ++ rest }
  else
    { arguments := { progress.arguments with operands := operandsOf (tokens.take count) }
      served := true
      extra := progress.extra ++ rest }

/-- Takes the tokens from left to right. -/
def Grammar.takeAll (grammar : Grammar) (progress : Progress) :
    List Token → Except Stop Progress
  | [] => .ok progress
  | .unknown argument :: rest =>
    grammar.takeAll { progress with extra := progress.extra ++ [argument] } rest
  | .option use :: rest => do
    let cluster ← grammar.clusterOf use
    let (taken, unused) ← match cluster.last with
      | none => pure (cluster.taken, 0)
      | some spec =>
        if spec.takesValue then
          match rest with
          | .operand value :: _ => pure (cluster.taken ++ [⟨spec, some value⟩], 1)
          | _ => .error (.fault (.noValue spec))
        else pure (cluster.taken ++ [⟨spec, none⟩], 0)
    let arguments ← taken.foldlM (fun arguments option => option.apply arguments)
      progress.arguments
    grammar.takeAll { progress with arguments } (rest.drop unused)
  | token :: rest =>
    -- An operand or a separator: the whole run up to the next option is looked at.
    let run := rest.takeWhile fun next => !next.isOption
    grammar.takeAll (grammar.takeOperands (token :: run) progress) (rest.drop run.length)
termination_by tokens => tokens.length
decreasing_by all_goals simp only [List.length_drop, List.length_cons]; omega

/-- Reads the arguments of a command. -/
def Grammar.read (grammar : Grammar) (given : List Text) : Except Stop Arguments := do
  let progress ← grammar.takeAll {} (← grammar.readTokens given)
  -- A missing operand is told before what is not recognized.
  if !progress.served then .error (.fault (.noOperand grammar.operand))
  else if progress.extra ≠ [] then .error (.fault (.unrecognized progress.extra))
  else .ok progress.arguments

namespace Arguments

/-- The value of an option; an empty one is none. -/
def value? (arguments : Arguments) (spec : OptionSpec) : Option Text :=
  (arguments.values.lookup spec).filter fun value => value ≠ []

/-- Whether a flag is given. -/
def has (arguments : Arguments) (spec : OptionSpec) : Bool := arguments.flags.contains spec

end Arguments

end SyntaxRepair.Command
