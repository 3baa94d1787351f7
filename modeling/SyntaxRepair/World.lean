import SyntaxRepair.Error

/-!
# Commands at work

A command reads and writes files, runs processes and prints.  An `Act` does all of
this on a `World`, which is a value; an error ends it and keeps what was done
before.
-/

namespace SyntaxRepair

/-- What a command works on: the files, the processes it runs and what it prints. -/
structure World (σ : Type) where
  files : FileStore := {}
  /-- The state of the runner of processes. -/
  process : σ
  /-- The processes that were run, the first one first. -/
  calls : List Call := []
  stdout : Text := []
  stderr : Text := []

/-- A command under way. -/
abbrev Act (σ α : Type) := ExceptT Error (StateM (World σ)) α

namespace Act

variable {σ α : Type}

/-- Runs a command in a world. -/
def start (act : Act σ α) (world : World σ) : Except Error α × World σ :=
  (ExceptT.run act).run world

/-- A command that is given as a function of the world. -/
def of (run : World σ → Except Error α × World σ) : Act σ α := ExceptT.mk fun world => run world

/-- The outcome of a command as a value, so that an error can be looked at. -/
def attempt (act : Act σ α) : Act σ (Except Error α) :=
  of fun world =>
    let outcome := act.start world
    (.ok outcome.1, outcome.2)

/-- The value of a computation that may fail. -/
def orThrow {ε : Type} (wrap : ε → Error) : Except ε α → Act σ α
  | .ok value => pure value
  | .error cause => throw (wrap cause)

/-- A step of the world as a command. -/
def ofStep (step : Step (World σ) α) : Act σ α :=
  of fun world =>
    let outcome := step.start world
    (outcome.1.mapError Error.failure, outcome.2)

@[simp] theorem start_of (run : World σ → Except Error α × World σ) (world : World σ) :
    (of run).start world = run world := rfl

@[simp] theorem start_pure (value : α) (world : World σ) :
    (pure value : Act σ α).start world = (.ok value, world) := rfl

@[simp] theorem start_throw (error : Error) (world : World σ) :
    (throw error : Act σ α).start world = (.error error, world) := rfl

@[simp] theorem start_attempt (act : Act σ α) (world : World σ) :
    (attempt act).start world = (.ok (act.start world).1, (act.start world).2) := rfl

/-- A sequence of two commands: an error of the first one is the outcome. -/
theorem start_bind {β : Type} (first : Act σ α) (next : α → Act σ β) (world : World σ) :
    (first >>= next).start world =
      match first.start world with
      | (.ok value, after) => (next value).start after
      | (.error error, after) => (.error error, after) := by
  unfold start ExceptT.run StateT.run
  simp only [bind, ExceptT.bind, ExceptT.mk, StateT.bind, ExceptT.bindCont]
  cases first world with
  | mk result after => cases result <;> rfl

/-! ## Printing -/

/-- Writes to the standard output. -/
def print (text : Text) : Act σ Unit :=
  modify fun world => { world with stdout := world.stdout ++ text }

/-- Writes to the standard error output. -/
def warn (text : Text) : Act σ Unit :=
  modify fun world => { world with stderr := world.stderr ++ text }

/-- Writes a line to the standard error output. -/
def complain (line : Text) : Act σ Unit := warn (line ++ "\n")

/-! ## Files -/

/-- The text of a file, with newlines alone at the ends of its lines. -/
def readText (path : Path) : Act σ Text := do
  let octets ← orThrow Error.file ((← get).files.read path)
  let text ← orThrow Error.notText (Utf8.decode octets)
  return Text.unifyNewlines text

/-- Writes octets to a file. -/
def writeOctets (path : Path) (octets : Utf8.Octets) : Act σ Unit := do
  let files ← orThrow Error.file ((← get).files.write path octets)
  modify fun world => { world with files }

/-- Writes a text to a file. -/
def writeText (path : Path) (text : Text) : Act σ Unit := do
  match Utf8.encode text with
  | .ok octets => writeOctets path octets
  | .error fault =>
    -- The file is opened, and so emptied, before the text turns out to have no octets.
    writeOctets path []
    throw (.failure (.unencodable fault))

/-- Where the plain form of a file goes: to `out`, or next to the file. -/
def targetOf (source : Path) (out : Option Path) : Act σ Path :=
  match out.orElse fun _ => source.target? with
  | some target => pure target
  | none => throw (.noName source)

/-- The settings in a file.  A file that can not be read and one that is not JSON are
faults of the settings. -/
def readSettings (path : Path) : Act σ Settings := do
  let unreadable (problem : Text) : Error := .settings (.unreadable path.text problem)
  match ← attempt (readText path) with
  -- Octets that are no text are no fault of the settings.
  | .error error => throw (if error.isSystem then unreadable error.message else error)
  | .ok text =>
    match Json.parse text with
    | .error (.malformed fault) => throw (unreadable (fault.message text))
    | .error (.misfit cause) => throw (.failure (.misfit cause))
    | .ok value => orThrow Error.settings (Settings.ofValue value)

/-! ## Processes -/

/-- Runs a process and keeps a record of it. -/
def runCall (run : Runner σ) (call : Call) : Step (World σ) ProcessOutcome := do
  modify fun world => { world with calls := world.calls ++ [call] }
  Step.within World.process (fun process world => { world with process }) (run call)

end Act

end SyntaxRepair
