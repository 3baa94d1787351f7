import SyntaxRepair.Command.Options

/-!
# Repairing sources from the command line

`repairSources` repairs one source after another and writes each result next to its
source, to one file, or to the standard output; or it only compares the results with
the targets.  It ends with

* 0 if all went well,
* 1 if a target is missing or out of date when it only compares,
* 2 if a source can not be repaired,
* 3 if something can not be read, the settings can not be used or there is no
  report.

The first source that fails ends the command; what was written before stays.
-/

namespace SyntaxRepair.Command

variable {σ : Type}

/-- What becomes of the result of a source. -/
inductive Delivery
  | print
  | compare (out : Option Path)
  | write (out : Option Path)
deriving Repr, DecidableEq

/-- What the arguments say about the results. -/
def deliveryOf (arguments : Arguments) : Delivery :=
  let out := (arguments.value? outOption).map Path.ofText
  if arguments.has stdoutOption then .print
  else if arguments.has checkOption then .compare out
  else .write out

/-- Says why a source could not be repaired; the exit code of the command.  Errors
that are none of the source are passed on. -/
def reportFailure (source : Path) (error : Error) : Act σ ExitCode :=
  match error with
  | .failure (.unrecovered reports) => do
    reports.forM fun report => Act.complain (source.text ++ report.display)
    return 2
  | .failure (.violation violation) => do
    Act.complain (source.text ++ ": internal error: " ++ violation.message)
    return 2
  | .failure (.parser fault) => do
    Act.complain (source.text ++ ": parser error: " ++ fault.message)
    return 3
  | error => throw error

/-- Whether a target holds a result; one that can not be read does not. -/
def isCurrent (target : Path) (result : Text) : Act σ Bool := do
  match ← Act.attempt (Act.readText target) with
  | .ok current => return current = result
  | .error error => if error.isSystem then return false else throw error

/-- Delivers the result of a source and tells whether its target is out of date. -/
def deliver (delivery : Delivery) (source : Path) (result : Text) : Act σ Bool := do
  match delivery with
  | .print =>
    Act.print result
    return false
  | .compare out =>
    let target ← Act.targetOf source out
    if ← isCurrent target result then return false
    Act.complain (target.text ++ ": out of date")
    return true
  | .write out =>
    let target ← Act.targetOf source out
    Act.writeText target result
    return false

/-- Reads and repairs a source; the exit code in place of a result if that fails. -/
def repairSource (setup : Setup) (run : Runner σ) (source : Path) :
    Act σ (Except ExitCode Text) := do
  match ← Act.attempt (Act.readText source) with
  | .error error =>
    if error.isUnreadable then
      Act.complain ("Failed to read " ++ source.text ++ ": " ++ error.message)
      return .error 3
    else throw error
  | .ok text =>
    match ← Act.attempt (setup.repair run text) with
    | .error error => return .error (← reportFailure source error)
    | .ok result => return .ok result

/-- Repairs sources one after another, where `stale` tells whether a target was out of
date so far. -/
def repairEach (setup : Setup) (run : Runner σ) (delivery : Delivery) (stale : Bool) :
    List Path → Act σ ExitCode
  | [] => return if stale then 1 else 0
  | source :: rest => do
    match ← repairSource setup run source with
    | .error code => return code
    | .ok result =>
      let outdated ← deliver delivery source result
      repairEach setup run delivery (stale || outdated) rest

/-- The command that repairs sources. -/
def repairSources (run : Runner σ) (given : List Text) : Act σ ExitCode :=
  withArguments repairManual given fun arguments => do
    if (arguments.value? outOption).isSome && arguments.operands.length ≠ 1 then
      Act.complain "--out requires exactly one input path"
      return 3
    match ← Act.attempt (setupOf arguments) with
    | .error error =>
      if error.isSettings || error.isValue then
        Act.complain ("config error: " ++ error.message)
        return 3
      else throw error
    | .ok setup =>
      repairEach setup run (deliveryOf arguments) false (arguments.operands.map Path.ofText)

end SyntaxRepair.Command
