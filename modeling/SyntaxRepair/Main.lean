import SyntaxRepair.Command.Run
import SyntaxRepair.Parse.Recording

/-!
# The program

`main` looks at the files that the arguments name, runs the command line on them as a
value, and then writes the files that the run has changed.

It starts no parser of its own.  Whenever the run needs a report, the next line of the
standard input is taken for what the parser prints, and the run begins again with one
report more.
-/

namespace SyntaxRepair.Main

/-- The file or directory at a path. -/
def look (path : Text) : IO (Option Entry) := do
  let file := (← IO.currentDir) / path.toStringLossy
  if ← file.isDir then return some .directory
  if ← file.pathExists then return some (.file (← IO.FS.readBinFile file).toList)
  return none

/-- What there is at a path and on the way to it. -/
def lookAlong (home : List Text) (path : Path) : IO (List (List Text × Entry)) := do
  let start := if path.slashes = 0 then home else []
  let mut found := []
  for count in List.range path.segments.length do
    let part := { path with segments := path.segments.take (count + 1) }
    if let some entry ← look part.text then
      found := (part.segments.foldl FileStore.next start, entry) :: found
  return found

/-- The paths that arguments may name, with their targets. -/
def pathsOf (arguments : List Text) : List Path :=
  arguments.flatMap fun argument =>
    [argument, (argument.dropWhile (· ≠ CodePoint.char '=')).drop 1].flatMap fun text =>
      let path := Path.ofText text
      path :: path.target?.toList

/-- The files and directories that a run on some arguments can see. -/
def survey (arguments : List Text) : IO FileStore := do
  let home := (Path.ofText (← IO.currentDir).toString).segments
  let found ← (pathsOf arguments).mapM (lookAlong home)
  return { entries := found.flatten, home }

/-- Writes the files that are not as they were. -/
def writeChanges (before after : FileStore) : IO Unit := do
  for (place, entry) in after.entries do
    match entry with
    | .file contents =>
      if before.entry? place ≠ some entry then
        IO.FS.writeBinFile ("/" ++ Text.join "/" place).toStringLossy ⟨contents.toArray⟩
    | .directory => pure ()

/-- Runs the command line, with one more report from the standard input whenever there
are too few. -/
partial def runWith (files : FileStore) (arguments : List Text)
    (reports : List ProcessOutcome) :
    IO (Except Error Command.ExitCode × World (List ProcessOutcome)) := do
  let outcome := (Command.run Runner.replay arguments).start { files, process := reports }
  match outcome.1 with
  | .error (.failure .recordingEnded) =>
    let line ← (← IO.getStdin).getLine
    if line.isEmpty then return outcome
    runWith files arguments (reports ++ [.ended 0 line.toUTF8.toList []])
  | _ => return outcome

end SyntaxRepair.Main

open SyntaxRepair in
/-- Runs the command line on the files of the system. -/
def main (arguments : List String) : IO UInt32 := do
  let given := arguments.map Text.ofString
  let files ← Main.survey given
  let (outcome, world) ← Main.runWith files given []
  Main.writeChanges files world.files
  (← IO.getStdout).putStr world.stdout.toStringLossy
  (← IO.getStderr).putStr world.stderr.toStringLossy
  match outcome with
  | .ok code => return code.toUInt32
  | .error error =>
    (← IO.getStderr).putStrLn error.message.toStringLossy
    return 1
