import SyntaxRepair.Files.Path
import SyntaxRepair.Text.Lines
import SyntaxRepair.Text.Utf8

/-!
# Files

A store is a value that stands for the files and directories of a system, or for
those that matter.  A path that is not rooted starts from the home directory, the
one a command works in.  Names and paths have a greatest length in octets, and the
null character is part of no path.
-/

namespace SyntaxRepair

open Utf8 (Octets)

/-- What a place in a store holds. -/
inductive Entry
  | file (contents : Octets)
  | directory
deriving Repr, DecidableEq

/-- Files and directories by their place: the segments from the root on. -/
structure FileStore where
  entries : List (List Text × Entry) := []
  /-- The place of the home directory. -/
  home : List Text := []
deriving Repr, DecidableEq

/-- Why a file can not be read or written. -/
inductive FileProblem
  | notFound
  | notDirectory
  | isDirectory
  | nameTooLong
  | nullInPath
deriving Repr, DecidableEq

/-- A path that can not be read or written. -/
structure FileFault where
  problem : FileProblem
  path : Path
deriving Repr, DecidableEq

/-- The wording of a fault. -/
def FileFault.message (fault : FileFault) : Text :=
  let quoted := Text.quoted fault.path.text
  match fault.problem with
  | .notFound => "[Errno 2] No such file or directory: " ++ quoted
  | .notDirectory => "[Errno 20] Not a directory: " ++ quoted
  | .isDirectory => "[Errno 21] Is a directory: " ++ quoted
  | .nameTooLong => "[Errno 36] File name too long: " ++ quoted
  | .nullInPath => "embedded null byte"

namespace FileStore

/-- What a place holds.  A place above another one is a directory, and so are the
home directory and those above it. -/
def entry? (store : FileStore) (place : List Text) : Option Entry :=
  match store.entries.lookup place with
  | some entry => some entry
  | none =>
    if place.isPrefixOf store.home || store.entries.any fun item => place.isPrefixOf item.1 then
      some .directory
    else none

/-- The greatest length of a name in octets. -/
def nameLimit : Nat := 255

/-- The greatest length of a path in octets. -/
def pathLimit : Nat := 4095

/-- The place that a segment leads to from a directory.  Above the root there is the
root again. -/
def next (place : List Text) (segment : Text) : List Text :=
  if segment = ".." then place.dropLast else place ++ [segment]

/-- The place that some segments lead to from `place` on.  All but the last must
lead to directories. -/
def walk (store : FileStore) (place : List Text) : List Text → Except FileProblem (List Text)
  | [] => .ok place
  | segment :: rest =>
    match store.entry? place with
    | none => .error .notFound
    | some (.file _) => .error .notDirectory
    | some .directory =>
      if nameLimit < Utf8.octetCount segment then .error .nameTooLong
      else store.walk (next place segment) rest

/-- The place that a path leads to. -/
def locate (store : FileStore) (path : Path) : Except FileProblem (List Text) :=
  if path.text.contains (.char '\x00') then .error .nullInPath
  else if pathLimit < Utf8.octetCount path.text then .error .nameTooLong
  else store.walk (if path.slashes = 0 then store.home else []) path.segments

/-- The contents of a file. -/
def read (store : FileStore) (path : Path) : Except FileFault Octets :=
  match store.locate path with
  | .error problem => .error ⟨problem, path⟩
  | .ok place =>
    match store.entry? place with
    | some (.file contents) => .ok contents
    | some .directory => .error ⟨.isDirectory, path⟩
    | none => .error ⟨.notFound, path⟩

/-- Puts an entry at a place. -/
def put (store : FileStore) (place : List Text) (entry : Entry) : FileStore :=
  { store with
    entries :=
      if store.entries.any (·.1 = place) then
        store.entries.map fun item => if item.1 = place then (place, entry) else item
      else store.entries ++ [(place, entry)] }

/-- Writes a file, a new one or over an old one. -/
def write (store : FileStore) (path : Path) (contents : Octets) : Except FileFault FileStore :=
  match store.locate path with
  | .error problem => .error ⟨problem, path⟩
  | .ok place =>
    match store.entry? place with
    | some .directory => .error ⟨.isDirectory, path⟩
    | _ => .ok (store.put place (.file contents))

end FileStore

end SyntaxRepair
