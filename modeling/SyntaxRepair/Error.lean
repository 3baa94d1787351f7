import SyntaxRepair.Files.Store
import SyntaxRepair.Parse.Command

/-!
# Errors

Everything that can keep a command from doing its work, beyond a failed repair:
files, their encoding, settings, and paths without a name.
-/

namespace SyntaxRepair

/-- Why a command could not do its work. -/
inductive Error
  | failure (cause : Failure)
  | file (fault : FileFault)
  | notText (fault : Utf8.Fault)
  | settings (fault : SettingsFault)
  | parser (refusal : ParserRefusal)
  | noName (path : Path)
deriving Repr, DecidableEq

namespace Error

/-- The wording of an error. -/
def message : Error → Text
  | .failure cause => cause.message
  | .file fault => fault.message
  | .notText fault => fault.message
  | .settings fault => fault.message
  | .parser refusal => refusal.message
  | .noName path => "PosixPath(" ++ Text.quoted path.text ++ ") has an empty name"

/-- Whether the system refused a file or a process.  It is never asked for a path with a
null character. -/
def isSystem : Error → Bool
  | .file fault => fault.problem ≠ .nullInPath
  | .failure (.permissionDenied _) => true
  | _ => false

/-- Whether a value can not be used: octets that are no text, a parser that there is
not, a path without a name or with a null character, a mission that does not wait, a
number with too many digits, a text without octets. -/
def isValue : Error → Bool
  | .file fault => fault.problem = .nullInPath
  | .notText _ => true
  | .parser _ => true
  | .noName _ => true
  | .failure .notQueued => true
  | .failure (.misfit (.longNumber _)) => true
  | .failure (.unencodable _) => true
  | _ => false

/-- Whether a file can not be read or holds no text. -/
def isUnreadable : Error → Bool
  | .notText _ => true
  | error => error.isSystem

/-- Whether the settings can not be used. -/
def isSettings : Error → Bool
  | .settings _ => true
  | _ => false

/-- Whether the parser gave no report. -/
def isParser : Error → Bool
  | .failure (.parser _) => true
  | _ => false

end Error

end SyntaxRepair
