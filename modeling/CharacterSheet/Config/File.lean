import CharacterSheet.Config.Document

/-!
Configurations kept in files. A file that cannot be read as text fails before anything is parsed;
the errors of its text are reported with the place of the file around them.
-/
namespace CharacterSheet.Config

inductive File where
  | missing
  | directory
  | content (bytes : ByteArray)

/-- Reasons why a file gives no text. -/
inductive ReadError where
  | missing
  | directory
  | notText
  deriving DecidableEq, Repr

/-- Reasons why a file gives no configuration. -/
inductive LoadError where
  | read (error : ReadError)
  | text (error : TextError)
  deriving DecidableEq, Repr

namespace ReadError

def reason : ReadError → String
  | missing => "No such file or directory (os error 2)"
  | directory => "Is a directory (os error 21)"
  | notText => "stream did not contain valid UTF-8"

end ReadError

namespace LoadError

def code : LoadError → String
  | read _ => "READ_FILE"
  | text error => error.code

/-- The text of the cause, for a file at a path. -/
def message (path : String) : LoadError → String
  | read error => "Failed to read file " ++ path ++ ": " ++ error.reason
  | text error => error.message

/-- The text shown first, for a file at a path. Only errors of the text are put in a context. -/
def outer (path : String) : LoadError → String
  | read error => message path (read error)
  | text _ => "Invalid character config in " ++ path

end LoadError

namespace File

def text : File → Except ReadError String
  | missing => .error .missing
  | directory => .error .directory
  | content bytes =>
    match String.fromUTF8? bytes with
    | some text => .ok text
    | none => .error .notText

end File

/-- The configuration that a file states. The detail is what is said of its text if it states none.
-/
def load (file : File) (detail : String) : Except LoadError Config :=
  match file.text with
  | .error error => .error (.read error)
  | .ok text =>
    match parse text detail with
    | .error error => .error (.text error)
    | .ok config => .ok config

end CharacterSheet.Config
