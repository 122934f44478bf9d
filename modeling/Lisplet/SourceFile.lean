import Lisplet.Text.Pieces

/-! # Source files

What a path leads to.  Some paths are settled by their form alone: one that is no proper
name, one that is too long, and one made of dots and slashes, which always leads to a
directory.  For any other path it matters what is stored there. -/

namespace Lisplet

/-- Why a source file cannot be read. -/
inductive FileError where
  | nulInName
  | nameTooLong
  | missing
  | isDirectory
  /-- The bytes are not the encoding of a text. -/
  | notText
  | other (message : String)
deriving DecidableEq, Repr

/-- Why the file cannot be read, in words. -/
def FileError.message : FileError → String
  | nulInName => "file name contained an unexpected NUL byte"
  | nameTooLong => "File name too long (os error 36)"
  | missing => "No such file or directory (os error 2)"
  | isDirectory => "Is a directory (os error 21)"
  | notText => "stream did not contain valid UTF-8"
  | other message => message

namespace SourceFile

/-- The most bytes that a path may have. -/
def pathLimit : Nat := 4095

/-- The most bytes that a name between slashes may have. -/
def nameLimit : Nat := 255

/-- The names between the slashes of a path.  Empty names and dots are left out, because
    they lead from one directory to another. -/
def names (path : String) : List String :=
  ((Text.split ['/'] path.toList).map String.ofList).filter fun name =>
    name != "" && name != "." && name != ".."

/-- Why nothing is found under a name. -/
def absent (name : String) : FileError :=
  if nameLimit < name.utf8ByteSize then .nameTooLong else .missing

/-- The bytes under a path, if `stored` is what the path leads to where its form does not
    settle the matter. -/
def bytes (path : String) (stored : Option ByteArray) : Except FileError ByteArray :=
  if '\x00' ∈ path.toList then .error .nulInName
  else if path = "" then .error .missing
  else if pathLimit < path.utf8ByteSize then .error .nameTooLong
  else
    match names path, stored with
    | [], _ => .error .isDirectory
    | _ :: _, some bytes => .ok bytes
    | name :: _, none => .error (absent name)

/-- The text that bytes encode. -/
def text (bytes : ByteArray) : Except FileError String :=
  match String.fromUTF8? bytes with
  | some text => .ok text
  | none => .error .notText

end SourceFile
end Lisplet
