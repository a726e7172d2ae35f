import BlockLang.File.Directory
import BlockLang.Text.Newline
import BlockLang.Text.Utf8

/-!
# Source files

A source file is read as UTF-8, with any kind of line end. A text that holds a null character is no
path and is looked up nowhere.

## Main definitions

* `FileError`: why a file cannot be read
* `decodeSource content`: the source that bytes stand for
* `readSource read path`: the source that a path leads to

## Main results

* `readSource_of_holdsNull`: a null character is refused whatever there is
* `readSource_bytes`: what a path leads to is decoded
-/

namespace BlockLang.File

/-- Why a file cannot be read. -/
inductive FileError
  | nullInPath
  | missing (path : String)
  | directory (path : String)
  | notDirectory (path : String)
  | tooLong (path : String)
  | malformed (e : Text.DecodeError)
  deriving DecidableEq, Repr

/-- The message about a file that cannot be read. -/
def FileError.message : FileError → String
  | nullInPath => "embedded null byte"
  | missing path => "[Errno 2] No such file or directory: " ++ Text.quoted path
  | directory path => "[Errno 21] Is a directory: " ++ Text.quoted path
  | notDirectory path => "[Errno 20] Not a directory: " ++ Text.quoted path
  | tooLong path => "[Errno 36] File name too long: " ++ Text.quoted path
  | malformed e => e.message

/-- The source that bytes stand for. -/
def decodeSource (content : List UInt8) : Except FileError String :=
  match Text.decode content with
  | .ok cs => .ok (String.ofList (Text.unifyNewlines cs))
  | .error e => .error (.malformed e)

/-- The text holds a null character, and so is no path. -/
def holdsNull (path : String) : Bool := path.toList.contains '\x00'

/-- The source that a path leads to; `read` tells what is there. -/
def readSource (read : String → FileContent) (path : String) : Except FileError String :=
  if holdsNull path then .error .nullInPath
  else
    match read path with
    | .missing => .error (.missing path)
    | .directory => .error (.directory path)
    | .notDirectory => .error (.notDirectory path)
    | .tooLong => .error (.tooLong path)
    | .bytes content => decodeSource content

/-- A null character is refused whatever there is. -/
theorem readSource_of_holdsNull {path : String} (h : holdsNull path) (read : String → FileContent) :
    readSource read path = .error .nullInPath := by
  simp [readSource, h]

/-- What a path leads to is decoded. -/
theorem readSource_bytes {read : String → FileContent} {path : String} {content : List UInt8}
    (h : holdsNull path = false) (hr : read path = .bytes content) :
    readSource read path = decodeSource content := by
  simp [readSource, h, hr]

end BlockLang.File
