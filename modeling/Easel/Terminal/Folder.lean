import Easel.Error
import Easel.Text.Basic
import Std.Data.ExtTreeMap

/-! A folder of files, the folders around it, and how paths lead to files. -/

namespace Easel.Terminal

/-- Contents by place. The place of a file in the folder itself is its name. In front of the name,
each `../` stands for one folder further out, and `/` for the outermost folder. -/
structure Folder where
  files : Std.ExtTreeMap String ByteArray

inductive Access where
  | reading
  | writing
  deriving DecidableEq, Repr

inductive FileFault where
  | notFound
  | notDirectory
  | isDirectory
  | nameTooLong
  | nulInName
  | notText
  deriving DecidableEq, Repr

namespace FileFault

def message : FileFault → String
  | notFound => "No such file or directory (os error 2)"
  | notDirectory => "Not a directory (os error 20)"
  | isDirectory => "Is a directory (os error 21)"
  | nameTooLong => "File name too long (os error 36)"
  | nulInName => "file name contained an unexpected NUL byte"
  | notText => "stream did not contain valid UTF-8"

end FileFault

namespace Folder

def maxNameBytes : Nat := 255

def maxPathBytes : Nat := 4095

def own (folder : Folder) : List (String × ByteArray) :=
  folder.files.toList.filter fun (place, _) => !place.toList.contains '/'

/-- Goes on into a folder. There are no folders but those around, so every other name leads to a
file or to nothing. -/
def enter (folder : Folder) (place name : String) : Except FileFault String :=
  if name == "." then .ok place
  else if name == ".." then .ok (if place == "/" then place else place ++ "../")
  else if maxNameBytes < name.utf8ByteSize then .error .nameTooLong
  else .error (if folder.files.contains (place ++ name) then .notDirectory else .notFound)

/-- The place that a path leads to. A slash behind the last name asks for a folder, and so do dots in
its place; what asks for a folder can not be written, whether or not there is one. -/
def resolve (folder : Folder) (access : Access) (path : String) : Except FileFault String := do
  if path.toList.contains (Char.ofNat 0) then throw .nulInName
  if maxPathBytes < path.utf8ByteSize then throw .nameTooLong
  let start := if path.toList.head? == some '/' then "/" else ""
  let names := (Text.fields (· == '/') path.toList).map String.ofList
  match names.getLast? with
  | none => throw (if path.isEmpty then .notFound else .isDirectory)
  | some last =>
    let place ← names.dropLast.foldlM folder.enter start
    if path.toList.getLast? == some '/' || last == "." || last == ".." then
      if access = .reading then
        let _ ← folder.enter place last
      throw .isDirectory
    if maxNameBytes < last.utf8ByteSize then throw .nameTooLong
    return place ++ last

def load (folder : Folder) (path : String) : Except FileFault String := do
  let place ← folder.resolve .reading path
  match folder.files[place]? with
  | none => throw .notFound
  | some bytes => match String.fromUTF8? bytes with
    | some text => return text
    | none => throw .notText

def save (folder : Folder) (path text : String) : Except FileFault Folder := do
  let place ← folder.resolve .writing path
  return ⟨folder.files.insert place text.toUTF8⟩

end Folder

end Easel.Terminal
