/-!
# Files

What a program sees of files: the bytes under a path, or why there are none.  A
`Directory` holds the files of a working directory in memory.
-/

namespace TaskTree

/-- Why there is no text under a path. -/
inductive LoadFault where
  | notFound
  | isDirectory
  | notDirectory
  | notText
deriving DecidableEq, Repr

/-- The description of a fault. -/
def LoadFault.message : LoadFault → String
  | .notFound => "No such file or directory (os error 2)"
  | .isDirectory => "Is a directory (os error 21)"
  | .notDirectory => "Not a directory (os error 20)"
  | .notText => "stream did not contain valid UTF-8"

/-- The bytes under each path. -/
abbrev Files := String → Except LoadFault ByteArray

/-- The text that some bytes hold in UTF-8. -/
def textOfBytes (bytes : ByteArray) : Except LoadFault String :=
  match String.fromUTF8? bytes with
  | some text => .ok text
  | none => .error .notText

/-- The text under a path. -/
def Files.load (files : Files) (path : String) : Except LoadFault String := do
  textOfBytes (← files path)

/-- The parts of a path between its slashes. -/
def pathParts (path : String) : List String :=
  (path.toList.splitOn '/').map String.ofList

/-- Whether a part of a path leads nowhere else. -/
def isIdlePart (part : String) : Bool :=
  part == "" || part == "."

/-- The files of a working directory by name; a directory has no bytes. -/
abbrev Directory := List (String × Option ByteArray)

/-- What is under the parts of a path, where nothing stands for a directory.  Above the working
directory there are only directories. -/
def Directory.resolve (directory : Directory) : List String → Except LoadFault (Option ByteArray)
  | [] => .ok none
  | name :: parts =>
      if name = ".." then
        if parts.all (· == "..") then .ok none else .error .notFound
      else
        match directory.lookup name, parts with
        | none, _ => .error .notFound
        | some content, [] => .ok content
        | some none, ".." :: parts => directory.resolve parts
        | some none, _ => .error .notFound
        | some (some _), _ => .error .notDirectory

/-- The files of a directory under their relative paths. -/
def Directory.files (directory : Directory) : Files := fun path =>
  let parts := pathParts path
  if path.isEmpty ∨ (path.startsWith "/" ∧ ¬ parts.all isIdlePart) then .error .notFound
  else
    match directory.resolve (parts.filter fun part => !isIdlePart part) with
    | .error fault => .error fault
    | .ok none => .error .isDirectory
    | .ok (some bytes) =>
        if (parts.getLast?.map isIdlePart).getD false then .error .notDirectory else .ok bytes

end TaskTree
