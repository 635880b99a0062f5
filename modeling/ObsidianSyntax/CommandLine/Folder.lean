/-!
# Reading source files

Why a file cannot be read, and a folder that stands in for a file system: the files in it by name,
with nothing beside it. A source is text in UTF-8, and a file of other bytes is no source.
-/

namespace ObsidianSyntax

/-- Why a source file cannot be read. -/
inductive ReadFault where
  | notFound
  | notFolder
  | isFolder
  | notText
  | other (number : Nat) (description : String)
deriving DecidableEq, Repr

/-- The description of a fault that the system numbers. -/
def ReadFault.numbered (description : String) (number : Nat) : String :=
  description ++ " (os error " ++ number.repr ++ ")"

def ReadFault.message : ReadFault → String
  | .notFound => numbered "No such file or directory" 2
  | .notFolder => numbered "Not a directory" 20
  | .isFolder => numbered "Is a directory" 21
  | .notText => "stream did not contain valid UTF-8"
  | .other number description => numbered description number

/-- The source that the bytes of a file hold. -/
def decodeSource (bytes : ByteArray) : Except ReadFault String :=
  match String.fromUTF8? bytes with
  | some text => .ok text
  | none => .error .notText

/-- A folder without folders in it: its files by name. -/
structure Folder where
  files : List (String × ByteArray)

namespace Folder

/-- The steps of a path that lead somewhere. -/
def steps (path : String) : List String := (path.splitOn "/").filter fun step => step != "" && step != "."

/-- The source at a path that starts in the folder. -/
def read (folder : Folder) (path : String) : Except ReadFault String :=
  if path = "" then .error .notFound
  else
    match steps path with
    | [] => .error .isFolder
    | name :: inside =>
      match folder.files.lookup name with
      | some bytes =>
        if inside.isEmpty && (path.splitOn "/").getLast? == some name then decodeSource bytes
        else .error .notFolder
      | none => .error (if (name :: inside).all (· == "..") then .isFolder else .notFound)

end Folder

end ObsidianSyntax
