import SpecForm.Fault

/-!
# Files

A path is walked name by name from the root or from a directory.  Every name but
the last has to be a directory, `..` included, so that a path may fail for
reasons other than that nothing is there.
-/

namespace SpecForm

inductive FileError where
  | missing
  | notDirectory
  | isDirectory
  | nameTooLong
  | zeroByte
  | notText
  | other (reason : String)
  deriving DecidableEq, Repr

def FileError.message : FileError → String
  | .missing => "No such file or directory (os error 2)"
  | .notDirectory => "Not a directory (os error 20)"
  | .isDirectory => "Is a directory (os error 21)"
  | .nameTooLong => "File name too long (os error 36)"
  | .zeroByte => "file name contained an unexpected NUL byte"
  | .notText => "stream did not contain valid UTF-8"
  | .other reason => reason

abbrev Bytes := List UInt8

inductive FileEntry where
  | directory
  | file (content : ByteArray)
  deriving Inhabited

/-- The files and directories beneath a root, by the names that lead to them.  The
directories on the way to an entry need no entries of their own. -/
structure FileTree where
  entries : List (List Bytes × FileEntry)
  deriving Inhabited

namespace FileTree

def entry? (tree : FileTree) (names : List Bytes) : Option FileEntry :=
  match tree.entries.lookup names with
  | some entry => some entry
  | none =>
      if tree.entries.any fun (other, _) => names.isPrefixOf other then some .directory else none

def isDirectory (tree : FileTree) (names : List Bytes) : Bool :=
  names.isEmpty ||
    match tree.entry? names with
    | some .directory => true
    | _ => false

def maxName : Nat := 255

def maxPath : Nat := 4096

def walk (tree : FileTree) : List Bytes → List Bytes → Except FileError (List Bytes)
  | here, [] => .ok here
  | here, name :: rest =>
      if !tree.isDirectory here then .error .notDirectory
      else if name = [] || name = [46] then walk tree here rest
      else if name = [46, 46] then walk tree here.dropLast rest
      else if maxName < name.length then .error .nameTooLong
      else if (tree.entry? (here ++ [name])).isNone then .error .missing
      else walk tree (here ++ [name]) rest

def readText (tree : FileTree) (here : List Bytes) (path : Bytes) : Except FileError String :=
  if path.contains 0 then .error .zeroByte
  else if path.isEmpty then .error .missing
  else if maxPath ≤ path.length then .error .nameTooLong
  else
    let start := if path.head? = some 47 then [] else here
    match tree.walk start (path.splitOn 47) with
    | .error error => .error error
    | .ok place =>
        match tree.entry? place with
        | some (.file content) =>
            match String.fromUTF8? content with
            | some text => .ok text
            | none => .error .notText
        | _ => .error .isDirectory

end FileTree

end SpecForm
