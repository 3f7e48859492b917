import SpecForm.Command.Outcome

/-!
# The program

Carries out the command line on the files of this machine.  Documents on the web
are not fetched.
-/

namespace SpecForm.Main

def fileErrorOf : IO.Error → FileError
  | .noFileOrDirectory _ _ _ => .missing
  | .inappropriateType _ 20 _ => .notDirectory
  | .inappropriateType _ 21 _ => .isDirectory
  | .otherError 36 _ => .nameTooLong
  | error => .other (toString error)

def readFile (path : Bytes) : IO (Except FileError String) := do
  if path.contains 0 then return .error .zeroByte
  match String.fromUTF8? ⟨path.toArray⟩ with
  | none => return .error .missing
  | some name =>
      try
        match String.fromUTF8? (← IO.FS.readBinFile name) with
        | some text => return .ok text
        | none => return .error .notText
      catch error => return .error (fileErrorOf error)

def world : IO (Load.World IO) := do
  let directory ← IO.currentDir
  return {
    directory := directory.toString
    read := readFile
    request := fun _ => return .failed "no network"
    pause := fun time => IO.sleep (UInt32.ofNat (min time 1000)) }

def steps : Nat := 1000000000

end SpecForm.Main

def main (arguments : List String) : IO UInt32 := do
  let outcome ← SpecForm.Command.run (← SpecForm.Main.world) SpecForm.Main.steps arguments
  match outcome with
  | .shown text => IO.print text
  | .failed failure => IO.eprintln ("error: " ++ failure.message)
  | .misused => IO.eprint SpecForm.Command.usage
  return UInt32.ofNat outcome.code
