import SpecForm.Load.Files
import SpecForm.Load.Retry
import SpecForm.Load.Source

/-!
# Fetching documents

What loading needs of the world around it is a record of operations, so that
documents can be loaded from a table as well as from a disk.
-/

namespace SpecForm.Load

inductive Reply where
  | failed (reason : String)
  | answered (status : Nat) (body : String)
  deriving DecidableEq, Repr

/-- `directory` is the one that paths are relative to. -/
structure World (m : Type → Type) where
  directory : String
  read : Bytes → m (Except FileError String)
  request : String → m Reply
  pause : Nat → m Unit

def textOfReply (uri : String) : Reply → Except Fault String
  | .failed reason => .error (.transport uri reason)
  | .answered status body =>
      if status = 404 then .error (.notFound uri)
      else if status < 200 || 300 ≤ status then .error (.status uri status)
      else .ok body

def textOfFile (uri : String) : Except FileError String → Except Fault String
  | .ok text => .ok text
  | .error .missing => .error (.notFound uri)
  | .error error => .error (.unreadable uri error.message false)

namespace World

variable {m : Type → Type} [Monad m]

def fetchText (world : World m) (retry : Retry) (uri : String) : m (Except Fault String) :=
  match Uri.parse uri with
  | .error cause => pure (.error (.invalidUri uri cause))
  | .ok place =>
      if place.scheme = "file" then
        match place.filePath? with
        | none => pure (.error (.unsupportedScheme uri))
        | some path => textOfFile uri <$> world.read path
      else if place.scheme = "http" || place.scheme = "https" then
        retry.run world.pause (textOfReply uri <$> world.request uri)
      else pure (.error (.unsupportedScheme uri))

def fetch (world : World m) (retry : Retry) (uri : String) : m (Except Fault Json) := do
  return (← world.fetchText retry uri).bind (parse uri)

end World

end SpecForm.Load
