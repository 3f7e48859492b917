import SpecForm.Command.Arguments
import SpecForm.Config
import SpecForm.Form.Analyze
import SpecForm.Form.Encoding
import SpecForm.Json.Writer
import SpecForm.Load.Closure
import SpecForm.TypeScript.OfSchema

/-!
# Commands

A command loads a set of documents and shows something of it: the URIs it maps,
the target of a pointer, or the form of a schema.
-/

namespace SpecForm.Command

inductive Failure where
  | fault (cause : Fault)
  | nothingAt (pointer : String)
  | tooManyDocuments
  deriving DecidableEq, Repr

def Failure.message : Failure → String
  | .fault cause => cause.message
  | .nothingAt pointer => "Nothing to resolve at '" ++ pointer ++ "'"
  | .tooManyDocuments => "Too many documents"

inductive Outcome where
  | shown (text : String)
  | failed (failure : Failure)
  | misused
  deriving DecidableEq, Repr

def Outcome.code : Outcome → Nat
  | .shown _ => 0
  | .failed _ => 1
  | .misused => 2

def version : String := "oasgen 0.1.0\n"

def usage : String :=
  "OpenAPI reference resolution and form analysis\n\n" ++
  "Usage: oasgen [OPTIONS] <COMMAND>\n\n" ++
  "Commands:\n" ++
  "  keys <ENTRY>               List every URI that the documents are known by\n" ++
  "  resolve <ENTRY> <POINTER>  Print the target of a JSON Pointer, with --ts its type\n" ++
  "  analyze <ENTRY> <SCHEMA>   Print the form of a named schema\n\n" ++
  "Options:\n" ++
  "  --config <CONFIG>          Path of a configuration file\n" ++
  "  --log-level <LOG_LEVEL>    Level of the log\n" ++
  "  -h, --help                 Print help\n" ++
  "  -V, --version              Print version\n"

/-! ## Answers -/

def Request.entry : Request → String
  | .keys entry | .resolve entry _ _ | .analyze entry _ => entry

def Request.answer (config : Config) (loaded : Loaded) : Request → Except Failure String
  | .keys _ => .ok (String.join (loaded.store.keys.map (· ++ "\n")))
  | .resolve _ pointer asType =>
      match loaded.resolver.resolveFragment pointer with
      | none => .error (.nothingAt pointer)
      | some node =>
          .ok ((if asType then (TypeScript.ofSchema loaded.resolver node).text
            else node.value.indented) ++ "\n")
  | .analyze _ schema =>
      let dialect := Dialect.detect loaded.entry.value
      match Form.Resource.ofComponent loaded.resolver dialect schema with
      | .error fault => .error (.fault fault)
      | .ok resource =>
          let form := Form.analyze loaded.resolver config.analyzer.maxDepth resource
          .ok (form.toJson.indented ++ "\n")

variable {m : Type → Type} [Monad m]

def readConfig (world : Load.World m) : Option String → m (Except Fault Config)
  | none => return .ok {}
  | some path => Config.read world path

def loadFor (world : Load.World m) (steps : Nat) (config : Config) (request : Request) :
    m (Except Failure Loaded) := do
  match config.loader.validate with
  | .error fault => return .error (.fault fault)
  | .ok _ =>
      match ← Load.load world config.loader.retry steps request.entry with
      | none => return .error .tooManyDocuments
      | some (.error fault) => return .error (.fault fault)
      | some (.ok loaded) => return .ok loaded

def carryOut (world : Load.World m) (steps : Nat) (invocation : Invocation) :
    m (Except Failure String) := do
  match ← readConfig world invocation.configPath with
  | .error fault => return .error (.fault fault)
  | .ok config =>
      let loaded ← loadFor world steps config invocation.request
      return loaded.bind (invocation.request.answer config)

def run (world : Load.World m) (steps : Nat) (arguments : List String) : m Outcome := do
  match Invocation.ofArguments arguments with
  | .error .usage => return .misused
  | .error .help => return .shown usage
  | .error .version => return .shown version
  | .ok invocation =>
      match ← carryOut world steps invocation with
      | .ok text => return .shown text
      | .error failure => return .failed failure

end SpecForm.Command
