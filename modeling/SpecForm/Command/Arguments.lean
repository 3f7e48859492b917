/-!
# Arguments

Options may stand anywhere, before the name of the command or after it; of two
values the one nearer to the end of the line counts, but on either side of the
name an option may stand only once.  After `--` nothing is an option.
-/

namespace SpecForm.Command

inductive Request where
  | keys (entry : String)
  | resolve (entry pointer : String) (asType : Bool)
  | analyze (entry schema : String)
  deriving DecidableEq, Repr

structure Invocation where
  configPath : Option String
  request : Request
  deriving DecidableEq, Repr

inductive Refusal where
  | usage | help | version
  deriving DecidableEq, Repr

inductive Name where
  | keys | resolve | analyze
  deriving DecidableEq, Repr

namespace Name

def ofText? (text : String) : Option Name :=
  [("keys", keys), ("resolve", resolve), ("analyze", analyze)].lookup text

def arity : Name → Nat
  | .keys => 1
  | .resolve | .analyze => 2

end Name

structure Given where
  config : Option String
  logLevel : Option String
  asType : Bool
  words : List String
  deriving DecidableEq, Repr

namespace Given

def empty : Given := ⟨none, none, false, []⟩

end Given

/-! ## Options -/

/-- An option; `value` is what follows an equals sign. -/
inductive Argument where
  | word (text : String)
  | stop
  | long (name : String) (value : Option String)
  | short (letters : List Char)
  deriving DecidableEq, Repr

def Argument.ofText (text : String) : Argument :=
  match text.toList with
  | ['-', '-'] => .stop
  | '-' :: '-' :: rest =>
      let name := rest.takeWhile (· ≠ '=')
      .long (String.ofList name)
        (if name.length < rest.length then some (String.ofList (rest.drop (name.length + 1)))
          else none)
  | '-' :: c :: rest => .short (c :: rest)
  | _ => .word text

/-- Takes up an option with a value.  The path of a configuration is not empty. -/
def setOption (given : Given) (name value : String) : Except Refusal Given :=
  if name = "config" then
    if given.config.isSome || value.isEmpty then .error .usage
    else .ok { given with config := some value }
  else if given.logLevel.isSome then .error .usage
  else .ok { given with logLevel := some value }

def takesValue (name : String) : Bool := name = "config" || name = "log-level"

/-- Takes up an option without a value; `command` is the command it is for. -/
def setFlag (command : Option Name) (given : Given) (name : String) : Except Refusal Given :=
  if name = "help" then .error .help
  else if name = "version" && command.isNone then .error .version
  else if name = "ts" && command = some .resolve && !given.asType then
    .ok { given with asType := true }
  else .error .usage

/-- A group of letters is refused with its first one. -/
def refuseShort (command : Option Name) (letters : List Char) : Refusal :=
  match letters.head? with
  | some 'h' => .help
  | some 'V' => if command.isNone then .version else .usage
  | _ => .usage

def addWord (command : Name) (given : Given) (word : String) : Except Refusal Given :=
  if given.words.length < command.arity then .ok { given with words := given.words ++ [word] }
  else .error .usage

def readRest (command : Name) : Given → List String → Except Refusal Given
  | given, [] => .ok given
  | given, text :: rest =>
      match Argument.ofText text with
      | .word word => do readRest command (← addWord command given word) rest
      | .stop => rest.foldlM (addWord command) given
      | .short letters => .error (refuseShort (some command) letters)
      | .long name (some value) =>
          if takesValue name then do readRest command (← setOption given name value) rest
          else .error .usage
      | .long name none =>
          if takesValue name then
            match rest with
            | next :: rest =>
                match Argument.ofText next with
                | .word value => do readRest command (← setOption given name value) rest
                | _ => .error .usage
            | [] => .error .usage
          else do readRest command (← setFlag (some command) given name) rest

def helps (rest : List String) : Bool :=
  match rest with
  | [] => true
  | [name] => (Name.ofText? name).isSome || name = "help"
  | _ => false

def readStart : Given → List String → Except Refusal (Given × Name × List String)
  | _, [] => .error .usage
  | given, text :: rest =>
      match Argument.ofText text with
      | .word word =>
          match Name.ofText? word with
          | some command => .ok (given, command, rest)
          | none => .error (if word = "help" && helps rest then .help else .usage)
      | .stop => .error .usage
      | .short letters => .error (refuseShort none letters)
      | .long name (some value) =>
          if takesValue name then do readStart (← setOption given name value) rest
          else .error .usage
      | .long name none =>
          if takesValue name then
            match rest with
            | next :: rest =>
                match Argument.ofText next with
                | .word value => do readStart (← setOption given name value) rest
                | _ => .error .usage
            | [] => .error .usage
          else do readStart (← setFlag none given name) rest

/-! ## Command lines -/

def requestOf (command : Name) (given : Given) : Except Refusal Request :=
  match command, given.words with
  | .keys, [entry] => .ok (.keys entry)
  | .resolve, [entry, pointer] => .ok (.resolve entry pointer given.asType)
  | .analyze, [entry, schema] => .ok (.analyze entry schema)
  | _, _ => .error .usage

def Invocation.ofArguments (arguments : List String) : Except Refusal Invocation := do
  let (before, command, rest) ← readStart .empty arguments
  let given ← readRest command .empty rest
  return ⟨given.config <|> before.config, ← requestOf command given⟩

end SpecForm.Command
