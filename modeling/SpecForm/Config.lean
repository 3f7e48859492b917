import SpecForm.Load.World
import SpecForm.Toml.Reader

/-!
# Configuration

Every setting has a default, and a configuration file gives those that differ.
A section is a table of settings, or an array that gives the first of them in
order.  A setting that is not known is an error.
-/

namespace SpecForm

/-- Settings for loading; times of requests are in seconds, delays in milliseconds. -/
structure LoaderConfig where
  timeout : Nat := 30
  attempts : Nat := 3
  retryDelay : Nat := 125
  userAgent : String := "oasgen/0.1.0"
  deriving DecidableEq, Repr, Inhabited

structure AnalyzerConfig where
  maxDepth : Nat := 32
  deriving DecidableEq, Repr, Inhabited

structure Config where
  loader : LoaderConfig := {}
  analyzer : AnalyzerConfig := {}
  deriving DecidableEq, Repr, Inhabited

namespace Config

/-! ## Settings -/

structure Setting (α : Type) where
  name : String
  set? : Toml.Item → α → Option α

def naturalBelow? (bound : Nat) : Toml.Item → Option Nat
  | .integer n => if 0 ≤ n && n < bound then some n.toNat else none
  | _ => none

def text? : Toml.Item → Option String
  | .string text => some text
  | _ => none

def loaderSettings : List (Setting LoaderConfig) :=
  [⟨"timeout_secs", fun item config =>
      (naturalBelow? UInt64.size item).map fun n => { config with timeout := n }⟩,
    ⟨"max_retries", fun item config =>
      (naturalBelow? UInt32.size item).map fun n => { config with attempts := n }⟩,
    ⟨"initial_retry_delay_ms", fun item config =>
      (naturalBelow? UInt64.size item).map fun n => { config with retryDelay := n }⟩,
    ⟨"user_agent", fun item config =>
      (text? item).map fun text => { config with userAgent := text }⟩]

def analyzerSettings : List (Setting AnalyzerConfig) :=
  [⟨"max_depth", fun item config =>
      (naturalBelow? UInt64.size item).map fun n => { config with maxDepth := n }⟩]

variable {α : Type}

def setEntries? (settings : List (Setting α)) (entries : Toml.Entries) (start : α) :
    Option α :=
  entries.foldlM (fun config (name, item) => do
    let setting ← settings.find? fun setting => setting.name = name
    setting.set? item config) start

def setSection? (settings : List (Setting α)) (item : Toml.Item) (start : α) : Option α :=
  match item.entries?, item.items? with
  | some entries, _ => setEntries? settings entries start
  | none, some items =>
      (settings.zip items).foldlM (fun config (setting, item) => setting.set? item config) start
  | none, none => none

def sections : List (Setting Config) :=
  [⟨"loader", fun item config =>
      (setSection? loaderSettings item {}).map fun loader => { config with loader := loader }⟩,
    ⟨"analyzer", fun item config =>
      (setSection? analyzerSettings item {}).map fun analyzer =>
        { config with analyzer := analyzer }⟩]

/-! ## Reading -/

def ofText (path text : String) : Except Fault Config :=
  match (Toml.parse? text).bind fun entries => setEntries? sections entries {} with
  | some config => .ok config
  | none => .error (.config path "not a valid configuration")

variable {m : Type → Type} [Monad m]

def read (world : Load.World m) (path : String) : m (Except Fault Config) := do
  match ← world.read path.toUTF8.toList with
  | .ok text => return ofText path text
  | .error error => return .error (.unreadable path error.message (error = .missing))

end Config

namespace LoaderConfig

def retry (config : LoaderConfig) : Load.Retry := ⟨config.attempts, config.retryDelay⟩

def isHeaderChar (c : Char) : Bool := c = '\t' || (0x20 ≤ c.toNat && c.toNat ≠ 0x7F)

def validate (config : LoaderConfig) : Except Fault Unit :=
  if config.userAgent.toList.all isHeaderChar then .ok () else .error (.client "builder error")

end LoaderConfig

end SpecForm
