import SpecForm.Document.Operations
import SpecForm.Document.Resolve
import SpecForm.Load.Targets
import SpecForm.Load.World

/-!
# Loading sets of documents

The entry is loaded, then every document that it refers to, each followed at once
by the documents that it refers to itself.  A document that does not exist, or
that cannot be fetched from where it is, is left out unless it is the entry; any
other failure ends the loading.
-/

namespace SpecForm

namespace Load

/-- `tried` are the URIs that were fetched, latest first, and `pending` those that
may have to be, next first. -/
structure Loading where
  store : Store
  tried : List String
  pending : List String
  deriving Inhabited

namespace Loading

def start (entry : String) (root : Json) : Loading :=
  let (store, document) := Store.empty.register entry root
  ⟨store, [entry], targets store document⟩

def isKnown (loading : Loading) (uri : String) : Bool :=
  loading.store.contains uri || loading.tried.contains uri

def skip (loading : Loading) : Loading := { loading with pending := loading.pending.drop 1 }

def mayLeaveOut : Fault → Bool
  | .unsupportedScheme _ => true
  | fault => fault.isNotFound

def absorb (loading : Loading) (uri : String) (outcome : Except Fault Json) :
    Except Fault Loading :=
  let rest := loading.pending.drop 1
  match outcome with
  | .ok root =>
      let (store, document) := loading.store.register uri root
      .ok ⟨store, uri :: loading.tried, targets store document ++ rest⟩
  | .error fault =>
      if mayLeaveOut fault then .ok ⟨loading.store, uri :: loading.tried, rest⟩
      else .error fault

variable {m : Type → Type} [Monad m]

/-- Works off the pending URIs; `none` if there are more than `steps` of them. -/
def run (fetch : String → m (Except Fault Json)) :
    Nat → Loading → m (Option (Except Fault Store))
  | 0, _ => return none
  | steps + 1, loading =>
      match loading.pending with
      | [] => return some (.ok loading.store)
      | uri :: _ =>
          if loading.isKnown uri then run fetch steps loading.skip
          else do
            match loading.absorb uri (← fetch uri) with
            | .ok loading => run fetch steps loading
            | .error fault => return some (.error fault)

end Loading

end Load

/-! ## Loaded sets -/

structure Loaded where
  store : Store
  entryUri : String
  entry : Node
  deriving Inhabited

namespace Loaded

def ofStore (store : Store) (entryUri : String) : Except Fault Loaded :=
  match store.get? entryUri with
  | none => .error (.notFound entryUri)
  | some entry => store.validate.map fun _ => ⟨store, entryUri, entry⟩

def ofText (directory name text : String) : Except Fault Loaded := do
  let uri ← Load.absoluteUri directory name
  let root ← Load.parse uri text
  ofStore (Store.empty.register uri root).1 uri

def resolver (loaded : Loaded) : Resolver := Resolver.new loaded.store loaded.entryUri

end Loaded

namespace Load

variable {m : Type → Type} [Monad m]

/-- Loads a document and all that it refers to; `none` if that takes more than
`steps` steps. -/
def load (world : World m) (retry : Retry) (steps : Nat) (name : String) :
    m (Option (Except Fault Loaded)) := do
  match absoluteUri world.directory name with
  | .error fault => return some (.error fault)
  | .ok uri =>
      match ← world.fetch retry uri with
      | .error fault => return some (.error fault)
      | .ok root =>
          let outcome ← Loading.run (world.fetch retry) steps (Loading.start uri root)
          return outcome.map fun outcome => outcome.bind (Loaded.ofStore · uri)

end Load

end SpecForm
