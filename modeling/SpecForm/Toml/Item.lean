/-!
# TOML tables

A table may be opened by a header, by the dots of a key, or in passing by a
longer header; each may be extended in its own way only.  Values, inline tables
among them, are never extended.
-/

namespace SpecForm.Toml

inductive Origin where
  | header | passing | dotted
  deriving DecidableEq, Repr, Inhabited

/-- What a key stands for.  `tables` is a list of tables under one header. -/
inductive Item where
  | string (text : String)
  | integer (value : Int)
  | float (value : Float)
  | boolean (value : Bool)
  | moment
  | array (items : List Item)
  | inline (entries : List (String × Item))
  | table (origin : Origin) (entries : List (String × Item))
  | tables (items : List Item)
  deriving Inhabited

abbrev Entries := List (String × Item)

namespace Item

def entries? : Item → Option Entries
  | .inline entries | .table _ entries => some entries
  | _ => none

def items? : Item → Option (List Item)
  | .array items | .tables items => some items
  | _ => none

end Item

namespace Entries

def replace (key : String) (item : Item) (entries : Entries) : Entries :=
  entries.map fun (other, old) => if other = key then (other, item) else (other, old)

def add? (key : String) (item : Item) (entries : Entries) : Option Entries :=
  if (entries.lookup key).isSome then none else some (entries ++ [(key, item)])

/-- Changes the table that a path leads to, by way of the last table of a list.
Missing tables are made, with `origin`; the dots of a key do not lead through a
table with a header. -/
def within (origin : Origin) (change : Origin → Entries → Option Entries) :
    List String → Origin → Entries → Option Entries
  | [], here, entries => change here entries
  | key :: rest, _, entries =>
      match entries.lookup key with
      | none => do
          let inner ← within origin change rest origin []
          return entries ++ [(key, .table origin inner)]
      | some (.table old inner) =>
          if origin = .dotted && old = .header then none
          else do
            let inner ← within origin change rest old inner
            return entries.replace key (.table old inner)
      | some (.tables items) =>
          match items.getLast? with
          | some (.table old inner) => do
              let inner ← within origin change rest old inner
              return entries.replace key (.tables (items.dropLast ++ [.table old inner]))
          | _ => none
      | some _ => none

def set? (path : List String) (key : String) (item : Item) (entries : Entries) :
    Option Entries :=
  within .dotted (fun origin entries =>
    if (origin = .dotted) = path.isEmpty then none else entries.add? key item) path .header entries

def openTable? (path : List String) (key : String) (entries : Entries) : Option Entries :=
  within .passing (fun _ entries =>
    match entries.lookup key with
    | none => some (entries ++ [(key, .table .header [])])
    | some (.table .passing inner) => some (entries.replace key (.table .header inner))
    | some _ => none) path .header entries

def addTable? (path : List String) (key : String) (entries : Entries) : Option Entries :=
  within .passing (fun _ entries =>
    match entries.lookup key with
    | none => some (entries ++ [(key, .tables [.table .header []])])
    | some (.tables items) => some (entries.replace key (.tables (items ++ [.table .header []])))
    | some _ => none) path .header entries

def setIn? (place path : List String) (key : String) (item : Item) (entries : Entries) :
    Option Entries :=
  within .passing (fun _ inner => inner.set? path key item) place .header entries

end Entries

end SpecForm.Toml
