import Patchbay.Toml.Value
/-!
# Tables under construction

A document builds its tables bit by bit.  What may still be added to a table depends on how it came
about: under a header of its own, on the way to another header, or by a key of several parts.
-/

namespace Patchbay.Toml

/-- How a table came about. -/
inductive Origin
  | header
  | implied
  | dotted
deriving DecidableEq, Repr

/-- What stands at a key: a finished value, a table, or a list of tables with headers of their
own. -/
inductive Node
  | value (v : Value)
  | table (origin : Origin) (entries : List (String × Node))
  | tables (items : List (List (String × Node)))

abbrev Entries := List (String × Node)

namespace Entries

/-- Replaces what stands at a key. -/
def replace (key : String) (node : Node) (entries : Entries) : Entries :=
  entries.map fun entry => if entry.1 = key then (key, node) else entry

/-- Changes the table at the end of a path.  Tables that are missing on the way come about as
`fresh`; a list of tables leads on into its last one.  A key may not lead into a table with a header
of its own. -/
def alter (fresh : Origin) (f : Origin → Entries → Option Entries) (origin : Origin) :
    List String → Entries → Option Entries
  | [], entries => f origin entries
  | key :: path, entries =>
    match entries.lookup key with
    | none => do
      let inner ← alter fresh f fresh path []
      return entries ++ [(key, .table fresh inner)]
    | some (.value _) => none
    | some (.table origin inner) => do
      if fresh = .dotted ∧ origin = .header then none
      let inner ← alter fresh f origin path inner
      return entries.replace key (.table origin inner)
    | some (.tables items) => do
      let inner ← alter fresh f .header path (items.getLast?.getD [])
      return entries.replace key (.tables (items.dropLast ++ [inner]))

/-- Adds a pair; a key of several parts must end in a table that came about so. -/
def addPair (entries : Entries) (pair : Pair) : Option Entries :=
  let ⟨key, v⟩ := pair
  alter .dotted (fun origin entries =>
    if (key.path ≠ [] ∧ origin ≠ .dotted) ∨ (entries.lookup key.last).isSome then none
    else some (entries ++ [(key.last, .value v)])) .header key.path entries

/-- Adds pairs in order. -/
def addPairs (entries : Entries) (pairs : List Pair) : Option Entries :=
  pairs.foldlM addPair entries

/-- Adds a table with a header of its own.  It may already be there on the way to other headers, and
moves to the end then. -/
def addTable (key : Key) (pairs : List Pair) (entries : Entries) : Option Entries :=
  alter .implied (fun _ entries => do
    let inner ← match entries.lookup key.last with
      | none => addPairs [] pairs
      | some (.table .implied inner) => addPairs inner pairs
      | some _ => none
    return entries.filter (·.1 ≠ key.last) ++ [(key.last, .table .header inner)])
    .header key.path entries

/-- Adds a table to a list of tables. -/
def addElement (key : Key) (pairs : List Pair) (entries : Entries) : Option Entries :=
  alter .implied (fun _ entries => do
    let inner ← addPairs [] pairs
    match entries.lookup key.last with
    | none => return entries ++ [(key.last, .tables [inner])]
    | some (.tables items) => return entries.replace key.last (.tables (items ++ [inner]))
    | some _ => none)
    .header key.path entries

end Entries

mutual

/-- The value of a node once the document is complete. -/
def Node.finish : Node → Value
  | .value v => v
  | .table _ entries => .table (finishEntries entries)
  | .tables items => .array (finishItems items)

def finishEntries : List (String × Node) → List (String × Value)
  | [] => []
  | (key, node) :: rest => (key, node.finish) :: finishEntries rest

def finishItems : List (List (String × Node)) → List Value
  | [] => []
  | entries :: rest => .table (finishEntries entries) :: finishItems rest

end

end Patchbay.Toml
