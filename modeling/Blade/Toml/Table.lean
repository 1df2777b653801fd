import Blade.Toml.Value

/-!
# Toml — Table

Tables under construction.  A table is defined once: by a header, by a dotted key, or as a value.  A
header may define a table that is there only because a longer header went through it; a dotted key
may go through such tables and through those that dotted keys made, and adds to the latter only.
-/

namespace Blade.Toml

/-- What brought a table about. -/
inductive Origin where
  /-- A header of its own, or the document itself. -/
  | header
  /-- A longer header. -/
  | implied
  /-- A dotted key. -/
  | dotted
  deriving DecidableEq, Repr, Inhabited

/-- What a key stands for. -/
inductive Node where
  | value (value : Value)
  | table (origin : Origin) (entries : List (String × Node))
  /-- An array of tables, the last one first. -/
  | tables (items : List (List (String × Node)))
  deriving Repr, Inhabited

/-- The keys of a table and what they stand for, in order. -/
abbrev Entries := List (String × Node)

/-- The entries with `key` set to `node`, at its place when it has one. -/
def Entries.set (key : String) (node : Node) : Entries → Entries
  | [] => [(key, node)]
  | (k, n) :: rest => if k = key then (key, node) :: rest else (k, n) :: Entries.set key node rest

/-- Changes the table at the end of a path, making the tables on the way that are missing; an array
of tables stands for its last one. -/
def alter (made : Origin) (change : Origin → Entries → Except Reason Entries) :
    List String → Origin → Entries → Except Reason Entries
  | [], origin, entries => change origin entries
  | key :: path, _, entries =>
      match entries.lookup key with
      | none => do
          let inner ← alter made change path made []
          .ok (entries.set key (.table made inner))
      | some (.table origin inner) =>
          if made = .dotted ∧ origin = .header then .error (.duplicateKey key)
          else do
            let inner ← alter made change path origin inner
            .ok (entries.set key (.table origin inner))
      | some (.tables (last :: earlier)) => do
          let last ← alter made change path .header last
          .ok (entries.set key (.tables (last :: earlier)))
      | some _ => .error (.duplicateKey key)

/-- Gives a key its value in a table; `direct` when no dotted key led there. -/
def define (direct : Bool) (key : String) (value : Value) (origin : Origin) (entries : Entries) :
    Except Reason Entries :=
  if (direct || origin == .dotted) && (entries.lookup key).isNone then
    .ok (entries.set key (.value value))
  else .error (.duplicateKey key)

/-- Gives a dotted key its value. -/
def defineAt (path : List String) (key : String) (value : Value) (origin : Origin)
    (entries : Entries) : Except Reason Entries :=
  alter .dotted (define path.isEmpty key value) path origin entries

/-- Opens a table under a header that ends in `key`. -/
def openTable (key : String) (_ : Origin) (entries : Entries) : Except Reason Entries :=
  match entries.lookup key with
  | none => .ok (entries.set key (.table .header []))
  | some (.table .implied inner) => .ok (entries.set key (.table .header inner))
  | some _ => .error (.duplicateKey key)

/-- Opens the next table of an array under a header that ends in `key`. -/
def openItem (key : String) (_ : Origin) (entries : Entries) : Except Reason Entries :=
  match entries.lookup key with
  | none => .ok (entries.set key (.tables [[]]))
  | some (.tables items) => .ok (entries.set key (.tables ([] :: items)))
  | some _ => .error (.duplicateKey key)

mutual

/-- What a key stands for, as a value. -/
def Node.toValue : Node → Value
  | .value value => value
  | .table _ entries => .table (entriesValue entries)
  | .tables items => .array (itemValues items).reverse

/-- The entries of a table, as values. -/
def entriesValue : Entries → List (String × Value)
  | [] => []
  | (key, node) :: rest => (key, node.toValue) :: entriesValue rest

/-- The tables of an array, as values. -/
def itemValues : List Entries → List Value
  | [] => []
  | entries :: rest => .table (entriesValue entries) :: itemValues rest

end

end Blade.Toml
