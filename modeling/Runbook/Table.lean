/-!
# Tables

A table holds values under text keys, in increasing order of the keys and without repetition:
`Table.insert` keeps that order and `Table.ofList` builds it. Objects, namespaces and the maps of
a run are tables.
-/

namespace Runbook

/-- Entries in increasing order of their keys. -/
abbrev Table (α : Type) := List (String × α)

namespace Table

variable {α : Type}

/-- The value under a key. -/
def get? (key : String) : Table α → Option α
  | [] => none
  | (k, v) :: rest => if k = key then some v else get? key rest

/-- The table with `key` set to `value`; the order of keys is kept. -/
def insert (key : String) (value : α) : Table α → Table α
  | [] => [(key, value)]
  | (k, v) :: rest =>
    if key = k then (key, value) :: rest
    else if key < k then (key, value) :: (k, v) :: rest
    else (k, v) :: insert key value rest

/-- The table without `key`. -/
def erase (key : String) : Table α → Table α
  | [] => []
  | (k, v) :: rest => if k = key then rest else (k, v) :: erase key rest

/-- Whether there is an entry of this name. -/
def has (key : String) (t : Table α) : Bool := (get? key t).isSome

/-- The keys in order. -/
def keys (t : Table α) : List String := t.map (·.1)

/-- The table of these entries, the last of several with one key winning. -/
def ofList (entries : List (String × α)) : Table α :=
  entries.foldl (fun t e => insert e.1 e.2 t) []

end Table
end Runbook
