import RouterCli.Toml.Number

/-!
  RouterCli.Toml.Value

  The values of a settings document and the way tables are built up from paths
  of keys. A document is one table; headers and keys with dots name tables
  inside of it, and each may do so in its own ways only.
-/

namespace RouterCli.Toml

-- ============================================================================
-- Values
-- ============================================================================

/-- How a table came to be, which says how it may grow. -/
inductive Origin where
  /-- Written in braces, which close it for good. -/
  | braces
  /-- By a header of its own. -/
  | header
  /-- On the way to the header of a table inside of it. -/
  | passage
  /-- On the way of a key with dots. -/
  | dotted
deriving DecidableEq, Repr

/-- A value. -/
inductive Value where
  | text (s : String)
  | number (n : Number)
  | truth (b : Bool)
  /-- A date, a time or both, as it is written. -/
  | moment (written : String)
  /-- Values in order; headers in double brackets add tables where it is open. -/
  | array (isOpen : Bool) (items : List Value)
  | table (origin : Origin) (entries : List (String × Value))

/-- Keys and values in the order they were written. -/
abbrev Entries := List (String × Value)

namespace Value

mutual

/-- Every number of a value is sound. A document may hold others as long as
    nobody asks for them. -/
def isSound : Value → Bool
  | text _ | truth _ | moment _ => true
  | number n => n.isSound
  | array _ items => areSound items
  | table _ entries => entriesAreSound entries

/-- The same for the values of an array. -/
def areSound : List Value → Bool
  | [] => true
  | v :: rest => v.isSound && areSound rest

/-- The same for the values of a table. -/
def entriesAreSound : List (String × Value) → Bool
  | [] => true
  | (_, v) :: rest => v.isSound && entriesAreSound rest

end

end Value

-- ============================================================================
-- Tables at a path
-- ============================================================================

/-- Change the value of a key, or give it one; none if the change is refused. -/
def change (key : String) (f : Option Value → Option Value) : Entries → Option Entries
  | [] => (f none).map fun v => [(key, v)]
  | (k, v) :: rest =>
    if k = key then (f (some v)).map fun v => (k, v) :: rest
    else (change key f rest).map ((k, v) :: ·)

/-- A table of one origin may be passed through on the way to another one. Keys
    with dots stay out of the tables that have a header. -/
def Origin.lets (origin via : Origin) : Bool :=
  origin != .braces && !(via == .dotted && origin == .header)

/-- Change the table at a path. The tables on the way that are not there are
    begun as `via` says; an open array is passed through in its last table. -/
def changeAt (via : Origin) (f : Origin → Entries → Option Entries) :
    List String → Origin → Entries → Option Entries
  | [], origin, entries => f origin entries
  | key :: path, _, entries =>
    entries |> change key fun
      | none => (changeAt via f path via []).map (.table via)
      | some (.table origin inner) =>
        if origin.lets via then (changeAt via f path origin inner).map (.table origin) else none
      | some (.array true items) =>
        match items.getLast? with
        | some (.table origin inner) =>
          (changeAt via f path origin inner).map fun inner =>
            .array true (items.dropLast ++ [.table origin inner])
        | _ => none
      | some _ => none

/-- Give a key with dots a value. A key has one value only, and what is behind a
    dot goes into tables that dots have begun. -/
def addPair (path : List String) (v : Value) (origin : Origin) (entries : Entries) :
    Option Entries :=
  match path.getLast? with
  | none => none
  | some key =>
    let place := fun origin inner =>
      if path.length = 1 || origin == .dotted then
        change key (fun old => if old.isSome then none else some v) inner
      else none
    changeAt .dotted place path.dropLast origin entries

/-- Begin the table of a header. One that was only passed through before keeps
    what it has. -/
def beginTable : Option Value → Option Value
  | none => some (.table .header [])
  | some (.table .passage entries) => some (.table .header entries)
  | some _ => none

/-- Begin the next table of a header in double brackets. -/
def beginItem : Option Value → Option Value
  | none => some (.array true [.table .header []])
  | some (.array true items) => some (.array true (items ++ [.table .header []]))
  | some _ => none

/-- Begin what a header names. -/
def addHeader (start : Option Value → Option Value) (path : List String) (root : Entries) :
    Option Entries :=
  match path.getLast? with
  | none => none
  | some key => changeAt .passage (fun _ inner => change key start inner) path.dropLast .header root

end RouterCli.Toml
