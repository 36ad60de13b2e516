import RouterCli.Toml.Statement

/-!
  RouterCli.Toml.Document

  Reading a settings document: its statements are taken in one by one, each into
  the table whose header came last.
-/

namespace RouterCli.Toml

/-- Why a text is no document. Lines are numbered from one. -/
inductive Defect where
  | malformed (line : Nat)
  /-- A name cannot be given there, since it was given before. -/
  | repeated (line : Nat)
deriving DecidableEq, Repr

namespace Defect

/-- The words for a defect. -/
def message : Defect → String
  | malformed line => s!"line {line} cannot be read"
  | repeated line => s!"line {line} gives a name that was given before"

end Defect

/-- A document as far as it was read. -/
structure Draft where
  root : Entries := []
  /-- The table whose header came last. -/
  current : List String := []

namespace Draft

/-- Take in a statement; none if it gives a name again. -/
def add (d : Draft) : Statement → Option Draft
  | .table path => (addHeader beginTable path d.root).map fun root => { root, current := path }
  | .item path => (addHeader beginItem path d.root).map fun root => { root, current := path }
  | .pair path v =>
    (changeAt .passage (addPair path v) d.current .header d.root).map fun root => { d with root }

/-- The number of the line where `rest` begins, at the end of `whole`. -/
def lineAt (whole rest : List Char) : Nat :=
  whole.count '\n' - rest.count '\n' + 1

/-- Take in the statements of `cs`, the end of `whole`. -/
def addAll (whole : List Char) (d : Draft) (cs : List Char) : Except Defect Draft :=
  match skipFiller false cs with
  | none => .error (.malformed (lineAt whole cs))
  | some [] => .ok d
  | some text =>
    match readStatement text with
    | none => .error (.malformed (lineAt whole text))
    | some (statement, rest) =>
      match d.add statement with
      | none => .error (.repeated (lineAt whole text))
      | some d =>
        if rest.length < cs.length then d.addAll whole rest
        else .error (.malformed (lineAt whole text))
termination_by cs.length

end Draft

/-- The text without the mark that some editors put in front of all else. -/
def dropMark : List Char → List Char
  | c :: rest => if c = '\uFEFF' then rest else c :: rest
  | [] => []

/-- Read a document: the values of its outermost table. -/
def readDocument (s : String) : Except Defect Entries :=
  let cs := dropMark s.toList
  (({} : Draft).addAll cs cs).map (·.root)

end RouterCli.Toml
