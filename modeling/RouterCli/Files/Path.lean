import RouterCli.Text.Blank

/-!
  RouterCli.Files.Path

  Paths as texts: their components, the last of them, and what stands before
  it. Repeated slashes count once, and a dot is dropped except at the start of
  a relative path.
-/

namespace RouterCli.Path

/-- One step of a path. -/
inductive Component where
  | root
  | here
  | up
  | entry (name : String)
deriving DecidableEq, Repr

/-- The texts between slashes. -/
def parts (path : String) : List String :=
  (Text.pieces (· == '/') path.toList).map String.ofList

/-- A path that starts at the root. -/
def isAbsolute (path : String) : Bool :=
  path.toList.head? == some '/'

/-- A path that ends in a slash. -/
def endsInSlash (path : String) : Bool :=
  path.toList.getLast? == some '/'

/-- A part that adds nothing to a path. -/
def isIdle (part : String) : Bool :=
  part == "" || part == "."

/-- A part as a component. -/
def componentOf (part : String) : Component :=
  if part = ".." then .up else .entry part

/-- The components of a path. Two paths with the same ones are the same. -/
def components (path : String) : List Component :=
  match parts path with
  | [] => []
  | first :: rest =>
    let tail := (rest.filter (!isIdle ·)).map componentOf
    if isAbsolute path then .root :: tail
    else if first = "." then .here :: tail
    else if first = "" then tail
    else componentOf first :: tail

/-- Parts without the idle ones at the end. -/
def dropIdleEnd (ps : List String) : List String :=
  (ps.reverse.dropWhile isIdle).reverse

/-- Parts joined by slashes. -/
def joinParts (ps : List String) : String :=
  "/".intercalate ps

/-- The path without its last component, if it has one besides the root. The
    text before it is kept as it stands. -/
def parent? (path : String) : Option String :=
  match parts path with
  | [] => none
  | first :: rest =>
    match dropIdleEnd rest with
    | [] => if first = "" then none else some ""
    | body =>
      let above := dropIdleEnd body.dropLast
      if isAbsolute path then some ("/" ++ joinParts above)
      else some (joinParts (first :: above))

/-- The last component, where it names an entry. -/
def fileName? (path : String) : Option String :=
  match (components path).getLast? with
  | some (.entry name) => some name
  | _ => none

/-- An entry of a directory. -/
def join (dir name : String) : String :=
  if endsInSlash dir then dir ++ name else dir ++ "/" ++ name

end RouterCli.Path
