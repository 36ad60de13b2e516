import RouterCli.Files.Path
import RouterCli.Files.Store

/-!
  RouterCli.Files.Tree

  A tree of directories, files and symbolic links in memory. Names point to
  numbered files, so that a file keeps its content when its name goes away and
  may have several names. Paths are followed from a working directory.
-/

namespace RouterCli

/-- What a file holds. -/
inductive FileBody where
  /-- Entries, and the directory above. -/
  | directory (above : Nat) (entries : List (String × Nat))
  | regular (content : List UInt8)
  | link (target : String)
deriving DecidableEq, Repr

/-- A file: what it holds and its permission bits. -/
structure FileNode where
  body : FileBody
  mode : Nat
deriving DecidableEq, Repr

/-- Files by number. Number zero is the root, number one the working
    directory. -/
structure FileTree where
  nodes : List FileNode
deriving DecidableEq, Repr

namespace FileTree

/-- The permission bits of a new directory. -/
def directoryMode : Nat := 0o755

/-- The permission bits of a new file. -/
def fileMode : Nat := 0o644

/-- The permission bits of a file that is nobody else's business. -/
def privateMode : Nat := 0o600

/-- The longest name of an entry, in bytes. -/
def nameLimit : Nat := 255

/-- One more than the longest path, in bytes. -/
def pathLimit : Nat := 4096

/-- How many links are followed on one way. -/
def linkLimit : Nat := 40

/-- The number of the root. -/
def root : Nat := 0

/-- The number of the working directory. -/
def workingDirectory : Nat := 1

/-- An empty working directory. -/
def empty : FileTree :=
  ⟨[⟨.directory root [("work", workingDirectory)], directoryMode⟩,
    ⟨.directory root [], directoryMode⟩]⟩

-- ============================================================================
-- Following paths
-- ============================================================================

/-- The body of a file. -/
def body? (t : FileTree) (n : Nat) : Option FileBody :=
  t.nodes[n]?.map (·.body)

/-- The entries of a directory. -/
def entries? (t : FileTree) (n : Nat) : Option (List (String × Nat)) :=
  match t.body? n with
  | some (.directory _ entries) => some entries
  | _ => none

/-- A directory. -/
def isDirectory (t : FileTree) (n : Nat) : Bool :=
  (t.entries? n).isSome

/-- What is wanted at the end of a path. -/
inductive Aim where
  /-- The entry itself, also if it is a link. -/
  | entry
  /-- The file that a link leads to. -/
  | target
  /-- The same, or room for a new file. -/
  | creation
deriving DecidableEq, Repr

/-- Where a path leads. -/
inductive Place where
  | file (n : Nat)
  /-- To a name that its directory does not have. -/
  | vacant (directory : Nat) (name : String)
deriving DecidableEq, Repr

/-- The parts of a path that are steps. -/
def steps (path : String) : List String :=
  (Path.parts path).filter (· != "")

/-- The steps all along a path. A slash at its end is a step of its own, which
    asks for a directory. -/
def allSteps (path : String) : List String :=
  steps path ++ if Path.endsInSlash path then [""] else []

/-- Follow steps from a directory. Links in between are followed, and so is one
    at the end unless the entry itself is wanted. A new file is not made under a
    name with a slash behind it. -/
def follow (t : FileTree) (aim : Aim) (links : Nat) (here : Nat) :
    List String → Except FileError Place
  | [] => .ok (.file here)
  | name :: rest =>
    match t.body? here with
    | some (.directory above entries) =>
      if Path.isIdle name then t.follow aim links here rest
      else if name = ".." then t.follow aim links above rest
      else if aim = .creation ∧ rest = [""] then .error .isDirectory
      else if nameLimit < name.utf8ByteSize then .error .nameTooLong
      else
        match entries.lookup name with
        | none => if rest.isEmpty then .ok (.vacant here name) else .error .notFound
        | some n =>
          match t.body? n with
          | some (.link target) =>
            if aim = .entry ∧ rest = [] then .ok (.file n)
            else
              match links with
              | 0 => .error .tooManyLinks
              | links + 1 =>
                let start := if Path.isAbsolute target then root else here
                t.follow aim links start (allSteps target ++ rest)
          | _ => t.follow aim links n rest
    | _ => .error .notDirectory
termination_by steps => (links, steps.length)

/-- A path that may be followed at all. -/
def checkPath (path : String) : Except FileError Unit :=
  if path = "" then .error .notFound
  else if path.toList.contains '\x00' then .error .nulInName
  else if pathLimit ≤ path.utf8ByteSize then .error .nameTooLong
  else .ok ()

/-- Where the way along a path begins. -/
def startOf (path : String) : Nat :=
  if Path.isAbsolute path then root else workingDirectory

/-- Where a path leads. -/
def locate (t : FileTree) (aim : Aim) (path : String) : Except FileError Place := do
  checkPath path
  t.follow aim linkLimit (startOf path) (allSteps path)

/-- The file a path leads to. -/
def resolve (t : FileTree) (aim : Aim) (path : String) : Except FileError Nat := do
  match ← t.locate aim path with
  | .file n => return n
  | .vacant _ _ => throw .notFound

/-- The directory of a path's last name, that name, and whether a slash follows
    it. A path that ends in a dot or at the root has no last name. -/
def lastName (t : FileTree) (path : String) :
    Except FileError (Nat × Option String × Bool) := do
  checkPath path
  let names := steps path
  match ← t.follow .target linkLimit (startOf path) names.dropLast with
  | .vacant _ _ => throw .notFound
  | .file dir =>
    if !t.isDirectory dir then throw .notDirectory
    let name := names.getLast?.filter fun n => n != "." && n != ".."
    if name.any (nameLimit < ·.utf8ByteSize) then throw .nameTooLong
    return (dir, name, Path.endsInSlash path)

-- ============================================================================
-- Changing the tree
-- ============================================================================

/-- Change one file. -/
def update (t : FileTree) (n : Nat) (f : FileNode → FileNode) : FileTree :=
  ⟨t.nodes.modify n f⟩

/-- Change the entries of a directory. -/
def updateEntries (t : FileTree) (n : Nat)
    (f : List (String × Nat) → List (String × Nat)) : FileTree :=
  t.update n fun node =>
    match node.body with
    | .directory above entries => { node with body := .directory above (f entries) }
    | _ => node

/-- A new file under a new name. -/
def create (t : FileTree) (dir : Nat) (name : String) (node : FileNode) : Nat × FileTree :=
  let n := t.nodes.length
  (n, (⟨t.nodes ++ [node]⟩ : FileTree).updateEntries dir (· ++ [(name, n)]))

/-- Set the content of a file. -/
def setContent (t : FileTree) (n : Nat) (content : List UInt8) : FileTree :=
  t.update n fun node => { node with body := .regular content }

-- ============================================================================
-- Steps
-- ============================================================================

/-- Open a file for reading; a directory can be opened, but not be read. -/
def openRead (t : FileTree) (path : String) : Except FileError FileHandle :=
  (t.resolve .target path).map FileHandle.mk

/-- The bytes of an open file from a position on. -/
def readFrom (t : FileTree) (handle : FileHandle) (start : Nat) :
    Except FileError (List UInt8) :=
  match t.body? handle.file with
  | some (.regular content) => .ok (content.drop start)
  | _ => .error .isDirectory

/-- Open a file for appending. -/
def openAppend (t : FileTree) (path : String) : Except FileError (FileHandle × FileTree) := do
  match ← t.locate .creation path with
  | .vacant dir name =>
    let (n, t) := t.create dir name ⟨.regular [], fileMode⟩
    return (⟨n⟩, t)
  | .file n => if t.isDirectory n then throw .isDirectory else return (⟨n⟩, t)

/-- Append to an open file. -/
def append (t : FileTree) (handle : FileHandle) (bytes : List UInt8) : FileTree :=
  match t.body? handle.file with
  | some (.regular content) => t.setContent handle.file (content ++ bytes)
  | _ => t

/-- A number in six digits. -/
def sixDigits (n : Nat) : String :=
  let digits := Nat.toDigits 10 n
  String.ofList (List.replicate (6 - digits.length) '0' ++ digits)

/-- Create a file of a new name in a directory. Among more numbers than there
    are entries one gives a new name. -/
def createFresh (t : FileTree) (dir start : String) : Except FileError (String × FileTree) := do
  let n ← t.resolve .target dir
  match t.entries? n with
  | none => throw .notDirectory
  | some entries =>
    let names := (List.range (entries.length + 1)).map fun i => start ++ sixDigits i
    match names.find? fun name => (entries.lookup name).isNone with
    | none => throw .alreadyExists
    | some name =>
      let path := Path.join dir name
      checkPath path
      if nameLimit < name.utf8ByteSize then throw .nameTooLong
      return (path, (t.create n name ⟨.regular [], privateMode⟩).2)

/-- Give a file its content. -/
def write (t : FileTree) (path : String) (bytes : List UInt8) : Except FileError FileTree := do
  let n ← t.resolve .target path
  if t.isDirectory n then throw .isDirectory else return t.setContent n bytes

/-- Take a name away from its file. -/
def remove (t : FileTree) (path : String) : Except FileError FileTree := do
  match ← t.lastName path with
  | (_, none, _) => throw .isDirectory
  | (dir, some name, slash) =>
    match ((t.entries? dir).getD []).lookup name with
    | none => throw .notFound
    | some n =>
      if t.isDirectory n then throw .isDirectory
      if slash then throw .notDirectory
      return t.updateEntries dir (·.filter (·.1 != name))

/-- Give a file a second name. Directories have one name only. -/
def link (t : FileTree) (old new : String) : Except FileError FileTree := do
  let n ← t.resolve .entry old
  match ← t.lastName new with
  | (_, none, _) => throw .alreadyExists
  | (dir, some name, slash) =>
    if (((t.entries? dir).getD []).lookup name).isSome then throw .alreadyExists
    if slash then throw .notFound
    if t.isDirectory n then throw .notPermitted
    return t.updateEntries dir (· ++ [(name, n)])

/-- Set the permission bits of a file. -/
def setMode (t : FileTree) (path : String) (mode : Nat) : Except FileError FileTree := do
  let n ← t.resolve .target path
  return t.update n fun node => { node with mode }

instance : FileStore FileTree where
  openRead := openRead
  readFrom := readFrom
  present t path := (t.resolve .target path).toBool
  openAppend := openAppend
  append := append
  createFresh := createFresh
  write := write
  remove := remove
  link := link
  setMode := setMode

-- ============================================================================
-- Filling and looking
-- ============================================================================

/-- Make the directories of a path that are not there. -/
def makeDirectories (t : FileTree) (here : Nat) : List String → Nat × FileTree
  | [] => (here, t)
  | name :: rest =>
    match ((t.entries? here).getD []).lookup name with
    | some n => t.makeDirectories n rest
    | none =>
      let (n, t) := t.create here name ⟨.directory here [], directoryMode⟩
      t.makeDirectories n rest

/-- The tree with a directory. -/
def withDirectory (t : FileTree) (path : String) : FileTree :=
  (t.makeDirectories (startOf path) (steps path)).2

/-- The tree with a file under a path. -/
def withNode (t : FileTree) (path : String) (node : FileNode) : FileTree :=
  let names := steps path
  let (dir, t) := t.makeDirectories (startOf path) names.dropLast
  (t.create dir (names.getLastD "") node).2

/-- The tree with a file of some content; a file there keeps its place. -/
def withFile (t : FileTree) (path : String) (content : List UInt8) : FileTree :=
  match t.resolve .target path with
  | .ok n => t.setContent n content
  | .error _ => t.withNode path ⟨.regular content, fileMode⟩

/-- The tree with a symbolic link. -/
def withLink (t : FileTree) (path target : String) : FileTree :=
  t.withNode path ⟨.link target, 0o777⟩

/-- The names in the working directory, in order. -/
def list (t : FileTree) : List String :=
  (((t.entries? workingDirectory).getD []).map (·.1)).mergeSort fun a b => decide (a ≤ b)

/-- The permission bits of a path, in octal. -/
def mode? (t : FileTree) (path : String) : Option String :=
  match t.resolve .target path with
  | .ok n => t.nodes[n]?.map fun node => String.ofList (Nat.toDigits 8 node.mode)
  | .error _ => none

end FileTree

end RouterCli
