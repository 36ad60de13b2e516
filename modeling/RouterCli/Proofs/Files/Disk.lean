import RouterCli.Console.Save
import RouterCli.Files.Tree

/-!
  RouterCli.Proofs.Files.Disk

  Files whose steps may fail. A folder is a map from names to numbered files,
  and every call on it either takes its whole effect or none. A disk is a
  folder together with a choice of which calls fail, and it remembers the calls
  that succeeded and what each of them left. Links are not followed.
-/

namespace RouterCli

-- ============================================================================
-- Folders
-- ============================================================================

/-- The bytes of a regular file. -/
def FileNode.content? (file : FileNode) : Option (List UInt8) :=
  match file.body with
  | .regular content => some content
  | _ => none

/-- Names, and the files they stand for. -/
structure Folder where
  names : String → Option Nat
  files : Nat → FileNode
  /-- The number of the next file. -/
  bound : Nat
  names_lt : ∀ {name n}, names name = some n → n < bound

namespace Folder

/-- The file of a name. -/
def file? (f : Folder) (name : String) : Option FileNode :=
  (f.names name).map f.files

/-- What is read under a name. -/
def content? (f : Folder) (name : String) : Option (List UInt8) :=
  (f.file? name).bind (·.content?)

/-- Let a name stand for a file, or for none. -/
def setName (f : Folder) (name : String) (file : Option Nat)
    (h : ∀ {n}, file = some n → n < f.bound) : Folder :=
  { f with
    names := fun other => if other = name then file else f.names other
    names_lt := by
      intro other n hn
      split at hn
      · exact h hn
      · exact f.names_lt hn }

/-- Replace a file. -/
def setFile (f : Folder) (n : Nat) (file : FileNode) : Folder :=
  { f with files := fun m => if m = n then file else f.files m }

/-- A new file under a name. -/
def addFile (f : Folder) (name : String) (file : FileNode) : Folder where
  names other := if other = name then some f.bound else f.names other
  files m := if m = f.bound then file else f.files m
  bound := f.bound + 1
  names_lt := by
    intro other n hn
    split at hn
    · cases hn
      exact Nat.lt_succ_self _
    · exact Nat.lt_succ_of_lt (f.names_lt hn)

end Folder

-- ============================================================================
-- Calls
-- ============================================================================

/-- A call that asks for a name or changes what is under it. -/
inductive Call where
  | create (name : String)
  | write (name : String) (bytes : List UInt8)
  | stat (name : String)
  | unlink (name : String)
  | link (source target : String)
  | chmod (name : String) (mode : Nat)
deriving DecidableEq, Repr

namespace Folder

/-- Make a file of a new name. -/
def create (f : Folder) (name : String) : Except FileError Folder :=
  match f.names name with
  | some _ => .error .alreadyExists
  | none => .ok (f.addFile name ⟨.regular [], FileTree.privateMode⟩)

/-- Give a file its content. -/
def write (f : Folder) (name : String) (bytes : List UInt8) : Except FileError Folder :=
  match f.names name with
  | none => .error .notFound
  | some n =>
    match f.files n with
    | ⟨.regular _, mode⟩ => .ok (f.setFile n ⟨.regular bytes, mode⟩)
    | ⟨.directory _ _, _⟩ => .error .isDirectory
    | ⟨.link _, _⟩ => .error .tooManyLinks

/-- Take a name away from its file. -/
def unlink (f : Folder) (name : String) : Except FileError Folder :=
  match f.names name with
  | none => .error .notFound
  | some n =>
    match (f.files n).body with
    | .directory _ _ => .error .isDirectory
    | _ => .ok (f.setName name none nofun)

/-- Give a file a second name. Directories have one name only. -/
def link (f : Folder) (source target : String) : Except FileError Folder :=
  match hsource : f.names source with
  | none => .error .notFound
  | some n =>
    match f.names target, (f.files n).body with
    | some _, _ => .error .alreadyExists
    | none, .directory _ _ => .error .notPermitted
    | none, _ => .ok (f.setName target (some n) fun h => f.names_lt (hsource.trans h))

/-- Set the permission bits of a file. -/
def chmod (f : Folder) (name : String) (mode : Nat) : Except FileError Folder :=
  match f.names name with
  | none => .error .notFound
  | some n => .ok (f.setFile n { f.files n with mode })

/-- What a call does. -/
def perform (f : Folder) : Call → Except FileError Folder
  | .create name => f.create name
  | .write name bytes => f.write name bytes
  | .stat name => if (f.names name).isSome then .ok f else .error .notFound
  | .unlink name => f.unlink name
  | .link source target => f.link source target
  | .chmod name mode => f.chmod name mode

variable {f f' : Folder}

theorem create_ok {name : String} (h : f.create name = .ok f') :
    f.names name = none ∧ f' = f.addFile name ⟨.regular [], FileTree.privateMode⟩ := by
  unfold create at h
  split at h
  · cases h
  · rename_i hname
    exact ⟨hname, (Except.ok.inj h).symm⟩

theorem write_ok {name : String} {bytes : List UInt8} (h : f.write name bytes = .ok f') :
    ∃ n, f.names name = some n ∧
      f' = f.setFile n ⟨.regular bytes, (f.files n).mode⟩ := by
  unfold write at h
  split at h
  · cases h
  rename_i n hname
  split at h
  · rename_i hfile
    exact ⟨n, hname, by rw [hfile]; exact (Except.ok.inj h).symm⟩
  all_goals cases h

theorem unlink_ok {name : String} (h : f.unlink name = .ok f') :
    (f.names name).isSome ∧ f' = f.setName name none nofun := by
  unfold unlink at h
  split at h
  · cases h
  rename_i hname
  split at h
  · cases h
  · exact ⟨by simp [hname], (Except.ok.inj h).symm⟩

theorem names_of_unlink_notFound {name : String} (h : f.unlink name = .error .notFound) :
    f.names name = none := by
  unfold unlink at h
  split at h
  · assumption
  · split at h <;> cases h

theorem link_ok {source target : String} (h : f.link source target = .ok f') :
    ∃ n, ∃ hn : f.names source = some n, f.names target = none ∧
      f' = f.setName target (some n) fun h => f.names_lt (hn.trans h) := by
  unfold link at h
  split at h
  · cases h
  rename_i n hn
  split at h
  · cases h
  · cases h
  · rename_i htarget _
    exact ⟨n, hn, htarget, (Except.ok.inj h).symm⟩

theorem chmod_ok {name : String} {mode : Nat} (h : f.chmod name mode = .ok f') :
    ∃ n, f.names name = some n ∧ f' = f.setFile n { f.files n with mode } := by
  unfold chmod at h
  split at h
  · cases h
  · rename_i n hname
    exact ⟨n, hname, (Except.ok.inj h).symm⟩

end Folder

-- ============================================================================
-- Disks
-- ============================================================================

/-- A folder some calls on which fail. -/
structure Disk where
  folder : Folder
  /-- What makes the name of a fresh file. -/
  suffix : String
  length_suffix : suffix.length = 6
  suffix_noSlash : '/' ∉ suffix.toList
  /-- The calls that fail whatever the folder holds, each with its cause. -/
  fails : Call → Option FileError
  /-- A name is said not to be there only where it is not. -/
  fails_unlink : ∀ name, fails (.unlink name) ≠ some .notFound
  /-- The calls that changed the folder, and what it was after each. -/
  past : List (Call × Folder) := []

namespace Disk

/-- Nothing is there, and no call fails that need not. -/
def empty : Disk where
  folder :=
    { names := fun _ => none
      files := fun _ => ⟨.regular [], FileTree.fileMode⟩
      bound := 0
      names_lt := nofun }
  suffix := "000000"
  length_suffix := rfl
  suffix_noSlash := by decide
  fails _ := none
  fails_unlink := nofun

/-- The cause a call fails with whatever the folder holds. The name of a file
    made by an earlier call is always taken away. -/
def fault? (d : Disk) : Call → Option FileError
  | .unlink name =>
    if .create name ∈ d.past.map Prod.fst then none else d.fails (.unlink name)
  | call => d.fails call

/-- What a call does to the disk. -/
def perform (d : Disk) (call : Call) : Except FileError Disk :=
  match d.fault? call with
  | some cause => .error cause
  | none =>
    (d.folder.perform call).map fun folder =>
      { d with folder, past := d.past ++ [(call, folder)] }

/-- The bytes of an open file from a position on. -/
def readFrom (d : Disk) (handle : FileHandle) (start : Nat) : Except FileError (List UInt8) :=
  match (d.folder.files handle.file).content? with
  | some content => .ok (content.drop start)
  | none => .error .isDirectory

/-- Open a file for appending, and create it where there is none. -/
def openAppend (d : Disk) (name : String) : Except FileError (FileHandle × Disk) :=
  match d.folder.names name with
  | some n => .ok (⟨n⟩, d)
  | none => (d.perform (.create name)).map fun d' => (⟨d.folder.bound⟩, d')

/-- Append to an open file. -/
def append (d : Disk) (handle : FileHandle) (bytes : List UInt8) : Disk :=
  match d.folder.files handle.file with
  | ⟨.regular content, mode⟩ =>
    { d with folder := d.folder.setFile handle.file ⟨.regular (content ++ bytes), mode⟩ }
  | _ => d

/-- The name that a fresh file gets. -/
def freshName (d : Disk) (dir start : String) : String :=
  Path.join dir (start ++ d.suffix)

instance : FileStore Disk where
  openRead d name :=
    match d.folder.names name with
    | some n => .ok ⟨n⟩
    | none => .error .notFound
  readFrom := readFrom
  present d name := (d.perform (.stat name)).toBool
  openAppend := openAppend
  append := append
  createFresh d dir start :=
    (d.perform (.create (d.freshName dir start))).map fun d' => (d.freshName dir start, d')
  write d name bytes := d.perform (.write name bytes)
  remove d name := d.perform (.unlink name)
  link d source target := d.perform (.link source target)
  setMode d name mode := d.perform (.chmod name mode)

variable {d d' : Disk}

theorem perform_ok {call : Call} (h : d.perform call = .ok d') :
    d.folder.perform call = .ok d'.folder ∧ d'.past = d.past ++ [(call, d'.folder)] ∧
      d'.fails = d.fails := by
  unfold perform at h
  split at h
  · cases h
  · cases hfolder : d.folder.perform call with
    | error cause => simp [hfolder, Except.map] at h
    | ok folder =>
      simp only [hfolder, Except.map, Except.ok.injEq] at h
      subst h
      exact ⟨rfl, rfl, rfl⟩

theorem present_congr {name : String} (hfails : d'.fails = d.fails)
    (hname : d'.folder.names name = d.folder.names name) :
    FileStore.present d' name = FileStore.present d name := by
  change (d'.perform (.stat name)).toBool = (d.perform (.stat name)).toBool
  simp only [perform, fault?, hfails, Folder.perform, hname]
  cases d.fails (.stat name) <;> cases d.folder.names name <;> rfl

/-- A name that is said not to be there is not there. -/
theorem names_of_unlink_notFound {name : String}
    (h : d.perform (.unlink name) = .error .notFound) : d.folder.names name = none := by
  unfold perform at h
  split at h
  · rename_i cause hfault
    obtain rfl := Except.error.inj h
    simp only [fault?] at hfault
    split at hfault
    · cases hfault
    · exact absurd hfault (d.fails_unlink name)
  · cases hfolder : d.folder.perform (.unlink name) with
    | ok folder => simp [hfolder, Except.map] at h
    | error cause =>
      simp only [hfolder, Except.map, Except.error.injEq] at h
      subst h
      exact Folder.names_of_unlink_notFound hfolder

/-- The name of a file that an earlier call made can be taken away. -/
theorem exists_perform_unlink {name : String} {n mode : Nat} {content : List UInt8}
    (hcreated : .create name ∈ d.past.map Prod.fst) (hname : d.folder.names name = some n)
    (hfile : d.folder.files n = ⟨.regular content, mode⟩) :
    ∃ d', d.perform (.unlink name) = .ok d' := by
  have hfault : d.fault? (.unlink name) = none := by simp [fault?, hcreated]
  have hunlink : d.folder.perform (.unlink name) = .ok (d.folder.setName name none nofun) := by
    simp [Folder.perform, Folder.unlink, hname, hfile]
  simp [perform, hfault, hunlink, Except.map]

end Disk

end RouterCli
