import RouterCli.Proofs.Files.Disk
import RouterCli.Proofs.Files.FreshName

/-!
  RouterCli.Proofs.Console.SafeSave

  Saving loses nothing (`Program.saveTo_safe`). On a disk whose calls may fail,
  what the file held before is at every point under its own name or under that
  of the backup; the error is that of the call that failed; and the fresh file's
  name is gone in every end. Each call takes a save from one stage to the next
  (`Folder.SaveStage`), and a save that stops does so between two stages.
-/

namespace RouterCli

-- ============================================================================
-- The order of calls
-- ============================================================================

/-- The calls that saving a text makes, up to the first that fails. -/
def saveCalls (path fresh text : String) : List Call :=
  [.create fresh, .write fresh (Text.encode text), .unlink (backupPath path),
    .link path (backupPath path), .unlink path, .link fresh path, .unlink fresh,
    .chmod path savedMode]

namespace SaveError

/-- An error stands for a call and the cause it failed with. -/
inductive StandsFor (path fresh text : String) : SaveError → Call → FileError → Prop where
  | openFresh (cause : FileError) :
    StandsFor path fresh text (.openFresh (freshPattern path) cause) (.create fresh) cause
  | write (cause : FileError) :
    StandsFor path fresh text (.write fresh cause) (.write fresh (Text.encode text)) cause
  | removeBackup (cause : FileError) :
    StandsFor path fresh text (.removeBackup (backupPath path) cause)
      (.unlink (backupPath path)) cause
  | backup (cause : FileError) :
    StandsFor path fresh text (.backup (backupPath path) cause)
      (.link path (backupPath path)) cause
  | remove (cause : FileError) :
    StandsFor path fresh text (.remove path cause) (.unlink path) cause
  | rename (cause : FileError) :
    StandsFor path fresh text (.rename path cause) (.link fresh path) cause
  | permissions (cause : FileError) :
    StandsFor path fresh text (.permissions path cause) (.chmod path savedMode) cause

end SaveError

-- ============================================================================
-- What a save makes of a folder
-- ============================================================================

/-- The names that saving to a path works with. -/
inductive SaveName where
  | path
  | backup
  | fresh
deriving DecidableEq

namespace SaveName

/-- The name itself. -/
def text (path fresh : String) : SaveName → String
  | .path => path
  | .backup => backupPath path
  | .fresh => fresh

variable {path fresh : String}

theorem text_eq_iff (hpath : fresh ≠ path) (hbackup : fresh ≠ backupPath path) {a b : SaveName} :
    a.text path fresh = b.text path fresh ↔ a = b := by
  cases a <;> cases b <;>
    simp [text, hpath, hbackup, hpath.symm, hbackup.symm, backupPath_ne, (backupPath_ne path).symm]

end SaveName

namespace Folder

/-- What was read under a path is still there, under that name or the backup's. -/
def Keeps (f₀ : Folder) (path : String) (f : Folder) : Prop :=
  ∀ content, f₀.content? path = some content →
    f.content? path = some content ∨ f.content? (backupPath path) = some content

/-- What a save has made of a folder: only the three names have changed, they stand for the
    files `held`, and the one file that is new has this content and mode. -/
structure SaveStage (f₀ : Folder) (path fresh : String) (f : Folder)
    (held : SaveName → Option Nat) (content : List UInt8) (mode : Nat) : Prop where
  names_eq : ∀ name : SaveName, f.names (name.text path fresh) = held name
  others : ∀ other, (∀ name : SaveName, other ≠ name.text path fresh) →
    f.names other = f₀.names other
  files : ∀ n < f₀.bound, f.files n = f₀.files n
  new : f.files f₀.bound = ⟨.regular content, mode⟩

/-- What the three names stand for once the fresh file is made. -/
def heldAtFirst (f₀ : Folder) (path fresh : String) : SaveName → Option Nat :=
  Function.update (fun name => f₀.names (name.text path fresh)) .fresh (some f₀.bound)

namespace SaveStage

variable {f₀ f f' : Folder} {path fresh : String} {held : SaveName → Option Nat}
  {content : List UInt8} {mode : Nat}

theorem file?_eq (h : SaveStage f₀ path fresh f held content mode) {name : SaveName}
    (hheld : held name = f₀.names path) :
    f.file? (name.text path fresh) = f₀.file? path := by
  unfold file?
  rw [h.names_eq, hheld]
  cases hn : f₀.names path with
  | none => rfl
  | some n => simp [h.files n (f₀.names_lt hn)]

theorem content?_eq (h : SaveStage f₀ path fresh f held content mode) {name : SaveName}
    (hheld : held name = f₀.names path) :
    f.content? (name.text path fresh) = f₀.content? path := by
  simp only [content?, h.file?_eq hheld]

theorem keeps (h : SaveStage f₀ path fresh f held content mode)
    (hheld : held .path = f₀.names path ∨ held .backup = f₀.names path) :
    f₀.Keeps path f := by
  intro old hold
  refine hheld.imp (fun hheld => ?_) fun hheld => ?_
  · exact (h.content?_eq hheld).trans hold
  · exact (h.content?_eq hheld).trans hold

theorem write (h : SaveStage f₀ path fresh f held content mode) {bytes : List UInt8}
    (hheld : held .fresh = some f₀.bound) (hok : f.write fresh bytes = .ok f') :
    SaveStage f₀ path fresh f' held bytes mode := by
  obtain ⟨n, hn, rfl⟩ := write_ok hok
  obtain rfl : f₀.bound = n := Option.some.inj (hheld.symm.trans ((h.names_eq .fresh).symm.trans hn))
  exact {
    names_eq := h.names_eq
    others := h.others
    files := fun n hn => by simpa [setFile, Nat.ne_of_lt hn] using h.files n hn
    new := by simp [setFile, h.new] }

theorem chmod (h : SaveStage f₀ path fresh f held content mode) {bits : Nat}
    (hheld : held .path = some f₀.bound) (hok : f.chmod path bits = .ok f') :
    SaveStage f₀ path fresh f' held content bits := by
  obtain ⟨n, hn, rfl⟩ := chmod_ok hok
  obtain rfl : f₀.bound = n := Option.some.inj (hheld.symm.trans ((h.names_eq .path).symm.trans hn))
  exact {
    names_eq := h.names_eq
    others := h.others
    files := fun n hn => by simpa [setFile, Nat.ne_of_lt hn] using h.files n hn
    new := by simp [setFile, h.new] }

variable (hpath : fresh ≠ path) (hbackup : fresh ≠ backupPath path)
include hpath hbackup

theorem setName (h : SaveStage f₀ path fresh f held content mode) (name : SaveName)
    {file : Option Nat} (hfile : ∀ {n}, file = some n → n < f.bound) :
    SaveStage f₀ path fresh (f.setName (name.text path fresh) file hfile)
      (Function.update held name file) content mode where
  names_eq other := by
    simp [Folder.setName, SaveName.text_eq_iff hpath hbackup, Function.update_apply, h.names_eq]
  others other hother := by
    simpa [Folder.setName, hother] using h.others other hother
  files := h.files
  new := h.new

theorem unlink (h : SaveStage f₀ path fresh f held content mode) (name : SaveName)
    (hok : f.unlink (name.text path fresh) = .ok f') :
    SaveStage f₀ path fresh f' (Function.update held name none) content mode := by
  obtain ⟨-, rfl⟩ := unlink_ok hok
  exact h.setName hpath hbackup name _

theorem link (h : SaveStage f₀ path fresh f held content mode) (source target : SaveName)
    (hok : f.link (source.text path fresh) (target.text path fresh) = .ok f') :
    held target = none ∧
      SaveStage f₀ path fresh f' (Function.update held target (held source)) content mode := by
  obtain ⟨n, hn, htarget, rfl⟩ := link_ok hok
  rw [h.names_eq] at hn htarget
  rw [hn]
  exact ⟨htarget, h.setName hpath hbackup target _⟩

theorem create (hok : f₀.create fresh = .ok f) :
    SaveStage f₀ path fresh f (f₀.heldAtFirst path fresh) [] FileTree.privateMode := by
  obtain ⟨-, rfl⟩ := create_ok hok
  exact {
    names_eq := fun name => by
      have hiff : name.text path fresh = fresh ↔ name = .fresh :=
        SaveName.text_eq_iff (b := .fresh) hpath hbackup
      simp [addFile, hiff, heldAtFirst, Function.update_apply]
    others := fun other hother => by
      have hne : other ≠ fresh := hother .fresh
      simp [addFile, hne]
    files := fun n hn => by simp [addFile, Nat.ne_of_lt hn]
    new := by simp [addFile] }

end SaveStage

end Folder

-- ============================================================================
-- What a save makes of a disk
-- ============================================================================

namespace Disk

/-- A call of a save has something to do: an old backup goes only if there is one, and a file is
    moved out of the way only if it is seen. -/
def due (d : Disk) (path : String) : Call → Bool
  | .unlink name =>
    if name = backupPath path then (d.folder.names name).isSome
    else name != path || FileStore.present d path
  | .link source _ => source != path || FileStore.present d path
  | _ => true

/-- These calls, those with nothing to do left out, lead from one disk to another, and at each
    point what was read under the path is still there. -/
def Reaches (d : Disk) (path : String) (calls : List Call) (d' : Disk) : Prop :=
  ∃ trace, d'.past = d.past ++ trace ∧ trace.map Prod.fst = calls.filter (d.due path) ∧
    ∀ point ∈ trace, d.folder.Keeps path point.2

/-- A save that has come as far as these calls. -/
structure SaveRun (d : Disk) (path fresh : String) (calls : List Call) (d' : Disk)
    (held : SaveName → Option Nat) (content : List UInt8) (mode : Nat) : Prop where
  stage : d.folder.SaveStage path fresh d'.folder held content mode
  kept : held .path = d.folder.names path ∨ held .backup = d.folder.names path
  reaches : d.Reaches path calls d'
  created : .create fresh ∈ d'.past.map Prod.fst
  fails : d'.fails = d.fails

variable {d d₁ d₂ : Disk} {path fresh text : String} {calls : List Call} {call : Call}
  {held held' : SaveName → Option Nat} {content content' : List UInt8} {mode mode' : Nat}

theorem Reaches.refl : d.Reaches path [] d :=
  ⟨[], by simp, by simp, by simp⟩

theorem Reaches.skip (h : d.Reaches path calls d₁) (hdue : d.due path call = false) :
    d.Reaches path (calls ++ [call]) d₁ := by
  obtain ⟨trace, hpast, hcalls, hkept⟩ := h
  exact ⟨trace, hpast, by simp [hcalls, hdue], hkept⟩

theorem Reaches.perform (h : d.Reaches path calls d₁) (hdue : d.due path call = true)
    (hok : d₁.perform call = .ok d₂)
    (hkeeps : d.folder.Keeps path d₂.folder) : d.Reaches path (calls ++ [call]) d₂ := by
  obtain ⟨trace, hpast, hcalls, hkept⟩ := h
  refine ⟨trace ++ [(call, d₂.folder)], ?_, ?_, ?_⟩
  · rw [(perform_ok hok).2.1, hpast, List.append_assoc]
  · simp [hcalls, hdue]
  · intro point hpoint
    rcases List.mem_append.1 hpoint with hpoint | hpoint
    · exact hkept point hpoint
    · rw [List.mem_singleton.1 hpoint]
      exact hkeeps

theorem SaveRun.perform (h : d.SaveRun path fresh calls d₁ held content mode)
    (hdue : d.due path call = true) (hok : d₁.perform call = .ok d₂)
    (hstage : d.folder.SaveStage path fresh d₂.folder held' content' mode')
    (hkept : held' .path = d.folder.names path ∨ held' .backup = d.folder.names path) :
    d.SaveRun path fresh (calls ++ [call]) d₂ held' content' mode' where
  stage := hstage
  kept := hkept
  reaches := h.reaches.perform hdue hok (hstage.keeps hkept)
  created := by
    rw [(perform_ok hok).2.1, List.map_append]
    exact List.mem_append_left _ h.created
  fails := (perform_ok hok).2.2.trans h.fails

theorem SaveRun.skip (h : d.SaveRun path fresh calls d₁ held content mode)
    (hdue : d.due path call = false) : d.SaveRun path fresh (calls ++ [call]) d₁ held content mode :=
  { h with reaches := h.reaches.skip hdue }

end Disk

-- ============================================================================
-- Steps that may fail
-- ============================================================================

namespace Saving

variable {φ : Type}

/-- Where work on files ends: in files with one property if it succeeds, and if it fails in an
    error and files with another. -/
def Ends (work : Saving φ Unit) (files : φ) (done : φ → Prop) (failed : SaveError → φ → Prop) :
    Prop :=
  match work.run files with
  | (.ok (), files) => done files
  | (.error e, files) => failed e files

theorem run_saveStep (error : FileError → SaveError) (step : φ → Except FileError φ) (files : φ) :
    (saveStep error step).run files =
      match step files with
      | .ok files => (.ok (), files)
      | .error cause => (.error (error cause), files) := by
  change (match step files with
    | .ok files => (set files : Saving φ Unit)
    | .error cause => throw (error cause)).run files = _
  cases step files <;> rfl

theorem run_bind (work : Saving φ Unit) (rest : Unit → Saving φ Unit) (files : φ) :
    (work >>= rest).run files =
      match work.run files with
      | (.ok (), files) => (rest ()).run files
      | (.error e, files) => (.error e, files) := by
  have hbind : (work >>= rest).run files =
      ExceptT.bindCont rest (work.run files).1 (work.run files).2 := rfl
  rw [hbind]
  obtain ⟨_ | _, files'⟩ := work.run files <;> rfl

variable {done : φ → Prop} {failed : SaveError → φ → Prop} {files : φ}
  {error : FileError → SaveError} {step : φ → Except FileError φ}

theorem ends_saveStep (hok : ∀ files', step files = .ok files' → done files')
    (herror : ∀ cause, step files = .error cause → failed (error cause) files) :
    (saveStep error step).Ends files done failed := by
  unfold Ends
  rw [run_saveStep]
  cases h : step files with
  | ok files' => exact hok files' h
  | error cause => exact herror cause h

theorem ends_saveStep_bind {rest : Unit → Saving φ Unit}
    (hok : ∀ files', step files = .ok files' → (rest ()).Ends files' done failed)
    (herror : ∀ cause, step files = .error cause → failed (error cause) files) :
    (saveStep error step >>= rest).Ends files done failed := by
  unfold Ends
  rw [run_bind, run_saveStep]
  cases h : step files with
  | ok files' => exact hok files' h
  | error cause => exact herror cause h

end Saving

-- ============================================================================
-- Saving
-- ============================================================================

namespace Disk

variable {d d₁ d₂ : Disk} {path fresh text : String}

theorem removeOld_ok {name : String} (h : removeOld name d = .ok d₁) :
    d.folder.names name = none ∧ d₁ = d ∨ d.perform (.unlink name) = .ok d₁ := by
  unfold removeOld at h
  split at h
  · rename_i habsent
    exact .inl ⟨names_of_unlink_notFound habsent, (Except.ok.inj h).symm⟩
  · exact .inr h

theorem perform_of_removeOld_error {name : String} {cause : FileError}
    (h : removeOld name d = .error cause) : d.perform (.unlink name) = .error cause := by
  unfold removeOld at h
  split at h
  · cases h
  · exact h

/-- A save that stopped at a call which failed, while the fresh file still had its name. -/
def Stops (d : Disk) (path fresh text : String) (e : SaveError) (last : Disk) : Prop :=
  ∃ call cause before held content mode, e.StandsFor path fresh text call cause ∧
    before ++ [call] <+: (saveCalls path fresh text).take 6 ∧
    last.perform call = .error cause ∧ d.SaveRun path fresh before last held content mode ∧
    held .fresh = some d.folder.bound

variable {held : SaveName → Option Nat} (hpath : fresh ≠ path) (hbackup : fresh ≠ backupPath path)
include hpath hbackup

/-- The save once the fresh file has the name it was written for. -/
def Moved (d : Disk) (path fresh text : String) (d' : Disk) : Prop :=
  ∃ held : SaveName → Option Nat,
    d.SaveRun path fresh ((saveCalls path fresh text).take 6) d' held (Text.encode text)
      FileTree.privateMode ∧
    held .path = some d.folder.bound ∧ held .backup = d.folder.names path ∧
    held .fresh = some d.folder.bound

/-- The old backup goes, if there is one. -/
theorem SaveRun.removeOld {calls : List Call} {content : List UInt8} {mode : Nat}
    (h : d.SaveRun path fresh calls d₁ held content mode)
    (hown : held .path = d.folder.names path)
    (hold : held .backup = d.folder.names (backupPath path))
    (hok : removeOld (backupPath path) d₁ = .ok d₂) :
    d.SaveRun path fresh (calls ++ [.unlink (backupPath path)]) d₂
      (Function.update held .backup none) content mode := by
  have hname : d₁.folder.names (backupPath path) = held .backup := h.stage.names_eq .backup
  rcases removeOld_ok hok with ⟨habsent, rfl⟩ | hok
  · have hheld : Function.update held .backup none = held := by
      rw [← habsent, hname, Function.update_eq_self]
    rw [hheld]
    exact h.skip (by simp [due, ← hold, ← hname, habsent])
  · have hunlink := (perform_ok hok).1
    have hdue : d.due path (.unlink (backupPath path)) = true := by
      simpa [due, ← hold, ← hname] using (Folder.unlink_ok hunlink).1
    exact h.perform hdue hok (h.stage.unlink hpath hbackup .backup hunlink) (.inl hown)

/-- The fresh file gets its name where the old one has lost it or never had it. -/
theorem rename_ends
    (h : d.SaveRun path fresh ((saveCalls path fresh text).take 5) d₁ held (Text.encode text)
      FileTree.privateMode)
    (hfresh : held .fresh = some d.folder.bound)
    (hkept : held .backup = d.folder.names path ∨
      held .path = d.folder.names path ∧ held .backup = none) :
    (saveStep (.rename path) (FileStore.link · fresh path)).Ends d₁ (d.Moved path fresh text)
      (d.Stops path fresh text) := by
  have hdue : d.due path (.link fresh path) = true := by simp [due, hpath]
  refine Saving.ends_saveStep (fun d₂ hok => ?_) fun cause herror => ?_
  · obtain ⟨hfree, hstage⟩ := h.stage.link hpath hbackup .fresh .path (perform_ok hok).1
    have hsaved : held .backup = d.folder.names path := by
      rcases hkept with hsaved | ⟨hown, hnone⟩
      · exact hsaved
      · rw [hnone, ← hown, hfree]
    exact ⟨_, h.perform hdue hok hstage (.inr hsaved), hfresh, hsaved, hfresh⟩
  · exact ⟨_, cause, _, held, _, _, .rename cause, ⟨_, rfl⟩, herror, h, hfresh⟩

/-- The fresh file is filled, what is there is moved out of the way, and the fresh file gets its
    name, or the save stops at the call that failed. -/
theorem moveIntoPlace_ends
    (h : d.SaveRun path fresh [.create fresh] d₁ (d.folder.heldAtFirst path fresh) []
      FileTree.privateMode) :
    (moveIntoPlace fresh path text).Ends d₁ (d.Moved path fresh text)
      (d.Stops path fresh text) := by
  unfold moveIntoPlace
  -- Of each step first the failure, which stops the save, and then the stage behind it.
  refine Saving.ends_saveStep_bind (fun d₂ hok => ?_) fun cause herror => ?_
  rotate_left
  · exact ⟨_, cause, _, _, _, _, .write cause, ⟨_, rfl⟩, herror, h, rfl⟩
  have hwritten := h.perform rfl hok (h.stage.write rfl (perform_ok hok).1) (.inl rfl)
  refine Saving.ends_saveStep_bind (fun d₃ hok => ?_) fun cause herror => ?_
  rotate_left
  · exact ⟨_, cause, _, _, _, _, .removeBackup cause, ⟨_, rfl⟩,
      perform_of_removeOld_error herror, hwritten, rfl⟩
  have hremoved := hwritten.removeOld hpath hbackup rfl rfl hok
  have hseen : FileStore.present d₃ path = FileStore.present d path :=
    present_congr hremoved.fails (hremoved.stage.names_eq .path)
  change ((if FileStore.present d₃ path then _ else _ : Saving Disk Unit)).Ends d₃ _ _
  rw [hseen]
  split
  · rename_i hpresent
    have hlink : d.due path (.link path (backupPath path)) = true := by simp [due, hpresent]
    have hunlink : d.due path (.unlink path) = true := by
      simp [due, hpresent, (backupPath_ne path).symm]
    refine Saving.ends_saveStep_bind (fun d₄ hok => ?_) fun cause herror => ?_
    rotate_left
    · exact ⟨_, cause, _, _, _, _, .backup cause, ⟨_, rfl⟩, herror, hremoved, rfl⟩
    have hlinked := hremoved.perform hlink hok
      (hremoved.stage.link hpath hbackup .path .backup (perform_ok hok).1).2 (.inl rfl)
    refine Saving.ends_saveStep_bind (fun d₅ hok => ?_) fun cause herror => ?_
    rotate_left
    · exact ⟨_, cause, _, _, _, _, .remove cause, ⟨_, rfl⟩, herror, hlinked, rfl⟩
    have hfreed := hlinked.perform hunlink hok
      (hlinked.stage.unlink hpath hbackup .path (perform_ok hok).1) (.inr rfl)
    exact rename_ends hpath hbackup hfreed rfl (.inl rfl)
  · -- A file that is there but not seen keeps its name, and the last step fails.
    rename_i habsent
    have hlink : d.due path (.link path (backupPath path)) = false := by simpa [due] using habsent
    have hunlink : d.due path (.unlink path) = false := by
      simpa [due, (backupPath_ne path).symm] using habsent
    exact rename_ends hpath hbackup ((hremoved.skip hlink).skip hunlink) rfl (.inr ⟨rfl, rfl⟩)

/-- The fresh file's first name can always be taken away. -/
theorem SaveRun.exists_unlink {calls : List Call} {content : List UInt8} {mode : Nat}
    (h : d.SaveRun path fresh calls d₁ held content mode)
    (hfresh : held .fresh = some d.folder.bound) :
    ∃ d₂, d₁.perform (.unlink fresh) = .ok d₂ ∧ dropFresh fresh d₁ = d₂ ∧
      d.SaveRun path fresh (calls ++ [.unlink fresh]) d₂ (Function.update held .fresh none)
        content mode := by
  obtain ⟨d₂, hok⟩ := exists_perform_unlink h.created
    ((h.stage.names_eq .fresh).trans hfresh) h.stage.new
  have hdrop : dropFresh fresh d₁ = d₂ := by
    have : FileStore.remove d₁ fresh = .ok d₂ := hok
    simp [dropFresh, this, Except.toOption]
  have hdue : d.due path (.unlink fresh) = true := by simp [due, hpath, hbackup]
  exact ⟨d₂, hok, hdrop,
    h.perform hdue hok (h.stage.unlink hpath hbackup .fresh (perform_ok hok).1) h.kept⟩

end Disk

-- ============================================================================
-- Nothing is lost
-- ============================================================================

/-- Saving a text under a path, on a disk `d` that it leaves as `d'`, loses nothing. -/
structure SavedSafely (path fresh text : String) (d : Disk) (result : Except SaveError Unit)
    (d' : Disk) : Prop where
  /-- Calls of saving lead there, in their order, and after each of them what was read under the
      path is read there or under the backup's name. -/
  reaches : ∃ calls, calls.Sublist (saveCalls path fresh text) ∧ d.Reaches path calls d'
  /-- The name that was free for the fresh file is free again. -/
  dropped : d.folder.names fresh = none → d'.folder.names fresh = none
  /-- Every other name stands for the file it stood for, and that file is as it was. -/
  others : ∀ name, name ≠ path → name ≠ backupPath path →
    d'.folder.names name = d.folder.names name ∧ d'.folder.file? name = d.folder.file? name
  /-- An error is that of the call that failed, the ones before it having been made. After it
      nothing but the fresh file's name is taken away. -/
  failed : ∀ e, result = .error e → ∃ call cause before last,
    e.StandsFor path fresh text call cause ∧ before ++ [call] <+: saveCalls path fresh text ∧
    d.Reaches path before last ∧ last.perform call = .error cause ∧
    (d' = last ∨ last.perform (.unlink fresh) = .ok d')
  /-- If it succeeds all calls have been made, the path has the text, and the backup's name has
      what the path had. -/
  saved : result = .ok () → d.Reaches path (saveCalls path fresh text) d' ∧
    d'.folder.file? path = some ⟨.regular (Text.encode text), savedMode⟩ ∧
    d'.folder.names (backupPath path) = d.folder.names path ∧
    d'.folder.file? (backupPath path) = d.folder.file? path

namespace Disk

variable {d d₁ d₂ : Disk} {path fresh text : String} {calls : List Call}
  {held : SaveName → Option Nat} {content : List UInt8} {mode : Nat}

theorem SaveRun.others (h : d.SaveRun path fresh calls d₁ held content mode)
    (hfree : d.folder.names fresh = none) (hdropped : held .fresh = none) {name : String}
    (hpath : name ≠ path) (hbackup : name ≠ backupPath path) :
    d₁.folder.names name = d.folder.names name ∧
      d₁.folder.file? name = d.folder.file? name := by
  have hnames : d₁.folder.names name = d.folder.names name := by
    by_cases hfresh : name = fresh
    · rw [hfresh, hfree, ← hdropped]
      exact h.stage.names_eq .fresh
    · exact h.stage.others name fun other => by cases other <;> assumption
  refine ⟨hnames, ?_⟩
  unfold Folder.file?
  rw [hnames]
  cases hn : d.folder.names name with
  | none => rfl
  | some n => simp [h.stage.files n (d.folder.names_lt hn)]

/-- A save whose first call fails. -/
theorem safe_of_create_error {cause : FileError}
    (herror : d.perform (.create fresh) = .error cause) :
    SavedSafely path fresh text d (.error (.openFresh (freshPattern path) cause)) d where
  reaches := ⟨[], List.nil_sublist _, .refl⟩
  dropped := id
  others _ _ _ := ⟨rfl, rfl⟩
  failed e he := by
    obtain rfl := Except.error.inj he
    exact ⟨_, cause, [], d, .openFresh cause, ⟨_, rfl⟩, .refl, herror, .inl rfl⟩
  saved := nofun

variable (hpath : fresh ≠ path) (hbackup : fresh ≠ backupPath path)
include hpath hbackup

/-- A save that stopped takes the fresh file's name away. -/
theorem Stops.safe {e : SaveError} (h : d.Stops path fresh text e d₁)
    (hfree : d.folder.names fresh = none) :
    SavedSafely path fresh text d (.error e) (dropFresh fresh d₁) := by
  obtain ⟨call, cause, before, held, content, mode, hcall, hbefore, herror, hrun, hfresh⟩ := h
  obtain ⟨d₂, hok, hdrop, hdropped⟩ := hrun.exists_unlink hpath hbackup hfresh
  have hcalls : (before ++ [Call.unlink fresh]).Sublist ((saveCalls path fresh text).take 7) :=
    ((List.sublist_append_left _ _).trans hbefore.sublist).append (.refl [Call.unlink fresh])
  rw [hdrop]
  exact {
    reaches := ⟨_, hcalls.trans (List.take_sublist _ _), hdropped.reaches⟩
    dropped := fun _ => hdropped.stage.names_eq .fresh
    others := fun name => hdropped.others hfree rfl
    failed := fun e' he => by
      obtain rfl := Except.error.inj he
      exact ⟨call, cause, before, d₁, hcall, hbefore.trans (List.take_prefix _ _), hrun.reaches,
        herror, .inr hok⟩
    saved := nofun }

/-- The last call of a save, after the fresh file's first name is gone. -/
theorem Moved.safe (h : d.Moved path fresh text d₁) (hfree : d.folder.names fresh = none) :
    SavedSafely path fresh text d
      ((saveStep (.permissions path) (FileStore.setMode · path savedMode)).run
        (dropFresh fresh d₁)).1
      ((saveStep (.permissions path) (FileStore.setMode · path savedMode)).run
        (dropFresh fresh d₁)).2 := by
  obtain ⟨held, hrun, hown, hsaved, hfresh⟩ := h
  obtain ⟨d₂, -, hdrop, hdropped⟩ := hrun.exists_unlink hpath hbackup hfresh
  rw [hdrop, Saving.run_saveStep]
  cases hchmod : FileStore.setMode d₂ path savedMode with
  | error cause =>
    exact {
      reaches := ⟨_, List.take_sublist 7 _, hdropped.reaches⟩
      dropped := fun _ => hdropped.stage.names_eq .fresh
      others := fun name => hdropped.others hfree rfl
      failed := fun e he => by
        obtain rfl := Except.error.inj he
        exact ⟨_, cause, _, d₂, .permissions cause, ⟨_, rfl⟩, hdropped.reaches, hchmod, .inl rfl⟩
      saved := nofun }
  | ok d₃ =>
    have hlast := hdropped.perform rfl hchmod
      (hdropped.stage.chmod hown (perform_ok hchmod).1) (.inr hsaved)
    exact {
      reaches := ⟨_, .refl _, hlast.reaches⟩
      dropped := fun _ => hlast.stage.names_eq .fresh
      others := fun name => hlast.others hfree rfl
      failed := nofun
      saved := fun _ => by
        refine ⟨hlast.reaches, ?_, ?_, ?_⟩
        · have hname : d₃.folder.names path = some d.folder.bound :=
            (hlast.stage.names_eq .path).trans hown
          simp [Folder.file?, hname, hlast.stage.new]
        · exact (hlast.stage.names_eq .backup).trans hsaved
        · have hbackup : Function.update held .fresh none .backup = d.folder.names path := hsaved
          exact hlast.stage.file?_eq hbackup }

omit hpath hbackup

theorem replaceFile_of_create_error {cause : FileError}
    (h : d.perform (.create (d.freshName (directoryOf path) (freshStart path))) = .error cause) :
    replaceFile path text d = (.error (.openFresh (freshPattern path) cause), d) := by
  simp only [replaceFile, FileStore.createFresh, h, Except.map]

theorem replaceFile_of_create_ok
    (h : d.perform (.create (d.freshName (directoryOf path) (freshStart path))) = .ok d₁) :
    replaceFile path text d =
      match (moveIntoPlace (d.freshName (directoryOf path) (freshStart path)) path text).run d₁ with
      | (.error e, last) =>
        (.error e, dropFresh (d.freshName (directoryOf path) (freshStart path)) last)
      | (.ok (), moved) =>
        (saveStep (.permissions path) (FileStore.setMode · path savedMode)).run
          (dropFresh (d.freshName (directoryOf path) (freshStart path)) moved) := by
  simp only [replaceFile, FileStore.createFresh, h, Except.map]
  generalize (moveIntoPlace _ path text).run d₁ = ended
  obtain ⟨_ | _, _⟩ := ended <;> rfl

/-- A file is given new content safely, whichever calls fail. -/
theorem replaceFile_safe (path text : String) (d : Disk) :
    SavedSafely path (d.freshName (directoryOf path) (freshStart path)) text d
      (replaceFile path text d).1 (replaceFile path text d).2 := by
  have hnames := fresh_ne path d.suffix_noSlash d.length_suffix
  change d.freshName _ _ ≠ path ∧ d.freshName _ _ ≠ backupPath path at hnames
  obtain ⟨hpath, hbackup⟩ := hnames
  cases hcreate : d.perform (.create (d.freshName (directoryOf path) (freshStart path))) with
  | error cause =>
    rw [replaceFile_of_create_error hcreate]
    exact safe_of_create_error hcreate
  | ok d₁ =>
    rw [replaceFile_of_create_ok hcreate]
    generalize d.freshName (directoryOf path) (freshStart path) = fresh at *
    obtain ⟨hok, hpast, hfails⟩ := perform_ok hcreate
    have hfree : d.folder.names fresh = none := (Folder.create_ok hok).1
    have hstage := Folder.SaveStage.create hpath hbackup hok
    have hrun : d.SaveRun path fresh [.create fresh] d₁ _ [] FileTree.privateMode := {
      stage := hstage
      kept := .inl rfl
      reaches := Reaches.refl.perform rfl hcreate (hstage.keeps (.inl rfl))
      created := by simp [hpast]
      fails := hfails }
    have hends : (moveIntoPlace fresh path text).Ends d₁ _ _ :=
      moveIntoPlace_ends hpath hbackup hrun
    unfold Saving.Ends at hends
    generalize (moveIntoPlace fresh path text).run d₁ = ended at *
    obtain ⟨_ | _, last⟩ := ended
    · exact hends.safe hpath hbackup hfree
    · exact hends.safe hpath hbackup hfree

/-- The name is free again and not given to the fresh file: what was there is under the backup's
    name, where the older backup was. -/
example : ∃ d : Disk, d.folder.content? "a.cfg" = some [1] ∧
    d.folder.content? "a.cfg.sav" = some [2] ∧
    (replaceFile "a.cfg" "" d).1 = .error (.rename "a.cfg" .notPermitted) ∧
    (replaceFile "a.cfg" "" d).2.folder.content? "a.cfg" = none ∧
    (replaceFile "a.cfg" "" d).2.folder.content? "a.cfg.sav" = some [1] :=
  ⟨{ folder := {
        names := fun name => ["a.cfg", "a.cfg.sav"].idxOf? name
        files := fun n => ⟨.regular [if n = 0 then 1 else 2], FileTree.fileMode⟩
        bound := 2
        names_lt := fun h => (List.findIdx?_eq_some_iff_getElem.1 h).1 }
     suffix := "000000"
     length_suffix := rfl
     suffix_noSlash := by decide
     fails := fun
       | .link _ "a.cfg" => some .notPermitted
       | _ => none
     fails_unlink := nofun }, rfl, rfl, rfl, rfl, rfl⟩

end Disk

/-- Saving the running configuration loses nothing, whichever calls fail and whatever stands
    under the path and the backup's name. Behind it comes a log record. -/
theorem Program.saveTo_safe {σ κ : Type} (p : Program σ κ) (path : String)
    (c : Console σ κ Disk) :
    ∃ d', SavedSafely path (c.world.files.freshName (directoryOf path) (freshStart path))
        (p.savedConfig c.host c.app) c.world.files (p.saveTo path c).1 d' ∧
      ∃ level record, (p.saveTo path c).2 =
        ({ c with world := { c.world with files := d' } } : Console σ κ Disk).log level record := by
  have hsafe := Disk.replaceFile_safe path (p.savedConfig c.host c.app) c.world.files
  unfold saveTo
  generalize replaceFile path (p.savedConfig c.host c.app) c.world.files = saved at *
  obtain ⟨_ | _, d'⟩ := saved
  · exact ⟨d', hsafe, _, _, rfl⟩
  · exact ⟨d', hsafe, _, _, rfl⟩

end RouterCli
