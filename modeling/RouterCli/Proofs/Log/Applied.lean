import Mathlib.Tactic.SplitIfs
import RouterCli.World

/-!
  RouterCli.Proofs.Log.Applied

  The log of a process comes about by putting settings in force, one after the
  other (`Logger.IsApplied`). The file that is open is then the one that the
  settings in force ask for, by the components of its path, and none is open where
  they ask for none (`Logger.IsApplied.isOpened`). Making records changes neither.
-/

namespace RouterCli

open RouterCli.Path

-- ============================================================================
-- The open file
-- ============================================================================

namespace Logger

/-- The open file is the one that the settings ask for. -/
def IsOpened (l : Logger) : Prop :=
  l.openFile.map (components ·.path) = l.settings.file.map (components ·.path)

theorem hasOpen_iff {l : Logger} {file : Option LogFile} :
    l.hasOpen (file.map (·.path)) = true ↔
      l.openFile.map (components ·.path) = file.map (components ·.path) := by
  rw [hasOpen, beq_iff_eq, Option.map_map]
  rfl

theorem IsOpened.exists_openFile {l : Logger} (h : l.IsOpened) {target : LogFile}
    (htarget : l.settings.file = some target) :
    ∃ file, l.openFile = some file ∧ components file.path = components target.path := by
  rw [IsOpened, htarget, Option.map_some, Option.map_eq_some_iff] at h
  exact h

/-- The log of a process: new, or as settings left it that were put in force. -/
inductive IsApplied (φ : Type) [FileStore φ] : Logger → Prop where
  | new : IsApplied φ {}
  | apply {w w' : World φ} {settings : LogSettings} (h : IsApplied φ w.logger)
      (happly : w.applyLog settings = .ok w') : IsApplied φ w'.logger

end Logger

-- ============================================================================
-- Settings put in force
-- ============================================================================

namespace World

variable {φ : Type} [FileStore φ] {w w' : World φ} {settings : LogSettings}

/-- Settings are put in force with the open file as it is, or with none, or with one
    just opened. -/
theorem applyLog_cases (h : w.applyLog settings = .ok w') :
    (w.logger.openFile.map (components ·.path) = settings.file.map (components ·.path) ∧
        w' = { w with logger := { w.logger with settings } }) ∨
      (settings.file = none ∧ w' = { w with logger := { settings, openFile := none } }) ∨
      ∃ target handle files, settings.file = some target ∧
        FileStore.openAppend w.files target.path = .ok (handle, files) ∧
        w' = { w with files, logger := ⟨settings, some ⟨target.path, handle⟩⟩ } := by
  unfold applyLog at h
  dsimp only at h
  split_ifs at h with hopen
  · exact .inl ⟨Logger.hasOpen_iff.1 hopen, (Except.ok.inj h).symm⟩
  · cases hfile : settings.file with
    | none =>
      rw [hfile] at h
      exact .inr (.inl ⟨rfl, (Except.ok.inj h).symm⟩)
    | some target =>
      rw [hfile] at h
      cases hhandle : FileStore.openAppend w.files target.path with
      | error cause =>
        simp [hhandle, Except.map] at h
      | ok opened =>
        obtain ⟨handle, files⟩ := opened
        simp only [Option.map_some, hhandle, Except.map, Except.ok.injEq] at h
        exact .inr (.inr ⟨target, handle, files, rfl, hhandle, h.symm⟩)

theorem settings_applyLog (h : w.applyLog settings = .ok w') : w'.logger.settings = settings := by
  rcases applyLog_cases h with ⟨-, rfl⟩ | ⟨-, rfl⟩ | ⟨_, _, _, -, -, rfl⟩ <;> rfl

/-- Whatever was open before, the file asked for is open then. -/
theorem isOpened_applyLog (h : w.applyLog settings = .ok w') : w'.logger.IsOpened := by
  rcases applyLog_cases h with ⟨hopen, rfl⟩ | ⟨hnone, rfl⟩ | ⟨target, handle, files, hsome, -, rfl⟩
  · exact hopen
  · rw [Logger.IsOpened, hnone]
    rfl
  · rw [Logger.IsOpened, hsome]
    rfl

theorem stdout_applyLog (h : w.applyLog settings = .ok w') : w'.stdout = w.stdout := by
  rcases applyLog_cases h with ⟨-, rfl⟩ | ⟨-, rfl⟩ | ⟨_, _, _, -, -, rfl⟩ <;> rfl

omit [FileStore φ] in
@[simp] theorem logger_logToStdout (w : World φ) (severity : Severity) (line : String) :
    (w.logToStdout severity line).logger = w.logger := by
  unfold logToStdout
  split
  · split_ifs <;> rfl
  · rfl

@[simp] theorem logger_logToFile (w : World φ) (severity : Severity) (line : String) :
    (w.logToFile severity line).logger = w.logger := by
  unfold logToFile
  split
  · split_ifs <;> rfl
  · rfl

@[simp] theorem logger_log (w : World φ) (level : LogLevel) (text : String) :
    (w.log level text).logger = w.logger := by
  unfold log
  split_ifs
  · rw [logger_logToFile, logger_logToStdout]
  · rfl

end World

theorem Logger.IsApplied.isOpened {φ : Type} [FileStore φ] {l : Logger} (h : l.IsApplied φ) :
    l.IsOpened := by
  cases h with
  | new => rfl
  | apply _ happly => exact World.isOpened_applyLog happly

end RouterCli
