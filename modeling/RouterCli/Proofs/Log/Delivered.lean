import Mathlib.Data.List.Basic
import RouterCli.Proofs.Files.Disk
import RouterCli.Proofs.Log.Applied

/-!
  RouterCli.Proofs.Log.Delivered

  Which records of a process reach which destination. A severity stands for a level,
  and a destination of that severity is meant to take the records up to that level
  (`Severity.lets`). Standard output and the log file get these records in the order
  in which they were made, each as one line, except the records of the destination's own
  level that are filed under a severity beyond the destination's own
  (`World.runCalls_delivers`); such records the log drops.
-/

namespace RouterCli

open RouterCli.Path

-- ============================================================================
-- Levels
-- ============================================================================

namespace Severity

/-- A destination of this severity is meant to take records of the level. -/
def lets (limit : Severity) (level : LogLevel) : Bool :=
  level.rank ≤ limit.level.rank

/-- The destination's own level is that of the record, which is filed under another
    severity of that level. -/
def misfiles (limit : Severity) (level : LogLevel) : Bool :=
  limit.level = level && ofLevel level != limit

/-- A destination of this severity gets records of the level. -/
def delivers (limit : Severity) (level : LogLevel) : Bool :=
  limit.lets level && !limit.misfiles level

/-- What is compared is severities, for records of the levels that severities stand
    for. -/
theorem delivers_iff (limit : Severity) (level : LogLevel) :
    limit.delivers level = true ↔
      level.rank ≤ debugging.level.rank ∧ (ofLevel level).rank ≤ limit.rank := by
  cases limit <;> cases level <;> decide

theorem rank_level_le_debugging (severity : Severity) :
    severity.level.rank ≤ debugging.level.rank := by
  cases severity <;> decide

end Severity

-- ============================================================================
-- The gate in front of the destinations
-- ============================================================================

namespace LogSettings

theorem verbosity_of_stdout {settings : LogSettings} {limit : Severity}
    (h : settings.stdout = some limit) : limit.level.rank ≤ settings.verbosity := by
  rw [LogSettings.verbosity, h]
  exact Nat.le_max_left _ _

theorem verbosity_of_file {settings : LogSettings} {target : LogFile}
    (h : settings.file = some target) : target.severity.level.rank ≤ settings.verbosity := by
  rw [LogSettings.verbosity, h]
  exact Nat.le_max_right _ _

/-- No level is taken beyond that of the least severe severity. -/
theorem rank_le_of_takes {settings : LogSettings} {level : LogLevel}
    (h : settings.takes level = true) : level.rank ≤ Severity.debugging.level.rank := by
  refine Nat.le_trans (of_decide_eq_true h) (Nat.max_le.2 ⟨?_, ?_⟩)
  · cases settings.stdout with
    | none => exact Nat.zero_le _
    | some limit => exact limit.rank_level_le_debugging
  · cases settings.file with
    | none => exact Nat.zero_le _
    | some target => exact target.severity.rank_level_le_debugging

/-- What is meant for a destination passes the gate in front of all of them, so that
    the severities decide. -/
theorem takes_and_rank {settings : LogSettings} {limit : Severity}
    (h : limit.level.rank ≤ settings.verbosity) (level : LogLevel) :
    (settings.takes level && decide ((Severity.ofLevel level).rank ≤ limit.rank)) =
      limit.delivers level := by
  rw [Bool.eq_iff_iff, Bool.and_eq_true, decide_eq_true_iff]
  constructor
  · rintro ⟨htakes, hrank⟩
    exact (limit.delivers_iff level).2 ⟨rank_le_of_takes htakes, hrank⟩
  · intro hdelivers
    have hlets : level.rank ≤ limit.level.rank :=
      of_decide_eq_true (Bool.and_eq_true_iff.1 hdelivers).1
    exact ⟨decide_eq_true (Nat.le_trans hlets h), ((limit.delivers_iff level).1 hdelivers).2⟩

end LogSettings

-- ============================================================================
-- Records
-- ============================================================================

/-- A record, with the settings in force when it was made. -/
structure LogRecord where
  settings : LogSettings
  level : LogLevel
  text : String

/-- A call on the log of a process. -/
inductive LogCall where
  /-- Put settings in force. -/
  | apply (settings : LogSettings)
  /-- Make a record. -/
  | record (level : LogLevel) (text : String)

namespace LogRecord

/-- The line of a record, with the name of its severity in front where the settings
    say so. -/
def line (r : LogRecord) : String :=
  (if r.settings.recordPriority then (Severity.ofLevel r.level).name ++ ": " else "") ++
    r.text ++ "\n"

/-- The line for standard output, if there is one, where a destination of a severity
    takes what it admits. -/
def stdoutLine? (admits : Severity → LogLevel → Bool) (r : LogRecord) : Option String :=
  if r.settings.stdout.any (admits · r.level) then some r.line else none

/-- The bytes for the log file, if there are any, and the path of the file. -/
def fileLine? (admits : Severity → LogLevel → Bool) (r : LogRecord) :
    Option (List Component × List UInt8) :=
  (r.settings.file.filter (admits ·.severity r.level)).map fun target =>
    (components target.path, Text.encode r.line)

end LogRecord

/-- The records among the calls, from these settings on. -/
def LogCall.records (settings : LogSettings) : List LogCall → List LogRecord
  | [] => []
  | .apply settings :: rest => records settings rest
  | .record level text :: rest => ⟨settings, level, text⟩ :: records settings rest

-- ============================================================================
-- Watched files
-- ============================================================================

/-- Files, and beside them what is appended to open ones. -/
structure Watched (φ : Type) where
  files : φ
  /-- The path that a file was opened under for appending, the last time. -/
  pathOf : FileHandle → List Component := fun _ => []
  /-- What was appended, and the path of the file. -/
  appended : List (List Component × List UInt8) := []

instance {φ : Type} [FileStore φ] : FileStore (Watched φ) where
  openRead w := FileStore.openRead w.files
  readFrom w := FileStore.readFrom w.files
  present w := FileStore.present w.files
  openAppend w path :=
    (FileStore.openAppend w.files path).map fun (handle, files) =>
      (handle, { w with
        files
        pathOf := fun other => if other = handle then components path else w.pathOf other })
  append w handle bytes :=
    { w with
      files := FileStore.append w.files handle bytes
      appended := w.appended ++ [(w.pathOf handle, bytes)] }
  createFresh w dir start :=
    (FileStore.createFresh w.files dir start).map fun (path, files) => (path, { w with files })
  write w path bytes := (FileStore.write w.files path bytes).map fun files => { w with files }
  remove w path := (FileStore.remove w.files path).map fun files => { w with files }
  link w old new := (FileStore.link w.files old new).map fun files => { w with files }
  setMode w path mode := (FileStore.setMode w.files path mode).map fun files => { w with files }

theorem Watched.openAppend_ok {φ : Type} [FileStore φ] {w w' : Watched φ} {path : String}
    {handle : FileHandle} (h : FileStore.openAppend w path = .ok (handle, w')) :
    w'.pathOf handle = components path ∧ w'.appended = w.appended := by
  cases hinner : FileStore.openAppend w.files path with
  | error cause => simp [FileStore.openAppend, hinner, Except.map] at h
  | ok opened =>
    simp only [FileStore.openAppend, hinner, Except.map, Except.ok.injEq, Prod.mk.injEq] at h
    obtain ⟨rfl, rfl⟩ := h
    exact ⟨if_pos rfl, rfl⟩

namespace World

variable {φ : Type} [FileStore φ]

/-- Carry out a call. Settings whose file cannot be opened are an error. -/
def runCall (w : World φ) : LogCall → Except FileError (World φ)
  | .apply settings => w.applyLog settings
  | .record level text => .ok (w.log level text)

/-- Carry out calls one after the other. -/
def runCalls (w : World φ) (calls : List LogCall) : Except FileError (World φ) :=
  calls.foldlM runCall w

-- ============================================================================
-- One record
-- ============================================================================

variable (w : World φ) (level : LogLevel) (text : String)

theorem stdout_logToFile (severity : Severity) (line : String) :
    (w.logToFile severity line).stdout = w.stdout := by
  unfold logToFile
  split
  · split_ifs <;> rfl
  · rfl

omit [FileStore φ] in
theorem files_logToStdout (severity : Severity) (line : String) :
    (w.logToStdout severity line).files = w.files := by
  unfold logToStdout
  split
  · split_ifs <;> rfl
  · rfl

omit [FileStore φ] in
theorem stdout_logToStdout (severity : Severity) (line : String) :
    (w.logToStdout severity line).stdout =
      if w.logger.settings.stdout.any fun limit => decide (severity.rank ≤ limit.rank) then
        w.stdout ++ line
      else w.stdout := by
  unfold logToStdout
  cases w.logger.settings.stdout with
  | none => rfl
  | some limit =>
    dsimp only
    rw [Option.any_some, apply_ite World.stdout]
    simp only [decide_eq_true_eq]

theorem stdout_log :
    (w.log level text).stdout =
      w.stdout ++ (LogRecord.stdoutLine? Severity.delivers ⟨w.logger.settings, level, text⟩).getD "" := by
  have hany : (w.logger.settings.takes level && w.logger.settings.stdout.any fun limit =>
      decide ((Severity.ofLevel level).rank ≤ limit.rank)) =
        w.logger.settings.stdout.any (·.delivers level) := by
    cases hstdout : w.logger.settings.stdout with
    | none => exact Bool.and_false _
    | some limit => exact LogSettings.takes_and_rank (LogSettings.verbosity_of_stdout hstdout) level
  rw [LogRecord.stdoutLine?, ← hany]
  unfold log
  cases w.logger.settings.takes level with
  | false => exact String.append_empty.symm
  | true =>
    rw [if_pos rfl, Bool.true_and, stdout_logToFile, stdout_logToStdout]
    split_ifs
    · rfl
    · exact String.append_empty.symm

theorem files_logToFile {file : OpenLog} {target : LogFile}
    (hfile : w.logger.settings.file = some target) (hopen : w.logger.openFile = some file)
    (severity : Severity) (line : String) :
    (w.logToFile severity line).files =
      if severity.rank ≤ target.severity.rank then
        FileStore.append w.files file.handle (Text.encode line)
      else w.files := by
  unfold logToFile
  rw [hfile, hopen]
  exact apply_ite World.files _ _ _

theorem logToFile_of_none (hfile : w.logger.settings.file = none) (severity : Severity)
    (line : String) : w.logToFile severity line = w := by
  unfold logToFile
  rw [hfile]

/-- With a log file asked for and open, only the file's own severity counts. -/
theorem files_log {file : OpenLog} {target : LogFile}
    (hfile : w.logger.settings.file = some target) (hopen : w.logger.openFile = some file) :
    (w.log level text).files =
      if target.severity.delivers level then
        FileStore.append w.files file.handle
          (Text.encode (LogRecord.line ⟨w.logger.settings, level, text⟩))
      else w.files := by
  rw [← LogSettings.takes_and_rank (LogSettings.verbosity_of_file hfile) level]
  unfold log
  cases w.logger.settings.takes level with
  | false => rfl
  | true =>
    rw [if_pos rfl, Bool.true_and]
    dsimp only
    rw [files_logToFile _ (by rw [logger_logToStdout, hfile]) (by rw [logger_logToStdout, hopen]),
      files_logToStdout]
    simp only [decide_eq_true_eq]
    rfl

theorem files_log_of_none (hfile : w.logger.settings.file = none) :
    (w.log level text).files = w.files := by
  unfold log
  split_ifs
  · dsimp only
    rw [logToFile_of_none _ (by rw [logger_logToStdout, hfile]), files_logToStdout]
  · rfl

end World

-- ============================================================================
-- All records
-- ============================================================================

namespace World

variable {φ : Type} [FileStore φ] {w w' : World (Watched φ)}

/-- The open file is the one asked for, and what is appended to it is noted under its
    path. -/
structure IsWatched (w : World (Watched φ)) : Prop where
  isOpened : w.logger.IsOpened
  pathOf : ∀ file ∈ w.logger.openFile, w.files.pathOf file.handle = components file.path

theorem IsWatched.apply (h : w.IsWatched) {settings : LogSettings}
    (happly : w.applyLog settings = .ok w') :
    w'.IsWatched ∧ w'.files.appended = w.files.appended := by
  have hopened := isOpened_applyLog happly
  rcases applyLog_cases happly with ⟨-, rfl⟩ | ⟨-, rfl⟩ | ⟨target, handle, files, -, hopen, rfl⟩
  · exact ⟨⟨hopened, h.pathOf⟩, rfl⟩
  · exact ⟨⟨hopened, fun file hfile => nomatch hfile⟩, rfl⟩
  · obtain ⟨hpath, happended⟩ := Watched.openAppend_ok hopen
    refine ⟨⟨hopened, ?_⟩, happended⟩
    rintro file ⟨⟩
    exact hpath

theorem IsWatched.log (h : w.IsWatched) (level : LogLevel) (text : String) :
    (w.log level text).IsWatched ∧ (w.log level text).files.appended = w.files.appended ++
      (LogRecord.fileLine? Severity.delivers ⟨w.logger.settings, level, text⟩).toList := by
  obtain ⟨hopened, hpath⟩ := h
  have hopened' : (w.log level text).logger.IsOpened := by rwa [logger_log]
  unfold LogRecord.fileLine?
  cases hfile : w.logger.settings.file with
  | none =>
    have hfiles := w.files_log_of_none level text hfile
    refine ⟨⟨hopened', ?_⟩, ?_⟩
    · rwa [logger_log, hfiles]
    · rw [hfiles]
      exact (List.append_nil _).symm
  | some target =>
    obtain ⟨file, hopen, hsame⟩ := hopened.exists_openFile hfile
    have hfiles := w.files_log level text hfile hopen
    have hnoted : w.files.pathOf file.handle = components target.path :=
      (hpath file hopen).trans hsame
    cases hdelivers : target.severity.delivers level with
    | false =>
      rw [hdelivers, if_neg Bool.false_ne_true] at hfiles
      refine ⟨⟨hopened', ?_⟩, ?_⟩
      · rwa [logger_log, hfiles]
      · rw [hfiles, Option.filter_some, hdelivers]
        exact (List.append_nil _).symm
    | true =>
      rw [hdelivers, if_pos rfl] at hfiles
      refine ⟨⟨hopened', ?_⟩, ?_⟩
      · rwa [logger_log, hfiles]
      · rw [hfiles, Option.filter_some, hdelivers, if_pos rfl, Option.map_some, ← hnoted]
        rfl

/-- Calls bring each destination its lines, record by record. -/
theorem IsWatched.runCalls (h : w.IsWatched) {calls : List LogCall}
    (hrun : w.runCalls calls = .ok w') :
    w'.stdout = w.stdout ++ String.join
        ((LogCall.records w.logger.settings calls).filterMap (·.stdoutLine? Severity.delivers)) ∧
      w'.files.appended = w.files.appended ++
        (LogCall.records w.logger.settings calls).filterMap (·.fileLine? Severity.delivers) := by
  induction calls generalizing w with
  | nil =>
    cases hrun
    exact ⟨String.append_empty.symm, (List.append_nil _).symm⟩
  | cons call rest ih =>
    rw [World.runCalls, List.foldlM_cons] at hrun
    cases call with
    | apply settings =>
      cases happly : w.applyLog settings with
      | error cause =>
        rw [runCall, happly] at hrun
        cases hrun
      | ok w₁ =>
        rw [runCall, happly] at hrun
        obtain ⟨hwatched, happended⟩ := h.apply happly
        obtain ⟨hstdout, hfiles⟩ := ih hwatched hrun
        rw [settings_applyLog happly, stdout_applyLog happly] at hstdout
        rw [settings_applyLog happly, happended] at hfiles
        exact ⟨hstdout, hfiles⟩
    | record level text =>
      obtain ⟨hwatched, happended⟩ := h.log level text
      obtain ⟨hstdout, hfiles⟩ := ih hwatched hrun
      rw [logger_log, stdout_log] at hstdout
      rw [logger_log, happended] at hfiles
      rw [LogCall.records, List.filterMap_cons, List.filterMap_cons]
      refine ⟨hstdout.trans ?_, hfiles.trans ?_⟩
      · rw [String.append_assoc]
        cases LogRecord.stdoutLine? Severity.delivers ⟨w.logger.settings, level, text⟩ with
        | none => simp
        | some line => simp
      · rw [List.append_assoc]
        cases LogRecord.fileLine? Severity.delivers ⟨w.logger.settings, level, text⟩ with
        | none => rfl
        | some line => rfl

end World

-- ============================================================================
-- Records that are dropped
-- ============================================================================

section Kept

variable {α β : Type} {part whole : α → Option β} {drops : α → Bool}

/-- What the things of a list weigh together. -/
def weigh (weight : β → Nat) : List β → Nat
  | [] => 0
  | b :: rest => weight b + weigh weight rest

theorem length_join (lines : List String) :
    (String.join lines).length = weigh String.length lines := by
  induction lines with
  | nil => rfl
  | cons line rest ih => rw [String.join_cons, String.length_append, weigh, ih]

/-- What is dropped of a list is missing in its weight. -/
theorem weigh_add_le {weight : β → Nat} (hkept : ∀ a, drops a = false → part a = whole a)
    (hdropped : ∀ a, drops a = true → part a = none ∧ ∃ b, whole a = some b ∧ 0 < weight b)
    (l : List α) :
    weigh weight (l.filterMap part) + l.countP drops ≤ weigh weight (l.filterMap whole) := by
  induction l with
  | nil => exact Nat.le_refl _
  | cons a rest ih =>
    rw [List.countP_cons]
    cases hdrops : drops a with
    | true =>
      obtain ⟨hnone, b, hsome, hpos⟩ := hdropped a hdrops
      rw [List.filterMap_cons_none hnone, List.filterMap_cons_some hsome, if_pos rfl, weigh]
      omega
    | false =>
      rw [List.filterMap_cons, List.filterMap_cons, hkept a hdrops, if_neg Bool.false_ne_true]
      cases whole a with
      | none => exact ih
      | some b =>
        dsimp only [weigh]
        omega

/-- Where no weight is missing nothing is dropped. -/
theorem kept_of_weigh_eq (weight : β → Nat) (hkept : ∀ a, drops a = false → part a = whole a)
    (hdropped : ∀ a, drops a = true → part a = none ∧ ∃ b, whole a = some b ∧ 0 < weight b)
    {l : List α} (heq : weigh weight (l.filterMap part) = weigh weight (l.filterMap whole)) :
    ∀ a ∈ l, drops a = false := by
  intro a ha
  have hle := weigh_add_le hkept hdropped l
  have hzero : l.countP drops = 0 := by omega
  exact Bool.eq_false_iff.2 (List.countP_eq_zero.1 hzero a ha)

end Kept

theorem Severity.lets_of_misfiles {limit : Severity} {level : LogLevel}
    (h : limit.misfiles level = true) : limit.lets level = true := by
  obtain rfl : limit.level = level := of_decide_eq_true (Bool.and_eq_true_iff.1 h).1
  exact decide_eq_true (Nat.le_refl _)

namespace LogRecord

/-- Standard output is meant to take the record and drops it. -/
def isDroppedByStdout (r : LogRecord) : Bool :=
  r.settings.stdout.any (·.misfiles r.level)

/-- The log file is meant to take the record and drops it. -/
def isDroppedByFile (r : LogRecord) : Bool :=
  r.settings.file.any (·.severity.misfiles r.level)

theorem length_line_pos (r : LogRecord) : 0 < r.line.length := by
  rw [line, String.length_append]
  exact Nat.lt_add_left _ (by decide)

theorem stdoutLine?_of_kept {r : LogRecord} (h : r.isDroppedByStdout = false) :
    r.stdoutLine? Severity.delivers = r.stdoutLine? Severity.lets := by
  unfold isDroppedByStdout at h
  unfold stdoutLine?
  cases hstdout : r.settings.stdout with
  | none => rfl
  | some limit =>
    rw [hstdout, Option.any_some] at h
    simp [Severity.delivers, h]

theorem stdoutLine?_of_dropped {r : LogRecord} (h : r.isDroppedByStdout = true) :
    r.stdoutLine? Severity.delivers = none ∧
      ∃ line, r.stdoutLine? Severity.lets = some line ∧ 0 < line.length := by
  unfold isDroppedByStdout at h
  unfold stdoutLine?
  cases hstdout : r.settings.stdout with
  | none =>
    rw [hstdout] at h
    cases h
  | some limit =>
    rw [hstdout, Option.any_some] at h
    exact ⟨by simp [Severity.delivers, h], r.line, if_pos (Severity.lets_of_misfiles h),
      r.length_line_pos⟩

theorem fileLine?_of_kept {r : LogRecord} (h : r.isDroppedByFile = false) :
    r.fileLine? Severity.delivers = r.fileLine? Severity.lets := by
  unfold isDroppedByFile at h
  unfold fileLine?
  cases hfile : r.settings.file with
  | none => rfl
  | some target =>
    rw [hfile, Option.any_some] at h
    rw [Option.filter_some, Option.filter_some]
    simp [Severity.delivers, h]

theorem fileLine?_of_dropped {r : LogRecord} (h : r.isDroppedByFile = true) :
    r.fileLine? Severity.delivers = none ∧ ∃ line, r.fileLine? Severity.lets = some line := by
  unfold isDroppedByFile at h
  unfold fileLine?
  cases hfile : r.settings.file with
  | none =>
    rw [hfile] at h
    cases h
  | some target =>
    rw [hfile, Option.any_some] at h
    rw [Option.filter_some, Option.filter_some, Severity.lets_of_misfiles h]
    exact ⟨by simp [Severity.delivers, h], _, rfl⟩

/-- Standard output has all that is meant for it, exactly if it drops nothing. -/
theorem join_stdout_eq_iff (records : List LogRecord) :
    String.join (records.filterMap (·.stdoutLine? Severity.delivers)) =
        String.join (records.filterMap (·.stdoutLine? Severity.lets)) ↔
      ∀ r ∈ records, r.isDroppedByStdout = false := by
  constructor
  · intro h
    have hlength := congrArg String.length h
    rw [length_join, length_join] at hlength
    exact kept_of_weigh_eq String.length (fun _ => stdoutLine?_of_kept)
      (fun _ => stdoutLine?_of_dropped) hlength
  · intro h
    rw [List.filterMap_congr fun r hr => stdoutLine?_of_kept (h r hr)]

theorem file_eq_iff (records : List LogRecord) :
    records.filterMap (·.fileLine? Severity.delivers) =
        records.filterMap (·.fileLine? Severity.lets) ↔
      ∀ r ∈ records, r.isDroppedByFile = false := by
  constructor
  · intro h
    refine kept_of_weigh_eq (fun _ => 1) (fun _ => fileLine?_of_kept) ?_ (by rw [h])
    intro r hdrops
    obtain ⟨hnone, line, hline⟩ := fileLine?_of_dropped hdrops
    exact ⟨hnone, line, hline, Nat.one_pos⟩
  · intro h
    exact List.filterMap_congr fun r hr => fileLine?_of_kept (h r hr)

end LogRecord

-- ============================================================================
-- A new log
-- ============================================================================

namespace World

/-- Whatever calls are made on a new log, if every file can be opened: standard output
    and the log files get the lines of the records that are meant for them, in order,
    except those that are dropped. They get all that are meant for them exactly if none
    is. -/
theorem runCalls_delivers {φ : Type} [FileStore φ] (files : Watched φ) (stdout : String)
    (salts : SaltSupply) {calls : List LogCall} {after : World (Watched φ)}
    (hrun : ({ files, stdout, salts } : World (Watched φ)).runCalls calls = .ok after) :
    let records := LogCall.records {} calls
    (after.stdout =
          stdout ++ String.join (records.filterMap (·.stdoutLine? Severity.delivers)) ∧
        after.files.appended =
          files.appended ++ records.filterMap (·.fileLine? Severity.delivers)) ∧
      ((after.stdout =
            stdout ++ String.join (records.filterMap (·.stdoutLine? Severity.lets)) ∧
          after.files.appended =
            files.appended ++ records.filterMap (·.fileLine? Severity.lets)) ↔
        ∀ r ∈ records, r.isDroppedByStdout = false ∧ r.isDroppedByFile = false) := by
  intro records
  have hnew : IsWatched ({ files, stdout, salts } : World (Watched φ)) :=
    ⟨rfl, fun file hfile => nomatch hfile⟩
  obtain ⟨hstdout, hfiles⟩ := hnew.runCalls hrun
  refine ⟨⟨hstdout, hfiles⟩, ?_⟩
  rw [hstdout, hfiles, String.append_right_inj, List.append_cancel_left_eq,
    LogRecord.join_stdout_eq_iff, LogRecord.file_eq_iff]
  exact forall₂_and.symm

/-- An empty disk, and no salts. -/
def quiet : World (Watched Disk) where
  files := { files := .empty }
  salts := .ofBytes []

/-- A log file for warnings and standard output for notifications, then only the latter
    with the severity in front. -/
def twoDestinations : List LogCall :=
  [.apply { stdout := some .notifications, file := some ⟨"a.log", .warnings⟩ },
    .record .error "down", .record .info "lost", .record .debug "idle",
    .apply { stdout := some .notifications, recordPriority := true },
    .record .warn "slow"]

/-- What is informational is not on standard output, which takes notifications. -/
theorem runCalls_delivers_twoDestinations :
    ∃ after, quiet.runCalls twoDestinations = .ok after ∧
      after.stdout = "down\nwarnings: slow\n" ∧
      after.files.appended = [([.entry "a.log"], Text.encode "down\n")] ∧
      after.stdout ≠ "down\nlost\nwarnings: slow\n" := by
  cases hrun : quiet.runCalls twoDestinations with
  | error cause =>
    have hopens : (quiet.runCalls twoDestinations).isOk = true := by decide +kernel
    rw [hrun] at hopens
    cases hopens
  | ok after =>
    obtain ⟨⟨hstdout, hfiles⟩, -⟩ := runCalls_delivers quiet.files "" quiet.salts hrun
    have htext : after.stdout = "down\nwarnings: slow\n" := hstdout.trans (by decide +kernel)
    refine ⟨after, rfl, htext, hfiles.trans (by decide +kernel), ?_⟩
    rw [htext]
    decide

/-- A destination for notifications is meant to take what is informational, since both
    are of one level, and drops it. -/
theorem not_forall_delivers_lets :
    ¬ ∀ (calls : List LogCall) (after : World (Watched Disk)), quiet.runCalls calls = .ok after →
        after.stdout =
            String.join ((LogCall.records {} calls).filterMap (·.stdoutLine? Severity.lets)) ∧
          after.files.appended =
            (LogCall.records {} calls).filterMap (·.fileLine? Severity.lets) := by
  intro h
  have hsilent : (quiet.runCalls [.apply { stdout := some .notifications },
      .record .info "hello"]).toOption.map (·.stdout) = some "" := by decide +kernel
  cases hrun : quiet.runCalls [.apply { stdout := some .notifications }, .record .info "hello"] with
  | error cause =>
    rw [hrun] at hsilent
    cases hsilent
  | ok after =>
    rw [hrun] at hsilent
    have hempty : after.stdout = "" := Option.some.inj hsilent
    have hmeant := (h _ after hrun).1
    rw [hempty] at hmeant
    exact absurd hmeant (by decide +kernel)

end World

end RouterCli
