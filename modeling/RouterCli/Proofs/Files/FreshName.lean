import RouterCli.Console.Save
import Mathlib.Data.List.Basic

/-!
  RouterCli.Proofs.Files.FreshName

  The names that saving to a path works with: the path itself, the one that
  keeps its previous content, and the fresh one beside it. They are told apart
  by what stands behind their last slash, which is longer for the fresh name
  than for the other two, whatever the directory before it is spelled like.
-/

namespace RouterCli

-- ============================================================================
-- The last piece
-- ============================================================================

namespace Text

variable {isSeparator : Char → Bool}

theorem pieces_of_forall {s : List Char} (hs : ∀ c ∈ s, isSeparator c = false) :
    pieces isSeparator s = [s] := by
  induction s with
  | nil => rfl
  | cons c rest ih =>
    obtain ⟨hc, hrest⟩ := List.forall_mem_cons.1 hs
    simp [pieces, hc, ih hrest, consWord]

/-- No piece has a separator in it. -/
theorem forall_of_mem_pieces {s piece : List Char} (h : piece ∈ pieces isSeparator s) :
    ∀ c ∈ piece, isSeparator c = false := by
  induction s generalizing piece with
  | nil => simp_all [pieces]
  | cons c rest ih =>
    rw [pieces] at h
    split at h
    · rcases List.mem_cons.1 h with rfl | h
      · simp
      · exact ih h
    · rename_i hc
      cases hp : pieces isSeparator rest with
      | nil => simp_all [consWord]
      | cons w ws =>
        rw [hp] at h ih
        rcases List.mem_cons.1 h with rfl | h
        · exact List.forall_mem_cons.2 ⟨by simpa using hc, ih List.mem_cons_self⟩
        · exact ih (List.mem_cons_of_mem _ h)

/-- Text without a separator goes behind the last piece. -/
theorem exists_pieces_append (isSeparator : Char → Bool) (s : List Char) {t : List Char}
    (ht : ∀ c ∈ t, isSeparator c = false) :
    ∃ front last, pieces isSeparator s = front ++ [last] ∧
      pieces isSeparator (s ++ t) = front ++ [last ++ t] := by
  induction s with
  | nil => exact ⟨[], [], rfl, pieces_of_forall ht⟩
  | cons c rest ih =>
    obtain ⟨front, last, hrest, happend⟩ := ih
    by_cases hc : isSeparator c
    · exact ⟨[] :: front, last, by simp [pieces, hc, hrest], by simp [pieces, hc, happend]⟩
    · cases front with
      | nil =>
        exact ⟨[], c :: last, by simp [pieces, hc, hrest, consWord],
          by simp [pieces, hc, happend, consWord]⟩
      | cons w ws =>
        exact ⟨(c :: w) :: ws, last, by simp [pieces, hc, hrest, consWord],
          by simp [pieces, hc, happend, consWord]⟩

theorem pieces_concat {c : Char} (hc : isSeparator c = true) (s : List Char) :
    pieces isSeparator (s ++ [c]) = pieces isSeparator s ++ [[]] := by
  induction s with
  | nil => simp [pieces, hc]
  | cons d rest ih =>
    obtain ⟨front, last, hrest, -⟩ := exists_pieces_append isSeparator rest (t := []) (by simp)
    by_cases hd : isSeparator d
    · simp [pieces, hd, ih]
    · cases front <;> simp_all [pieces, consWord]

end Text

-- ============================================================================
-- The last name of a path
-- ============================================================================

namespace Path

/-- What stands behind the last slash. -/
def lastPart (path : String) : String :=
  (parts path).getLastD ""

theorem exists_parts_append (path : String) {name : String} (hname : '/' ∉ name.toList) :
    ∃ front, parts path = front ++ [lastPart path] ∧
      parts (path ++ name) = front ++ [lastPart path ++ name] := by
  obtain ⟨front, last, hpath, happend⟩ := Text.exists_pieces_append (· == '/')
    path.toList (t := name.toList) (by simpa using fun c hc => ne_of_mem_of_not_mem hc hname)
  have hlast : lastPart path = String.ofList last := by simp [lastPart, parts, hpath]
  refine ⟨front.map String.ofList, ?_, ?_⟩
  · simp [hlast, parts, hpath]
  · simp [hlast, parts, happend, String.ofList_append]

theorem lastPart_append (path : String) {name : String} (hname : '/' ∉ name.toList) :
    lastPart (path ++ name) = lastPart path ++ name := by
  obtain ⟨front, -, happend⟩ := exists_parts_append path hname
  simp [lastPart, happend]

theorem lastPart_of_endsInSlash {path : String} (h : endsInSlash path = true) :
    lastPart path = "" := by
  obtain ⟨front, hfront⟩ : ∃ front, path.toList = front ++ ['/'] :=
    List.getLast?_eq_some_iff.1 (by simpa [endsInSlash] using h)
  simp [lastPart, parts, hfront, Text.pieces_concat]

/-- An entry of a directory has the entry's name, however the directory ends. -/
theorem lastPart_join (dir : String) {name : String} (hname : '/' ∉ name.toList) :
    lastPart (join dir name) = name := by
  unfold join
  split
  · rename_i hdir
    rw [lastPart_append dir hname, lastPart_of_endsInSlash hdir, String.empty_append]
  · have hslash : endsInSlash (dir ++ "/") = true := by simp [endsInSlash]
    rw [lastPart_append _ hname, lastPart_of_endsInSlash hslash, String.empty_append]

theorem exists_parts_of_isAbsolute {path : String} (h : isAbsolute path = true) :
    ∃ rest, parts path = "" :: rest := by
  obtain ⟨rest, hrest⟩ : ∃ rest, path.toList = '/' :: rest :=
    List.head?_eq_some_iff.1 (by simpa [isAbsolute] using h)
  exact ⟨(Text.pieces (· == '/') rest).map String.ofList, by simp [parts, hrest, Text.pieces]⟩

theorem not_mem_of_mem_parts {path part : String} (h : part ∈ parts path) :
    '/' ∉ part.toList := by
  obtain ⟨piece, hpiece, rfl⟩ := List.mem_map.1 h
  intro hslash
  simpa using Text.forall_of_mem_pieces hpiece '/' (by simpa using hslash)

theorem mem_parts_of_mem_components {path name : String}
    (h : Component.entry name ∈ components path) : name ∈ parts path := by
  have hof {part : String} (hpart : Component.entry name = componentOf part) : name = part := by
    unfold componentOf at hpart
    split at hpart <;> simp_all
  unfold components at h
  cases hparts : parts path with
  | nil => simp [hparts] at h
  | cons first rest =>
    have hrest : Component.entry name ∈ (rest.filter (!isIdle ·)).map componentOf →
        name ∈ first :: rest := by
      intro h
      obtain ⟨part, hpart, heq⟩ := List.mem_map.1 h
      rw [hof heq.symm]
      exact List.mem_cons_of_mem _ (List.mem_of_mem_filter hpart)
    simp only [hparts] at h
    split at h
    · exact hrest (by simpa using h)
    split at h
    · exact hrest (by simpa using h)
    split at h
    · exact hrest h
    · rcases List.mem_cons.1 h with h | h
      · rw [hof h]
        exact List.mem_cons_self
      · exact hrest h

theorem not_mem_of_fileName? {path name : String} (h : fileName? path = some name) :
    '/' ∉ name.toList := by
  unfold fileName? at h
  split at h
  · rename_i hlast
    obtain rfl := Option.some.inj h
    exact not_mem_of_mem_parts (mem_parts_of_mem_components (List.mem_of_getLast? hlast))
  · cases h

/-- What stands behind the last slash is the last component, unless it is idle or a step up. -/
theorem fileName?_eq_lastPart {path : String} (hidle : isIdle (lastPart path) = false)
    (hup : lastPart path ≠ "..") : fileName? path = some (lastPart path) := by
  have hempty : '/' ∉ "".toList := by simp
  obtain ⟨front, hparts, -⟩ := exists_parts_append path hempty
  have hentry : componentOf (lastPart path) = .entry (lastPart path) := by
    simp [componentOf, hup]
  have hlast : (components path).getLast? = some (.entry (lastPart path)) := by
    unfold components
    rw [hparts]
    cases front with
    | nil =>
      have hrelative : isAbsolute path = false := by
        refine Bool.eq_false_iff.2 fun habsolute => ?_
        obtain ⟨rest, hrest⟩ := exists_parts_of_isAbsolute habsolute
        rw [hrest] at hparts
        simp [← (List.cons.inj hparts).1, isIdle] at hidle
      have hne : lastPart path ≠ "" ∧ lastPart path ≠ "." := by simpa [isIdle] using hidle
      simp [hrelative, hne, hentry]
    | cons first middle =>
      have htail : ((middle ++ [lastPart path]).filter (!isIdle ·)).map componentOf =
          (middle.filter (!isIdle ·)).map componentOf ++ [.entry (lastPart path)] := by
        simp [hidle, hentry]
      simp only [List.cons_append, htail]
      split
      · rw [← List.cons_append, List.getLast?_concat]
      split
      · rw [← List.cons_append, List.getLast?_concat]
      split
      · rw [List.getLast?_concat]
      · rw [← List.cons_append, List.getLast?_concat]
  simp [fileName?, hlast]

end Path

-- ============================================================================
-- The three names
-- ============================================================================

theorem lastPart_backupPath (path : String) :
    Path.lastPart (backupPath path) = Path.lastPart path ++ ".sav" :=
  Path.lastPart_append path (by decide)

theorem backupPath_ne (path : String) : backupPath path ≠ path := by
  intro h
  simpa [backupPath] using congrArg String.length h

theorem not_mem_freshStart (path : String) : '/' ∉ (freshStart path).toList := by
  unfold freshStart
  cases h : Path.fileName? path with
  | none => decide
  | some name => simp [Path.not_mem_of_fileName? h]

/-- The name of the fresh file is longer than the name it stands in for, also with what the
    backup has behind it. -/
theorem length_lastPart_lt (path : String) {suffix : String} (hslash : '/' ∉ suffix.toList)
    (hlength : suffix.length = 6) :
    (Path.lastPart path).length + 4 <
      (Path.lastPart (Path.join (directoryOf path) (freshStart path ++ suffix))).length := by
  have hname : '/' ∉ (freshStart path ++ suffix).toList := by
    simp [not_mem_freshStart, hslash]
  rw [Path.lastPart_join _ hname]
  have hdot : ".".length = 1 := rfl
  by_cases hproper : Path.isIdle (Path.lastPart path) = false ∧ Path.lastPart path ≠ ".."
  · rw [freshStart, Path.fileName?_eq_lastPart hproper.1 hproper.2]
    simp only [Option.getD_some, String.length_append, hlength, hdot]
    omega
  · -- The path ends in a slash or in dots, and the fresh name comes from elsewhere.
    have hdots : Path.lastPart path = "" ∨ Path.lastPart path = "." ∨
        Path.lastPart path = ".." := by
      simp only [Path.isIdle] at hproper
      grind
    have hshort : (Path.lastPart path).length ≤ 2 := by
      rcases hdots with h | h | h <;> rw [h] <;> decide
    simp only [freshStart, String.length_append, hlength, hdot]
    omega

/-- The fresh file gets neither the name it is to replace nor that of the backup. -/
theorem fresh_ne (path : String) {suffix : String} (hslash : '/' ∉ suffix.toList)
    (hlength : suffix.length = 6) :
    Path.join (directoryOf path) (freshStart path ++ suffix) ≠ path ∧
      Path.join (directoryOf path) (freshStart path ++ suffix) ≠ backupPath path := by
  have hlonger := length_lastPart_lt path hslash hlength
  constructor
  · intro h
    rw [h] at hlonger
    omega
  · intro h
    rw [h, lastPart_backupPath, String.length_append] at hlonger
    exact Nat.lt_irrefl _ hlonger

end RouterCli
