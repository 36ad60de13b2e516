import Mathlib.Data.List.TakeWhile
import RouterCli.Proofs.Shell.Effects
import RouterCli.Proofs.Text.Words

/-!
  RouterCli.Proofs.Shell.ReplacedWord

  Completion puts its text in the place of the word under the cursor. A line comes apart
  in one way, behind its last blank (`Shell.Parts`), and both the splitting of a line that
  is being typed and the cutting of the line go by these parts. They differ where the last
  blank has several bytes and a word behind it: there the line is not cut at all, and
  everywhere else the word is replaced (`Shell.replaces_iff`).
-/

namespace RouterCli.Shell

open Text

variable {σ κ φ : Type}

-- ============================================================================
-- The parts of a line
-- ============================================================================

/-- A line comes apart behind its last blank. -/
structure Parts (line : String) (before word : List Char) : Prop where
  whole : line.toList = before ++ word
  blank : ∀ b ∈ before.getLast?, isBlank b = true
  solid : ∀ c ∈ word, isBlank c = false

theorem exists_parts (line : String) : ∃ before word, Parts line before word := by
  refine ⟨(line.toList.reverse.dropWhile (!isBlank ·)).reverse,
    (line.toList.reverse.takeWhile (!isBlank ·)).reverse, ?_, ?_, ?_⟩
  · rw [← List.reverse_append, List.takeWhile_append_dropWhile, List.reverse_reverse]
  · intro b hb
    rw [List.getLast?_reverse] at hb
    have hnot := List.head?_dropWhile_not (!isBlank ·) line.toList.reverse
    rw [Option.mem_def.1 hb] at hnot
    simpa using hnot
  · intro c hc
    simpa using List.mem_takeWhile_imp (List.mem_reverse.1 hc)

variable {line : String} {before word : List Char}

theorem Parts.takeWhile_reverse (h : Parts line before word) :
    line.toList.reverse.takeWhile (!isBlank ·) = word.reverse ∧
      line.toList.reverse.dropWhile (!isBlank ·) = before.reverse := by
  have hword : ∀ c ∈ word.reverse, (!isBlank c) = true := by
    intro c hc
    simp [h.solid c (List.mem_reverse.1 hc)]
  rw [h.whole, List.reverse_append, List.takeWhile_append_of_pos hword,
    List.dropWhile_append_of_pos hword]
  cases hbefore : before.reverse with
  | nil => simp
  | cons b rest =>
    have hb : isBlank b = true := by
      refine h.blank b ?_
      rw [← List.head?_reverse, hbefore]
      rfl
    simp [hb]

/-- The line is cut in front of the word, if the blank there has one byte. -/
theorem Parts.beforeWord?_eq (h : Parts line before word) :
    beforeWord? line =
      if word.isEmpty || before.getLast?.all (·.utf8Size = 1) then some (String.ofList before)
      else none := by
  obtain ⟨htake, hdrop⟩ := h.takeWhile_reverse
  unfold beforeWord?
  rw [htake, hdrop]
  dsimp only
  rw [List.reverse_reverse, List.head?_reverse, List.isEmpty_reverse]

/-- The word under the cursor. -/
theorem Parts.current_eq (h : Parts line before word) :
    (PartialLine.parse line).current.getD "" = String.ofList word := by
  unfold PartialLine.parse
  dsimp only
  by_cases hword : word = []
  · have hblank : line.toList.getLast?.all isBlank = true := by
      rw [h.whole, hword, List.append_nil, Option.all_eq_true]
      exact h.blank
    rw [if_pos hblank, hword]
    rfl
  · have hsolid : ¬ line.toList.getLast?.all isBlank = true := by
      obtain ⟨init, c, rfl⟩ := List.eq_nil_or_concat word |>.resolve_left hword
      rw [h.whole]
      simpa using h.solid c (by simp)
    rw [if_neg hsolid]
    have hruns : ∃ runs, wordRuns line.toList = runs ++ [word] := by
      rw [h.whole, ← wordRuns_of_forall hword h.solid]
      rcases List.eq_nil_or_concat before with rfl | ⟨init, b, rfl⟩
      · exact ⟨[], rfl⟩
      · have hb : isBlank b = true := h.blank b (by simp)
        rw [List.concat_eq_append, List.append_assoc]
        exact ⟨wordRuns init, wordRuns_append hb init word⟩
    obtain ⟨runs, hruns⟩ := hruns
    unfold words
    rw [hruns, List.map_append, List.map_singleton, List.getLast?_concat]
    rfl

/-- The word under the cursor stands behind a blank of several bytes. -/
def WordBehindWideBlank (line : String) : Prop :=
  ∃ before b word, line.toList = before ++ b :: word ∧ isBlank b = true ∧ 1 < b.utf8Size ∧
    word ≠ [] ∧ ∀ c ∈ word, isBlank c = false

/-- There alone the line cannot be cut. -/
theorem beforeWord?_eq_none_iff (line : String) :
    beforeWord? line = none ↔ WordBehindWideBlank line := by
  constructor
  · intro hnone
    obtain ⟨before, word, h⟩ := exists_parts line
    rw [h.beforeWord?_eq] at hnone
    split_ifs at hnone with hcut
    obtain ⟨hword, b, hb, hwide⟩ : word ≠ [] ∧ ∃ b ∈ before.getLast?, b.utf8Size ≠ 1 := by
      simpa [Option.all_eq_true] using hcut
    obtain ⟨init, rfl⟩ := List.getLast?_eq_some_iff.1 hb
    refine ⟨init, b, word, by simpa using h.whole, h.blank b hb, ?_, hword, h.solid⟩
    have := b.utf8Size_pos
    omega
  · rintro ⟨init, b, word, hline, hb, hwide, hword, hsolid⟩
    have h : Parts line (init ++ [b]) word := by
      refine ⟨by simpa using hline, ?_, hsolid⟩
      intro d hd
      obtain rfl : b = d := by simpa using hd
      exact hb
    rw [h.beforeWord?_eq, if_neg]
    have hne : b.utf8Size ≠ 1 := by omega
    simp [hword, hne]

-- ============================================================================
-- Completion
-- ============================================================================

/-- What has been done to a shell came to an end, and has put the text in the place of the
    word under the cursor, where there is room for it. Where there is none, the bell was
    sounded and nothing else happened. -/
structure Replaces (limits : Limits) (text : String) (sh : Shell σ κ φ)
    (done : Except ShellFailure Unit × Shell σ κ φ) : Prop where
  whole : done.1 ≠ .error .splitCharacter
  line : ∃ before, before ++ (PartialLine.parse sh.buffer).current.getD "" = sh.buffer ∧
    (Fits limits (before ++ text) →
      ∃ terminal, done.2 = { sh with buffer := before ++ text, terminal }) ∧
    (¬ Fits limits (before ++ text) →
      done.2 = { sh with terminal := (sh.terminal.put bell).2 })

theorem run_put (c : Char) (sh : Shell σ κ φ) :
    run (put c) sh =
      (if (sh.terminal.put c).1 then .ok () else .error .terminal,
        { sh with terminal := (sh.terminal.put c).2 }) :=
  run_writeWith _ sh

/-- A line that is cut has its word replaced. -/
theorem replaces_of_beforeWord? (p : Program σ κ) (text : String) {sh : Shell σ κ φ}
    {before : String} (hcut : beforeWord? sh.buffer = some before) :
    Replaces p.limits text sh (run (replaceWord p text) sh) := by
  have hbefore : before ++ (PartialLine.parse sh.buffer).current.getD "" = sh.buffer := by
    obtain ⟨start, word, h⟩ := exists_parts sh.buffer
    rw [h.beforeWord?_eq] at hcut
    split_ifs at hcut
    obtain rfl : String.ofList start = before := Option.some.inj hcut
    rw [h.current_eq, ← String.ofList_append, ← h.whole, String.ofList_toList]
  unfold replaceWord
  rw [run_get_bind, hcut]
  dsimp only
  rw [extend?_eq]
  by_cases hfits : Fits p.limits (before ++ text)
  · rw [if_pos hfits]
    dsimp only
    rw [run_set_bind]
    obtain ⟨terminal, hafter, hfails, -⟩ :=
      OnlyWrites.redraw p { sh with buffer := before ++ text }
    refine ⟨fun hsplit => ?_, before, hbefore, fun _ => ⟨terminal, hafter⟩, absurd hfits⟩
    cases hfails _ hsplit
  · rw [if_neg hfits]
    dsimp only
    rw [run_put]
    refine ⟨?_, before, hbefore, fun h => absurd h hfits, fun _ => rfl⟩
    dsimp only
    split_ifs <;> simp

/-- A completion that has a text for the line has the word replaced by it. -/
theorem run_completeWord (p : Program σ κ) {sh : Shell σ κ φ}
    (hprompt : sh.atPasswordPrompt = false) {completion : Completion}
    (hcomplete : p.complete sh.console.session.node sh.buffer = .ok completion) {text : String}
    (htext : insertion? completion = some text) :
    run (completeWord p) sh = run (replaceWord p text) sh := by
  unfold completeWord
  rw [run_get_bind, hprompt]
  simp only [hcomplete]
  cases completion with
  | full keyword =>
    obtain rfl : keyword ++ " " = text := Option.some.inj htext
    rfl
  | shared start =>
    obtain rfl : start = text := Option.some.inj htext
    rfl
  | choices keywords => cases htext

/-- Where completion has a text for the line, it puts the text in the place of the word under
    the cursor, but for a word that stands behind a blank of several bytes: there it breaks
    off. -/
theorem replaces_iff (p : Program σ κ) {sh : Shell σ κ φ} (hprompt : sh.atPasswordPrompt = false)
    {completion : Completion}
    (hcomplete : p.complete sh.console.session.node sh.buffer = .ok completion) {text : String}
    (htext : insertion? completion = some text) :
    Replaces p.limits text sh (run (completeWord p) sh) ↔ ¬ WordBehindWideBlank sh.buffer := by
  rw [run_completeWord p hprompt hcomplete htext, ← beforeWord?_eq_none_iff]
  cases hcut : beforeWord? sh.buffer with
  | none =>
    refine iff_of_false (fun h => h.whole ?_) (by simp)
    unfold replaceWord
    rw [run_get_bind, hcut]
    rfl
  | some before => exact iff_of_true (replaces_of_beforeWord? p text hcut) (by simp)

/-- A blank of two bytes that has a space behind it does no harm. -/
theorem replaces_iff_spaced :
    enableOnly.complete .view "\u00a0 ena" = .ok (.full "enable") ∧
      Replaces enableOnly.limits "enable " (inLine "\u00a0 ena")
        (run (completeWord enableOnly) (inLine "\u00a0 ena")) ∧
      (after (completeWord enableOnly) (inLine "\u00a0 ena")).buffer = "\u00a0 enable " := by
  have hcomplete : enableOnly.complete .view "\u00a0 ena" = .ok (.full "enable") := by
    decide +kernel
  have hcut : ¬ WordBehindWideBlank (inLine "\u00a0 ena").buffer := by
    rw [← beforeWord?_eq_none_iff]
    decide +kernel
  have hprompt : (inLine "\u00a0 ena").atPasswordPrompt = false := by decide +kernel
  have htext : insertion? (.full "enable") = some "enable " := by decide +kernel
  have hreplaces := (replaces_iff enableOnly hprompt hcomplete htext).2 hcut
  exact ⟨hcomplete, hreplaces, by decide +kernel⟩

/-- A no-break space has two bytes. Behind it the work breaks off, and the word is not
    replaced. -/
theorem not_forall_replaces :
    ¬ ∀ (p : Program Unit Unit) (sh : Shell Unit Unit FileTree) (completion : Completion)
        (text : String), IsPrintable sh.buffer →
        sh.atPasswordPrompt = false →
        p.complete sh.console.session.node sh.buffer = .ok completion →
        insertion? completion = some text →
        Replaces p.limits text sh (run (completeWord p) sh) := by
  intro hall
  have hreplaces := hall enableOnly (inLine "\u00a0ena") (.full "enable") "enable "
    (by decide +kernel) rfl (by decide +kernel) rfl
  have hbroken : (run (completeWord enableOnly) (inLine "\u00a0ena")).1 =
      .error .splitCharacter := by decide +kernel
  exact hreplaces.whole hbroken

end RouterCli.Shell
