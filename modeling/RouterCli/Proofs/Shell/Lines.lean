import RouterCli.Proofs.Shell.Effects

/-!
  RouterCli.Proofs.Shell.Lines

  The line and the lines of the history. Whatever the terminal takes, an event makes of them
  what editing makes of them, and the end of a line may add it to the history
  (`Shell.memory_handle`). So what holds of every line goes on to hold, if it holds of what
  is typed and of what completion makes of the line (`Shell.AllLines.call`), and the history
  changes by its cursor or by the line (`Shell.history_call`).
-/

namespace RouterCli

-- ============================================================================
-- Histories
-- ============================================================================

namespace History

variable {h : History}

/-- Only the cursor has moved. -/
def MovesTo (h h' : History) : Prop :=
  ∃ position, h' = { h with position }

theorem movesTo_previous (h : History) : h.MovesTo h.previous.2 := by
  unfold previous
  split
  · exact ⟨h.position, rfl⟩
  · exact ⟨_, rfl⟩

theorem movesTo_next (h : History) : h.MovesTo h.next.2 := by
  unfold next
  split
  · exact ⟨h.position, rfl⟩
  · split <;> exact ⟨_, rfl⟩

theorem mem_of_previous {line : String} (hline : h.previous.1 = some line) : line ∈ h.lines := by
  unfold previous at hline
  split at hline
  · cases hline
  · exact List.mem_of_getElem? hline

theorem mem_of_next {line : String} (hline : h.next.1 = some line) : line ∈ h.lines := by
  unfold next at hline
  split at hline
  · cases hline
  · split at hline
    · cases hline
    · exact List.mem_of_getElem? hline

/-- The lines that are left when one more is to be kept. -/
theorem add_of_not_refuses {line : String} (hrefuses : h.refuses line = false) :
    (h.add line).limit = h.limit ∧
      (h.add line).lines =
        (if h.limit ≤ h.lines.length then h.lines.drop 1 else h.lines) ++ [line] := by
  unfold add
  rw [if_neg (by simp [hrefuses])]
  exact ⟨rfl, rfl⟩

theorem movesTo_add_of_refuses {line : String} (hrefuses : h.refuses line = true) :
    h.MovesTo (h.add line) := by
  unfold add
  rw [if_pos hrefuses]
  exact ⟨none, rfl⟩

theorem mem_of_mem_add {line old : String} (hmem : old ∈ (h.add line).lines) :
    old ∈ h.lines ∨ old = line := by
  cases hrefuses : h.refuses line with
  | true =>
    obtain ⟨position, hadd⟩ := movesTo_add_of_refuses hrefuses
    rw [hadd] at hmem
    exact .inl hmem
  | false =>
    rw [(add_of_not_refuses hrefuses).2, List.mem_append, List.mem_singleton] at hmem
    rcases hmem with hkept | rfl
    · refine .inl ?_
      split_ifs at hkept
      · exact List.mem_of_mem_drop hkept
      · exact hkept
    · exact .inr rfl

end History

namespace Shell

variable {σ κ φ : Type} {α β γ : Type}

-- ============================================================================
-- The line and the lines before it
-- ============================================================================

/-- The line, and the history. -/
def memory (sh : Shell σ κ φ) : String × History :=
  (sh.buffer, sh.history)

theorem history_edited (p : Program σ κ) (sh : Shell σ κ φ) (event : InputEvent) :
    sh.history.MovesTo (edited p sh event).history := by
  have hsame : sh.history.MovesTo sh.history := ⟨sh.history.position, rfl⟩
  have hreset : sh.history.MovesTo sh.history.resetPosition := ⟨none, rfl⟩
  cases event with
  | none | endOfInput | char c | backspace | doubleEscape | killLine | enter => exact hsame
  | interrupt => exact hreset
  | suspend =>
    dsimp only [edited]
    split_ifs
    · exact hsame
    · exact hreset
  | help | tab =>
    dsimp only [edited]
    split_ifs <;> exact hsame
  | up =>
    have hprevious := sh.history.movesTo_previous
    dsimp only [edited]
    split_ifs
    · exact hsame
    · cases hmoved : sh.history.previous with
      | mk line history =>
        rw [hmoved] at hprevious
        cases line with
        | none => exact hsame
        | some line => exact hprevious
  | down =>
    dsimp only [edited]
    split_ifs
    · exact hsame
    · exact sh.history.movesTo_next

-- ============================================================================
-- What holds of every line
-- ============================================================================

/-- Something holds of the line and of every line of the history. -/
structure AllLines (ok : String → Prop) (memory : String × History) : Prop where
  line : ok memory.1
  lines : ∀ line ∈ memory.2.lines, ok line

variable {ok : String → Prop}

/-- What holds of a line holds of every line that it begins with. -/
def IsPrefixClosed (ok : String → Prop) : Prop :=
  ∀ {s t : String}, s.toList <+: t.toList → ok t → ok s

theorem IsPrefixClosed.empty (h : IsPrefixClosed ok) {line : String} (hline : ok line) : ok "" :=
  h (by simp) hline

theorem AllLines.of_movesTo {memory : String × History} (h : AllLines ok memory)
    {history : History} (hmoves : memory.2.MovesTo history) {line : String} (hline : ok line) :
    AllLines ok (line, history) := by
  obtain ⟨position, rfl⟩ := hmoves
  exact ⟨hline, h.lines⟩

/-- The character that an event would put behind the line. -/
def typed? : InputEvent → Option Char
  | .char c => some c
  | .help => some '?'
  | _ => none

theorem AllLines.edited (p : Program σ κ) {sh : Shell σ κ φ} (h : AllLines ok sh.memory)
    (hclosed : IsPrefixClosed ok)
    {event : InputEvent} (htyped : ∀ c ∈ typed? event, ok (withChar p.limits sh.buffer c))
    (hcompleted : ok (completed p sh)) : AllLines ok (Shell.edited p sh event).memory := by
  have hempty : ok "" := hclosed.empty h.line
  refine h.of_movesTo (history_edited p sh event) ?_
  cases event with
  | none | endOfInput => exact h.line
  | char c => exact htyped c rfl
  | backspace =>
    have hbegins : (String.ofList sh.buffer.toList.dropLast).toList <+: sh.buffer.toList := by
      rw [String.toList_ofList]
      exact List.dropLast_prefix _
    exact hclosed hbegins h.line
  | doubleEscape | killLine | enter | interrupt => exact hempty
  | suspend =>
    dsimp only [Shell.edited]
    split_ifs
    · exact h.line
    · exact hempty
  | help =>
    dsimp only [Shell.edited]
    split_ifs
    · exact htyped '?' rfl
    · exact h.line
  | tab =>
    dsimp only [Shell.edited]
    split_ifs
    · exact h.line
    · exact hcompleted
  | up =>
    dsimp only [Shell.edited]
    split_ifs
    · exact h.line
    · cases hprevious : sh.history.previous with
      | mk line history =>
        cases line with
        | none => exact h.line
        | some line => exact h.lines line (History.mem_of_previous (congrArg Prod.fst hprevious))
  | down =>
    dsimp only [Shell.edited]
    split_ifs
    · exact h.line
    · cases hnext : sh.history.next.1 with
      | none => exact hempty
      | some line => exact h.lines line (History.mem_of_next hnext)

-- ============================================================================
-- Events
-- ============================================================================

/-- The work leaves a part of the shell as it is, however far it gets. -/
def Keeps (part : Shell σ κ φ → γ) (m : ShellWork σ κ φ α) : Prop :=
  ∀ sh, part (after m sh) = part sh

namespace Keeps

variable {part : Shell σ κ φ → γ}

theorem bind {m : ShellWork σ κ φ α} {f : α → ShellWork σ κ φ β} (hm : Keeps part m)
    (hf : ∀ a, Keeps part (f a)) : Keeps part (m >>= f) := by
  intro sh
  rcases after_bind_cases m f sh with hfirst | ⟨a, hsecond⟩
  · rw [hfirst, hm]
  · rw [hsecond, hf, hm]

/-- Work that keeps a part adds nothing to what earlier work has made of it. -/
theorem after_bind {m : ShellWork σ κ φ α} {f : α → ShellWork σ κ φ β}
    (hf : ∀ a, Keeps part (f a)) (sh : Shell σ κ φ) :
    part (after (m >>= f) sh) = part (after m sh) := by
  rcases after_bind_cases m f sh with hfirst | ⟨a, hsecond⟩
  · rw [hfirst]
  · rw [hsecond, hf]

theorem modify {g : Shell σ κ φ → Shell σ κ φ} (hg : ∀ sh, part (g sh) = part sh) :
    Keeps part (modifyThe (Shell σ κ φ) g) :=
  hg

theorem look {f : Shell σ κ φ → ShellWork σ κ φ α} (hf : ∀ sh, Keeps part (f sh)) :
    Keeps part (getThe (Shell σ κ φ) >>= f) :=
  fun sh => hf sh sh

theorem of_onlyWrites {m : ShellWork σ κ φ Unit} (hm : OnlyWrites m) : Keeps memory m := by
  intro sh
  obtain ⟨t, hafter, -⟩ := hm sh
  rw [hafter]
  rfl

variable [FileStore φ]

theorem closeOrPrompt (p : Program σ κ) :
    Keeps memory (Shell.closeOrPrompt p : ShellWork σ κ φ Unit) := by
  intro sh
  unfold Shell.closeOrPrompt
  rw [after_get_bind]
  split_ifs
  · rfl
  · exact of_onlyWrites (.writePrompt p) sh

theorem rejectPassword (p : Program σ κ) :
    Keeps memory (Shell.rejectPassword p : ShellWork σ κ φ Unit) := by
  unfold Shell.rejectPassword
  refine bind (modify fun _ => rfl) fun _ => look fun sh => ?_
  dsimp only
  split_ifs
  · exact bind (modify fun _ => rfl) fun _ =>
      bind (of_onlyWrites (.write _)) fun _ => modify fun _ => rfl
  · exact bind (of_onlyWrites (.write _)) fun _ => modify fun _ => rfl
  · exact fun _ => rfl

theorem checkPassword (p : Program σ κ) (input : String) :
    Keeps memory (Shell.checkPassword p input : ShellWork σ κ φ Unit) := by
  intro sh
  unfold Shell.checkPassword
  rw [after_get_bind]
  split_ifs
  · rfl
  · exact rejectPassword p sh

end Keeps

variable [FileStore φ]

/-- A line that is run is remembered. -/
theorem memory_runLine (p : Program σ κ) (input : String) (sh : Shell σ κ φ) :
    (after (runLine p input) sh).memory = (sh.buffer, sh.history.add input) := by
  unfold runLine
  rw [after_get_bind]
  dsimp only
  rw [after_set_bind]
  refine (Keeps.of_onlyWrites ((OnlyWrites.writeText _).bind (.breakUnless ?_ _))) _
  split
  · exact .pure
  · split
    · exact .pure
    · exact .bind (.write _) .writeBreak

/-- The end of a line takes the line away. One that is run is remembered, if the terminal
    takes the line break. -/
theorem memory_enter (p : Program σ κ) (sh : Shell σ κ φ) :
    (after (enter p) sh).memory = ("", sh.history) ∨
      sh.atPasswordPrompt = false ∧
        (after (enter p) sh).memory = ("", sh.history.add sh.buffer) := by
  unfold enter
  rw [after_get_bind, after_set_bind, after_writeBreak_bind]
  split
  · cases sh.atPasswordPrompt with
    | true =>
      refine .inl ((Keeps.after_bind (fun _ => Keeps.closeOrPrompt p) _).trans ?_)
      exact Keeps.checkPassword p sh.buffer _
    | false =>
      refine .inr ⟨rfl, (Keeps.after_bind (fun _ => Keeps.closeOrPrompt p) _).trans ?_⟩
      exact memory_runLine p sh.buffer _
  · exact .inl rfl

theorem memory_suspend (p : Program σ κ) (sh : Shell σ κ φ) :
    (after (suspend p) sh).memory = (edited p sh .suspend).memory := by
  unfold suspend
  rw [after_get_bind]
  dsimp only [edited]
  cases sh.atPasswordPrompt with
  | true => rfl
  | false =>
    have hrest : Keeps memory (do
        Shell.writeBreak
        modifyThe (Shell σ κ φ) (·.mapConsole p.leaveConfig)
        Shell.writePrompt p : ShellWork σ κ φ Unit) :=
      .bind (.of_onlyWrites .writeBreak) fun _ =>
        .bind (.modify fun _ => rfl) fun _ => .of_onlyWrites (.writePrompt p)
    exact hrest { sh with buffer := "", history := sh.history.resetPosition }

theorem memory_endOfInput (p : Program σ κ) (sh : Shell σ κ φ) :
    (after (endOfInput p) sh).memory = sh.memory := by
  unfold endOfInput
  rw [after_get_bind]
  have hexit : Keeps memory (do
      Shell.writeBreak
      modifyThe (Shell σ κ φ) (·.mapConsole p.exit)
      Shell.closeOrPrompt p : ShellWork σ κ φ Unit) :=
    .bind (.of_onlyWrites .writeBreak) fun _ => .bind (.modify fun _ => rfl) fun _ =>
      .closeOrPrompt p
  split_ifs
  · exact hexit sh
  · rfl

/-- Whatever the terminal takes: an event makes of the line and the history what editing
    makes of them, and a line that is run is remembered besides. -/
theorem memory_handle (p : Program σ κ) (sh : Shell σ κ φ) (event : InputEvent) :
    (after (handle p event) sh).memory = (edited p sh event).memory ∨
      event = .enter ∧ sh.atPasswordPrompt = false ∧
        (after (handle p event) sh).memory = ("", sh.history.add sh.buffer) := by
  by_cases hedit : event ∉ [.enter, .suspend, .endOfInput]
  · obtain ⟨t, hafter, -⟩ := handle_leadsTo p sh hedit
    rw [hafter]
    exact .inl rfl
  · cases event with
    | enter =>
      rcases memory_enter p sh with hchecked | ⟨hprompt, hrun⟩
      · exact .inl hchecked
      · exact .inr ⟨rfl, hprompt, hrun⟩
    | suspend => exact .inl (memory_suspend p sh)
    | endOfInput => exact .inl (memory_endOfInput p sh)
    | _ => simp at hedit

/-- The history moves its cursor, or the line is added to it. -/
theorem history_handle (p : Program σ κ) (sh : Shell σ κ φ) (event : InputEvent) :
    sh.history.MovesTo (after (handle p event) sh).history ∨
      (after (handle p event) sh).history = sh.history.add sh.buffer := by
  rcases memory_handle p sh event with hedited | ⟨-, -, hrun⟩
  · have hmoves := history_edited p sh event
    rw [show (edited p sh event).history = _ from (congrArg Prod.snd hedited).symm] at hmoves
    exact .inl hmoves
  · exact .inr (congrArg Prod.snd hrun)

theorem AllLines.handle (p : Program σ κ) {sh : Shell σ κ φ} (h : AllLines ok sh.memory)
    (hclosed : IsPrefixClosed ok)
    {event : InputEvent} (htyped : ∀ c ∈ typed? event, ok (withChar p.limits sh.buffer c))
    (hcompleted : ok (completed p sh)) :
    AllLines ok (after (Shell.handle p event) sh).memory := by
  have hedited := h.edited p hclosed htyped hcompleted
  rcases memory_handle p sh event with hsame | ⟨rfl, -, hrun⟩
  · rw [hsame]
    exact hedited
  · rw [hrun]
    refine ⟨hedited.line, fun line hline => ?_⟩
    rcases History.mem_of_mem_add hline with hold | rfl
    · exact h.lines line hold
    · exact h.line

-- ============================================================================
-- Calls
-- ============================================================================

/-- A call to a shell. -/
inductive Call where
  | activate
  | deactivate
  | char (c : Char)
deriving DecidableEq, Repr

/-- The terminal has so much room from now on. -/
def withRoom (sh : Shell σ κ φ) (room : Option Nat) : Shell σ κ φ :=
  { sh with terminal := { sh.terminal with room } }

/-- The shell behind a call, with the room that the terminal has for it. A call ends where
    the terminal fails, so the room says at which character that is. -/
def call (p : Program σ κ) (sh : Shell σ κ φ) (made : Option Nat × Call) : Shell σ κ φ :=
  match made.2 with
  | .activate => after (activate p) (sh.withRoom made.1)
  | .deactivate => (sh.withRoom made.1).deactivate
  | .char c => after (process p c) (sh.withRoom made.1)

/-- The shell behind some calls. -/
def calls (p : Program σ κ) (sh : Shell σ κ φ) (made : List (Option Nat × Call)) :
    Shell σ κ φ :=
  made.foldl (call p) sh

/-- A session starts with an empty line and the history there is. -/
theorem memory_activate (p : Program σ κ) (sh : Shell σ κ φ) :
    (after (activate p) sh).memory = ("", sh.history.resetPosition) := by
  unfold activate
  rw [after_modify_bind, after_get_bind]
  dsimp only
  split
  · exact Keeps.of_onlyWrites (.writePrompt p) _
  · exact Keeps.of_onlyWrites (.bind (.writeText _) (.breakUnless (.writePrompt p) _)) _

theorem history_call (p : Program σ κ) (sh : Shell σ κ φ) (made : Option Nat × Call) :
    sh.history.MovesTo (call p sh made).history ∨
      (call p sh made).history = sh.history.add sh.buffer := by
  obtain ⟨room, made⟩ := made
  cases made with
  | activate =>
    exact .inl ⟨none, congrArg Prod.snd (memory_activate p (sh.withRoom room))⟩
  | deactivate => exact .inl ⟨sh.history.position, rfl⟩
  | char c =>
    let heard : Shell σ κ φ := { sh.withRoom room with decoder := (sh.decoder.feed c).2 }
    show sh.history.MovesTo (after (process p c) (sh.withRoom room)).history ∨
      (after (process p c) (sh.withRoom room)).history = sh.history.add sh.buffer
    rw [after_process]
    split_ifs
    · exact history_handle p heard _
    · exact .inl ⟨sh.history.position, rfl⟩

/-- What holds of every line goes on to hold, if it holds of the line with the character that
    is typed, and of the line with its last word completed. -/
theorem AllLines.call (p : Program σ κ) {sh : Shell σ κ φ} (h : AllLines ok sh.memory)
    (hclosed : IsPrefixClosed ok)
    {made : Option Nat × Call}
    (htyped : sh.phase = .active → ∀ c, made.2 = .char c →
      ∀ d ∈ typed? (sh.decoder.feed c).1, ok (withChar p.limits sh.buffer d))
    (hcompleted : ok (completed p sh)) : AllLines ok (Shell.call p sh made).memory := by
  have hempty : ok "" := hclosed.empty h.line
  obtain ⟨room, made⟩ := made
  cases made with
  | activate =>
    show AllLines ok (after (activate p) (sh.withRoom room)).memory
    rw [memory_activate]
    exact h.of_movesTo ⟨none, rfl⟩ hempty
  | deactivate => exact h.of_movesTo ⟨sh.history.position, rfl⟩ hempty
  | char c =>
    show AllLines ok (after (process p c) (sh.withRoom room)).memory
    rw [after_process]
    split_ifs with hactive
    · let heard : Shell σ κ φ := { sh.withRoom room with decoder := (sh.decoder.feed c).2 }
      have hheard : AllLines ok heard.memory := h
      exact hheard.handle p hclosed (htyped hactive c rfl) hcompleted
    · exact h

end Shell

end RouterCli
