import Mathlib.Tactic.SplitIfs
import RouterCli.Shell.Process

/-!
  RouterCli.Proofs.Shell.Work

  What the work of a shell leaves behind, whether it is finished or broken off by
  the terminal (`Shell.after`). Editing, help, completion and walking the history
  leave the host's settings and the session's node as they are (`Shell.Still`).
-/

namespace RouterCli.Shell

variable {σ κ φ : Type} {α β : Type}

-- ============================================================================
-- Running work
-- ============================================================================

/-- Do some work: what it comes to, and the shell behind it. -/
def run (m : ShellWork σ κ φ α) (sh : Shell σ κ φ) : Except ShellFailure α × Shell σ κ φ :=
  ExceptT.run m |>.run sh

/-- The shell after some work, as far as it got. -/
def after (m : ShellWork σ κ φ α) (sh : Shell σ κ φ) : Shell σ κ φ :=
  (run m sh).2

theorem run_bind (m : ShellWork σ κ φ α) (f : α → ShellWork σ κ φ β) (sh : Shell σ κ φ) :
    run (m >>= f) sh =
      match run m sh with
      | (.ok a, sh') => run (f a) sh'
      | (.error e, sh') => (.error e, sh') := by
  have hbind : run (m >>= f) sh = ExceptT.bindCont f (run m sh).1 (run m sh).2 := rfl
  rw [hbind]
  obtain ⟨_ | a, sh'⟩ := run m sh <;> rfl

/-- Work in two parts ends in the first part, or in the second one where the first
    has led. -/
theorem after_bind_cases (m : ShellWork σ κ φ α) (f : α → ShellWork σ κ φ β) (sh : Shell σ κ φ) :
    after (m >>= f) sh = after m sh ∨
      ∃ a, after (m >>= f) sh = after (f a) (after m sh) := by
  unfold after
  rw [run_bind]
  obtain ⟨_ | a, sh'⟩ := run m sh
  · exact .inl rfl
  · exact .inr ⟨a, rfl⟩

/-- Behind work that was finished the next work begins. -/
theorem after_bind_of_run {m : ShellWork σ κ φ α} {f : α → ShellWork σ κ φ β}
    {sh sh' : Shell σ κ φ} {a : α} (h : run m sh = (.ok a, sh')) :
    after (m >>= f) sh = after (f a) sh' := by
  unfold after
  rw [run_bind, h]

theorem run_get_bind (f : Shell σ κ φ → ShellWork σ κ φ α) (sh : Shell σ κ φ) :
    run (getThe (Shell σ κ φ) >>= f) sh = run (f sh) sh := rfl

theorem after_get_bind (f : Shell σ κ φ → ShellWork σ κ φ α) (sh : Shell σ κ φ) :
    after (getThe (Shell σ κ φ) >>= f) sh = after (f sh) sh := rfl

theorem after_set_bind (sh' : Shell σ κ φ) (f : PUnit → ShellWork σ κ φ α) (sh : Shell σ κ φ) :
    after (set sh' >>= f) sh = after (f ⟨⟩) sh' := rfl

theorem after_modify_bind (g : Shell σ κ φ → Shell σ κ φ) (f : PUnit → ShellWork σ κ φ α)
    (sh : Shell σ κ φ) : after (modifyThe (Shell σ κ φ) g >>= f) sh = after (f ⟨⟩) (g sh) := rfl

theorem run_set_bind (sh' : Shell σ κ φ) (f : PUnit → ShellWork σ κ φ α) (sh : Shell σ κ φ) :
    run (set sh' >>= f) sh = run (f ⟨⟩) sh' := rfl

theorem run_modify_bind (g : Shell σ κ φ → Shell σ κ φ) (f : PUnit → ShellWork σ κ φ α)
    (sh : Shell σ κ φ) : run (modifyThe (Shell σ κ φ) g >>= f) sh = run (f ⟨⟩) (g sh) := rfl

theorem after_modify (g : Shell σ κ φ → Shell σ κ φ) (sh : Shell σ κ φ) :
    after (modifyThe (Shell σ κ φ) g) sh = g sh := rfl

/-- What is written goes to the terminal, and the work ends where the terminal
    fails. -/
theorem run_writeWith (w : Terminal → Bool × Terminal) (sh : Shell σ κ φ) :
    run (writeWith w) sh =
      (if (w sh.terminal).1 then .ok () else .error .terminal,
        { sh with terminal := (w sh.terminal).2 }) := by
  unfold writeWith
  rw [run_get_bind]
  dsimp only
  generalize w sh.terminal = written
  obtain ⟨_ | _, terminal⟩ := written <;> rfl

-- ============================================================================
-- Work that stays at its place
-- ============================================================================

/-- The settings of the shell's host, and the node of its session. -/
def place (sh : Shell σ κ φ) : Host × NodeId :=
  (sh.console.host, sh.console.session.node)

/-- The work leaves the host's settings and the session's node as they are,
    however far it gets. -/
def Still (m : ShellWork σ κ φ α) : Prop :=
  ∀ sh, (after m sh).place = sh.place

namespace Still

variable {m : ShellWork σ κ φ α}

theorem pure (a : α) : Still (Pure.pure a : ShellWork σ κ φ α) := fun _ => rfl

theorem bind {f : α → ShellWork σ κ φ β} (hm : Still m) (hf : ∀ a, Still (f a)) :
    Still (m >>= f) := by
  intro sh
  rcases after_bind_cases m f sh with hfirst | ⟨a, hsecond⟩
  · rw [hfirst, hm]
  · rw [hsecond, hf, hm]

theorem skipIf {m : ShellWork σ κ φ Unit} (hm : Still m) (c : Bool) :
    Still (do unless c do m) := by
  cases c with
  | true => exact pure ()
  | false => exact hm

theorem writeWith (w : Terminal → Bool × Terminal) :
    Still (Shell.writeWith w : ShellWork σ κ φ Unit) := by
  intro sh
  unfold after
  rw [run_writeWith]
  rfl

theorem write (s : String) : Still (Shell.write s : ShellWork σ κ φ Unit) := .writeWith _

theorem put (c : Char) : Still (Shell.put c : ShellWork σ κ φ Unit) := .writeWith _

theorem writeText (s : String) : Still (Shell.writeText s : ShellWork σ κ φ Unit) := .writeWith _

theorem writeBreak : Still (Shell.writeBreak : ShellWork σ κ φ Unit) := .write _

/-- A line break may come before the work, if the text there has none at its end. -/
theorem breakUnless {m : ShellWork σ κ φ α} (hm : Still m) (c : Bool) :
    Still (do
      unless c do Shell.writeBreak
      m) := by
  cases c with
  | true => exact hm
  | false => exact writeBreak.bind fun _ => hm

theorem writePrompt (p : Program σ κ) : Still (Shell.writePrompt p : ShellWork σ κ φ Unit) := by
  intro sh
  unfold Shell.writePrompt
  rw [after_get_bind]
  exact write _ sh

theorem writePromptAndLine (p : Program σ κ) :
    Still (Shell.writePromptAndLine p : ShellWork σ κ φ Unit) := by
  refine (writePrompt p).bind fun _ => ?_
  intro sh
  rw [after_get_bind]
  exact (write sh.buffer).skipIf sh.atPasswordPrompt sh

theorem redraw (p : Program σ κ) : Still (Shell.redraw p : ShellWork σ κ φ Unit) :=
  (write _).bind fun _ => writePromptAndLine p

theorem typeChar (p : Program σ κ) (c : Char) :
    Still (Shell.typeChar p c : ShellWork σ κ φ Unit) := by
  intro sh
  unfold Shell.typeChar
  rw [after_get_bind]
  split
  · exact put bell sh
  · rw [after_set_bind]
    exact (put c).skipIf sh.atPasswordPrompt _

theorem backspace : Still (Shell.backspace : ShellWork σ κ φ Unit) := by
  intro sh
  unfold Shell.backspace
  rw [after_get_bind]
  dsimp only
  cases sh.buffer.toList.isEmpty with
  | true => rfl
  | false =>
    exact (write "\x08 \x08").skipIf sh.atPasswordPrompt
      { sh with buffer := String.ofList sh.buffer.toList.dropLast }

theorem killLine (p : Program σ κ) : Still (Shell.killLine p : ShellWork σ κ φ Unit) := by
  intro sh
  unfold Shell.killLine
  rw [after_modify_bind]
  exact redraw p sh.clearBuffer

theorem interrupt (p : Program σ κ) : Still (Shell.interrupt p : ShellWork σ κ φ Unit) := by
  intro sh
  unfold Shell.interrupt
  rw [after_modify_bind]
  exact (writeBreak.bind fun _ => writePrompt p) _

theorem recallPrevious (p : Program σ κ) :
    Still (Shell.recallPrevious p : ShellWork σ κ φ Unit) := by
  intro sh
  unfold Shell.recallPrevious
  rw [after_get_bind]
  cases sh.atPasswordPrompt with
  | true => rfl
  | false =>
    cases sh.history.previous with
    | mk line history =>
      cases line with
      | none => rfl
      | some buffer => exact redraw p { sh with buffer, history }

theorem recallNext (p : Program σ κ) :
    Still (Shell.recallNext p : ShellWork σ κ φ Unit) := by
  intro sh
  unfold Shell.recallNext
  rw [after_get_bind]
  cases sh.atPasswordPrompt || !sh.history.isNavigating with
  | true => rfl
  | false =>
    exact redraw p { sh with buffer := sh.history.next.1.getD "", history := sh.history.next.2 }

theorem replaceWord (p : Program σ κ) (text : String) :
    Still (Shell.replaceWord p text : ShellWork σ κ φ Unit) := by
  intro sh
  unfold Shell.replaceWord
  rw [after_get_bind]
  split
  · rfl
  · split
    · exact put bell sh
    · exact redraw p _

theorem completeWord (p : Program σ κ) :
    Still (Shell.completeWord p : ShellWork σ κ φ Unit) := by
  intro sh
  unfold Shell.completeWord
  rw [after_get_bind]
  cases sh.atPasswordPrompt with
  | true => rfl
  | false =>
    rcases p.complete sh.console.session.node sh.buffer with e | completion
    · have hlist : Still (do
          Shell.writeBreak
          Shell.write (helpComplaint e)
          Shell.writeBreak
          Shell.writePromptAndLine p : ShellWork σ κ φ Unit) :=
        writeBreak.bind fun _ => (write _).bind fun _ => writeBreak.bind fun _ =>
          writePromptAndLine p
      cases e with
      | nothingToDo => exact (writeBreak.bind fun _ => writePromptAndLine p) sh
      | _ => exact hlist sh
    · cases completion with
      | full keyword => exact replaceWord p _ sh
      | shared start => exact replaceWord p _ sh
      | choices keywords =>
        exact (writeBreak.bind fun _ => (write _).bind fun _ => writePromptAndLine p) sh

theorem describeLine (p : Program σ κ) :
    Still (Shell.describeLine p : ShellWork σ κ φ Unit) := by
  intro sh
  unfold Shell.describeLine
  rw [after_get_bind]
  cases p.describe sh.console.session.node sh.buffer with
  | error e => exact (writeBreak.bind fun _ => (write _).bind fun _ => writePromptAndLine p) sh
  | ok items => exact (writeBreak.bind fun _ => (write _).bind fun _ => writePromptAndLine p) sh

theorem help (p : Program σ κ) : Still (Shell.help p : ShellWork σ κ φ Unit) := by
  intro sh
  unfold Shell.help
  rw [after_get_bind]
  split_ifs
  · exact typeChar p '?' sh
  · exact describeLine p sh

variable [FileStore φ]

theorem closeOrPrompt (p : Program σ κ) :
    Still (Shell.closeOrPrompt p : ShellWork σ κ φ Unit) := by
  intro sh
  unfold Shell.closeOrPrompt
  rw [after_get_bind]
  split_ifs
  · rfl
  · exact writePrompt p sh

end Still

-- ============================================================================
-- Work that goes on
-- ============================================================================

/-- Work that stays adds nothing to the place that earlier work has led to. -/
theorem place_after_bind {m : ShellWork σ κ φ α} {f : α → ShellWork σ κ φ β}
    (hf : ∀ a, Still (f a)) (sh : Shell σ κ φ) : (after (m >>= f) sh).place = (after m sh).place := by
  rcases after_bind_cases m f sh with hfirst | ⟨a, hsecond⟩
  · rw [hfirst]
  · rw [hsecond, hf]

/-- Behind a line break the work goes on, if the terminal has taken it. -/
theorem after_writeBreak_bind (f : Unit → ShellWork σ κ φ α) (sh : Shell σ κ φ) :
    after (writeBreak >>= f) sh =
      if (sh.terminal.write Terminal.lineBreak).1 then
        after (f ()) { sh with terminal := (sh.terminal.write Terminal.lineBreak).2 }
      else { sh with terminal := (sh.terminal.write Terminal.lineBreak).2 } := by
  unfold after writeBreak write
  rw [run_bind, run_writeWith]
  split_ifs <;> rfl

end RouterCli.Shell
