import RouterCli.Proofs.Shell.TerminalText
import RouterCli.Proofs.Shell.Unseen

/-!
  RouterCli.Proofs.Shell.Effects

  What a character makes of the line and of the history, whatever the terminal takes of
  what is written (`Shell.handle_leadsTo`). Writing changes nothing but the terminal
  (`Shell.OnlyWrites`), so an event that edits comes to one pure step (`Shell.edited`).
-/

namespace RouterCli

-- ============================================================================
-- Terminals that take everything
-- ============================================================================

namespace Terminal

/-- The terminal takes whatever is written. -/
def IsOpen (t : Terminal) : Prop :=
  t.room = none

instance (t : Terminal) : Decidable t.IsOpen :=
  inferInstanceAs (Decidable (t.room = none))

/-- The terminal has taken all, and goes on to take whatever is written. -/
def HasTaken (written : Bool × Terminal) : Prop :=
  written.1 = true ∧ written.2.IsOpen

variable {t : Terminal}

theorem IsOpen.put (h : t.IsOpen) (c : Char) : HasTaken (t.put c) := by
  rw [put_of_none h]
  exact ⟨rfl, h⟩

theorem IsOpen.putAll (h : t.IsOpen) (cs : List Char) : HasTaken (t.putAll cs) := by
  have hroom : t.room = none := h
  rw [putAll_eq]
  simp [HasTaken, hasRoomFor, behind, IsOpen, hroom]

theorem IsOpen.write (h : t.IsOpen) (s : String) : HasTaken (t.write s) :=
  h.putAll s.toList

theorem IsOpen.writeText (h : t.IsOpen) (s : String) : HasTaken (t.writeText s) := by
  rw [writeText_eq_putAll]
  exact h.putAll _

end Terminal

namespace Shell

variable {σ κ φ : Type} {α β γ : Type}

-- ============================================================================
-- Writing
-- ============================================================================

/-- The work writes, and does nothing else. Only the terminal stops it, and one that takes
    everything does not. -/
def OnlyWrites (m : ShellWork σ κ φ Unit) : Prop :=
  ∀ sh, ∃ terminal, after m sh = { sh with terminal } ∧
    (∀ e, (run m sh).1 = .error e → e = .terminal) ∧
    (sh.terminal.IsOpen → terminal.IsOpen ∧ (run m sh).1 = .ok ())

namespace OnlyWrites

variable {m m' : ShellWork σ κ φ Unit}

theorem pure : OnlyWrites (Pure.pure () : ShellWork σ κ φ Unit) :=
  fun sh => ⟨sh.terminal, rfl, nofun, fun h => ⟨h, rfl⟩⟩

theorem bind (hm : OnlyWrites m) (hm' : OnlyWrites m') : OnlyWrites (m >>= fun _ => m') := by
  intro sh
  obtain ⟨t, hfirst, hfails, hopen⟩ := hm sh
  unfold after at hfirst ⊢
  rw [run_bind]
  generalize run m sh = done at hfirst hfails hopen ⊢
  obtain ⟨result, sh₁⟩ := done
  obtain rfl : sh₁ = { sh with terminal := t } := hfirst
  cases result with
  | error e =>
    refine ⟨t, rfl, hfails, fun h => ?_⟩
    cases (hopen h).2
  | ok _ =>
    obtain ⟨t', hsecond, hfails', hopen'⟩ := hm' { sh with terminal := t }
    exact ⟨t', hsecond, hfails', fun h => hopen' (hopen h).1⟩

/-- What is written may depend on anything. -/
theorem look {f : Shell σ κ φ → ShellWork σ κ φ Unit} (hf : ∀ sh, OnlyWrites (f sh)) :
    OnlyWrites (getThe (Shell σ κ φ) >>= f) :=
  fun sh => hf sh sh

theorem skipIf (hm : OnlyWrites m) (c : Bool) : OnlyWrites (do unless c do m) := by
  cases c with
  | true => exact pure
  | false => exact hm

theorem writeWith {w : Terminal → Bool × Terminal}
    (hw : ∀ t : Terminal, t.IsOpen → Terminal.HasTaken (w t)) :
    OnlyWrites (Shell.writeWith w : ShellWork σ κ φ Unit) := by
  intro sh
  unfold after
  rw [run_writeWith]
  refine ⟨_, rfl, fun e he => ?_, fun h => ?_⟩
  · dsimp only at he
    split_ifs at he
    exact (Except.error.inj he).symm
  · obtain ⟨htaken, hopen⟩ := hw _ h
    exact ⟨hopen, if_pos htaken⟩

theorem write (s : String) : OnlyWrites (Shell.write s : ShellWork σ κ φ Unit) :=
  writeWith fun _ h => h.write s

theorem put (c : Char) : OnlyWrites (Shell.put c : ShellWork σ κ φ Unit) :=
  writeWith fun _ h => h.put c

theorem writeText (s : String) : OnlyWrites (Shell.writeText s : ShellWork σ κ φ Unit) :=
  writeWith fun _ h => h.writeText s

theorem writeBreak : OnlyWrites (Shell.writeBreak : ShellWork σ κ φ Unit) := write _

/-- A line break may come before, if the text there has none at its end. -/
theorem breakUnless (hm : OnlyWrites m) (c : Bool) :
    OnlyWrites (do
      unless c do Shell.writeBreak
      m) := by
  cases c with
  | true => exact hm
  | false => exact writeBreak.bind hm

theorem writePrompt (p : Program σ κ) :
    OnlyWrites (Shell.writePrompt p : ShellWork σ κ φ Unit) :=
  look fun _ => write _

theorem writePromptAndLine (p : Program σ κ) :
    OnlyWrites (Shell.writePromptAndLine p : ShellWork σ κ φ Unit) :=
  (writePrompt p).bind (look fun sh => (write sh.buffer).skipIf sh.atPasswordPrompt)

theorem redraw (p : Program σ κ) : OnlyWrites (Shell.redraw p : ShellWork σ κ φ Unit) :=
  (write _).bind (writePromptAndLine p)

theorem describeLine (p : Program σ κ) :
    OnlyWrites (Shell.describeLine p : ShellWork σ κ φ Unit) := by
  refine look fun sh => writeBreak.bind ?_
  cases p.describe sh.console.session.node sh.buffer with
  | error e => exact (write _).bind (writePromptAndLine p)
  | ok items => exact (write _).bind (writePromptAndLine p)

end OnlyWrites

-- ============================================================================
-- Editing
-- ============================================================================

/-- The work takes one shell to another, but for what is written. -/
def LeadsTo (m : ShellWork σ κ φ Unit) (sh target : Shell σ κ φ) : Prop :=
  ∃ terminal, after m sh = { target with terminal } ∧ (sh.terminal.IsOpen → terminal.IsOpen)

theorem OnlyWrites.leadsTo {m : ShellWork σ κ φ Unit} (h : OnlyWrites m) (sh : Shell σ κ φ) :
    LeadsTo m sh sh := by
  obtain ⟨t, hafter, -, hopen⟩ := h sh
  exact ⟨t, hafter, fun h => (hopen h).1⟩

theorem LeadsTo.look {f : Shell σ κ φ → ShellWork σ κ φ Unit} {sh target : Shell σ κ φ}
    (h : LeadsTo (f sh) sh target) : LeadsTo (getThe (Shell σ κ φ) >>= f) sh target :=
  h

theorem LeadsTo.modify {g : Shell σ κ φ → Shell σ κ φ} {m : ShellWork σ κ φ Unit}
    {sh target : Shell σ κ φ} (hterminal : (g sh).terminal = sh.terminal)
    (h : LeadsTo m (g sh) target) :
    LeadsTo (modifyThe (Shell σ κ φ) g >>= fun _ => m) sh target := by
  unfold LeadsTo at h ⊢
  rwa [hterminal] at h

/-- The text that completion puts in the place of a word, if it does. -/
def insertion? : Completion → Option String
  | .full keyword => some (keyword ++ " ")
  | .shared start => some start
  | .choices _ => none

/-- There is room for the line. -/
def Fits (limits : Limits) (line : String) : Prop :=
  line.utf8ByteSize ≤ limits.input ∧ line.utf8ByteSize ≤ Limits.bufferSize

instance (limits : Limits) (line : String) : Decidable (Fits limits line) :=
  inferInstanceAs (Decidable (_ ∧ _))

theorem extend?_eq (limits : Limits) (buffer text : String) :
    extend? limits buffer text =
      if Fits limits (buffer ++ text) then some (buffer ++ text) else none := by
  have hfits : Fits limits (buffer ++ text) ↔
      buffer.utf8ByteSize + text.utf8ByteSize ≤ limits.input ∧
        buffer.utf8ByteSize + text.utf8ByteSize ≤ Limits.bufferSize := by
    unfold Fits
    rw [String.utf8ByteSize_append]
  rcases extend?_cases limits buffer text with ⟨hextend, hroom⟩ | ⟨hextend, hroom⟩
  · rw [hextend, if_neg (mt hfits.1 hroom)]
  · rw [hextend, if_pos (hfits.2 hroom)]

theorem extend?_eq_some_iff {limits : Limits} {buffer text line : String} :
    extend? limits buffer text = some line ↔
      Fits limits (buffer ++ text) ∧ line = buffer ++ text := by
  rw [extend?_eq]
  split_ifs with hfits
  · simp [hfits, eq_comm]
  · simp [hfits]

/-- The line without the word under the cursor. -/
def stem (line : String) : String :=
  String.ofList (line.toList.reverse.dropWhile (!Text.isBlank ·)).reverse

theorem eq_stem_of_beforeWord? {line before : String} (h : beforeWord? line = some before) :
    before = stem line := by
  unfold beforeWord? at h
  dsimp only at h
  split_ifs at h
  exact (Option.some.inj h).symm

/-- The line with a text in the place of the word under the cursor, where the line can
    be cut and has room for it. -/
def withWord (limits : Limits) (line text : String) : String :=
  ((beforeWord? line).bind (extend? limits · text)).getD line

/-- The line behind the completion of its last word. -/
def completed (p : Program σ κ) (sh : Shell σ κ φ) : String :=
  match p.complete sh.console.session.node sh.buffer with
  | .ok completion => ((insertion? completion).map (withWord p.limits sh.buffer)).getD sh.buffer
  | .error _ => sh.buffer

/-- The line behind one more character, if there is room for it. -/
def withChar (limits : Limits) (line : String) (c : Char) : String :=
  (extend? limits line (String.singleton c)).getD line

/-- What an event makes of a shell before anything is run or checked, and but for what is
    written. -/
def edited (p : Program σ κ) (sh : Shell σ κ φ) : InputEvent → Shell σ κ φ
  | .char c => { sh with buffer := withChar p.limits sh.buffer c }
  | .backspace => { sh with buffer := String.ofList sh.buffer.toList.dropLast }
  | .doubleEscape | .killLine | .enter => sh.clearBuffer
  | .interrupt => { sh with buffer := "", history := sh.history.resetPosition }
  | .suspend =>
    if sh.atPasswordPrompt then sh
    else { sh with buffer := "", history := sh.history.resetPosition }
  | .help =>
    if sh.atPasswordPrompt then { sh with buffer := withChar p.limits sh.buffer '?' } else sh
  | .tab => if sh.atPasswordPrompt then sh else { sh with buffer := completed p sh }
  | .up =>
    if sh.atPasswordPrompt then sh
    else
      match sh.history.previous with
      | (none, _) => sh
      | (some buffer, history) => { sh with buffer, history }
  | .down =>
    if sh.atPasswordPrompt || !sh.history.isNavigating then sh
    else { sh with buffer := sh.history.next.1.getD "", history := sh.history.next.2 }
  | .none | .endOfInput => sh

theorem typeChar_leadsTo (p : Program σ κ) (c : Char) (sh : Shell σ κ φ) :
    LeadsTo (typeChar p c) sh { sh with buffer := withChar p.limits sh.buffer c } := by
  refine LeadsTo.look ?_
  unfold withChar
  cases extend? p.limits sh.buffer (String.singleton c) with
  | none => exact (OnlyWrites.put bell).leadsTo sh
  | some buffer =>
    exact ((OnlyWrites.put c).skipIf sh.atPasswordPrompt).leadsTo { sh with buffer }

theorem backspace_leadsTo (sh : Shell σ κ φ) :
    LeadsTo backspace sh { sh with buffer := String.ofList sh.buffer.toList.dropLast } := by
  refine LeadsTo.look ?_
  dsimp only
  cases hempty : sh.buffer.toList.isEmpty with
  | true =>
    have hnil : sh.buffer.toList = [] := List.isEmpty_iff.1 hempty
    have hsame : String.ofList sh.buffer.toList.dropLast = sh.buffer := by
      rw [hnil, List.dropLast_nil, ← hnil, String.ofList_toList]
    rw [hsame]
    exact OnlyWrites.pure.leadsTo sh
  | false =>
    exact ((OnlyWrites.write "\x08 \x08").skipIf sh.atPasswordPrompt).leadsTo
      { sh with buffer := String.ofList sh.buffer.toList.dropLast }

theorem recallPrevious_leadsTo (p : Program σ κ) (sh : Shell σ κ φ) :
    LeadsTo (recallPrevious p) sh (edited p sh .up) := by
  refine LeadsTo.look ?_
  dsimp only [edited]
  cases sh.atPasswordPrompt with
  | true => exact OnlyWrites.pure.leadsTo sh
  | false =>
    cases sh.history.previous with
    | mk line history =>
      cases line with
      | none => exact OnlyWrites.pure.leadsTo sh
      | some buffer => exact (OnlyWrites.redraw p).leadsTo { sh with buffer, history }

theorem recallNext_leadsTo (p : Program σ κ) (sh : Shell σ κ φ) :
    LeadsTo (recallNext p) sh (edited p sh .down) := by
  refine LeadsTo.look ?_
  dsimp only [edited]
  cases sh.atPasswordPrompt || !sh.history.isNavigating with
  | true => exact OnlyWrites.pure.leadsTo sh
  | false =>
    exact (OnlyWrites.redraw p).leadsTo
      { sh with buffer := sh.history.next.1.getD "", history := sh.history.next.2 }

theorem replaceWord_leadsTo (p : Program σ κ) (text : String) (sh : Shell σ κ φ) :
    LeadsTo (replaceWord p text) sh { sh with buffer := withWord p.limits sh.buffer text } := by
  refine LeadsTo.look ?_
  unfold withWord
  cases beforeWord? sh.buffer with
  | none => exact ⟨sh.terminal, rfl, id⟩
  | some before =>
    dsimp only [Option.bind_some]
    cases extend? p.limits before text with
    | none => exact (OnlyWrites.put bell).leadsTo sh
    | some buffer => exact (OnlyWrites.redraw p).leadsTo { sh with buffer }

theorem completeWord_leadsTo (p : Program σ κ) (sh : Shell σ κ φ) :
    LeadsTo (completeWord p) sh (edited p sh .tab) := by
  refine LeadsTo.look ?_
  dsimp only [edited, completed]
  cases sh.atPasswordPrompt with
  | true => exact OnlyWrites.pure.leadsTo sh
  | false =>
    rcases p.complete sh.console.session.node sh.buffer with e | completion
    · have hcomplaint : OnlyWrites (do
          Shell.writeBreak
          Shell.write (helpComplaint e)
          Shell.writeBreak
          Shell.writePromptAndLine p : ShellWork σ κ φ Unit) :=
        .bind .writeBreak (.bind (.write _) (.bind .writeBreak (.writePromptAndLine p)))
      cases e with
      | nothingToDo => exact (OnlyWrites.bind .writeBreak (.writePromptAndLine p)).leadsTo sh
      | _ => exact hcomplaint.leadsTo sh
    · cases completion with
      | full keyword => exact replaceWord_leadsTo p (keyword ++ " ") sh
      | shared start => exact replaceWord_leadsTo p start sh
      | choices keywords =>
        exact (OnlyWrites.bind .writeBreak (.bind (.write _) (.writePromptAndLine p))).leadsTo sh

theorem help_leadsTo (p : Program σ κ) (sh : Shell σ κ φ) :
    LeadsTo (help p) sh (edited p sh .help) := by
  refine LeadsTo.look ?_
  dsimp only [edited]
  split_ifs
  · exact typeChar_leadsTo p '?' sh
  · exact (OnlyWrites.describeLine p).leadsTo sh

theorem interrupt_leadsTo (p : Program σ κ) (sh : Shell σ κ φ) :
    LeadsTo (interrupt p) sh (edited p sh .interrupt) :=
  .modify rfl ((OnlyWrites.bind .writeBreak (.writePrompt p)).leadsTo _)

theorem killLine_leadsTo (p : Program σ κ) (sh : Shell σ κ φ) :
    LeadsTo (killLine p) sh sh.clearBuffer :=
  .modify rfl ((OnlyWrites.redraw p).leadsTo _)

variable [FileStore φ]

/-- All events but three do no more than edit the line. -/
theorem handle_leadsTo (p : Program σ κ) (sh : Shell σ κ φ) {event : InputEvent}
    (hevent : event ∉ [.enter, .suspend, .endOfInput]) :
    LeadsTo (handle p event) sh (edited p sh event) := by
  cases event with
  | none => exact OnlyWrites.pure.leadsTo sh
  | char c => exact typeChar_leadsTo p c sh
  | backspace => exact backspace_leadsTo sh
  | tab => exact completeWord_leadsTo p sh
  | help => exact help_leadsTo p sh
  | up => exact recallPrevious_leadsTo p sh
  | down => exact recallNext_leadsTo p sh
  | doubleEscape | killLine => exact killLine_leadsTo p sh
  | interrupt => exact interrupt_leadsTo p sh
  | enter | suspend | endOfInput => simp at hevent

-- ============================================================================
-- A small console
-- ============================================================================

/-- One command. -/
def enableOnly : Program Unit Unit where
  registry := ({ app := ⟨"bsc", "1.0", none⟩ : Registry }.installAll
    [.node { id := .view, prompt := "%s> " },
      .command .view { action := .builtin .enable, pattern := "enable", doc := "Enable\n" }]).1
  application := .none

/-- A shell without passwords, in the middle of a line. -/
def inLine (buffer : String) : Shell Unit Unit FileTree :=
  { atLogin with
    console := { atLogin.console with host := {}, session := { node := .view } }
    buffer }

end Shell

end RouterCli
