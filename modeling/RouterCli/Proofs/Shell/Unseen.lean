import RouterCli.Proofs.Shell.Privilege

/-!
  RouterCli.Proofs.Shell.Unseen

  A password prompt gives away nothing of what is typed there but the lengths of its
  characters and whether it is accepted (`Shell.feed_unseen`). Two shells that differ in
  the line alone, and not in its size, go on to do so with every pair of characters of
  one size (`Shell.Alike.takeUnseen`): a character goes into the line unseen, or is
  refused with a bell, which the size decides. The end of the line looks at no more of
  it than whether it is accepted (`Shell.after_enter_of_prompt`).
-/

namespace RouterCli.Shell

variable {σ κ φ : Type} {α β : Type}

-- ============================================================================
-- Characters at a password prompt
-- ============================================================================

/-- The shell listens at a password prompt, outside of escape sequences. -/
structure AwaitsPassword (sh : Shell σ κ φ) : Prop where
  active : sh.phase = .active
  prompt : sh.atPasswordPrompt = true
  normal : sh.decoder.escape = .normal

/-- A character goes into the line, or the bell refuses it. -/
def takeUnseen (p : Program σ κ) (sh : Shell σ κ φ) (c : Char) : Shell σ κ φ :=
  match extend? p.limits sh.buffer (String.singleton c) with
  | none => { sh with terminal := (sh.terminal.put bell).2 }
  | some buffer => { sh with buffer }

theorem after_typeChar_of_prompt (p : Program σ κ) (c : Char) {sh : Shell σ κ φ}
    (hprompt : sh.atPasswordPrompt = true) : after (typeChar p c) sh = takeUnseen p sh c := by
  unfold typeChar takeUnseen
  rw [after_get_bind]
  cases extend? p.limits sh.buffer (String.singleton c) with
  | none =>
    unfold after put
    rw [run_writeWith]
  | some buffer =>
    dsimp only
    rw [after_set_bind, hprompt]
    rfl

theorem console_takeUnseen (p : Program σ κ) (sh : Shell σ κ φ) (c : Char) :
    (takeUnseen p sh c).console = sh.console := by
  unfold takeUnseen
  split <;> rfl

/-- The decoder is done with the characters before. -/
def settled (sh : Shell σ κ φ) : Shell σ κ φ :=
  { sh with decoder := {} }

theorem AwaitsPassword.takeUnseen (p : Program σ κ) {sh : Shell σ κ φ}
    (h : sh.AwaitsPassword) (c : Char) : (takeUnseen p sh.settled c).AwaitsPassword := by
  unfold Shell.takeUnseen
  split <;> exact ⟨h.active, h.prompt, rfl⟩

/-- A character that is no control character is what it is, or the question mark. -/
theorem normalEvent_of_printable (afterReturn : Bool) {c : Char}
    (hc : Text.isControl c = false) :
    Decoder.normalEvent afterReturn c = .char c ∨
      c = '?' ∧ Decoder.normalEvent afterReturn c = .help := by
  unfold Decoder.normalEvent
  split
  case h_4 => exact .inr ⟨rfl, rfl⟩
  case h_11 => exact .inl (if_neg (by simp [hc]))
  all_goals exact absurd hc (by decide)

-- ============================================================================
-- Two lines of one size
-- ============================================================================

/-- Two shells differ in the line alone, and not in its size. -/
structure Alike (sh₁ sh₂ : Shell σ κ φ) : Prop where
  same : sh₁.clearBuffer = sh₂.clearBuffer
  size : sh₁.buffer.utf8ByteSize = sh₂.buffer.utf8ByteSize

theorem Alike.refl (sh : Shell σ κ φ) : Alike sh sh := ⟨rfl, rfl⟩

theorem extend?_cases (limits : Limits) (buffer text : String) :
    extend? limits buffer text = none ∧
        ¬(buffer.utf8ByteSize + text.utf8ByteSize ≤ limits.input ∧
          buffer.utf8ByteSize + text.utf8ByteSize ≤ Limits.bufferSize) ∨
      extend? limits buffer text = some (buffer ++ text) ∧
        (buffer.utf8ByteSize + text.utf8ByteSize ≤ limits.input ∧
          buffer.utf8ByteSize + text.utf8ByteSize ≤ Limits.bufferSize) := by
  unfold extend?
  dsimp only
  split
  · rename_i h
    exact .inr ⟨rfl, by simpa using h⟩
  · rename_i h
    exact .inl ⟨rfl, by simpa using h⟩

/-- Whether a character is refused depends on sizes, and so does the size of the line. -/
theorem Alike.takeUnseen (p : Program σ κ) {sh₁ sh₂ : Shell σ κ φ} (h : Alike sh₁ sh₂)
    {c₁ c₂ : Char} (hsize : c₁.utf8Size = c₂.utf8Size) :
    Alike (takeUnseen p sh₁ c₁) (takeUnseen p sh₂ c₂) := by
  have hsum : sh₁.buffer.utf8ByteSize + (String.singleton c₁).utf8ByteSize =
      sh₂.buffer.utf8ByteSize + (String.singleton c₂).utf8ByteSize := by
    rw [String.utf8ByteSize_singleton, String.utf8ByteSize_singleton, h.size, hsize]
  have hterminal : sh₁.terminal = sh₂.terminal := congrArg (·.terminal) h.same
  unfold Shell.takeUnseen
  rcases extend?_cases p.limits sh₁.buffer (String.singleton c₁) with
    ⟨h₁, hfull₁⟩ | ⟨h₁, hroom₁⟩ <;>
  rcases extend?_cases p.limits sh₂.buffer (String.singleton c₂) with
    ⟨h₂, hfull₂⟩ | ⟨h₂, hroom₂⟩ <;>
  rw [h₁, h₂]
  · refine ⟨?_, h.size⟩
    show { sh₁.clearBuffer with terminal := (sh₁.terminal.put bell).2 } =
      { sh₂.clearBuffer with terminal := (sh₂.terminal.put bell).2 }
    rw [h.same, hterminal]
  · exact absurd (hsum ▸ hroom₂) hfull₁
  · exact absurd (hsum ▸ hroom₁) hfull₂
  · refine ⟨h.same, ?_⟩
    rw [String.utf8ByteSize_append, String.utf8ByteSize_append]
    exact hsum

theorem Alike.settled {sh₁ sh₂ : Shell σ κ φ} (h : Alike sh₁ sh₂) :
    Alike sh₁.settled sh₂.settled :=
  ⟨congrArg Shell.settled h.same, h.size⟩

theorem Alike.foldl_takeUnseen (p : Program σ κ) {sh₁ sh₂ : Shell σ κ φ} (h : Alike sh₁ sh₂)
    {typed₁ typed₂ : List Char} (hsizes : typed₁.map Char.utf8Size = typed₂.map Char.utf8Size) :
    Alike (typed₁.foldl (fun sh c => Shell.takeUnseen p sh.settled c) sh₁)
      (typed₂.foldl (fun sh c => Shell.takeUnseen p sh.settled c) sh₂) := by
  induction typed₁ generalizing sh₁ sh₂ typed₂ with
  | nil =>
    obtain rfl := List.map_eq_nil_iff.1 hsizes.symm
    exact h
  | cons c₁ rest₁ ih =>
    cases typed₂ with
    | nil => cases hsizes
    | cons c₂ rest₂ =>
      rw [List.map_cons, List.map_cons, List.cons.injEq] at hsizes
      exact ih (h.settled.takeUnseen p hsizes.1) hsizes.2

-- ============================================================================
-- Work that pays no heed to the decoder
-- ============================================================================

/-- The work does the same whatever the decoder remembers, and leaves it alone. -/
def Blind (m : ShellWork σ κ φ α) : Prop :=
  ∀ sh decoder, run m { sh with decoder } = ((run m sh).1, { (run m sh).2 with decoder })

namespace Blind

theorem bind {m : ShellWork σ κ φ α} {f : α → ShellWork σ κ φ β} (hm : Blind m)
    (hf : ∀ a, Blind (f a)) : Blind (m >>= f) := by
  intro sh decoder
  rw [run_bind, run_bind, hm sh decoder]
  obtain ⟨_ | a, sh'⟩ := run m sh
  · rfl
  · exact hf a sh' decoder

theorem modify {g : Shell σ κ φ → Shell σ κ φ}
    (hg : ∀ sh decoder, g { sh with decoder } = { g sh with decoder }) :
    Blind (modifyThe (Shell σ κ φ) g : ShellWork σ κ φ PUnit) := by
  intro sh decoder
  exact congrArg (fun sh' => (Except.ok PUnit.unit, sh')) (hg sh decoder)

/-- What is looked at may be anything but the decoder. -/
theorem look {f : Shell σ κ φ → ShellWork σ κ φ α} (hf : ∀ sh, Blind (f sh))
    (hsame : ∀ sh decoder, f { sh with decoder } = f sh) :
    Blind (getThe (Shell σ κ φ) >>= f) := by
  intro sh decoder
  rw [run_get_bind, run_get_bind, hsame]
  exact hf sh sh decoder

theorem writeWith (w : Terminal → Bool × Terminal) :
    Blind (Shell.writeWith w : ShellWork σ κ φ Unit) := by
  intro sh decoder
  rw [run_writeWith, run_writeWith]

theorem write (s : String) : Blind (Shell.write s : ShellWork σ κ φ Unit) := .writeWith _

theorem writePrompt (p : Program σ κ) : Blind (Shell.writePrompt p : ShellWork σ κ φ Unit) :=
  .look (fun _ => write _) fun _ _ => rfl

end Blind

-- ============================================================================
-- Typing
-- ============================================================================

variable [FileStore φ]

/-- At a password prompt every character is taken unseen, the question mark included. -/
theorem after_process_of_prompt (p : Program σ κ) {c : Char} (hc : Text.isControl c = false)
    {sh : Shell σ κ φ} (h : sh.AwaitsPassword) :
    after (process p c) sh = takeUnseen p sh.settled c := by
  have hescape : c ≠ '\x1b' := by
    rintro rfl
    exact absurd hc (by decide)
  have hreturn : (c == '\r') = false := by
    rw [beq_eq_false_iff_ne]
    rintro rfl
    exact absurd hc (by decide)
  have hfeed : sh.decoder.feed c = (Decoder.normalEvent sh.decoder.afterReturn c, {}) := by
    rw [Decoder.feed, h.normal]
    simp only [if_neg hescape, hreturn]
  rw [after_process, if_pos h.active, hfeed]
  have hprompt : sh.settled.atPasswordPrompt = true := h.prompt
  rcases normalEvent_of_printable sh.decoder.afterReturn hc with hevent | ⟨rfl, hevent⟩
  · rw [hevent]
    exact after_typeChar_of_prompt p c hprompt
  · rw [hevent, handle, help, after_get_bind]
    exact (congrArg (after · _) (if_pos hprompt)).trans (after_typeChar_of_prompt p '?' hprompt)

theorem feed_of_prompt (p : Program σ κ) {typed : List Char}
    (htyped : ∀ c ∈ typed, Text.isControl c = false) {sh : Shell σ κ φ}
    (h : sh.AwaitsPassword) :
    feed p sh typed = typed.foldl (fun sh c => takeUnseen p sh.settled c) sh ∧
      (feed p sh typed).AwaitsPassword ∧ (feed p sh typed).console = sh.console := by
  induction typed generalizing sh with
  | nil => exact ⟨rfl, h, rfl⟩
  | cons c rest ih =>
    have hstep := after_process_of_prompt p (htyped c List.mem_cons_self) h
    obtain ⟨hfeed, hawaits, hconsole⟩ :=
      ih (fun d hd => htyped d (List.mem_cons_of_mem c hd)) (h.takeUnseen p c)
    unfold feed at hfeed hawaits hconsole ⊢
    rw [List.foldl_cons, List.foldl_cons, hstep]
    exact ⟨hfeed, hawaits, hconsole.trans (console_takeUnseen p sh.settled c)⟩

-- ============================================================================
-- The end of a line
-- ============================================================================

namespace Blind

theorem rejectPassword (p : Program σ κ) :
    Blind (Shell.rejectPassword p : ShellWork σ κ φ Unit) := by
  unfold Shell.rejectPassword
  refine (modify fun _ _ => rfl).bind fun _ => .look (fun sh => ?_) fun _ _ => rfl
  dsimp only
  split_ifs
  · exact (modify fun _ _ => rfl).bind fun _ => (write _).bind fun _ => modify fun _ _ => rfl
  · exact (write _).bind fun _ => modify fun _ _ => rfl
  · exact fun _ _ => rfl

theorem closeOrPrompt (p : Program σ κ) :
    Blind (Shell.closeOrPrompt p : ShellWork σ κ φ Unit) := by
  intro sh decoder
  unfold Shell.closeOrPrompt
  rw [run_get_bind, run_get_bind]
  dsimp only
  split_ifs
  · rfl
  · exact writePrompt p sh decoder

end Blind

/-- The session moves on, or the failure counts. -/
def takeVerdict (p : Program σ κ) (accepted : Bool) : ShellWork σ κ φ Unit :=
  if accepted then modifyThe (Shell σ κ φ) acceptPassword else rejectPassword p

/-- What the end of a line comes to at a password prompt, once the line is taken away. -/
def conclude (p : Program σ κ) (accepted : Bool) : ShellWork σ κ φ Unit := do
  writeBreak
  takeVerdict p accepted
  closeOrPrompt p

theorem run_checkPassword (p : Program σ κ) (input : String) (sh : Shell σ κ φ) :
    run (checkPassword p input) sh =
      run (takeVerdict p (acceptsAt sh.console.host sh.console.session.node input)) sh := by
  unfold checkPassword takeVerdict
  rw [run_get_bind]
  split_ifs <;> rfl

/-- Of a line at a password prompt nothing counts but whether it is accepted. -/
theorem after_enter_of_prompt (p : Program σ κ) {sh : Shell σ κ φ}
    (hprompt : sh.atPasswordPrompt = true) :
    after (enter p) sh =
      after (conclude p (acceptsAt sh.console.host sh.console.session.node sh.buffer))
        sh.clearBuffer := by
  unfold enter conclude
  rw [after_get_bind, after_set_bind, after_writeBreak_bind, after_writeBreak_bind]
  dsimp only
  rw [if_pos hprompt]
  unfold after
  rw [run_bind, run_bind, run_checkPassword]
  rfl

theorem Blind.conclude (p : Program σ κ) (accepted : Bool) :
    Blind (Shell.conclude p accepted : ShellWork σ κ φ Unit) := by
  refine (Blind.write _).bind fun _ => .bind ?_ fun _ => .closeOrPrompt p
  unfold takeVerdict
  split_ifs
  · exact .modify fun _ _ => rfl
  · exact .rejectPassword p

-- ============================================================================
-- Two runs
-- ============================================================================

/-- Enter, at a password prompt: the line is taken away, and what follows depends on
    whether it was accepted. -/
theorem after_process_enter (p : Program σ κ) {sh : Shell σ κ φ} (h : sh.AwaitsPassword)
    {e : Char} (he : (sh.decoder.feed e).1 = .enter) :
    after (process p e) sh =
      { after (conclude p (acceptsAt sh.console.host sh.console.session.node sh.buffer))
          sh.clearBuffer.settled with
        decoder := (sh.decoder.feed e).2 } := by
  have hprompt : ({ sh with decoder := (sh.decoder.feed e).2 } : Shell σ κ φ).atPasswordPrompt =
      true := h.prompt
  rw [after_process, if_pos h.active, he, handle]
  refine (after_enter_of_prompt p hprompt).trans ?_
  exact congrArg Prod.snd (Blind.conclude p _ sh.clearBuffer.settled (sh.decoder.feed e).2)

/-- Two lines are typed at a password prompt, alike in the sizes of their characters and
    in whether they are accepted. Behind them the shell is the same: on the terminal
    stands the same, and the session, the host, the history, the line and the shell's
    phase are the same. -/
theorem feed_unseen (p : Program σ κ) {sh : Shell σ κ φ} (h : sh.AwaitsPassword)
    {typed₁ typed₂ : List Char} (h₁ : ∀ c ∈ typed₁, Text.isControl c = false)
    (h₂ : ∀ c ∈ typed₂, Text.isControl c = false)
    (hsizes : typed₁.map Char.utf8Size = typed₂.map Char.utf8Size) {e₁ e₂ : Char}
    (he₁ : ((feed p sh typed₁).decoder.feed e₁).1 = .enter)
    (he₂ : ((feed p sh typed₂).decoder.feed e₂).1 = .enter)
    (haccepted : acceptsAt sh.console.host sh.console.session.node (feed p sh typed₁).buffer =
      acceptsAt sh.console.host sh.console.session.node (feed p sh typed₂).buffer) :
    let done₁ := feed p sh (typed₁ ++ [e₁])
    let done₂ := feed p sh (typed₂ ++ [e₂])
    (done₁.console = done₂.console ∧ done₁.terminal = done₂.terminal ∧
      done₁.history = done₂.history ∧ done₁.buffer = done₂.buffer ∧
      done₁.phase = done₂.phase) ∧ (e₁ = e₂ → done₁ = done₂) := by
  obtain ⟨hfeed₁, hawaits₁, hconsole₁⟩ := feed_of_prompt p h₁ h
  obtain ⟨hfeed₂, hawaits₂, hconsole₂⟩ := feed_of_prompt p h₂ h
  have halike : Alike (feed p sh typed₁) (feed p sh typed₂) := by
    rw [hfeed₁, hfeed₂]
    exact (Alike.refl sh).foldl_takeUnseen p hsizes
  have hdone : ∀ typed e, feed p sh (typed ++ [e]) = after (process p e) (feed p sh typed) := by
    intro typed e
    rw [feed, List.foldl_append]
    rfl
  intro done₁ done₂
  have hdone₁ : done₁ = _ := (hdone typed₁ e₁).trans (after_process_enter p hawaits₁ he₁)
  have hdone₂ : done₂ = _ := (hdone typed₂ e₂).trans (after_process_enter p hawaits₂ he₂)
  have hsettled : (feed p sh typed₁).clearBuffer.settled = (feed p sh typed₂).clearBuffer.settled :=
    congrArg settled halike.same
  have hdecoder : (feed p sh typed₁).decoder = (feed p sh typed₂).decoder :=
    congrArg (·.decoder) halike.same
  rw [hconsole₁, haccepted, hsettled] at hdone₁
  rw [hconsole₂] at hdone₂
  rw [hdone₁, hdone₂]
  refine ⟨⟨rfl, rfl, rfl, rfl, rfl⟩, ?_⟩
  rintro rfl
  rw [hdecoder]

/-- The nodes of a login. -/
def loginOnly : Program Unit Unit where
  registry := ({ app := ⟨"bsc", "1.0", none⟩ : Registry }.installAll
    [.node { id := .auth, prompt := "Password: " }, .node { id := .view, prompt := "%s> " }]).1
  application := .none

/-- A shell at the login of a host with a password. -/
def atLogin : Shell Unit Unit FileTree where
  console :=
    { host := { password := some (.plain "pàw?") }
      app := ()
      world := { files := ⟨[]⟩, salts := { draw := fun _ => none } }
      session := { node := .auth } }
  phase := .active
  history := History.withLimit Limits.historySize Limits.bufferSize Limits.historySize

/-- Two wrong passwords, each with a character of two bytes in the same place. -/
theorem feed_unseen_atLogin :
    let done₁ := feed loginOnly atLogin (['n', 'é', '?'] ++ ['\r'])
    let done₂ := feed loginOnly atLogin (['p', 'à', 'w'] ++ ['\n'])
    atLogin.AwaitsPassword ∧ atLogin.console.host.acceptsLogin "né?" = false ∧
      done₁.terminal.written = "\r\nPassword: " ∧
      done₁.terminal = done₂.terminal ∧ done₁.history = done₂.history ∧
      done₁.console = done₂.console := by
  intro done₁ done₂
  have hawaits : atLogin.AwaitsPassword := ⟨rfl, rfl, rfl⟩
  have hdone : done₁.console = done₂.console ∧ done₁.terminal = done₂.terminal ∧
      done₁.history = done₂.history ∧ done₁.buffer = done₂.buffer ∧
      done₁.phase = done₂.phase :=
    (feed_unseen loginOnly hawaits (by simp [Text.isControl]) (by simp [Text.isControl])
      (by decide) (by decide +kernel) (by decide +kernel) (by decide +kernel)).1
  exact ⟨hawaits, by decide +kernel, by decide +kernel, hdone.2.1, hdone.2.2.1, hdone.1⟩

end RouterCli.Shell
