import RouterCli.Proofs.Command.ConfigLines
import RouterCli.Proofs.Console.OffsideReplay

/-!
  RouterCli.Proofs.Console.Takes

  Lines without indentation that a terminal runs one after the other, each to
  full success. Runs are put together line by line (`Takes.append`), and a line
  is run as the command that it means (`takes_line`).
-/

namespace RouterCli

open Text

-- ============================================================================
-- Lines at the margin
-- ============================================================================

/-- Words with spaces between them are a line at the margin. -/
theorem Line.parseIndented_unwords {w : String} {ws : List String}
    (h : ∀ v ∈ w :: ws, IsWord v)
    (hhead : w.toList.head? ≠ some '!' ∧ w.toList.head? ≠ some '#') :
    parseIndented (unwords (w :: ws)) = .ok ⟨"", w :: ws⟩ := by
  have hw := h w List.mem_cons_self
  obtain ⟨c, cs, hc⟩ := List.exists_cons_of_ne_nil hw.toList_ne_nil
  have hblank : isBlank c = false := hw.2 c (by simp [hc])
  have hspace : c ≠ ' ' := by
    rintro rfl
    exact Bool.noConfusion hblank
  have hbreak : isLineBreak c = false := hw.isLineBreak (by simp [hc])
  have htext : ∃ rest, (unwords (w :: ws)).toList = c :: rest := by
    cases ws with
    | nil => exact ⟨cs, by rw [unwords_singleton, hc]⟩
    | cons v vs => exact ⟨_, by rw [unwords_cons_cons]; simp [hc]; rfl⟩
  obtain ⟨rest, hrest⟩ := htext
  have hsplit : splitIndent 0 (c :: rest) = .ok (0, c :: rest) := by
    rw [splitIndent, if_neg hspace, hbreak, hblank]
    rfl
  have hwords : wordsOf (c :: rest) = w :: ws := by
    rw [hc, List.head?_cons] at hhead
    rw [wordsOf_cons, if_neg, ← hrest]
    · exact words_unwords h
    · rintro (rfl | rfl)
      · exact hhead.1 rfl
      · exact hhead.2 rfl
  rw [parseIndented, hrest, hsplit]
  simp [Except.map, hwords, spaces]

-- ============================================================================
-- Runs
-- ============================================================================

/-- The session stands where a configuration text begins, or behind a line at
    its margin that opened no level. -/
structure Session.AtMargin {κ : Type} (s : Session κ) : Prop where
  node : s.node = .config
  parents : s.parents = []
  /-- There is no indentation, or none is recorded. -/
  indent : s.indent = none ∨ s.indent = some ""

namespace Program

variable {σ κ φ : Type} [FileStore φ]

/-- The program is a terminal without commands of an application. -/
def IsTerminal (p : Program σ κ) : Prop :=
  (∃ app, p.registry = terminalRegistry app) ∧ p.limits = .standard

/-- A terminal with these settings in this world takes the lines, each to full
    success, and comes to other settings in another world. -/
structure Takes (p : Program σ κ) (host : Host) (world : World φ) (lines : List String)
    (host' : Host) (world' : World φ) : Prop where
  plain : ∀ line ∈ lines, ∀ ch ∈ line.toList, isLineBreak ch = false
  /-- They are run whatever session they find. -/
  run : ∀ c : Console σ κ φ, c.host = host → c.world = world → c.session.AtMargin →
    ∃ c' : Console σ κ φ, (c'.host = host' ∧ c'.world = world' ∧ c'.session.AtMargin) ∧
      ∀ number, p.replayFrom number c lines = (.ok (), c') ∧
        ∀ d ∈ p.replayLog number c lines, d.outcome = .ok .success

variable {p : Program σ κ} {host host' host'' : Host} {world world' world'' : World φ}

theorem Takes.nil : p.Takes host world [] host world := by
  refine ⟨by simp, ?_⟩
  intro c hhost hworld hc
  exact ⟨c, ⟨hhost, hworld, hc⟩, fun number => ⟨rfl, by simp [replayLog]⟩⟩

theorem Takes.of_eq (h : host' = host) : p.Takes host world [] host' world := by
  rw [h]
  exact .nil

theorem replayFrom_append {number : Nat} {c c' : Console σ κ φ} {lines : List String}
    (h : p.replayFrom number c lines = (.ok (), c')) (more : List String) :
    p.replayFrom number c (lines ++ more) = p.replayFrom (number + lines.length) c' more ∧
      p.replayLog number c (lines ++ more) =
        p.replayLog number c lines ++ p.replayLog (number + lines.length) c' more := by
  induction lines generalizing number c with
  | nil =>
    cases h
    exact ⟨rfl, rfl⟩
  | cons line rest ih =>
    rw [List.cons_append, replayFrom, replayLog, replayLog]
    rw [replayFrom] at h
    rcases hline : p.replayLine number line c with ⟨_ | _, c₁⟩
    · simp [hline] at h
    · simp only [hline] at h ⊢
      obtain ⟨hrun, hlog⟩ := ih h
      have hnumber : number + (line :: rest).length = number + 1 + rest.length := by
        rw [List.length_cons]
        omega
      rw [hnumber, hrun, hlog, List.append_assoc]
      exact ⟨rfl, rfl⟩

/-- One run after the other. -/
theorem Takes.append {lines more : List String} (h : p.Takes host world lines host' world')
    (h' : p.Takes host' world' more host'' world'') :
    p.Takes host world (lines ++ more) host'' world'' := by
  refine ⟨List.forall_mem_append.2 ⟨h.plain, h'.plain⟩, ?_⟩
  intro c hhost hworld hc
  obtain ⟨c₁, ⟨hhost₁, hworld₁, hc₁⟩, hrun₁⟩ := h.run c hhost hworld hc
  obtain ⟨c₂, hc₂, hrun₂⟩ := h'.run c₁ hhost₁ hworld₁ hc₁
  refine ⟨c₂, hc₂, fun number => ?_⟩
  obtain ⟨hrun, hlog⟩ := replayFrom_append (hrun₁ number).1 more
  rw [hrun, hlog]
  refine ⟨(hrun₂ _).1, ?_⟩
  intro d hd
  rcases List.mem_append.1 hd with hd | hd
  · exact (hrun₁ number).2 d hd
  · exact (hrun₂ _).2 d hd

-- ============================================================================
-- One line
-- ============================================================================

/-- A line at the margin stays there, and the margin is recorded. -/
theorem align_atMargin (p : Program σ κ) (app : σ) {s : Session κ} (h : s.AtMargin) :
    p.align app "" s = (true, s.setIndent (some "")) := by
  unfold align
  rcases h.indent with hindent | hindent
  · simp [hindent, compareParent, h.parents]
  · have horder : compareIndent "" "" = some .eq := by decide
    have hs : s.setIndent (some "") = s := by
      rw [Session.setIndent, ← hindent]
    simp only [hindent, horder]
    rw [ascendTo_eq, hs]

/-- A line that means a command is run as that command. -/
theorem dispatch_of_means (hp : p.IsTerminal) {words args : List String} {command : Builtin}
    {strict : Bool} {c c' : Console σ κ φ} (hnode : c.session.node = .config)
    (hmeans : Standard.Means strict words command args)
    (hrun : p.runBuiltin command args c = (.ok .success, c')) :
    p.dispatch words strict c = (.ok .success, c') := by
  obtain ⟨⟨app, hregistry⟩, hlimits⟩ := hp
  rw [Standard.Means, ← Standard.map_plain_elements app, resolve_map_plain] at hmeans
  cases hresolve : resolve ((terminalRegistry app).elements .config) words strict
      Limits.standard.arguments with
  | error e => simp [hresolve, Except.map, Except.toOption] at hmeans
  | ok found =>
    simp only [hresolve, Except.map, Except.toOption, Option.map_some, Option.some.injEq,
      Prod.mk.injEq] at hmeans
    obtain ⟨haction, hdaemon, hargs⟩ := hmeans
    rw [← hregistry, ← hlimits, ← hnode] at hresolve
    rw [p.dispatch_of_found hresolve hdaemon, p.perform_of_builtin c haction, hargs, hrun]
    rfl

/-- A line with the words of a command that succeeds whatever the session. -/
theorem takes_line (hp : p.IsTerminal) {w : String} {ws args : List String} {command : Builtin}
    (hwords : ∀ v ∈ w :: ws, IsWord v)
    (hhead : w.toList.head? ≠ some '!' ∧ w.toList.head? ≠ some '#')
    (hmeans : Standard.Means true (w :: ws) command args)
    (hrun : ∀ app session, p.runBuiltin command args ⟨host, app, world, session⟩ =
      (.ok .success, ⟨host', app, world', session⟩)) :
    p.Takes host world [unwords (w :: ws)] host' world' := by
  refine ⟨List.forall_mem_singleton.2 (isLineBreak_unwords hwords), ?_⟩
  rintro c rfl rfl hc
  have hparse := Line.parseIndented_unwords hwords hhead
  have halign := p.align_atMargin c.app hc
  have hstays : (c.session.setIndent (some "")).AtMargin := ⟨hc.node, hc.parents, .inr rfl⟩
  have hdispatch : p.dispatch (w :: ws) true
      { c with session := c.session.setIndent (some "") } =
        (.ok .success, ⟨host', c.app, world', c.session.setIndent (some "")⟩) :=
    dispatch_of_means hp hstays.node hmeans (hrun c.app _)
  refine ⟨⟨host', c.app, world', c.session.setIndent (some "")⟩, ⟨rfl, rfl, hstays⟩, ?_⟩
  intro number
  have hran : p.dispatched? number (unwords (w :: ws)) c =
      some ⟨number, ⟨"", w :: ws⟩, c, { c with session := c.session.setIndent (some "") },
        .ok .success, ⟨host', c.app, world', c.session.setIndent (some "")⟩⟩ := by
    simp only [dispatched?, hparse, halign, hdispatch]
    rfl
  have hline : p.replayLine number (unwords (w :: ws)) c =
      (.ok (), ⟨host', c.app, world', c.session.setIndent (some "")⟩) := by
    rw [replayLine_of_dispatched? hran]
    have hkeeps : openLevel (c.session.setIndent (some "")) (c.session.setIndent (some "")) =
        c.session.setIndent (some "") := if_neg fun hmoved => hmoved.1 rfl
    simp only [Console.mapSession, hkeeps]
    rfl
  refine ⟨by rw [replayFrom, hline]; rfl, ?_⟩
  intro d hd
  simp only [replayLog, hran, hline, Option.toList_some, List.append_nil,
    List.mem_singleton] at hd
  rw [hd]

/-- A comment is passed over. -/
theorem takes_comment {text : String} {line : Line}
    (hplain : (text.toList.all fun ch => !isLineBreak ch) = true)
    (hline : Line.parseIndented text = .ok line) (hempty : line.isEmpty) :
    p.Takes host world [text] host world := by
  refine ⟨List.forall_mem_singleton.2 (by simpa using hplain), ?_⟩
  rintro c rfl rfl hc
  refine ⟨c, ⟨rfl, rfl, hc⟩, fun number => ?_⟩
  have hskip : p.replayLine number text c = (.ok (), c) := by
    simp [replayLine, hline, hempty]
  have hnone : p.dispatched? number text c = none := by
    simp [dispatched?, hline, hempty]
  refine ⟨by rw [replayFrom, hskip]; rfl, ?_⟩
  simp [replayLog, hskip, hnone]

end Program

end RouterCli
