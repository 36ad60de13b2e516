import RouterCli.Proofs.Shell.Lines

/-!
  RouterCli.Proofs.Shell.Bounded

  The line and the history stay within their limits, whatever is typed and wherever the
  terminal fails (`Shell.calls_bounded`). A line enters the history from the line being
  edited, and comes back to it unchecked, so its size is bounded for all lines together
  (`Shell.AllLines`). The shape of the history is its own affair (`History.IsTidy`).
-/

namespace RouterCli

-- ============================================================================
-- Histories
-- ============================================================================

namespace History

/-- The history has no more than `most` lines. None is blank, and none is the line before
    it again. -/
structure IsTidy (h : History) (most : Nat) : Prop where
  limit : h.limit ≤ most
  length : h.lines.length ≤ h.limit
  lines : ∀ line ∈ h.lines, Text.isAllBlank line = false
  neighbours : h.lines.IsChain (· ≠ ·)

theorem IsTidy.withLimit (capacity lineSize limit : Nat) :
    (withLimit capacity lineSize limit).IsTidy limit where
  limit := Nat.min_le_left _ _
  length := Nat.zero_le _
  lines := by simp [History.withLimit]
  neighbours := .nil

variable {h h' : History} {most : Nat}

/-- Where the cursor stands is of no matter. -/
theorem IsTidy.of_movesTo (htidy : h.IsTidy most) (hmoves : h.MovesTo h') : h'.IsTidy most := by
  obtain ⟨position, rfl⟩ := hmoves
  exact ⟨htidy.limit, htidy.length, htidy.lines, htidy.neighbours⟩

theorem IsTidy.add (htidy : h.IsTidy most) (line : String) : (h.add line).IsTidy most := by
  cases hrefuses : h.refuses line with
  | true => exact htidy.of_movesTo (movesTo_add_of_refuses hrefuses)
  | false =>
    obtain ⟨hlimit, hlines⟩ := add_of_not_refuses hrefuses
    obtain ⟨⟨⟨hblank, hroom⟩, hnew⟩, -⟩ :
        ((Text.isAllBlank line = false ∧ h.limit ≠ 0) ∧ h.lines.getLast? ≠ some line) ∧
          line.utf8ByteSize ≤ h.lineSize := by
      simpa [refuses] using hrefuses
    have hlength := htidy.length
    constructor
    · rw [hlimit]
      exact htidy.limit
    · rw [hlimit, hlines, List.length_append, List.length_singleton]
      split_ifs with hfull
      · rw [List.length_drop]
        omega
      · omega
    · intro old hold
      rcases mem_of_mem_add hold with hmem | rfl
      · exact htidy.lines old hmem
      · exact hblank
    · rw [hlines, List.isChain_append]
      refine ⟨?_, .singleton line, ?_⟩
      · split_ifs
        · exact htidy.neighbours.drop 1
        · exact htidy.neighbours
      · -- The newest line that is kept is the newest line there was.
        intro last hlast new hadded
        obtain rfl : line = new := by simpa using hadded
        rintro rfl
        refine hnew ?_
        split_ifs at hlast
        · rw [List.getLast?_drop] at hlast
          split_ifs at hlast
          · cases hlast
          · exact hlast
        · exact hlast

end History

namespace Shell

variable {σ κ φ : Type}

-- ============================================================================
-- Sizes
-- ============================================================================

/-- A line has no more bytes than one that begins with it. -/
theorem utf8ByteSize_le_of_isPrefix {s t : String} (h : s.toList <+: t.toList) :
    s.utf8ByteSize ≤ t.utf8ByteSize := by
  rw [← Text.byteLength_toList, ← Text.byteLength_toList]
  exact Text.byteLength_le_of_prefix h

variable {limits : Limits} {line text : String}

theorem utf8ByteSize_le_of_extend? {buffer : String}
    (h : extend? limits buffer text = some line) : line.utf8ByteSize ≤ limits.input := by
  obtain ⟨hfits, rfl⟩ := extend?_eq_some_iff.1 h
  exact hfits.1

theorem extend?_of_overflow {buffer : String}
    (h : limits.input < (buffer ++ text).utf8ByteSize) : extend? limits buffer text = none := by
  rw [extend?_eq, if_neg]
  exact fun hfits => absurd hfits.1 (Nat.not_le.2 h)

theorem utf8ByteSize_withChar_le (h : line.utf8ByteSize ≤ limits.input) (c : Char) :
    (withChar limits line c).utf8ByteSize ≤ limits.input := by
  unfold withChar
  cases hextend : extend? limits line (String.singleton c) with
  | none => exact h
  | some longer => exact utf8ByteSize_le_of_extend? hextend

theorem utf8ByteSize_withWord_le (h : line.utf8ByteSize ≤ limits.input) (text : String) :
    (withWord limits line text).utf8ByteSize ≤ limits.input := by
  unfold withWord
  cases hlonger : (beforeWord? line).bind (extend? limits · text) with
  | none => exact h
  | some longer =>
    obtain ⟨before, -, hextend⟩ := Option.bind_eq_some_iff.1 hlonger
    exact utf8ByteSize_le_of_extend? hextend

theorem utf8ByteSize_completed_le (p : Program σ κ) {sh : Shell σ κ φ}
    (h : sh.buffer.utf8ByteSize ≤ p.limits.input) :
    (completed p sh).utf8ByteSize ≤ p.limits.input := by
  unfold completed
  split
  · rename_i completion _
    cases insertion? completion with
    | none => exact h
    | some text => exact utf8ByteSize_withWord_le h text
  · exact h

/-- No line is longer than the limits allow. -/
abbrev IsBounded (limits : Limits) (memory : String × History) : Prop :=
  AllLines (·.utf8ByteSize ≤ limits.input) memory

-- ============================================================================
-- What is refused
-- ============================================================================

/-- The line that an event asks for: with a character or a completion in it, or one of the
    history. -/
def asked? (p : Program σ κ) (sh : Shell σ κ φ) : InputEvent → Option String
  | .char c => some (sh.buffer ++ String.singleton c)
  | .help => if sh.atPasswordPrompt then some (sh.buffer ++ "?") else none
  | .tab =>
    if sh.atPasswordPrompt then none
    else
      match p.complete sh.console.session.node sh.buffer with
      | .ok completion => (insertion? completion).map (stem sh.buffer ++ ·)
      | .error _ => none
  | .up => if sh.atPasswordPrompt then none else sh.history.previous.1
  | .down =>
    if sh.atPasswordPrompt || !sh.history.isNavigating then none else sh.history.next.1
  | _ => none

theorem withWord_of_overflow
    (h : limits.input < (stem line ++ text).utf8ByteSize) : withWord limits line text = line := by
  unfold withWord
  cases hbefore : beforeWord? line with
  | none => rfl
  | some before =>
    rw [eq_stem_of_beforeWord? hbefore, Option.bind_some, extend?_of_overflow h]
    rfl

/-- What would be too long is refused, and the line stays as it was. -/
theorem IsBounded.buffer_edited (p : Program σ κ) {sh : Shell σ κ φ}
    (h : IsBounded p.limits sh.memory) {event : InputEvent} {text : String}
    (hasked : asked? p sh event = some text) (hsize : p.limits.input < text.utf8ByteSize) :
    (Shell.edited p sh event).buffer = sh.buffer := by
  -- The lines of the history are never too long.
  have hremembered : text ∉ sh.history.lines := fun hmem =>
    absurd (h.lines text hmem) (Nat.not_le.2 hsize)
  have htyped : ∀ c, sh.buffer ++ String.singleton c = text →
      withChar p.limits sh.buffer c = sh.buffer := by
    rintro c rfl
    unfold withChar
    rw [extend?_of_overflow hsize]
    rfl
  cases event with
  | char c => exact htyped c (Option.some.inj hasked)
  | help =>
    dsimp only [asked?, Shell.edited] at hasked ⊢
    split_ifs at hasked ⊢
    exact htyped '?' (Option.some.inj hasked)
  | tab =>
    dsimp only [asked?, Shell.edited] at hasked ⊢
    split_ifs at hasked ⊢
    unfold completed
    cases hcomplete : p.complete sh.console.session.node sh.buffer with
    | error e => rfl
    | ok completion =>
      rw [hcomplete] at hasked
      obtain ⟨word, hword, rfl⟩ := Option.map_eq_some_iff.1 hasked
      dsimp only
      rw [hword]
      exact withWord_of_overflow hsize
  | up =>
    dsimp only [asked?] at hasked
    split_ifs at hasked
    exact absurd (History.mem_of_previous hasked) hremembered
  | down =>
    dsimp only [asked?] at hasked
    split_ifs at hasked
    exact absurd (History.mem_of_next hasked) hremembered
  | none | backspace | enter | doubleEscape | interrupt | suspend | endOfInput | killLine =>
    cases hasked

-- ============================================================================
-- Calls
-- ============================================================================

variable [FileStore φ]

theorem IsBounded.calls (p : Program σ κ) {sh : Shell σ κ φ}
    (h : IsBounded p.limits sh.memory) (made : List (Option Nat × Call)) :
    IsBounded p.limits (Shell.calls p sh made).memory := by
  induction made generalizing sh with
  | nil => exact h
  | cons first rest ih =>
    refine ih (AllLines.call p h ?_ (fun _ _ _ _ _ => utf8ByteSize_withChar_le h.line _)
      (utf8ByteSize_completed_le p h.line))
    exact fun hbegins hsize => (utf8ByteSize_le_of_isPrefix hbegins).trans hsize

theorem isTidy_calls (p : Program σ κ) {sh : Shell σ κ φ} {most : Nat}
    (h : sh.history.IsTidy most) (made : List (Option Nat × Call)) :
    (calls p sh made).history.IsTidy most := by
  induction made generalizing sh with
  | nil => exact h
  | cons first rest ih =>
    refine ih ?_
    rcases history_call p sh first with hmoves | hadds
    · exact h.of_movesTo hmoves
    · rw [hadds]
      exact h.add sh.buffer

/-- Whatever calls are made to a new shell, and wherever the terminal fails at each of them:
    the line is no longer than it may be. The history has no more lines than it may have,
    and none of them is blank, longer than a line may be, or the one before it again. A
    character for which the line would become longer than it may be leaves it as it is. -/
theorem calls_bounded (p : Program σ κ) (c : Console σ κ φ) (t : Terminal)
    (made : List (Option Nat × Call)) :
    let sh := calls p (new p.limits c t) made
    sh.buffer.utf8ByteSize ≤ p.limits.input ∧
      sh.history.lines.length ≤ p.limits.history ∧
      (∀ line ∈ sh.history.lines,
        Text.isAllBlank line = false ∧ line.utf8ByteSize ≤ p.limits.input) ∧
      sh.history.lines.IsChain (· ≠ ·) ∧
      ∀ room ch text, asked? p sh (sh.decoder.feed ch).1 = some text →
        p.limits.input < text.utf8ByteSize →
        (call p sh (room, .char ch)).buffer = sh.buffer := by
  intro sh
  have hbounded : IsBounded p.limits sh.memory :=
    IsBounded.calls p ⟨Nat.zero_le _, by simp [new, memory, History.withLimit]⟩ made
  have htidy : sh.history.IsTidy p.limits.history :=
    isTidy_calls p (.withLimit _ _ _) made
  refine ⟨hbounded.line, htidy.length.trans htidy.limit,
    fun line hline => ⟨htidy.lines line hline, hbounded.lines line hline⟩, htidy.neighbours, ?_⟩
  intro room ch text hasked hsize
  let heard : Shell σ κ φ := { sh.withRoom room with decoder := (sh.decoder.feed ch).2 }
  show (after (process p ch) (sh.withRoom room)).buffer = sh.buffer
  rw [after_process]
  split_ifs
  · rcases memory_handle p heard (sh.decoder.feed ch).1 with hedited | ⟨henter, -⟩
    · have hheard : IsBounded p.limits heard.memory := hbounded
      exact (congrArg Prod.fst hedited).trans (hheard.buffer_edited p hasked hsize)
    · rw [henter] at hasked
      cases hasked
  · rfl

/-- A small console. -/
def small : Program Unit Unit :=
  { loginOnly with limits := ⟨4, 2, 256, 3⟩ }

/-- Three lines are entered, of which two stay, and a fifth byte is refused. The terminal
    fails before the second line is shown. -/
theorem calls_bounded_small :
    let typed := (some 3, .activate) ::
      ("one\rtwo\rtree\rlong".toList.map fun c => (none, Call.char c))
    let sh := calls small (new small.limits { atLogin.console with host := {} } {}) typed
    sh.buffer = "long" ∧ sh.history.lines = ["two", "tree"] ∧
      sh.buffer.utf8ByteSize ≤ 4 ∧
      asked? small sh (sh.decoder.feed 'é').1 = some "longé" ∧
      (call small sh (some 0, .char 'é')).buffer = "long" := by
  intro typed sh
  have hline : sh.buffer = "long" := by decide +kernel
  have hlines : sh.history.lines = ["two", "tree"] := by decide +kernel
  have hasked : asked? small sh (sh.decoder.feed 'é').1 = some "longé" := by decide +kernel
  obtain ⟨hsize, -, -, -, hrefused⟩ :=
    calls_bounded small { atLogin.console with host := {} } {} typed
  refine ⟨hline, hlines, hsize, hasked, ?_⟩
  exact (hrefused (some 0) 'é' "longé" hasked (by decide)).trans hline

end Shell

end RouterCli
