import Mathlib.Data.List.Infix
import RouterCli.Proofs.Command.WellFormed
import RouterCli.Proofs.Matching.Visible
import RouterCli.Proofs.Shell.Lines
import RouterCli.Proofs.Text.Words

/-!
  RouterCli.Proofs.Shell.Printable

  Whether control characters get into the line. The decoder makes a character of the line
  of what is no control character, and of whatever stands behind an escape
  (`Decoder.feed_char`). Completion puts nothing into the line but what stands in the
  patterns (`Program.isPrintable_insertion`). So the line and the history hold no control
  character exactly as long as none is typed behind an escape, where there is room for it
  (`Shell.calls_printable_iff`).
-/

namespace RouterCli

open Text

-- ============================================================================
-- Characters
-- ============================================================================

namespace Decoder

/-- A control character behind an escape, which is taken for what it is. -/
def TakesControl (d : Decoder) (c : Char) : Prop :=
  d.escape = .escape ∧ isControl c = true ∧ c ≠ '\x1b'

instance (d : Decoder) (c : Char) : Decidable (d.TakesControl c) :=
  inferInstanceAs (Decidable (_ ∧ _ ∧ _))

theorem normalEvent_char {afterReturn : Bool} {c d : Char}
    (h : normalEvent afterReturn c = .char d) : d = c ∧ isControl c = false := by
  unfold normalEvent at h
  split at h
  case h_2 => split_ifs at h
  case h_11 =>
    split_ifs at h with hcontrol
    exact ⟨(InputEvent.char.inj h).symm, by simpa using hcontrol⟩
  all_goals cases h

/-- A character of the line is the one that was typed, and a control character only behind
    an escape. -/
theorem feed_char {d : Decoder} {c typed : Char} (h : (d.feed c).1 = .char typed) :
    typed = c ∧ (isControl c = true → d.TakesControl c) := by
  unfold feed at h
  split at h
  · split_ifs at h
    obtain ⟨rfl, hprintable⟩ := normalEvent_char h
    exact ⟨rfl, fun hcontrol => absurd hcontrol (by simp [hprintable])⟩
  · rename_i hescape
    split_ifs at h with hagain
    exact ⟨(InputEvent.char.inj h).symm, fun hcontrol => ⟨hescape, hcontrol, hagain⟩⟩
  · split_ifs at h

theorem TakesControl.feed {d : Decoder} {c : Char} (h : d.TakesControl c) :
    d.feed c = (.char c, {}) := by
  obtain ⟨hescape, hcontrol, hagain⟩ := h
  have hbracket : c ≠ '[' := by
    rintro rfl
    exact absurd hcontrol (by decide)
  rw [Decoder.feed, hescape]
  dsimp only
  rw [if_neg hagain, if_neg hbracket]

end Decoder

-- ============================================================================
-- Completion
-- ============================================================================

/-- What completion puts into the line begins the text of a command's token. -/
theorem exists_startsWith_of_complete {elements : List Element} {line : PartialLine}
    {completion : Completion} (hcomplete : complete elements line = .ok completion)
    {keyword : String} (hkeyword : completion = .full keyword ∨ completion = .shared keyword) :
    ∃ e ∈ elements, ∃ level ∈ e.levels, ∃ a ∈ level, startsWith a.text keyword = true := by
  rw [complete_eq] at hcomplete
  cases hscan : scanTyped 0 elements line.words with
  | error e =>
    rw [hscan] at hcomplete
    cases hcomplete
  | ok cs =>
    rw [hscan] at hcomplete
    dsimp only at hcomplete
    have hne : keywordsAt cs line.index line.current ≠ [] := by
      intro hnil
      rw [hnil] at hcomplete
      cases hcomplete
    obtain ⟨k, hk, hstarts⟩ :
        ∃ k ∈ keywordsAt cs line.index line.current, startsWith k keyword = true := by
      obtain ⟨r, hr, hcases⟩ := Completion.exists_ofKeywords line.current hne
      obtain rfl := Except.ok.inj (hcomplete.symm.trans hr)
      rcases hcases with ⟨k, hone, rfl⟩ | ⟨start, rfl, hstart⟩ | rfl
      · obtain rfl : k = keyword := by simpa using hkeyword
        exact ⟨k, by simp [hone], (startsWith_iff k k).2 List.prefix_rfl⟩
      · obtain rfl : start = keyword := by simpa using hkeyword
        obtain ⟨k, hk⟩ := List.exists_mem_of_ne_nil _ hne
        exact ⟨k, hk, hstart k hk⟩
      · simp at hkeyword
    obtain ⟨e, he, level, hlevel, a, ha, -, rfl⟩ := mem_keywordsAt_iff.1 hk
    exact ⟨e, mem_of_scanTyped hscan he, level, List.mem_of_getElem? hlevel, a, ha, hstarts⟩

namespace Program

variable {σ κ : Type}

/-- The registry was built by an application's calls, and there are no control characters in
    the patterns of its commands. -/
structure HasPrintablePatterns (p : Program σ κ) : Prop where
  built : ∃ app edits, p.registry = Registry.build app edits
  patterns : ∀ node, ∀ e ∈ p.registry.elements node, IsPrintable e.pattern

theorem HasPrintablePatterns.keyword {p : Program σ κ} (h : p.HasPrintablePatterns)
    {node : NodeId} {line : String} {completion : Completion}
    (hcomplete : p.complete node line = .ok completion) {keyword : String}
    (hkeyword : completion = .full keyword ∨ completion = .shared keyword) :
    IsPrintable keyword := by
  obtain ⟨app, edits, hbuilt⟩ := h.built
  obtain ⟨e, he, level, hlevel, a, ha, hstarts⟩ := exists_startsWith_of_complete hcomplete hkeyword
  have hpattern : e.IsOfPattern := by
    rw [hbuilt] at he
    exact (Registry.isSound_build app edits).isOfPattern he
  have hstart : keyword.toList ⊆ a.text.toList := ((startsWith_iff _ _).1 hstarts).subset
  exact (h.patterns _ e he).of_subset (List.Subset.trans hstart (hpattern.text_subset hlevel ha))

/-- What is put in the place of a word is printable. -/
theorem isPrintable_insertion {p : Program σ κ} (h : p.HasPrintablePatterns) {node : NodeId}
    {line : String} {completion : Completion}
    (hcomplete : p.complete node line = .ok completion) {text : String}
    (htext : Shell.insertion? completion = some text) : IsPrintable text := by
  cases completion with
  | full keyword =>
    obtain rfl : keyword ++ " " = text := Option.some.inj htext
    exact (h.keyword hcomplete (.inl rfl)).append (by decide)
  | shared start =>
    obtain rfl : start = text := Option.some.inj htext
    exact h.keyword hcomplete (.inr rfl)
  | choices keywords => cases htext

end Program

-- ============================================================================
-- Lines
-- ============================================================================

namespace Shell

variable {σ κ φ : Type} {p : Program σ κ}

theorem isPrintable_withWord (limits : Limits) {line text : String} (hline : IsPrintable line)
    (htext : IsPrintable text) : IsPrintable (withWord limits line text) := by
  unfold withWord
  cases hlonger : (beforeWord? line).bind (extend? limits · text) with
  | none => exact hline
  | some longer =>
    obtain ⟨before, hbefore, hextend⟩ := Option.bind_eq_some_iff.1 hlonger
    have hsubset : before.toList ⊆ line.toList := by
      rw [eq_stem_of_beforeWord? hbefore, stem, String.toList_ofList]
      intro c hc
      exact List.mem_reverse.1 ((List.dropWhile_suffix _).subset (List.mem_reverse.1 hc))
    obtain ⟨-, rfl⟩ := extend?_eq_some_iff.1 hextend
    exact (hline.of_subset hsubset).append htext

theorem isPrintable_completed (hpatterns : p.HasPrintablePatterns) {sh : Shell σ κ φ}
    (h : IsPrintable sh.buffer) : IsPrintable (completed p sh) := by
  unfold completed
  cases hcomplete : p.complete sh.console.session.node sh.buffer with
  | error e => exact h
  | ok completion =>
    dsimp only
    cases htext : insertion? completion with
    | none => exact h
    | some text =>
      have hword : IsPrintable text := Program.isPrintable_insertion hpatterns hcomplete htext
      exact isPrintable_withWord p.limits h hword

/-- The call types a control character behind an escape, and the line has room for it. -/
def TypesControl (p : Program σ κ) (sh : Shell σ κ φ) (made : Option Nat × Call) : Prop :=
  match made.2 with
  | .char c =>
    sh.phase = .active ∧ sh.decoder.TakesControl c ∧
      Fits p.limits (sh.buffer ++ String.singleton c)
  | .activate | .deactivate => False

instance (p : Program σ κ) (sh : Shell σ κ φ) (made : Option Nat × Call) :
    Decidable (TypesControl p sh made) :=
  match made with
  | (_, .char _) => inferInstanceAs (Decidable (_ ∧ _ ∧ _))
  | (_, .activate) | (_, .deactivate) => inferInstanceAs (Decidable False)

variable [FileStore φ]

/-- A call that types no control character puts none into the line. -/
theorem isPrintable_call (hpatterns : p.HasPrintablePatterns) {sh : Shell σ κ φ}
    {made : Option Nat × Call} (h : AllLines IsPrintable sh.memory)
    (hcontrol : ¬ TypesControl p sh made) : AllLines IsPrintable (call p sh made).memory := by
  refine h.call p ?_ ?_ (isPrintable_completed hpatterns h.line)
  · exact fun hbegins hprintable => hprintable.of_subset hbegins.subset
  · intro hactive c hmade d hd
    unfold TypesControl at hcontrol
    rw [hmade] at hcontrol
    unfold withChar
    cases hextend : extend? p.limits sh.buffer (String.singleton d) with
    | none => exact h.line
    | some longer =>
      obtain ⟨hfits, rfl⟩ := extend?_eq_some_iff.1 hextend
      refine h.line.append (isPrintable_singleton ?_)
      cases hevent : (sh.decoder.feed c).1 with
      | char typed =>
        rw [hevent] at hd
        obtain rfl : typed = d := Option.some.inj hd
        obtain ⟨rfl, htakes⟩ := Decoder.feed_char hevent
        by_contra hnot
        exact hcontrol ⟨hactive, htakes (by simpa using hnot), hfits⟩
      | help =>
        rw [hevent] at hd
        obtain rfl : '?' = d := Option.some.inj hd
        decide
      | _ =>
        rw [hevent] at hd
        cases hd

/-- One that does puts it into the line. -/
theorem not_isPrintable_call {sh : Shell σ κ φ} {made : Option Nat × Call}
    (h : TypesControl p sh made) : ¬ IsPrintable (call p sh made).buffer := by
  obtain ⟨room, _ | _ | c⟩ := made
  · exact h.elim
  · exact h.elim
  obtain ⟨hactive, htakes, hfits⟩ := h
  have hbuffer : (call p sh (room, .char c)).buffer = sh.buffer ++ String.singleton c := by
    show (after (process p c) (sh.withRoom room)).buffer = _
    have hlistens : (sh.withRoom room).phase = .active := hactive
    rw [after_process, if_pos hlistens]
    let heard : Shell σ κ φ := { sh.withRoom room with decoder := (sh.decoder.feed c).2 }
    obtain ⟨terminal, hafter, -⟩ := typeChar_leadsTo p c heard
    show (after (handle p (sh.decoder.feed c).1) heard).buffer = _
    rw [htakes.feed, handle, hafter]
    show (extend? p.limits sh.buffer (String.singleton c)).getD sh.buffer = _
    rw [extend?_eq, if_pos hfits]
    rfl
  intro hprintable
  rw [hbuffer] at hprintable
  have hplain := hprintable c (by simp)
  rw [htakes.2.1] at hplain
  cases hplain

/-- Whatever calls are made to a new shell, and wherever the terminal fails at each of them:
    the line and the history hold no control character behind any of the calls, exactly if
    none of the calls types one behind an escape where the line has room for it. -/
theorem calls_printable_iff (hpatterns : p.HasPrintablePatterns) (c : Console σ κ φ)
    (t : Terminal) (made : List (Option Nat × Call)) :
    (∀ before, before <+: made →
        AllLines IsPrintable (calls p (new p.limits c t) before).memory) ↔
      ∀ before next rest, made = before ++ next :: rest →
        ¬ TypesControl p (calls p (new p.limits c t) before) next := by
  have hstep : ∀ before next, calls p (new p.limits c t) (before ++ [next]) =
      call p (calls p (new p.limits c t) before) next := by
    intro before next
    rw [calls, List.foldl_append]
    rfl
  constructor
  · rintro hall before next rest rfl htypes
    have hprintable := hall (before ++ [next]) ⟨rest, by simp⟩
    rw [hstep] at hprintable
    exact not_isPrintable_call htypes hprintable.line
  · intro hnever before hbefore
    induction before using List.reverseRecOn with
    | nil =>
      have hempty : IsPrintable "" := by decide
      exact ⟨hempty, by simp [calls, new, memory, History.withLimit]⟩
    | append_singleton before next ih =>
      obtain ⟨rest, rfl⟩ := hbefore
      rw [hstep]
      refine isPrintable_call hpatterns (ih ⟨next :: rest, by simp⟩) ?_
      exact hnever before next rest (by simp)

/-- The registry of the program has one command, whose pattern has no control characters. -/
theorem hasPrintablePatterns_enableOnly : enableOnly.HasPrintablePatterns where
  built := ⟨_, [.install [.node { id := .view, prompt := "%s> " },
    .command .view { action := .builtin .enable, pattern := "enable", doc := "Enable\n" }]], rfl⟩
  patterns := by
    intro node e he
    unfold Registry.elements at he
    cases hnode : enableOnly.registry.node? node with
    | none =>
      rw [hnode] at he
      cases he
    | some n =>
      have hall : ∀ n ∈ enableOnly.registry.nodes, ∀ e ∈ n.elements, IsPrintable e.pattern := by
        decide +kernel
      rw [hnode] at he
      exact hall n (List.mem_of_find?_eq_some hnode) e he

/-- A letter is typed behind an escape, a bell is dropped, and the word is completed. -/
theorem calls_printable_iff_enableOnly :
    let start := new enableOnly.limits (inLine "").console {}
    let made := (none, Call.activate) ::
      ("\x1bena\x07\t".toList.map fun c => (none, Call.char c))
    (calls enableOnly start made).buffer = "enable " ∧
      ∀ before, before <+: made → AllLines IsPrintable (calls enableOnly start before).memory := by
  intro start made
  have hnever : ∀ before ∈ made.inits, ∀ next ∈ (made.drop before.length).head?,
      ¬ TypesControl enableOnly (calls enableOnly start before) next := by
    decide +kernel
  refine ⟨by decide +kernel, ?_⟩
  refine (calls_printable_iff hasPrintablePatterns_enableOnly _ _ made).2 ?_
  intro before next rest hmade
  refine hnever before ((List.mem_inits _ _).2 ⟨_, hmade.symm⟩) next ?_
  rw [hmade, List.drop_left]
  rfl

/-- A bell behind an escape goes into the line. -/
theorem not_forall_printable :
    ¬ ∀ (p : Program Unit Unit) (c : Console Unit Unit FileTree) (t : Terminal)
        (typed : List Char), p.HasPrintablePatterns →
        IsPrintable (feed p (after (activate p) (new p.limits c t)) typed).buffer := by
  intro hall
  have hprintable := hall enableOnly (inLine "").console {} ['\x1b', '\x07']
    hasPrintablePatterns_enableOnly
  revert hprintable
  decide +kernel

end Shell

end RouterCli
