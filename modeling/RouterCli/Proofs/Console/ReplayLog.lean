import Mathlib.Tactic.SplitIfs
import RouterCli.Application.Scripted
import RouterCli.Console.Replay
import RouterCli.Files.Tree
import RouterCli.NodeFamily
import RouterCli.Proofs.Console.Levels

/-!
  RouterCli.Proofs.Console.ReplayLog

  What a replay did, line by line, and where each line was run. The recorded
  indentations are those of nested levels throughout (`nested_replayLine`), and
  a line is run at a level of its own indentation except behind a line that
  entered a node without a way back (`indent_of_mem_replayLog`).
-/

namespace RouterCli

-- ============================================================================
-- The lines that were run
-- ============================================================================

/-- A line of a configuration text that was run. -/
structure Dispatched (σ κ φ : Type) where
  number : Nat
  line : Line
  /-- The console as the line met it. -/
  met : Console σ κ φ
  /-- The console once the session was at the line's level. -/
  before : Console σ κ φ
  outcome : Outcome
  /-- The console right behind it. -/
  after : Console σ κ φ

namespace Program

variable {σ κ φ : Type} [FileStore φ]

/-- How a line is run, if it is: lines without words are skipped, and a line
    that fits no level is refused. -/
def dispatched? (p : Program σ κ) (number : Nat) (text : String) (c : Console σ κ φ) :
    Option (Dispatched σ κ φ) :=
  match Line.parseIndented text with
  | .error _ => none
  | .ok line =>
    if line.isEmpty then none
    else
      match p.align c.app line.indent c.session with
      | (false, _) => none
      | (true, s) =>
        let before := { c with session := s }
        let ran := p.dispatch line.words true before
        some { number, line, met := c, before, outcome := ran.1, after := ran.2 }

/-- The lines that a replay runs, in the order it runs them. -/
def replayLog (p : Program σ κ) (number : Nat) (c : Console σ κ φ) :
    List String → List (Dispatched σ κ φ)
  | [] => []
  | text :: rest =>
    (p.dispatched? number text c).toList ++
      match p.replayLine number text c with
      | (.error _, _) => []
      | (.ok (), c) => p.replayLog (number + 1) c rest

theorem eq_of_dispatched? {p : Program σ κ} {number : Nat} {text : String}
    {c : Console σ κ φ} {d : Dispatched σ κ φ} (h : p.dispatched? number text c = some d) :
    ∃ line s, Line.parseIndented text = .ok line ∧ line.isEmpty = false ∧
      p.align c.app line.indent c.session = (true, s) ∧
      d = { number, line, met := c, before := { c with session := s },
            outcome := (p.dispatch line.words true { c with session := s }).1,
            after := (p.dispatch line.words true { c with session := s }).2 } := by
  unfold dispatched? at h
  split at h
  · cases h
  · rename_i line hline
    split_ifs at h with hempty
    split at h
    · cases h
    · rename_i s halign
      cases h
      exact ⟨line, s, hline, by simpa using hempty, halign, rfl⟩

theorem replayLine_of_dispatched? {p : Program σ κ} {number : Nat} {text : String}
    {c : Console σ κ φ} {d : Dispatched σ κ φ} (h : p.dispatched? number text c = some d) :
    p.replayLine number text c =
      if d.outcome.isTolerated then (.ok (), d.after.mapSession (openLevel d.before.session))
      else (.error (.ofOutcome number text d.outcome), d.after) := by
  obtain ⟨line, s, hline, hempty, halign, rfl⟩ := eq_of_dispatched? h
  simp [replayLine, hline, hempty, halign]

/-- A line that is not run is skipped or refused. -/
theorem replayLine_of_not_dispatched? {p : Program σ κ} {number : Nat} {text : String}
    {c : Console σ κ φ} (h : p.dispatched? number text c = none) :
    p.replayLine number text c = (.ok (), c) ∨
      ∃ c', p.replayLine number text c = (.error (.invalidIndent number text), c') ∧
        (c'.session = c.session ∨ ∃ line, Line.parseIndented text = .ok line ∧
          c'.session = (p.align c.app line.indent c.session).2) := by
  unfold dispatched? at h
  unfold replayLine
  cases hline : Line.parseIndented text with
  | error e => exact .inr ⟨_, rfl, .inl rfl⟩
  | ok line =>
    simp only [hline] at h ⊢
    by_cases hempty : line.isEmpty
    · exact .inl (if_pos hempty)
    · rw [if_neg hempty] at h ⊢
      split at h
      · rename_i s halign
        refine .inr ⟨_, by rw [halign]; rfl, .inr ⟨line, rfl, ?_⟩⟩
        rw [halign]
        rfl
      · cases h

/-- What one line preserves, a whole replay preserves; what holds of every line
    that is run in between is told of the log. -/
theorem forall_replayLog (p : Program σ κ) {Inv : Console σ κ φ → Prop}
    {Good : Dispatched σ κ φ → Prop}
    (hgood : ∀ number text c d, Inv c → p.dispatched? number text c = some d → Good d)
    (hstep : ∀ number text c, Inv c → Inv (p.replayLine number text c).2)
    (lines : List String) (number : Nat) (c : Console σ κ φ) (hc : Inv c) :
    (∀ d ∈ p.replayLog number c lines, Good d) ∧ Inv (p.replayFrom number c lines).2 := by
  induction lines generalizing number c with
  | nil => exact ⟨by simp [replayLog], hc⟩
  | cons text rest ih =>
    have hnext := hstep number text c hc
    have hfirst : ∀ d ∈ (p.dispatched? number text c).toList, Good d := by
      intro d hd
      exact hgood number text c d hc (by simpa using hd)
    unfold replayLog replayFrom
    generalize p.replayLine number text c = ran at hnext
    obtain ⟨_ | _, c'⟩ := ran
    · refine ⟨?_, hnext⟩
      intro d hd
      rw [List.append_nil] at hd
      exact hfirst d hd
    · obtain ⟨hrest, hlast⟩ := ih (number + 1) c' hnext
      refine ⟨?_, hlast⟩
      intro d hd
      rcases List.mem_append.1 hd with hd | hd
      · exact hfirst d hd
      · exact hrest d hd

end Program

-- ============================================================================
-- Nested levels
-- ============================================================================

namespace Line

theorem isPrefixOf_replicate (a b : Nat) :
    (List.replicate a ' ').isPrefixOf (List.replicate b ' ') = decide (a ≤ b) := by
  rw [Bool.eq_iff_iff, List.isPrefixOf_iff_prefix, decide_eq_true_iff]
  constructor
  · intro h
    simpa using h.length_le
  · intro h
    rw [← Nat.add_sub_cancel' h, ← List.replicate_append_replicate]
    exact List.prefix_append _ _

theorem compareIndent_spaces (a b : Nat) :
    compareIndent (spaces a) (spaces b) = some (compare a b) := by
  have hany : decide (a ≤ b) || decide (b ≤ a) := by
    rw [Bool.or_eq_true, decide_eq_true_iff, decide_eq_true_iff]
    omega
  simp only [compareIndent, spaces, String.toList_ofList, isPrefixOf_replicate,
    List.length_replicate]
  rw [if_pos hany]

theorem spaces_injective {a b : Nat} (h : spaces a = spaces b) : a = b := by
  simpa [spaces] using congrArg (fun s => s.toList.length) h

theorem spaces_of_parseIndented {text : String} {line : Line}
    (h : parseIndented text = .ok line) : ∃ n, line.indent = spaces n := by
  unfold parseIndented at h
  cases hs : splitIndent 0 text.toList with
  | error e => simp [hs, Except.map] at h
  | ok r =>
    simp only [hs, Except.map, Except.ok.injEq] at h
    exact ⟨r.1, by rw [← h]⟩

end Line

namespace Session

variable {κ : Type}

/-- The recorded indentations are spaces, fewer of them from level to level
    outwards. The current level may have none yet. -/
def Nested (s : Session κ) : Prop :=
  ∃ ns : List Nat, ns.Pairwise (· > ·) ∧
    (s.indents = ns.map (some ∘ Line.spaces) ∨ s.indents = none :: ns.map (some ∘ Line.spaces))

theorem nested_of_nil {s : Session κ} (hp : s.parents = []) (hi : s.indent = none) : s.Nested :=
  ⟨[], .nil, .inr (by simp [indents, hp, hi])⟩

theorem Nested.returns {s t : Session κ} (h : s.Nested) (hr : Returns s t) : t.Nested := by
  obtain ⟨ns, hns, hs⟩ := h
  have hsuffix : ∀ {l : List (Option String)}, l <:+ ns.map (some ∘ Line.spaces) →
      ∃ ms : List Nat, ms.Pairwise (· > ·) ∧ l = ms.map (some ∘ Line.spaces) := by
    intro l hl
    obtain ⟨ms, hms, rfl⟩ := List.suffix_map_iff.1 hl
    exact ⟨ms, hns.sublist hms.sublist, rfl⟩
  rw [Returns] at hr
  rcases hs with hs | hs
  · rw [hs] at hr
    obtain ⟨ms, hms, ht⟩ := hsuffix hr
    exact ⟨ms, hms, .inl ht⟩
  · rw [hs] at hr
    rcases List.suffix_cons_iff.1 hr with ht | ht
    · exact ⟨ns, hns, .inr ht⟩
    · obtain ⟨ms, hms, ht⟩ := hsuffix ht
      exact ⟨ms, hms, .inl ht⟩

/-- Where the current level has an indentation, it is more than any outside. -/
theorem Nested.of_indent_some {s : Session κ} (h : s.Nested) {i : String}
    (hi : s.indent = some i) :
    ∃ (n : Nat) (ns : List Nat), (n :: ns).Pairwise (· > ·) ∧ i = Line.spaces n ∧
      s.parents.map (·.indent) = ns.map (some ∘ Line.spaces) := by
  obtain ⟨ns, hns, hs⟩ := h
  rw [indents, hi] at hs
  rcases hs with hs | hs
  · cases ns with
    | nil => simp at hs
    | cons n ns =>
      simp only [List.map_cons, List.cons.injEq, Function.comp_apply, Option.some.injEq] at hs
      exact ⟨n, ns, hns, hs.1, hs.2⟩
  · simp at hs

theorem Nested.of_indent_none {s : Session κ} (h : s.Nested) (hi : s.indent = none) :
    ∃ ns : List Nat, ns.Pairwise (· > ·) ∧ s.parents.map (·.indent) = ns.map (some ∘ Line.spaces) := by
  obtain ⟨ns, hns, hs⟩ := h
  rw [indents, hi] at hs
  rcases hs with hs | hs
  · cases ns <;> simp at hs
  · exact ⟨ns, hns, by simpa using hs⟩

theorem Nested.exists_spaces_of_parents {s : Session κ} (h : s.Nested) (hi : s.indent = none)
    {f : Frame κ} {rest : List (Frame κ)} (hs : s.parents = f :: rest) :
    ∃ m, f.indent = some (Line.spaces m) := by
  obtain ⟨ns, -, hmap⟩ := h.of_indent_none hi
  rw [hs] at hmap
  cases ns with
  | nil => simp at hmap
  | cons m ms => exact ⟨m, (List.cons.inj hmap).1⟩

/-- Levels to return to have an indentation, and so has what one returned to. -/
theorem Nested.isSome_of_returns {s t : Session κ} (h : s.Nested) (hi : s.indent.isSome)
    (hr : Returns s t) : t.indent.isSome := by
  obtain ⟨i, hi⟩ := Option.isSome_iff_exists.1 hi
  obtain ⟨n, ns, -, rfl, hs⟩ := h.of_indent_some hi
  have hmem : t.indent ∈ (n :: ns).map (some ∘ Line.spaces) := by
    rw [List.map_cons, ← hs]
    have hsub := hr.subset (by simp [indents] : t.indent ∈ t.indents)
    rwa [indents, hi] at hsub
  obtain ⟨m, -, hm⟩ := List.mem_map.1 hmem
  rw [← hm]
  rfl

/-- A deeper line gives a level without an indentation its own. -/
theorem Nested.setIndent {s : Session κ} (h : s.Nested) (hi : s.indent = none) {n : Nat}
    (hn : ∀ f, s.parents.head? = some f → ∀ m, f.indent = some (Line.spaces m) → m < n) :
    (s.setIndent (some (Line.spaces n))).Nested := by
  obtain ⟨ns, hns, hs⟩ := h.of_indent_none hi
  refine ⟨n :: ns, ?_, .inl (by simp [indents, Session.setIndent, hs])⟩
  cases ns with
  | nil => exact List.pairwise_singleton _ _
  | cons m ms =>
    cases hp : s.parents with
    | nil => simp [hp] at hs
    | cons f rest =>
      rw [hp, List.map_cons, List.map_cons, List.cons.injEq] at hs
      have hm : m < n := hn f (by rw [hp]; rfl) m hs.1
      refine List.pairwise_cons.2 ⟨?_, hns⟩
      intro k hk
      rcases List.mem_cons.1 hk with rfl | hk
      · exact hm
      · exact Nat.lt_trans ((List.pairwise_cons.1 hns).1 k hk) hm

/-- The level of a line that entered a node is one to return to. -/
theorem Nested.openLevel {b s : Session κ} (h : b.Nested) (hi : b.indent.isSome)
    (hr : Returns b s) : (Program.openLevel b s).Nested := by
  unfold Program.openLevel
  split
  · obtain ⟨i, hi⟩ := Option.isSome_iff_exists.1 hi
    obtain ⟨n, ns, hns, rfl, hb⟩ := h.of_indent_some hi
    -- What is left of the levels lies outside the line's own.
    have hleft : s.parents.map (·.indent) <:+ ns.map (some ∘ Line.spaces) := by
      rw [← hb]
      simp only [Returns, indents] at hr
      rcases List.suffix_cons_iff.1 hr with heq | hs
      · exact (List.cons.inj heq).2 ▸ List.suffix_rfl
      · exact (List.suffix_cons _ _).trans hs
    obtain ⟨ms, hms, hs⟩ := List.suffix_map_iff.1 hleft
    refine ⟨n :: ms, hns.sublist (hms.sublist.cons_cons n), .inr ?_⟩
    simp [indents, Session.setIndent, pushParent, frame, hi, hs]
  · exact h.returns hr

/-- Returning from several levels leads farther out than the innermost. -/
theorem Nested.indent_clearParents_ne {s : Session κ} (h : s.Nested) (hi : s.indent = none)
    {f g : Frame κ} {more : List (Frame κ)} (hs : s.parents = f :: g :: more) :
    s.clearParents.indent ≠ f.indent := by
  have hpop : s.popParent.parents = g :: more := by
    rw [popParent_cons hs]
  have hleft := clearParents_returns s.popParent.popParent
  rw [← clearParents_cons hpop, ← clearParents_cons hs, Returns, indents_popParent hpop,
    hpop] at hleft
  obtain ⟨ns, hns, hmap⟩ := h.of_indent_none hi
  rw [hs] at hmap
  cases ns with
  | nil => simp at hmap
  | cons n ns =>
    obtain ⟨hn, hmore⟩ := List.cons.inj hmap
    have hmem : s.clearParents.indent ∈ ns.map (some ∘ Line.spaces) := by
      rw [← hmore]
      exact hleft.subset (by simp [indents])
    obtain ⟨m, hm, hmi⟩ := List.mem_map.1 hmem
    have hlt := (List.pairwise_cons.1 hns).1 m hm
    have hf : f.indent = some (Line.spaces n) := hn
    rw [← hmi, hf]
    intro heq
    have := Line.spaces_injective (Option.some.inj heq)
    omega

end Session

-- ============================================================================
-- Going to the level of a line
-- ============================================================================

namespace Program

open Session

variable {σ κ φ : Type}

theorem popParent_returns_goParent (p : Program σ κ) (app : σ) {s : Session κ}
    (h : s.parents ≠ []) : Returns s.popParent (p.goParent app s) := by
  obtain ⟨f, rest, hs⟩ := List.exists_cons_of_ne_nil h
  have hpop : ∀ node, Returns s.popParent (s.setNode node).popParent := by
    intro node
    refine .of_eq ?_
    rw [indents_popParent hs, indents_popParent (s := s.setNode node) hs]
    rfl
  obtain ⟨node, hup | hup⟩ := p.goParent_cases app s
  · rw [hup]
    exact hpop node
  · rw [hup, clearParents_cons (s := s.setNode node) hs]
    exact (hpop node).trans (clearParents_returns _)

/-- Behind a step up from a level that has no indentation yet, the session is
    at the innermost level to return to, unless it returned from several. -/
theorem indent_goParent_iff (p : Program σ κ) (app : σ) {s : Session κ} (h : s.Nested)
    (hi : s.indent = none) {f : Frame κ} {rest : List (Frame κ)} (hs : s.parents = f :: rest) :
    (p.goParent app s).indent = f.indent ↔
      ¬ (p.goParent app s).parents.length + 1 < s.parents.length := by
  obtain ⟨node, hup | hup⟩ := p.goParent_cases app s
  · rw [hup, popParent_cons (s := s.setNode node) hs, hs]
    simp [restore]
  · have hpop : (s.setNode node).popParent.parents = rest := by
      rw [popParent_cons (s := s.setNode node) hs]
    rw [hup, hs, parents_clearParents]
    cases rest with
    | nil =>
      rw [clearParents_cons (s := s.setNode node) hs, clearParents_of_nil hpop,
        popParent_cons (s := s.setNode node) hs]
      simp [restore]
    | cons g more =>
      have hne := Nested.indent_clearParents_ne (s := s.setNode node)
        (h.returns (.of_eq rfl)) hi hs
      simp [hne]

/-- Going up only returns from levels, and ends at the line's level if it ends
    well. The first comparison is not made anew. -/
theorem ascendTo_spec (p : Program σ κ) (app : σ) (n : Nat) (fuel : Nat) (order : Ordering)
    {s : Session κ} (h : s.Nested) (hi : s.indent.isSome) :
    Returns s (p.ascendTo app (Line.spaces n) fuel order s).2 ∧
      ((p.ascendTo app (Line.spaces n) fuel order s).1 = true →
        order = .eq ∧ (p.ascendTo app (Line.spaces n) fuel order s).2 = s ∨
          order = .lt ∧
            (p.ascendTo app (Line.spaces n) fuel order s).2.indent = some (Line.spaces n)) := by
  induction fuel generalizing order s with
  | zero => exact ⟨.refl s, fun hfits => .inl ⟨by simpa [ascendTo] using hfits, rfl⟩⟩
  | succ fuel ih =>
    unfold ascendTo
    by_cases hlt : order = .lt
    · have hreturns := p.goParent_returns app s
      have hup := h.returns hreturns
      have hupi := h.isSome_of_returns hi hreturns
      obtain ⟨i, hm⟩ := Option.isSome_iff_exists.1 hupi
      obtain ⟨m, -, -, rfl, -⟩ := hup.of_indent_some hm
      simp only [hlt, ne_eq, not_true_eq_false, if_false]
      split
      · exact ⟨hreturns, by simp⟩
      · rw [hm, Option.getD_some, Line.compareIndent_spaces]
        obtain ⟨hih, hfits⟩ := ih (compare n m) hup hupi
        refine ⟨hreturns.trans hih, ?_⟩
        intro hdone
        refine .inr ⟨trivial, ?_⟩
        rcases hfits hdone with ⟨heq, hstay⟩ | ⟨-, hfound⟩
        · dsimp only
          rw [hstay, hm, Nat.compare_eq_eq.1 heq]
        · exact hfound
    · rw [if_pos hlt]
      exact ⟨.refl s, fun hfits => .inl ⟨by simpa using hfits, rfl⟩⟩

/-- A line as deep as the innermost of several levels to return to, behind a
    line that entered a node from which a step up returns from them all. -/
def Overshoots (p : Program σ κ) (app : σ) (s : Session κ) (indent : String) : Prop :=
  s.indent = none ∧ s.parents.head?.bind (·.indent) = some indent ∧
    (p.goParent app s).parents.length + 1 < s.parents.length

theorem align_of_indent (p : Program σ κ) (app : σ) (n : Nat) {s : Session κ} (h : s.Nested)
    (hi : s.indent.isSome) :
    Returns s (p.align app (Line.spaces n) s).2 ∧
      ((p.align app (Line.spaces n) s).1 = true →
        (p.align app (Line.spaces n) s).2.indent = some (Line.spaces n)) := by
  obtain ⟨i, hi'⟩ := Option.isSome_iff_exists.1 hi
  obtain ⟨m, -, -, rfl, -⟩ := h.of_indent_some hi'
  simp only [align, hi', Line.compareIndent_spaces]
  obtain ⟨hreturns, hfits⟩ := p.ascendTo_spec app n (p.ascentBound s) (compare n m) h hi
  refine ⟨hreturns, ?_⟩
  intro hdone
  rcases hfits hdone with ⟨heq, hstay⟩ | ⟨-, hfound⟩
  · rw [hstay, hi', Nat.compare_eq_eq.1 heq]
  · exact hfound

theorem overshoots_iff (p : Program σ κ) (app : σ) {m n : Nat} {s : Session κ}
    (hi : s.indent = none) {f : Frame κ} {rest : List (Frame κ)} (hs : s.parents = f :: rest)
    (hf : f.indent = some (Line.spaces m)) :
    p.Overshoots app s (Line.spaces n) ↔
      m = n ∧ (p.goParent app s).parents.length + 1 < s.parents.length := by
  simp only [Overshoots, hi, hs, hf, List.head?_cons, Option.bind_some, true_and,
    Option.some.injEq]
  exact and_congr_left fun _ => ⟨Line.spaces_injective, fun h => h ▸ rfl⟩

/-- Levels to return to have an indentation. -/
theorem isSome_indent_goParent (p : Program σ κ) (app : σ) {s : Session κ} (h : s.Nested)
    {f : Frame κ} {rest : List (Frame κ)} (hs : s.parents = f :: rest)
    (hf : f.indent.isSome) : (p.goParent app s).indent.isSome := by
  refine (h.returns (popParent_returns s)).isSome_of_returns ?_
    (p.popParent_returns_goParent app (by simp [hs]))
  rw [popParent_cons hs]
  exact hf

theorem align_of_fresh (p : Program σ κ) (app : σ) (n : Nat) {s : Session κ} (h : s.Nested)
    (hi : s.indent = none) (hs : s.parents ≠ []) :
    (p.align app (Line.spaces n) s).2.Nested ∧
      ((p.align app (Line.spaces n) s).1 = true →
        (p.align app (Line.spaces n) s).2.indent.isSome ∧
          ((p.align app (Line.spaces n) s).2.indent = some (Line.spaces n) ↔
            ¬ p.Overshoots app s (Line.spaces n))) := by
  obtain ⟨f, rest, hs⟩ := List.exists_cons_of_ne_nil hs
  obtain ⟨m, hf⟩ := h.exists_spaces_of_parents hi hs
  have hup := h.returns (p.goParent_returns app s)
  have hupi := p.isSome_indent_goParent app h hs (by rw [hf]; rfl)
  have hover := p.overshoots_iff (n := n) app hi hs hf
  simp only [align, hi, compareParent, hs, hf, Option.getD_some, Line.compareIndent_spaces]
  generalize p.ascentBound s = bound
  cases horder : compare n m with
  | gt =>
    have hlt := Nat.compare_eq_gt.1 horder
    refine ⟨h.setIndent hi ?_, fun _ => ⟨rfl, iff_of_true rfl ?_⟩⟩
    · intro g hg k hk
      rw [hs, List.head?_cons, Option.some.injEq] at hg
      rw [← hg, hf] at hk
      have hmk := Line.spaces_injective (Option.some.inj hk)
      omega
    · rw [hover]
      omega
  | lt =>
    have hlt := Nat.compare_eq_lt.1 horder
    obtain ⟨hdown, hfits⟩ := p.ascendTo_spec app n bound .lt hup hupi
    refine ⟨hup.returns hdown, ?_⟩
    intro hdone
    refine ⟨hup.isSome_of_returns hupi hdown, iff_of_true ?_ ?_⟩
    · rcases hfits hdone with ⟨heq, -⟩ | ⟨-, hfound⟩
      · cases heq
      · exact hfound
    · rw [hover]
      omega
  | eq =>
    have heq := Nat.compare_eq_eq.1 horder
    obtain ⟨hdown, hfits⟩ := p.ascendTo_spec app n bound .eq hup hupi
    refine ⟨hup.returns hdown, ?_⟩
    intro hdone
    refine ⟨hup.isSome_of_returns hupi hdown, ?_⟩
    rcases hfits hdone with ⟨-, hstay⟩ | ⟨hlt, -⟩
    · rw [hstay, hover, heq, ← hf, p.indent_goParent_iff app h hi hs]
      simp
    · cases hlt

/-- What going to the level of a line does to nested levels. -/
theorem align_spec (p : Program σ κ) (app : σ) (n : Nat) {s : Session κ} (h : s.Nested) :
    (p.align app (Line.spaces n) s).2.Nested ∧
      ((p.align app (Line.spaces n) s).1 = true →
        (p.align app (Line.spaces n) s).2.indent.isSome ∧
          ((p.align app (Line.spaces n) s).2.indent = some (Line.spaces n) ↔
            ¬ p.Overshoots app s (Line.spaces n))) := by
  cases hi : s.indent with
  | some i =>
    have hover : ¬ p.Overshoots app s (Line.spaces n) := by simp [Overshoots, hi]
    obtain ⟨hreturns, hfits⟩ := p.align_of_indent app n h (by simp [hi])
    refine ⟨h.returns hreturns, ?_⟩
    intro hdone
    have hfound := hfits hdone
    exact ⟨by rw [hfound]; rfl, iff_of_true hfound hover⟩
  | none =>
    by_cases hs : s.parents = []
    · have hover : ¬ p.Overshoots app s (Line.spaces n) := by simp [Overshoots, hs]
      simp only [align, hi, compareParent, hs]
      exact ⟨h.setIndent hi (by simp [hs]), fun _ => ⟨rfl, iff_of_true rfl hover⟩⟩
    · exact p.align_of_fresh app n h hi hs

-- ============================================================================
-- The level of every line
-- ============================================================================

variable [FileStore φ]

/-- Whatever a line does, the levels are nested behind it. -/
theorem nested_replayLine (p : Program σ κ) (happ : p.application.KeepsLevels)
    (number : Nat) (text : String) (c : Console σ κ φ) (h : c.session.Nested) :
    (p.replayLine number text c).2.session.Nested := by
  cases hd : p.dispatched? number text c with
  | none =>
    rcases replayLine_of_not_dispatched? hd with hskip | ⟨c', hc', hstay | ⟨line, hline, hs⟩⟩
    · rw [hskip]
      exact h
    · rw [hc']
      dsimp only
      rwa [hstay]
    · obtain ⟨n, hn⟩ := Line.spaces_of_parseIndented hline
      rw [hc']
      dsimp only
      rw [hs, hn]
      exact (p.align_spec c.app n h).1
  | some d =>
    obtain ⟨line, s, hline, -, halign, hd'⟩ := eq_of_dispatched? hd
    obtain ⟨n, hn⟩ := Line.spaces_of_parseIndented hline
    have hspec := p.align_spec c.app n h
    rw [← hn, halign] at hspec
    have hreturns : Returns s d.after.session := by
      rw [hd']
      exact p.dispatch_returns happ line.words true { c with session := s }
    have hbefore : d.before.session = s := by rw [hd']
    rw [replayLine_of_dispatched? hd, hbefore]
    split
    · exact hspec.1.openLevel (hspec.2 rfl).1 hreturns
    · exact hspec.1.returns hreturns

/-- The level at which a line is run has the line's own indentation, except
    where the way to it overshoots. -/
theorem indent_of_mem_replayLog (p : Program σ κ) (happ : p.application.KeepsLevels)
    (number : Nat) (c : Console σ κ φ) (hparents : c.session.parents = [])
    (hindent : c.session.indent = none) (lines : List String) :
    ∀ d ∈ p.replayLog number c lines,
      (d.before.session.indent = some d.line.indent ↔
        ¬ p.Overshoots d.met.app d.met.session d.line.indent) := by
  refine (@forall_replayLog σ κ φ _ p (fun c => c.session.Nested) _ ?_ (p.nested_replayLine happ)
    lines number c (nested_of_nil hparents hindent)).1
  intro number text c d h hd
  obtain ⟨line, s, hline, -, halign, rfl⟩ := eq_of_dispatched? hd
  obtain ⟨n, hn⟩ := Line.spaces_of_parseIndented hline
  have hspec := (p.align_spec c.app n h).2
  rw [← hn, halign] at hspec
  exact (hspec rfl).2

/-- A network whose base stations are at a node that names none above it. -/
def orphanNetwork : Program Script.State String where
  registry := ({ app := ⟨"bsc", "1.0", none⟩ : Registry }.installAll
    [.node { id := .config, prompt := "%s(config)# " },
      .node { id := .application 0, prompt := "%s(config-net)# " },
      .node { id := .application 1, prompt := "%s(config-net-bts)# " },
      .command .config { action := .application "network", pattern := "network", doc := "" },
      .command (.application 0) { action := .application "bts", pattern := "bts", doc := "" },
      .command .config { action := .application "name", pattern := "name WORD", doc := "" }]).1
  application := Script.application
    { commands :=
      [("network", [.setNode (.application 0)]), ("bts", [.setNode (.application 1)])] }

/-- A session at the global configuration, in an empty world. -/
def emptyConsole : Console Script.State String FileTree where
  host := {}
  app := []
  world := { files := ⟨[]⟩, salts := { draw := fun _ => none } }
  session := { node := .config }

theorem keepsLevels_orphanNetwork : orphanNetwork.application.KeepsLevels := by
  intro spec args app s
  simp only [orphanNetwork, Script.application, List.lookup_cons, List.lookup_nil]
  cases spec.id == "network" <;> cases spec.id == "bts" <;> exact ⟨rfl, rfl⟩

/-- The third line is indented like the second and is run at the level of the
    first. -/
theorem not_forall_indent_eq :
    ¬ ∀ (p : Program Script.State String) (c : Console Script.State String FileTree)
      (lines : List String), p.application.KeepsLevels → c.session.parents = [] →
      c.session.indent = none →
      ∀ d ∈ p.replayLog 1 c lines, d.before.session.indent = some d.line.indent := by
  intro h
  have hlog := h orphanNetwork emptyConsole ["network", " bts", " name x"]
    keepsLevels_orphanNetwork rfl rfl
  have hindents : (orphanNetwork.replayLog 1 emptyConsole ["network", " bts", " name x"]).map
      (fun d => (d.before.session.indent, d.line.indent)) =
        [(some "", ""), (some " ", " "), (some "", " ")] := by
    decide +kernel
  have hall : ∀ r ∈ [(some "", ""), (some " ", " "), (some "", " ")], r.1 = some r.2 := by
    rw [← hindents]
    intro r hr
    obtain ⟨d, hd, rfl⟩ := List.mem_map.1 hr
    exact hlog d hd
  have hthird := hall (some "", " ") (by simp)
  simp at hthird

/-- Of these lines the third overshoots, and the others do not. -/
theorem indent_of_mem_replayLog_orphanNetwork :
    (orphanNetwork.replayLog 1 emptyConsole ["network", " bts", " name x"]).length = 3 ∧
      ∀ d ∈ orphanNetwork.replayLog 1 emptyConsole ["network", " bts", " name x"],
        (d.before.session.indent = some d.line.indent ↔
          ¬ orphanNetwork.Overshoots d.met.app d.met.session d.line.indent) :=
  ⟨by decide +kernel, indent_of_mem_replayLog orphanNetwork keepsLevels_orphanNetwork 1
    emptyConsole rfl rfl ["network", " bts", " name x"]⟩

end Program

end RouterCli
