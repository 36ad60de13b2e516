import RouterCli.Proofs.Console.Offside
import RouterCli.Proofs.Console.ReplayLog
import RouterCli.Proofs.Text.Words

/-!
  RouterCli.Proofs.Console.OffsideReplay

  The replay of a configuration text is its reading by the offside rule
  (`replay_isReading`). Going up level by level finds the block that the rule
  names, as long as every node entered inside a block has a way back
  (`align_finds`).
-/

namespace RouterCli

open Offside

-- ============================================================================
-- Lines without line breaks
-- ============================================================================

namespace Line

theorem splitIndent_of_plain (count : Nat) {cs : List Char}
    (h : ∀ c ∈ cs, Text.isLineBreak c = false) :
    splitIndent count cs =
      if (cs.dropWhile (· == ' ')).head?.any Text.isBlank then .error .invalidIndent
      else .ok (count + (cs.takeWhile (· == ' ')).length, cs.dropWhile (· == ' ')) := by
  induction cs generalizing count with
  | nil => rfl
  | cons c cs ih =>
    unfold splitIndent
    by_cases hc : c = ' '
    · subst hc
      rw [if_pos rfl, ih (count + 1) fun c hc => h c (by simp [hc])]
      simp only [List.dropWhile_cons, List.takeWhile_cons, beq_self_eq_true, if_true,
        List.length_cons]
      rw [Nat.add_assoc, Nat.add_comm 1]
    · have hbreak := h c (by simp)
      simp only [hc, hbreak, if_false, List.dropWhile_cons, List.takeWhile_cons, beq_iff_eq,
        List.head?_cons, Option.any_some, List.length_nil, Nat.add_zero, Bool.false_eq_true]

/-- How a line without line breaks is split. -/
theorem parseIndented_of_plain {text : String}
    (h : ∀ c ∈ text.toList, Text.isLineBreak c = false) :
    match Offside.shape text with
    | .skipped => ∃ line, parseIndented text = .ok line ∧ line.isEmpty = true
    | .malformed => parseIndented text = .error .invalidIndent
    | .command n words =>
      parseIndented text = .ok ⟨spaces n, words⟩ ∧ words ≠ [] := by
  have hwords : Text.words text =
      (Text.wordRuns (text.toList.dropWhile (· == ' '))).map String.ofList := by
    have hspace : ∀ c, (c == ' ') = true → Text.isBlank c = true := by
      rintro c hc
      rw [beq_iff_eq.1 hc]
      rfl
    rw [Text.wordRuns_dropWhile hspace]
    rfl
  simp only [Offside.shape, parseIndented, splitIndent_of_plain 0 h, hwords]
  cases text.toList.dropWhile (· == ' ') with
  | nil => exact ⟨_, rfl, rfl⟩
  | cons c rest =>
    by_cases hcomment : c = '!' ∨ c = '#'
    · have hblank : Text.isBlank c = false := by
        rcases hcomment with rfl | rfl <;> rfl
      simp only [List.head?_cons, hcomment, if_true, Option.any_some, hblank,
        Bool.false_eq_true, if_false, Except.map, wordsOf_cons]
      exact ⟨_, rfl, rfl⟩
    · simp only [List.head?_cons, hcomment, if_false, Option.any_some]
      by_cases hblank : Text.isBlank c
      · simp only [hblank, if_true]
        rfl
      · simp only [hblank]
        refine ⟨?_, ?_⟩
        · simp [Except.map, wordsOf_cons, hcomment]
        · simpa using Text.wordRuns_ne_nil (by simpa using hblank)

end Line

-- ============================================================================
-- Steps up
-- ============================================================================

namespace Session

variable {κ : Type}

/-- What a session has besides its place and its levels. -/
def aside (s : Session κ) : String × Option Nat × Bool × Nat :=
  (s.output, s.lines, s.closing, s.authFailures)

@[simp] theorem aside_popParent (s : Session κ) : s.popParent.aside = s.aside := by
  unfold popParent
  split <;> rfl

@[simp] theorem aside_clearParents (s : Session κ) : s.clearParents.aside = s.aside := by
  have hfold : ∀ (fs : List (Frame κ)) (t : Session κ), (fs.foldl restore t).aside = t.aside := by
    intro fs
    induction fs with
    | nil => intro t; rfl
    | cons f fs ih => intro t; exact ih (t.restore f)
  exact hfold s.parents s

end Session

namespace Program

open Session

variable {σ κ φ : Type}

theorem aside_goParent (p : Program σ κ) (app : σ) (s : Session κ) :
    (p.goParent app s).aside = s.aside := by
  obtain ⟨node, h | h⟩ := p.goParent_cases app s
  · rw [h, aside_popParent]
    rfl
  · rw [h, aside_clearParents]
    rfl

theorem aside_ascendTo (p : Program σ κ) (app : σ) (indent : String) (fuel : Nat)
    (order : Ordering) (s : Session κ) :
    (p.ascendTo app indent fuel order s).2.aside = s.aside := by
  induction fuel generalizing order s with
  | zero => rfl
  | succ fuel ih =>
    unfold ascendTo
    dsimp only
    split
    · rfl
    · split
      · exact p.aside_goParent app s
      · split
        · exact p.aside_goParent app s
        · rw [ih]
          exact p.aside_goParent app s

theorem aside_align (p : Program σ κ) (app : σ) (indent : String) (s : Session κ) :
    (p.align app indent s).2.aside = s.aside := by
  unfold align
  dsimp only
  split
  · split
    · rfl
    · exact p.aside_ascendTo _ _ _ _ _
  · split
    · rfl
    · rfl
    · rw [p.aside_ascendTo]
      exact p.aside_goParent app s

/-- A step up from the node leads to the innermost of several levels. -/
structure HasWayUp (p : Program σ κ) (node : NodeId) : Prop where
  /-- The node is none that sessions settle on. -/
  entered : node.isCanonical = false
  /-- It is none of those right below the global configuration. -/
  apart : node ∉ [NodeId.logging, .terminalLine]
  /-- The registry or the application names a node above it. -/
  named : (p.registry.parentOf node).isSome ∨
    ∀ app s, s.node = node → (p.application.above app s).isSome

/-- A step up undoes a step into a block. -/
theorem goParent_eq_popParent (p : Program σ κ) (app : σ) {s : Session κ} {f : Frame κ}
    {rest : List (Frame κ)} (hs : s.parents = f :: rest) (hway : rest ≠ [] → p.HasWayUp s.node) :
    p.goParent app s = s.popParent := by
  have hpop : ∀ node, (s.setNode node).popParent = s.popParent := by
    intro node
    rw [popParent_cons hs, popParent_cons (s := s.setNode node) hs]
    rfl
  cases rest with
  | nil =>
    obtain ⟨node, h | h⟩ := p.goParent_cases app s
    · rw [h, hpop]
    · rw [h, clearParents_cons (s := s.setNode node) hs, hpop, clearParents_of_nil]
      rw [popParent_cons hs]
  | cons g rest =>
    obtain ⟨hentered, hapart, hnamed⟩ := hway (by simp)
    have hlt : NodeId.config.value < s.node.value := by
      simpa [NodeId.isCanonical] using hentered
    have hsettled : s.node ∉ [NodeId.auth, .view, .enable, .config] := by
      intro hmem
      simp only [List.mem_cons, List.not_mem_nil, or_false] at hmem
      rcases hmem with h | h | h | h <;> rw [h] at hlt <;> exact absurd hlt (by decide)
    have hprompt : s.node ≠ .authEnable := by
      intro h
      rw [h] at hlt
      exact absurd hlt (by decide)
    have habove : (p.application.above app s <|> p.registry.parentOf s.node).isSome := by
      rcases hnamed with h | h
      · cases p.application.above app s <;> simp [h]
      · simp [h app s rfl]
    obtain ⟨node, hnode⟩ := Option.isSome_iff_exists.1 habove
    unfold goParent
    rw [if_neg hsettled, if_neg hprompt, if_neg hapart, hnode]
    exact hpop node

end Program

-- ============================================================================
-- Sessions and histories
-- ============================================================================

namespace Offside

variable {κ : Type}

/-- The level to return to from the block that a line opened. -/
def Past.frame (x : Past κ) : Frame κ :=
  { node := x.found.node, context := x.found.context, indent := some (Line.spaces x.indent) }

/-- A session is at a place, at a level of indentation `n`, inside blocks. -/
structure AtLevel (pl : Place κ) (n : Nat) (around : List (Past κ)) (s : Session κ) : Prop where
  place : s.place = pl
  indent : s.indent = some (Line.spaces n)
  parents : s.parents = around.map Past.frame

/-- A session is behind the lines of a history. The block that the latest line
    opened has no indentation yet. -/
def Stands (start : Place κ) (past : List (Past κ)) (s : Session κ) : Prop :=
  match past with
  | [] => s.place = start ∧ s.indent = none ∧ s.parents = []
  | x :: older =>
    if x.opened then
      s.place = x.left ∧ s.indent = none ∧
        s.parents = x.frame :: (openers x.indent older).map Past.frame
    else AtLevel x.left x.indent (openers x.indent older) s

theorem AtLevel.of_popParent {x : Past κ} {around : List (Past κ)} {s : Session κ}
    (h : s.parents = x.frame :: around.map Past.frame) :
    AtLevel x.found x.indent around s.popParent := by
  rw [Session.popParent_cons h]
  exact ⟨rfl, rfl, rfl⟩

/-- The search for the level of a line ends well if and only if the line fits a
    block, and then at the place of that block. -/
structure Finds (start : Place κ) (n : Nat) (past : List (Past κ)) (r : Bool × Session κ) :
    Prop where
  /-- The lines that fit a block are those it ends well for. -/
  fits : r.1 = true ↔ Fits n past
  level : r.1 = true → AtLevel (place start n past) n (openers n past) r.2

section Search

variable {start : Place κ} {way : NodeId → Prop} {n : Nat} {x y : Past κ}
  {past newer older : List (Past κ)} {s : Session κ} {r : Bool × Session κ}

theorem Finds.of_not_fits (h : ¬ Fits n past) (s : Session κ) : Finds start n past (false, s) :=
  ⟨by simp [h], by simp⟩

theorem Finds.of_fits (h : Fits n past)
    (hs : AtLevel (place start n past) n (openers n past) s) : Finds start n past (true, s) :=
  ⟨iff_of_true rfl h, fun _ => hs⟩

/-- At the level of the latest line the search for a line as deep is over. -/
theorem Finds.of_self (h : x.Follows start way older)
    (hs : AtLevel (place start x.indent (x :: older)) x.indent (openers x.indent older) s) :
    Finds start x.indent (x :: older) (true, s) := by
  rw [← openers_cons_of_le (Nat.le_refl x.indent)] at hs
  exact .of_fits (fits_cons_self h) hs

/-- Deeper lines behind `y` do not change what the search finds for a line that
    is no deeper than `y`. -/
theorem Finds.append (h : Sound start way (newer ++ y :: older))
    (hnewer : ∀ z ∈ newer, y.indent < z.indent) (hn : n ≤ y.indent)
    (hr : Finds start n (y :: older) r) : Finds start n (newer ++ y :: older) r where
  fits := by
    rw [fits_append_iff h hnewer hn]
    exact hr.fits
  level := by
    have hle : ∀ z ∈ newer, n ≤ z.indent := by
      intro z hz
      have hlt := hnewer z hz
      omega
    rw [place_append h hnewer hn, openers_append_of_le hle]
    exact hr.level

end Search

end Offside

namespace Program

open Session

variable {σ κ φ : Type} {p : Program σ κ} {start : Place κ} {n : Nat} {s : Session κ}
  {x y : Past κ} {past older ys : List (Past κ)}

theorem ascendTo_eq (p : Program σ κ) (app : σ) (indent : String) (fuel : Nat)
    (s : Session κ) : p.ascendTo app indent fuel .eq s = (true, s) := by
  cases fuel <;> rfl

theorem ascendTo_gt (p : Program σ κ) (app : σ) (indent : String) (fuel : Nat)
    (s : Session κ) : p.ascendTo app indent fuel .gt s = (false, s) := by
  cases fuel <;> rfl

theorem goParent_of_config (p : Program σ κ) (app : σ) (hnode : s.node = .config)
    (hparents : s.parents = []) : p.goParent app s = s := by
  unfold goParent
  rw [if_pos (by simp [hnode])]
  exact clearParents_of_nil hparents

/-- A session at the level of the latest line. -/
theorem node_of_atLevel (h : Sound start p.HasWayUp (x :: older))
    (hs : AtLevel (place start x.indent (x :: older)) x.indent (openers x.indent older) s) :
    (openers x.indent older = [] → s.node = start.node) ∧
      (∀ y ys, openers x.indent older = y :: ys → ys ≠ [] → p.HasWayUp s.node) := by
  have hnode : s.node = (place start x.indent (x :: older)).node := by
    rw [← hs.place]
    rfl
  have hway := h.way_place (fits_cons_self h.head)
  rw [openers_cons_of_le (Nat.le_refl _)] at hway
  rw [hnode]
  exact hway

/-- A step up from the level of a line leads to the level at which its block was
    opened. -/
theorem atLevel_goParent (app : σ) (h : Sound start p.HasWayUp (x :: older))
    (hs : AtLevel (place start x.indent (x :: older)) x.indent (openers x.indent older) s)
    (hopeners : openers x.indent older = y :: ys) :
    AtLevel y.found y.indent ys (p.goParent app s) ∧
      (p.goParent app s).parents.length < s.parents.length := by
  have hparents : s.parents = y.frame :: ys.map Past.frame := by
    rw [hs.parents, hopeners, List.map_cons]
  have hgo : p.goParent app s = s.popParent := by
    refine p.goParent_eq_popParent app hparents ?_
    intro hys
    exact (node_of_atLevel h hs).2 y ys hopeners (by simpa using hys)
  rw [hgo]
  have hup := AtLevel.of_popParent hparents
  refine ⟨hup, ?_⟩
  rw [hup.parents, hparents, List.length_cons]
  exact Nat.lt_succ_self _

/-- From the level of the latest line, going up finds the block of a line no
    deeper if there is one that it fits. -/
theorem ascendTo_finds (app : σ) (h : Sound start p.HasWayUp (x :: older))
    (hstart : start.node = .config)
    (hs : AtLevel (place start x.indent (x :: older)) x.indent (openers x.indent older) s)
    (hn : n ≤ x.indent) {fuel : Nat} (hfuel : (openers x.indent older).length < fuel) :
    Finds start n (x :: older)
      (p.ascendTo app (Line.spaces n) fuel (compare n x.indent) s) := by
  induction fuel generalizing x older s with
  | zero => omega
  | succ fuel ih =>
    rcases Nat.eq_or_lt_of_le hn with heq | hlt
    · rw [heq, Nat.compare_eq_eq.2 rfl, ascendTo_eq]
      exact .of_self h.head hs
    rw [Nat.compare_eq_lt.2 hlt]
    unfold ascendTo
    simp only [ne_eq, not_true_eq_false, if_false]
    cases hopeners : openers x.indent older with
    | nil =>
      -- At the top there is no way up.
      have htop : p.goParent app s = s := by
        refine p.goParent_of_config app ?_ ?_
        · rw [(node_of_atLevel h hs).1 hopeners, hstart]
        · rw [hs.parents, hopeners]
          rfl
      rw [htop, if_pos ⟨rfl, rfl⟩]
      refine .of_not_fits (not_fits_of_between h hlt ?_) s
      rw [opener?_eq_head?, hopeners]
      simp
    | cons y ys =>
      obtain ⟨hup, hless⟩ := atLevel_goParent app h hs hopeners
      rw [if_neg fun hsame => Nat.ne_of_lt hless hsame.2, hup.indent, Option.getD_some,
        Line.compareIndent_spaces]
      have hopener : opener? x.indent older = some y := by
        rw [opener?_eq_head?, hopeners, List.head?_cons]
      have hopened := h.head.fits.opened y hopener
      obtain ⟨newer, back, rfl, hnewer, hy, rfl⟩ := exists_append_of_openers hopeners
      by_cases hny : n ≤ y.indent
      · -- All lines behind `y` are deeper, and do not count for less deep ones.
        have hdeeper : ∀ z ∈ x :: newer, y.indent < z.indent := by
          intro z hz
          rcases List.mem_cons.1 hz with rfl | hz
          · exact hy
          · exact Nat.lt_of_lt_of_le hy (hnewer z hz)
        rw [← List.cons_append] at h ⊢
        have hback : Sound start p.HasWayUp (y :: back) := h.of_append
        have hplace : place start y.indent (y :: back) = y.found := by
          rw [place_cons_self hback.head, if_pos hopened]
        rw [hopeners, List.length_cons] at hfuel
        exact (ih hback (hplace ▸ hup) hny (by omega)).append h hdeeper hny
      · rw [Nat.compare_eq_gt.2 (Nat.lt_of_not_le hny)]
        dsimp only
        rw [ascendTo_gt]
        refine .of_not_fits (not_fits_of_between h hlt ?_) _
        intro o ho
        rw [hopener, Option.some.injEq] at ho
        rw [← ho]
        omega

/-- Behind a line that opened no block. -/
theorem align_finds_of_level (app : σ) (h : Sound start p.HasWayUp (x :: older))
    (hstart : start.node = .config) (hopened : ¬ x.opened)
    (hs : AtLevel x.left x.indent (openers x.indent older) s) (n : Nat) :
    Finds start n (x :: older) (p.align app (Line.spaces n) s) := by
  have hplace : place start x.indent (x :: older) = x.left := by
    rw [place_cons_self h.head, if_neg hopened]
  have hbound : (openers x.indent older).length < p.ascentBound s := by
    rw [ascentBound, hs.parents, List.length_map]
    omega
  simp only [align, hs.indent, Line.compareIndent_spaces]
  by_cases hn : n ≤ x.indent
  · exact ascendTo_finds app h hstart (hplace ▸ hs) hn hbound
  · have hlt := Nat.lt_of_not_le hn
    rw [Nat.compare_eq_gt.2 hlt, ascendTo_gt]
    exact .of_not_fits (fun hfits => hopened ((fits_cons_of_lt h hlt).1 hfits)) s

/-- Behind a line that opened a block. The first deeper line gives the block its
    indentation. -/
theorem align_finds_of_opened (app : σ) (h : Sound start p.HasWayUp (x :: older))
    (hstart : start.node = .config) (hopened : x.opened) (hs : s.place = x.left)
    (hindent : s.indent = none)
    (hparents : s.parents = x.frame :: (openers x.indent older).map Past.frame) (n : Nat) :
    Finds start n (x :: older) (p.align app (Line.spaces n) s) := by
  have hplace : place start x.indent (x :: older) = x.found := by
    rw [place_cons_self h.head, if_pos hopened]
  have hbound : (openers x.indent older).length < p.ascentBound s := by
    rw [ascentBound, hparents, List.length_cons, List.length_map]
    omega
  have hgo : p.goParent app s = s.popParent := by
    refine p.goParent_eq_popParent app hparents ?_
    intro hne
    rw [show s.node = x.left.node by rw [← hs]; rfl]
    exact h.head.way hopened (by simpa using hne)
  have hparent : compareParent s (Line.spaces n) = some (compare n x.indent) := by
    rw [compareParent, hparents]
    exact Line.compareIndent_spaces n x.indent
  simp only [align, hindent, hparent, hgo]
  by_cases hn : n ≤ x.indent
  · have hup := AtLevel.of_popParent hparents
    have hfinds := ascendTo_finds app h hstart (hplace ▸ hup) hn hbound
    rcases Nat.eq_or_lt_of_le hn with heq | hlt
    · rw [Nat.compare_eq_eq.2 heq] at hfinds ⊢
      exact hfinds
    · rw [Nat.compare_eq_lt.2 hlt] at hfinds ⊢
      exact hfinds
  · have hlt := Nat.lt_of_not_le hn
    rw [Nat.compare_eq_gt.2 hlt]
    refine .of_fits ((fits_cons_of_lt h hlt).2 hopened) ?_
    rw [place_cons_of_lt h hlt, openers_cons_of_lt hlt]
    exact ⟨hs, rfl, hparents⟩

/-- A line goes to a level where the session stands if and only if it fits a
    block, and then to the place of that block. -/
theorem align_finds (app : σ) (h : Sound start p.HasWayUp past) (hstart : start.node = .config)
    (hs : Stands start past s) (n : Nat) :
    Finds start n past (p.align app (Line.spaces n) s) := by
  cases past with
  | nil =>
    obtain ⟨hplace, hindent, hparents⟩ := hs
    simp only [align, hindent, compareParent, hparents]
    exact .of_fits ⟨by simp [opener?], by simp [members]⟩ ⟨hplace, rfl, hparents⟩
  | cons x older =>
    by_cases hopened : x.opened
    · rw [Stands, if_pos hopened] at hs
      obtain ⟨hplace, hindent, hparents⟩ := hs
      exact align_finds_of_opened app h hstart hopened hplace hindent hparents n
    · rw [Stands, if_neg hopened] at hs
      exact align_finds_of_level app h hstart hopened hs n

end Program

-- ============================================================================
-- The reading of a text
-- ============================================================================

variable {σ κ φ : Type}

/-- The second console takes over what the first one hands on: all but the
    place and the levels of the session. -/
structure Console.Continues (c c' : Console σ κ φ) : Prop where
  host : c'.host = c.host
  app : c'.app = c.app
  world : c'.world = c.world
  /-- The rest of the session. -/
  aside : c'.session.aside = c.session.aside

/-- How a replay ends whose lines all went well. -/
def ConfigText.ending (text : ConfigText) : Except ReplayError Unit :=
  match text.broken with
  | some cause => .error (.unreadable cause)
  | none => .ok ()

namespace Offside

variable [FileStore φ]

/-- A line is run as the rule says: with its own words, at the place of the
    block it belongs to, on what the line before handed on. -/
structure Runs (p : Program σ κ) (start : Place κ) (past : List (Past κ)) (number : Nat)
    (c : Console σ κ φ) (text : String) (n : Nat) (d : Dispatched σ κ φ) : Prop where
  shape : shape text = .command n d.line.words
  fits : Fits n past
  number : d.number = number
  indent : d.line.indent = Line.spaces n
  /-- What it is run on. -/
  continues : c.Continues d.before
  place : d.before.session.place = place start n past
  ran : p.dispatch d.line.words true d.before = (d.outcome, d.after)

/-- The line of a text that was run. -/
def Past.of (d : Dispatched σ κ φ) (n : Nat) (past : List (Past κ)) : Past κ where
  number := d.number
  indent := n
  block := blockOf n past
  found := d.before.session.place
  left := d.after.session.place

/-- The reading of a text: from a history, a line number and a console, which
    lines are run, how it ends, and with which console. -/
inductive Reading (p : Program σ κ) (start : Place κ) (ending : Except ReplayError Unit) :
    List (Past κ) → Nat → Console σ κ φ → List String → List (Dispatched σ κ φ) →
      Except ReplayError Unit × Console σ κ φ → Prop
  /-- The text is at its end. -/
  | done {past number c c'} : c.Continues c' →
      Reading p start ending past number c [] [] (ending, c')
  /-- A line is left out. -/
  | skip {past number c text rest log r} : shape text = .skipped →
      Reading p start ending past (number + 1) c rest log r →
      Reading p start ending past number c (text :: rest) log r
  /-- A line fits no block, or is not indented by spaces. -/
  | misplaced {past number c text rest c'} :
      shape text = .malformed ∨ (∃ n words, shape text = .command n words ∧ ¬ Fits n past) →
      (c.log .warn s!"line {number}: invalid indentation").Continues c' →
      Reading p start ending past number c (text :: rest) []
        (.error (.invalidIndent number text), c')
  /-- A line is run, and what comes of it ends the replay. -/
  | stop {past number c text rest n d} : Runs p start past number c text n d →
      d.outcome.isTolerated = false →
      Reading p start ending past number c (text :: rest) [d]
        (.error (.ofOutcome number text d.outcome), d.after)
  /-- A line is run, and the next follows. -/
  | run {past number c text rest n d log r} : Runs p start past number c text n d →
      d.outcome.isTolerated = true →
      Reading p start ending (Past.of d n past :: past) (number + 1) d.after rest log r →
      Reading p start ending past number c (text :: rest) (d :: log) r

end Offside

/-- A line leaves the levels alone, and a node that it entered inside a block
    has a way back. -/
structure Dispatched.Moves (p : Program σ κ) (d : Dispatched σ κ φ) : Prop where
  parents : d.after.session.parents = d.before.session.parents
  /-- None was added or taken away in between. -/
  epoch : d.after.session.epoch = d.before.session.epoch
  indent : d.after.session.indent = d.before.session.indent
  way : d.after.session.node ≠ d.before.session.node → d.before.session.parents ≠ [] →
    p.HasWayUp d.after.session.node

namespace Program

open Session

variable [FileStore φ] {p : Program σ κ} {start : Place κ}

omit [FileStore φ] in
theorem opened_of_iff (d : Dispatched σ κ φ) (n : Nat) (past : List (Past κ)) :
    (Past.of d n past).opened ↔ d.after.session.node ≠ d.before.session.node := by
  simp [Past.opened, Past.of, Session.place]

omit [FileStore φ] in
/-- Behind a line that was run, the session stands where the rule says. -/
theorem stands_openLevel {d : Dispatched σ κ φ} (hd : d.Moves p) {n : Nat}
    {past : List (Past κ)}
    (hlevel : AtLevel (place start n past) n (openers n past) d.before.session) :
    Stands start (Past.of d n past :: past) (openLevel d.before.session d.after.session) := by
  obtain ⟨hplace, hindent, hparents⟩ := hlevel
  by_cases hnode : d.after.session.node = d.before.session.node
  · rw [Stands, if_neg (by simp [opened_of_iff, hnode]), openLevel, if_neg (by simp [hnode])]
    exact ⟨rfl, hd.indent.trans hindent, hd.parents.trans hparents⟩
  · rw [Stands, if_pos ((opened_of_iff d n past).2 hnode), openLevel, if_pos ⟨hnode, hd.epoch⟩]
    refine ⟨rfl, rfl, ?_⟩
    show d.before.session.frame :: d.after.session.parents = _
    rw [hd.parents, hparents]
    simp only [Session.frame, hindent]
    rfl

theorem follows_of_runs {d : Dispatched σ κ φ} (hd : d.Moves p) {past : List (Past κ)}
    {number n : Nat} {c : Console σ κ φ} {text : String} (hruns : Runs p start past number c text n d)
    (hnumber : 0 < number) (hnewer : ∀ y ∈ past, y.number < number)
    (hparents : d.before.session.parents = (openers n past).map Past.frame) :
    (Past.of d n past).Follows start p.HasWayUp past where
  positive := by
    rw [← hruns.number] at hnumber
    exact hnumber
  newer := by
    rw [← hruns.number] at hnewer
    exact hnewer
  block := rfl
  fits := hruns.fits
  found := hruns.place
  way := by
    intro hopened hopeners
    refine hd.way ((opened_of_iff d n past).1 hopened) ?_
    rw [hparents]
    simpa [Past.of] using hopeners

/-- What one line does, from where the session stands. -/
theorem replayLine_cases (hstart : start.node = .config) {text : String}
    (hplain : ∀ c ∈ text.toList, Text.isLineBreak c = false) {past : List (Past κ)}
    (h : Sound start p.HasWayUp past) (number : Nat) {c₀ c : Console σ κ φ}
    (hc : c₀.Continues c) (hs : Stands start past c.session) :
    (shape text = .skipped ∧ p.dispatched? number text c = none ∧
      p.replayLine number text c = (.ok (), c)) ∨
    ((shape text = .malformed ∨ ∃ n words, shape text = .command n words ∧ ¬ Fits n past) ∧
      p.dispatched? number text c = none ∧
      ∃ c', p.replayLine number text c = (.error (.invalidIndent number text), c') ∧
        (c₀.log .warn s!"line {number}: invalid indentation").Continues c') ∨
    ∃ n d, p.dispatched? number text c = some d ∧ Runs p start past number c₀ text n d ∧
      AtLevel (place start n past) n (openers n past) d.before.session := by
  have hparse := Line.parseIndented_of_plain hplain
  have hlog : ∀ s, s.aside = c.session.aside →
      (c₀.log .warn s!"line {number}: invalid indentation").Continues
        (({ c with session := s } : Console σ κ φ).log .warn
          s!"line {number}: invalid indentation") := by
    intro s haside
    refine ⟨hc.host, hc.app, ?_, haside.trans hc.aside⟩
    simp only [Console.log, hc.world]
  cases hread : shape text with
  | skipped =>
    rw [hread] at hparse
    obtain ⟨line, hline, hempty⟩ := hparse
    exact .inl ⟨rfl, by simp [dispatched?, hline, hempty], by simp [replayLine, hline, hempty]⟩
  | malformed =>
    rw [hread] at hparse
    exact .inr (.inl ⟨.inl rfl, by simp [dispatched?, hparse], _,
      by simp only [replayLine, hparse], hlog c.session rfl⟩)
  | command n words =>
    rw [hread] at hparse
    obtain ⟨hline, hwords⟩ := hparse
    have hempty : (⟨Line.spaces n, words⟩ : Line).isEmpty = false := by
      simpa [Line.isEmpty] using hwords
    obtain ⟨hfits, hlevel⟩ := align_finds c.app h hstart hs n
    have haside := p.aside_align c.app (Line.spaces n) c.session
    cases halign : p.align c.app (Line.spaces n) c.session with
    | mk fits s =>
      rw [halign] at hfits hlevel haside
      cases fits with
      | false =>
        have hnot : ¬ Fits n past := by simpa using hfits
        exact .inr (.inl ⟨.inr ⟨n, words, rfl, hnot⟩,
          by simp [dispatched?, hline, hempty, halign], _,
          by simp only [replayLine, hline, hempty, halign]; rfl, hlog s haside⟩)
      | true =>
        refine .inr (.inr ⟨n, _, by simp only [dispatched?, hline, hempty, halign]; rfl, ?_,
          hlevel rfl⟩)
        exact ⟨hread, hfits.1 rfl, rfl, rfl, ⟨hc.host, hc.app, hc.world, haside.trans hc.aside⟩,
          (hlevel rfl).place, rfl⟩

/-- Lines are read by the offside rule from wherever the session stands. -/
theorem replayFrom_isReading {ending : Except ReplayError Unit} (hstart : start.node = .config)
    (lines : List String) (hplain : ∀ text ∈ lines, ∀ c ∈ text.toList, Text.isLineBreak c = false)
    {past : List (Past κ)} (h : Sound start p.HasWayUp past) {number : Nat} (hnumber : 0 < number)
    (hnewer : ∀ y ∈ past, y.number < number) {c₀ c : Console σ κ φ} (hc : c₀.Continues c)
    (hs : Stands start past c.session) (hmoves : ∀ d ∈ p.replayLog number c lines, d.Moves p) :
    Reading p start ending past number c₀ lines (p.replayLog number c lines)
      (match p.replayFrom number c lines with
        | (.error e, c) => (.error e, c)
        | (.ok (), c) => (ending, c)) := by
  induction lines generalizing past number c₀ c with
  | nil => exact .done hc
  | cons text rest ih =>
    have hrest : ∀ text ∈ rest, ∀ c ∈ text.toList, Text.isLineBreak c = false :=
      fun text htext => hplain text (by simp [htext])
    have hlater : ∀ y ∈ past, y.number < number + 1 :=
      fun y hy => Nat.lt_succ_of_lt (hnewer y hy)
    unfold replayLog at hmoves ⊢
    unfold replayFrom
    rcases replayLine_cases hstart (hplain text (by simp)) h number hc hs with
      ⟨hshape, hnone, hline⟩ | ⟨hshape, hnone, c', hline, hc'⟩ | ⟨n, d, hd, hruns, hlevel⟩
    · simp only [hnone, hline, Option.toList_none, List.nil_append] at hmoves ⊢
      exact .skip hshape (ih hrest h (Nat.succ_pos _) hlater hc hs hmoves)
    · simp only [hnone, hline, Option.toList_none, List.nil_append]
      exact .misplaced hshape hc'
    · have hline := replayLine_of_dispatched? hd
      rw [hd] at hmoves ⊢
      cases htol : d.outcome.isTolerated with
      | false =>
        rw [htol, if_neg (by simp)] at hline
        simp only [hline, Option.toList_some, List.append_nil]
        exact .stop hruns htol
      | true =>
        rw [htol, if_pos rfl] at hline
        simp only [hline, Option.toList_some, List.singleton_append] at hmoves ⊢
        have hmove := hmoves d (by simp)
        have hfollows := follows_of_runs hmove hruns hnumber hnewer hlevel.parents
        refine .run hruns htol (ih hrest (h.cons hfollows) (Nat.succ_pos _) ?_ ?_
          (stands_openLevel hmove hlevel) fun d hd => hmoves d (by simp [hd]))
        · intro y hy
          rcases List.mem_cons.1 hy with rfl | hy
          · show d.number < number + 1
            rw [hruns.number]
            exact Nat.lt_succ_self _
          · exact hlater y hy
        · refine ⟨rfl, rfl, rfl, ?_⟩
          simp only [Console.mapSession, openLevel]
          split <;> rfl

/-- The replay of a text at the global configuration is its reading by the
    offside rule. -/
theorem replay_isReading (p : Program σ κ) (text : ConfigText) (c : Console σ κ φ)
    (hnode : c.session.node = .config) (hparents : c.session.parents = [])
    (hindent : c.session.indent = none)
    (hplain : ∀ line ∈ text.lines, ∀ ch ∈ line.toList, Text.isLineBreak ch = false)
    (hmoves : ∀ d ∈ p.replayLog 1 c text.lines, d.Moves p) :
    Reading p c.session.place text.ending [] 1 c text.lines (p.replayLog 1 c text.lines)
      (p.replay text c) := by
  have hreading : Reading p c.session.place text.ending [] 1 c text.lines
      (p.replayLog 1 c text.lines)
      (match p.replayFrom 1 c text.lines with
        | (.error e, c) => (.error e, c)
        | (.ok (), c) => (text.ending, c)) :=
    replayFrom_isReading hnode text.lines hplain .nil Nat.one_pos (by simp) ⟨rfl, rfl, rfl, rfl⟩
      ⟨rfl, hindent, hparents⟩ hmoves
  have hreplay : p.replay text c =
      (match p.replayFrom 1 c text.lines with
        | (.error e, c) => (.error e, c)
        | (.ok (), c) => (text.ending, c)) := by
    unfold replay ConfigText.ending
    cases text.broken <;> rfl
  rw [hreplay]
  exact hreading

/-- A network and its base stations, one node below the other. -/
def nestedNetwork : Program Script.State String where
  registry := ({ app := ⟨"bsc", "1.0", none⟩ : Registry }.installAll
    [.node { id := .config, prompt := "%s(config)# " },
      .node { id := .application 0, prompt := "%s(config-net)# " },
      .node { id := .application 1, prompt := "%s(config-net-bts)# ",
              parent := some (.application 0) },
      .command .config { action := .application "network", pattern := "network", doc := "" },
      .command (.application 0) { action := .application "bts", pattern := "bts", doc := "" },
      .command (.application 0) { action := .application "name", pattern := "name WORD", doc := "" },
      .command (.application 1) { action := .application "name", pattern := "name WORD", doc := "" }]).1
  application := Script.application
    { commands :=
      [("network", [.setNode (.application 0)]), ("bts", [.setNode (.application 1)])] }

/-- A line inside the inner block and one behind it. -/
theorem replay_isReading_nestedNetwork :
    (nestedNetwork.replayLog 1 emptyConsole ["network", " bts", "  name x", " name y"]).length =
        4 ∧
      Reading nestedNetwork emptyConsole.session.place (.ok ()) [] 1 emptyConsole
        ["network", " bts", "  name x", " name y"]
        (nestedNetwork.replayLog 1 emptyConsole ["network", " bts", "  name x", " name y"])
        (nestedNetwork.replay ⟨["network", " bts", "  name x", " name y"], none⟩
          emptyConsole) := by
  have hmoves : ∀ d ∈ nestedNetwork.replayLog 1 emptyConsole
      ["network", " bts", "  name x", " name y"],
      d.after.session.parents = d.before.session.parents ∧
        d.after.session.epoch = d.before.session.epoch ∧
        d.after.session.indent = d.before.session.indent ∧
        (d.before.session.parents = [] ∨ d.after.session.node = d.before.session.node ∨
          d.after.session.node = .application 1) := by
    decide +kernel
  have hway : nestedNetwork.HasWayUp (.application 1) :=
    ⟨by decide, by decide, .inl (by decide +kernel)⟩
  have hplain : ["network", " bts", "  name x", " name y"].all (fun line =>
      line.toList.all fun ch => !Text.isLineBreak ch) = true := by
    decide +kernel
  refine ⟨by decide +kernel, replay_isReading nestedNetwork
    ⟨["network", " bts", "  name x", " name y"], none⟩ emptyConsole rfl rfl rfl ?_ ?_⟩
  · intro line hline ch hch
    simpa using List.all_eq_true.1 (List.all_eq_true.1 hplain line hline) ch hch
  intro d hd
  obtain ⟨hparents, hepoch, hindent, hnode⟩ := hmoves d hd
  refine ⟨hparents, hepoch, hindent, ?_⟩
  intro hne hblock
  rcases hnode with h | h | h
  · exact absurd h hblock
  · exact absurd h hne
  · exact h ▸ hway

end Program

end RouterCli
