import Mathlib.Logic.Function.Iterate
import RouterCli.Console.Replay
import RouterCli.Proofs.Command.Lineage
import RouterCli.Proofs.Console.Levels

/-!
  RouterCli.Proofs.Console.Ascent

  Steps up lead to an end (`ascent_settles`). While there are levels to return
  to, each step takes at least one of them away, wherever they lead; without any,
  each step goes to a node further back in the lineage of the registry, or to one
  that sessions settle on. The loops that go up until a condition holds are
  written down without a bound (`Climbs`, `Ascends`, `Aligns`), and the bounded
  ones come to the one end that these have.
-/

namespace RouterCli

/-- The session is at a node that sessions settle on, with no level to return
    to. -/
def Session.IsSettled {κ : Type} (s : Session κ) : Prop :=
  s.node ∈ [NodeId.auth, .view, .enable, .config] ∧ s.parents = []

theorem Session.isSettled_setNode {κ : Type} {s : Session κ} {n : NodeId}
    (hnode : n ∈ [NodeId.auth, .view, .enable, .config]) (h : s.parents = []) :
    (s.setNode n).IsSettled :=
  ⟨hnode, h⟩

theorem Session.IsSettled.node_le {κ : Type} {s : Session κ} (h : s.IsSettled) :
    s.node.value ≤ NodeId.config.value := by
  have hcanonical : ∀ n ∈ [NodeId.auth, .view, .enable, .config],
      n.value ≤ NodeId.config.value := by decide
  exact hcanonical s.node h.1

namespace Program

open Session

variable {σ κ : Type} {p : Program σ κ} {app : σ} {s : Session κ}

-- ============================================================================
-- One step up
-- ============================================================================

theorem goParent_of_settled (h : s.IsSettled) : p.goParent app s = s := by
  unfold goParent
  rw [if_pos h.1]
  exact clearParents_of_nil h.2

/-- A step up takes away a level, if there is one. -/
theorem length_parents_goParent_lt (h : s.parents ≠ []) :
    (p.goParent app s).parents.length < s.parents.length := by
  obtain ⟨f, rest, hs⟩ := List.exists_cons_of_ne_nil h
  obtain ⟨node, hpop | hclear⟩ := p.goParent_cases app s
  · have hrest : (s.setNode node).popParent.parents = rest := by
      rw [popParent_cons (s := s.setNode node) hs]
    rw [hpop, hrest, hs]
    exact Nat.lt_succ_self _
  · rw [hclear, parents_clearParents, hs]
    exact Nat.succ_pos _

/-- Without levels a step up comes to a node that sessions settle on, or to the
    parent that the registry names. -/
theorem goParent_of_noLevel (hsilent : p.application.above app s = none)
    (h : s.parents = []) :
    (p.goParent app s).IsSettled ∨
      (p.goParent app s).parents = [] ∧
        p.registry.parentOf s.node = some (p.goParent app s).node := by
  have hmoved : ∀ n, (s.setNode n).clearParents = s.setNode n := fun n => clearParents_of_nil h
  unfold goParent
  split
  · rename_i hsettles
    rw [clearParents_of_nil h]
    exact .inl ⟨hsettles, h⟩
  · split
    · rw [hmoved]
      exact .inl (isSettled_setNode (by decide) h)
    · split
      · rw [hmoved]
        exact .inl (isSettled_setNode (by decide) h)
      · rw [hsilent]
        cases p.registry.parentOf s.node with
        | some parent =>
          have hpop : (s.setNode parent).popParent = s.setNode parent := popParent_of_nil h
          refine .inr ⟨?_, congrArg some ?_⟩
          · exact (congrArg Session.parents hpop).trans h
          · exact (congrArg Session.node hpop).symm
        | none =>
          refine .inl ?_
          by_cases hchild : p.isConfigChild app s.node
          · simp only [Option.orElse_eq_orElse, Option.orElse_none, hchild, if_true, hmoved]
            exact isSettled_setNode (by decide) h
          · simp only [Option.orElse_eq_orElse, Option.orElse_none, hchild, hmoved]
            exact isSettled_setNode (by decide) h

-- ============================================================================
-- The way up
-- ============================================================================

/-- At most `n` steps up settle the session. -/
def SettlesWithin (p : Program σ κ) (app : σ) (n : Nat) (s : Session κ) : Prop :=
  ∃ k ≤ n, ((p.goParent app)^[k] s).IsSettled

namespace SettlesWithin

variable {n m : Nat}

theorem mono (h : p.SettlesWithin app n s) (hle : n ≤ m) : p.SettlesWithin app m s := by
  obtain ⟨k, hk, hsettled⟩ := h
  exact ⟨k, Nat.le_trans hk hle, hsettled⟩

theorem of_settled (h : s.IsSettled) : p.SettlesWithin app n s :=
  ⟨0, Nat.zero_le n, h⟩

theorem settled (h : p.SettlesWithin app 0 s) : s.IsSettled := by
  obtain ⟨k, hk, hsettled⟩ := h
  rw [Nat.le_zero.1 hk] at hsettled
  exact hsettled

theorem of_goParent (h : p.SettlesWithin app n (p.goParent app s)) :
    p.SettlesWithin app (n + 1) s := by
  obtain ⟨k, hk, hsettled⟩ := h
  refine ⟨k + 1, Nat.succ_le_succ hk, ?_⟩
  rw [Function.iterate_succ_apply]
  exact hsettled

theorem goParent (h : p.SettlesWithin app (n + 1) s) :
    p.SettlesWithin app n (p.goParent app s) := by
  obtain ⟨k, hk, hsettled⟩ := h
  cases k with
  | zero =>
    have hs : s.IsSettled := hsettled
    rw [goParent_of_settled hs]
    exact of_settled hs
  | succ k =>
    rw [Function.iterate_succ_apply] at hsettled
    exact ⟨k, Nat.le_of_succ_le_succ hk, hsettled⟩

end SettlesWithin

section Silent

variable (hsilent : ∀ s, p.application.above app s = none)
include hsilent

/-- From a node of a lineage the way up goes back through the lineage. -/
theorem settlesWithin_of_mem {order : List NodeId}
    (hbehind : p.registry.ParentsBehind order) {s : Session κ} (hlevels : s.parents = [])
    (hmem : s.node ∈ order) : p.SettlesWithin app order.length s := by
  induction order generalizing s with
  | nil => cases hmem
  | cons n older ih =>
    obtain ⟨hparent, holder⟩ := hbehind
    rcases List.mem_cons.1 hmem with hnode | hmem
    · apply SettlesWithin.of_goParent
      rcases goParent_of_noLevel (hsilent s) hlevels with hsettled | ⟨hlevels, hup⟩
      · exact .of_settled hsettled
      · rw [hnode] at hup
        exact ih holder hlevels (hparent _ hup)
    · exact (ih holder hlevels hmem).mono (Nat.le_succ _)

/-- From a node that is not installed one step up settles the session. -/
theorem settlesWithin_of_noLevel {order : List NodeId}
    (hlineage : p.registry.Lineage order) (hlevels : s.parents = []) :
    p.SettlesWithin app (order.length + 1) s := by
  by_cases hmem : s.node ∈ order
  · exact (settlesWithin_of_mem hsilent hlineage.behind hlevels hmem).mono (Nat.le_succ _)
  · apply SettlesWithin.of_goParent
    rcases goParent_of_noLevel (hsilent s) hlevels with hsettled | ⟨-, hup⟩
    · exact .of_settled hsettled
    · rw [← hlineage.installed, Bool.not_eq_true] at hmem
      rw [Registry.parentOf_eq_none hmem] at hup
      cases hup

/-- The levels go first, one or more at each step, and then the lineage. -/
theorem settlesWithin_of_lineage {order : List NodeId} (hlineage : p.registry.Lineage order)
    (s : Session κ) : p.SettlesWithin app (s.parents.length + order.length + 1) s := by
  generalize hcount : s.parents.length = count
  induction count using Nat.strongRecOn generalizing s with
  | ind count ih =>
    by_cases hlevels : s.parents = []
    · exact (settlesWithin_of_noLevel hsilent hlineage hlevels).mono (by omega)
    · have hfewer : (p.goParent app s).parents.length < count := by
        rw [← hcount]
        exact length_parents_goParent_lt hlevels
      have hrest := ih _ hfewer (p.goParent app s) rfl
      exact (SettlesWithin.of_goParent hrest).mono (by omega)

end Silent

-- ============================================================================
-- Leaving the configuration
-- ============================================================================

/-- Going up to the global configuration, for as long as it takes: the node left
    last is remembered, and coming to it once more ends the way. -/
inductive Climbs (p : Program σ κ) (app : σ) :
    NodeId → Session κ → Option NodeId × Session κ → Prop where
  | arrived {last : NodeId} {s : Session κ} (hnode : s.node.value ≤ NodeId.config.value) :
      Climbs p app last s (none, s)
  | stuck {last : NodeId} {s : Session κ} (hnode : NodeId.config.value < s.node.value)
      (hlast : s.node = last) :
      Climbs p app last s (some last, s)
  | up {last : NodeId} {s : Session κ} {found : Option NodeId × Session κ}
      (hnode : NodeId.config.value < s.node.value) (hlast : s.node ≠ last)
      (rest : Climbs p app s.node (p.goParent app s) found) : Climbs p app last s found

theorem Climbs.unique {last : NodeId} {found found' : Option NodeId × Session κ}
    (h : p.Climbs app last s found) (h' : p.Climbs app last s found') : found = found' := by
  induction h with
  | arrived hnode =>
    cases h' with
    | arrived => rfl
    | stuck hdeep | up hdeep => exact absurd hnode (Nat.not_le.2 hdeep)
  | stuck hdeep hlast =>
    cases h' with
    | arrived hnode => exact absurd hnode (Nat.not_le.2 hdeep)
    | stuck => rfl
    | up _ hother => exact absurd hlast hother
  | up hdeep hother _ ih =>
    cases h' with
    | arrived hnode => exact absurd hnode (Nat.not_le.2 hdeep)
    | stuck _ hlast => exact absurd hlast hother
    | up _ _ rest => exact ih rest

/-- A bound that settles the session is never used up. -/
theorem climbs_climb {fuel : Nat} (h : p.SettlesWithin app fuel s) (last : NodeId) :
    p.Climbs app last s (p.climb app fuel last s) := by
  induction fuel generalizing s last with
  | zero => exact .arrived h.settled.node_le
  | succ fuel ih =>
    unfold climb
    split_ifs with hnode hlast
    · exact .arrived hnode
    · exact .stuck (Nat.not_le.1 hnode) hlast
    · exact .up (Nat.not_le.1 hnode) hlast (ih h.goParent s.node)

theorem climbs_iff {fuel : Nat} (h : p.SettlesWithin app fuel s) {last : NodeId}
    {found : Option NodeId × Session κ} :
    p.Climbs app last s found ↔ found = p.climb app fuel last s := by
  have hclimbs := climbs_climb h last
  constructor
  · exact fun hfound => hfound.unique hclimbs
  · rintro rfl
    exact hclimbs

-- ============================================================================
-- Going up to a level
-- ============================================================================

/-- A step up that has changed neither the node nor the number of levels. -/
def IsStill (p : Program σ κ) (app : σ) (s : Session κ) : Prop :=
  (p.goParent app s).node = s.node ∧
    (p.goParent app s).parents.length = s.parents.length

theorem isStill_of_settled (h : s.IsSettled) : p.IsStill app s := by
  rw [IsStill, goParent_of_settled h]
  exact ⟨rfl, rfl⟩

/-- Going up while the line is less deep than the level, for as long as it takes. -/
inductive Ascends (p : Program σ κ) (app : σ) (indent : String) :
    Ordering → Session κ → Bool × Session κ → Prop where
  | there {order : Ordering} {s : Session κ} (hdeep : order ≠ .lt) : Ascends p app indent order s (order == .eq, s)
  | top {s : Session κ} (hstill : p.IsStill app s) : Ascends p app indent .lt s (false, p.goParent app s)
  | apart {s : Session κ} (hmoved : ¬ p.IsStill app s)
      (hcompare : compareIndent indent ((p.goParent app s).indent.getD "") = none) :
      Ascends p app indent .lt s (false, p.goParent app s)
  | up {s : Session κ} {order : Ordering} {found : Bool × Session κ} (hmoved : ¬ p.IsStill app s)
      (hcompare : compareIndent indent ((p.goParent app s).indent.getD "") = some order)
      (rest : Ascends p app indent order (p.goParent app s) found) :
      Ascends p app indent .lt s found

theorem Ascends.unique {indent : String} {order : Ordering} {found found' : Bool × Session κ}
    (h : p.Ascends app indent order s found) (h' : p.Ascends app indent order s found') :
    found = found' := by
  induction h with
  | there hdeep =>
    cases h' with
    | there => rfl
    | top | apart | up => exact absurd rfl hdeep
  | top hstill =>
    cases h' with
    | there hdeep => exact absurd rfl hdeep
    | top => rfl
    | apart hmoved | up hmoved => exact absurd hstill hmoved
  | apart hmoved hapart =>
    cases h' with
    | there hdeep => exact absurd rfl hdeep
    | top hstill => exact absurd hstill hmoved
    | apart => rfl
    | up _ hcompare =>
      rw [hapart] at hcompare
      cases hcompare
  | up hmoved hcompare _ ih =>
    cases h' with
    | there hdeep => exact absurd rfl hdeep
    | top hstill => exact absurd hstill hmoved
    | apart _ hapart =>
      rw [hapart] at hcompare
      cases hcompare
    | up _ hcompare' rest =>
      rw [hcompare'] at hcompare
      cases hcompare
      exact ih rest

/-- One step of the bounded way is one of the unbounded. -/
theorem ascends_ascendTo_succ {fuel : Nat} {indent : String} (order : Ordering)
    (hrest : ¬ p.IsStill app s → ∀ next, p.Ascends app indent next (p.goParent app s)
      (p.ascendTo app indent fuel next (p.goParent app s))) :
    p.Ascends app indent order s (p.ascendTo app indent (fuel + 1) order s) := by
  unfold ascendTo
  split_ifs with hdeep
  · exact .there hdeep
  · obtain rfl : order = .lt := Decidable.not_not.1 hdeep
    dsimp only
    split_ifs with hstill
    · exact .top hstill
    · cases hcompare : compareIndent indent ((p.goParent app s).indent.getD "") with
      | none => exact .apart hstill hcompare
      | some next => exact .up hstill hcompare (hrest hstill next)

/-- One step more than settle the session are enough: the step from there is
    still. -/
theorem ascends_ascendTo {fuel : Nat} (h : p.SettlesWithin app fuel s) (indent : String)
    (order : Ordering) :
    p.Ascends app indent order s (p.ascendTo app indent (fuel + 1) order s) := by
  induction fuel generalizing s order with
  | zero =>
    apply ascends_ascendTo_succ
    intro hmoved
    exact absurd (isStill_of_settled h.settled) hmoved
  | succ fuel ih =>
    apply ascends_ascendTo_succ
    intro _ next
    exact ih h.goParent next

theorem ascends_iff {fuel : Nat} (h : p.SettlesWithin app fuel s) {indent : String}
    {order : Ordering} {found : Bool × Session κ} :
    p.Ascends app indent order s found ↔ found = p.ascendTo app indent (fuel + 1) order s := by
  have hascends := ascends_ascendTo h indent order
  constructor
  · exact fun hfound => hfound.unique hascends
  · rintro rfl
    exact hascends

/-- Moving to the level of a line's indentation, for as long as it takes. -/
def Aligns (p : Program σ κ) (app : σ) (indent : String) (s : Session κ)
    (found : Bool × Session κ) : Prop :=
  match s.indent with
  | some current =>
    match compareIndent indent current with
    | none => found = (false, s)
    | some order => p.Ascends app indent order s found
  | none =>
    match compareParent s indent with
    | none => found = (false, s)
    | some .gt => found = (true, s.setIndent (some indent))
    | some order => p.Ascends app indent order (p.goParent app s) found

theorem aligns_iff {n : Nat} (h : p.SettlesWithin app n s) (hbound : n < p.ascentBound s)
    {indent : String} {found : Bool × Session κ} :
    p.Aligns app indent s found ↔ found = p.align app indent s := by
  -- The bound is a large literal, of which only this much counts.
  obtain ⟨fuel, hfuel⟩ : ∃ fuel, p.ascentBound s = fuel + 1 :=
    ⟨p.ascentBound s - 1, by omega⟩
  have hsettles : p.SettlesWithin app fuel s := h.mono (by omega)
  have hnext : p.SettlesWithin app fuel (p.goParent app s) :=
    (hsettles.mono (Nat.le_succ _)).goParent
  unfold Aligns align
  rw [hfuel]
  cases s.indent with
  | some current =>
    dsimp only
    cases compareIndent indent current with
    | none => exact Iff.rfl
    | some order => exact ascends_iff hsettles
  | none =>
    dsimp only
    cases compareParent s indent with
    | none => exact Iff.rfl
    | some order =>
      cases order with
      | gt => exact Iff.rfl
      | lt | eq => exact ascends_iff hnext

-- ============================================================================
-- Every way up ends
-- ============================================================================

/-- With a registry that installations have built, and an application that does
    not move sessions up itself, every way up ends: within the number of levels
    and nodes, and two more, steps up come to a session that they leave as it is,
    at a node that sessions settle on and without levels, and the loops that go up
    come to an end, the same that the bounded ones come to. -/
theorem ascent_settles {info : AppInfo} {edits : List Registry.Edit}
    (hregistry : p.registry = Registry.build info edits)
    (hsilent : ∀ s, p.application.above app s = none) (s : Session κ) :
    (∃ n ≤ s.parents.length + p.registry.nodes.length + 2,
      ((p.goParent app)^[n] s).IsSettled ∧
        p.goParent app ((p.goParent app)^[n] s) = (p.goParent app)^[n] s) ∧
    (∀ found, p.Climbs app .config s found ↔
      found = p.climb app (p.ascentBound s) .config s) ∧
    ∀ indent found, p.Aligns app indent s found ↔ found = p.align app indent s := by
  obtain ⟨order, hlineage⟩ := Registry.exists_lineage_build info edits
  rw [← hregistry] at hlineage
  have hsettles := settlesWithin_of_lineage hsilent hlineage s
  rw [hlineage.length] at hsettles
  have hbound : s.parents.length + p.registry.nodes.length + 1 < p.ascentBound s := by
    unfold ascentBound
    omega
  refine ⟨?_, fun found => ?_, fun indent found => ?_⟩
  · obtain ⟨n, hn, hsettled⟩ := hsettles
    exact ⟨n, by omega, hsettled, goParent_of_settled hsettled⟩
  · exact climbs_iff (hsettles.mono (Nat.le_of_lt hbound))
  · exact aligns_iff hsettles hbound

/-- Calls that build a chain of three nodes below the global configuration. The
    first fails for want of a parent, and the third at a node that is there. -/
def chainEdits : List Registry.Edit :=
  let config : NodeDef := { id := .config, prompt := "%s(config)# " }
  let network : NodeDef :=
    { id := ⟨32⟩, prompt := "%s(config-net)# ", parent := some .config }
  let site : NodeDef := { id := ⟨33⟩, prompt := "%s(config-site)# ", parent := some ⟨32⟩ }
  let cell : NodeDef := { id := ⟨34⟩, prompt := "%s(config-cell)# ", parent := some ⟨33⟩ }
  [.install [.node site], .install [.node config], .install [.node network, .node network],
    .install [.node site, .node cell], .sort]

def chainProgram : Program Unit Unit where
  registry := Registry.build { name := "router", version := "1.0" } chainEdits
  application := .none

/-- A session at the end of the chain whose levels lead elsewhere: to a node that
    is not installed, to one of the library's, and back into the chain. -/
def chainSession : Session Unit where
  node := ⟨34⟩
  parents := [⟨⟨40⟩, none, some " "⟩, ⟨.logging, none, none⟩, ⟨⟨33⟩, none, some ""⟩]
  indent := some "  "

theorem ascent_settles_chain :
    chainProgram.registry.nodes.length = 4 ∧ chainSession.parents.length = 3 ∧
    ((∃ n ≤ chainSession.parents.length + chainProgram.registry.nodes.length + 2,
      ((chainProgram.goParent ())^[n] chainSession).IsSettled ∧
        chainProgram.goParent () ((chainProgram.goParent ())^[n] chainSession) =
          (chainProgram.goParent ())^[n] chainSession) ∧
    (∀ found, chainProgram.Climbs () .config chainSession found ↔
      found = chainProgram.climb () (chainProgram.ascentBound chainSession) .config
        chainSession) ∧
    ∀ indent found, chainProgram.Aligns () indent chainSession found ↔
      found = chainProgram.align () indent chainSession) :=
  ⟨by decide, by decide, ascent_settles rfl (fun _ => rfl) chainSession⟩

/-- Two levels go at the second step, and the chain is walked from its middle. -/
example : [1, 2, 3, 4].map (fun n => ((chainProgram.goParent ())^[n] chainSession).node) =
    [⟨40⟩, ⟨33⟩, ⟨32⟩, .config] := by decide

end Program

end RouterCli
