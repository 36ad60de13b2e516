import Mathlib.Data.List.Chain
import RouterCli.Proofs.Command.Installed

/-!
  RouterCli.Proofs.Command.Lineage

  The ways up in a registry. Whatever series of installations has built it,
  failing ones included, its nodes stand in an order in which the parent of each
  comes before it (`exists_lineage_build`): a node is installed once, and its
  parent before it. So no way up through the named parents turns in a circle
  (`Lineage.nodup_of_isChain`).
-/

namespace RouterCli

namespace Registry

-- ============================================================================
-- Building a registry
-- ============================================================================

/-- One call that changes a registry. -/
inductive Edit where
  /-- Installations up to the first that fails. -/
  | install (series : List Installation)
  | sort
deriving DecidableEq, Repr

/-- Carry out a call; one that fails keeps what it had installed before. -/
def edit (r : Registry) : Edit → Registry
  | .install series => (r.installAll series).1
  | .sort => r.sort

/-- The registry after a sequence of calls, failing ones included. -/
def build (app : AppInfo) (edits : List Edit) : Registry :=
  edits.foldl edit { app }

/-- What holds of an empty registry, and behind an installation and sorting where it
    held before, holds of every registry. -/
theorem build_induction {app : AppInfo} {P : Registry → Prop} (hempty : P { app })
    (hinstall : ∀ {r r' : Registry} {step : Installation}, P r → r.install step = .ok r' → P r')
    (hsort : ∀ {r : Registry}, P r → P r.sort) (edits : List Edit) : P (build app edits) := by
  have hseries : ∀ (series : List Installation) (r : Registry), P r →
      P (r.installAll series).1 := by
    intro series
    induction series with
    | nil => exact fun r h => h
    | cons step rest ih =>
      intro r h
      unfold installAll
      cases hstep : r.install step with
      | error e => exact h
      | ok r' => exact ih r' (hinstall h hstep)
  have hrun : ∀ (edits : List Edit) (r : Registry), P r → P (edits.foldl edit r) := by
    intro edits
    induction edits with
    | nil => exact fun r h => h
    | cons call rest ih =>
      intro r h
      cases call with
      | install series => exact ih _ (hseries series r h)
      | sort => exact ih _ (hsort h)
  exact hrun edits { app } hempty

-- ============================================================================
-- Lineages
-- ============================================================================

/-- Each node has its parent among those behind it. -/
def ParentsBehind (r : Registry) : List NodeId → Prop
  | [] => True
  | n :: older => (∀ parent ∈ r.parentOf n, parent ∈ older) ∧ r.ParentsBehind older

/-- The installed nodes in an order in which each has its parent behind it, the
    youngest first. -/
structure Lineage (r : Registry) (order : List NodeId) : Prop where
  installed : ∀ n, (r.node? n).isSome ↔ n ∈ order
  nodup : order.Nodup
  length : order.length = r.nodes.length
  behind : r.ParentsBehind order

theorem ParentsBehind.congr {r r' : Registry} {order : List NodeId}
    (h : ∀ n ∈ order, r'.parentOf n = r.parentOf n) (hbehind : r.ParentsBehind order) :
    r'.ParentsBehind order := by
  induction order with
  | nil => trivial
  | cons n older ih =>
    obtain ⟨hparent, holder⟩ := hbehind
    refine ⟨?_, ih (fun m hm => h m (List.mem_cons_of_mem n hm)) holder⟩
    rw [h n List.mem_cons_self]
    exact hparent

theorem ParentsBehind.parent_mem {r : Registry} {order : List NodeId} (h : r.ParentsBehind order)
    {n parent : NodeId} (hn : n ∈ order) (hparent : r.parentOf n = some parent) :
    parent ∈ order := by
  induction order with
  | nil => cases hn
  | cons m older ih =>
    rcases List.mem_cons.1 hn with rfl | hn
    · exact List.mem_cons_of_mem n (h.1 parent hparent)
    · exact List.mem_cons_of_mem m (ih h.2 hn)

theorem ParentsBehind.idxOf_lt {r : Registry} {order : List NodeId} (h : r.ParentsBehind order)
    (hnodup : order.Nodup) {n parent : NodeId} (hn : n ∈ order)
    (hparent : r.parentOf n = some parent) : order.idxOf n < order.idxOf parent := by
  induction order with
  | nil => cases hn
  | cons m older ih =>
    obtain ⟨hfresh, hnodup⟩ := List.nodup_cons.1 hnodup
    have hbehind : ∀ k ∈ older, (m :: older).idxOf k = older.idxOf k + 1 := by
      intro k hk
      exact List.idxOf_cons_ne older fun heq => hfresh (heq ▸ hk)
    rcases List.mem_cons.1 hn with rfl | hn
    · rw [List.idxOf_cons_self, hbehind parent (h.1 parent hparent)]
      exact Nat.succ_pos _
    · rw [hbehind n hn, hbehind parent (h.2.parent_mem hn hparent)]
      exact Nat.succ_lt_succ (ih h.2 hnodup hn)

/-- A node that is not installed has no parent. -/
theorem parentOf_eq_none {r : Registry} {n : NodeId} (h : (r.node? n).isSome = false) :
    r.parentOf n = none := by
  have hnone : r.node? n = none := by simpa using h
  rw [parentOf, hnone]
  rfl

namespace Lineage

variable {r r' : Registry} {order : List NodeId}

theorem empty (app : AppInfo) : Lineage { app } [] where
  installed _ := by simp [node?]
  nodup := List.nodup_nil
  length := rfl
  behind := trivial

theorem installNode {d : NodeDef} (h : Lineage r order) (hstep : r.installNode d = .ok r') :
    Lineage r' (d.id :: order) := by
  obtain ⟨hnew, hparent, hlength⟩ := installNode_requires hstep
  have hfresh : d.id ∉ order := by
    rw [← h.installed, hnew]
    simp
  have hkept : ∀ n ∈ order, r'.parentOf n = r.parentOf n := by
    intro n hn
    have hne : d.id ≠ n := by
      rintro rfl
      exact hfresh hn
    rw [parentOf, node?_installNode hstep, if_neg hne, parentOf]
  have hnamed : r'.parentOf d.id = d.parent := by
    rw [parentOf, node?_installNode hstep, if_pos rfl]
    rfl
  refine ⟨?_, List.nodup_cons.2 ⟨hfresh, h.nodup⟩, ?_, ?_, h.behind.congr hkept⟩
  · intro n
    rw [node?_installNode hstep, List.mem_cons, ← h.installed]
    by_cases hn : d.id = n
    · simp [hn]
    · simp [hn, Ne.symm hn]
  · rw [List.length_cons, h.length, hlength]
  · rw [hnamed]
    intro parent hmem
    exact (h.installed parent).1 (hparent parent hmem)

/-- Changing what the nodes hold, but not how they are written down, keeps the
    lineage. -/
theorem of_map {f : Node → Node} (h : Lineage r order)
    (hf : ∀ m, (f m).definition = m.definition) (hnodes : r'.nodes = r.nodes.map f) :
    Lineage r' order := by
  have hfound : ∀ n, r'.node? n = (r.node? n).map f := by
    intro n
    rw [node?, hnodes]
    exact find?_map_node (fun m => congrArg NodeDef.id (hf m)) r.nodes n
  have hkept : ∀ n ∈ order, r'.parentOf n = r.parentOf n := by
    intro n _
    rw [parentOf, hfound, parentOf]
    cases r.node? n with
    | none => rfl
    | some m => exact congrArg NodeDef.parent (hf m)
  refine ⟨?_, h.nodup, ?_, h.behind.congr hkept⟩
  · intro n
    rw [hfound, Option.isSome_map]
    exact h.installed n
  · rw [hnodes, List.length_map]
    exact h.length

theorem install {step : Installation} (h : Lineage r order) (hstep : r.install step = .ok r') :
    ∃ order', Lineage r' order' := by
  cases step with
  | node d => exact ⟨d.id :: order, h.installNode hstep⟩
  | command id spec =>
    obtain ⟨_, e, -, -, -, rfl⟩ := installCommand_eq hstep
    refine ⟨order, h.of_map ?_ rfl⟩
    intro m
    split_ifs <;> rfl

/-- A parent stands behind its child, so that a way up comes to no node twice. -/
theorem nodup_of_isChain (h : Lineage r order) {way : List NodeId}
    (hway : way.IsChain fun n parent => r.parentOf n = some parent) : way.Nodup := by
  have hlater : way.IsChain fun n parent => order.idxOf n < order.idxOf parent := by
    refine hway.imp fun n parent hparent => ?_
    have hinstalled : (r.node? n).isSome = true := by
      rw [← Bool.not_eq_false]
      intro hnone
      rw [parentOf_eq_none hnone] at hparent
      cases hparent
    exact h.behind.idxOf_lt h.nodup ((h.installed n).1 hinstalled) hparent
  have htrans : Trans (fun n parent : NodeId => order.idxOf n < order.idxOf parent)
      (fun n parent => order.idxOf n < order.idxOf parent)
      (fun n parent => order.idxOf n < order.idxOf parent) := ⟨Nat.lt_trans⟩
  refine hlater.pairwise.imp fun hlt heq => ?_
  rw [heq] at hlt
  exact Nat.lt_irrefl _ hlt

end Lineage

/-- Whatever is called, the nodes of a registry stand in an order in which the
    parent of each comes before it. -/
theorem exists_lineage_build (app : AppInfo) (edits : List Edit) :
    ∃ order, Lineage (build app edits) order := by
  refine build_induction (P := fun r => ∃ order, Lineage r order) ⟨[], .empty app⟩ ?_ ?_ edits
  · rintro r r' step ⟨order, h⟩ hstep
    exact h.install hstep
  · rintro r ⟨order, h⟩
    exact ⟨order, h.of_map (f := Node.sort) (fun _ => rfl) rfl⟩

end Registry

end RouterCli
