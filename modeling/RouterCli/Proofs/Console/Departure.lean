import RouterCli.Proofs.Console.Ascent
import RouterCli.Proofs.Console.ReplayLog

/-!
  RouterCli.Proofs.Console.Departure

  What `end` leaves behind. However it is asked for above the privileged commands,
  the session comes to those or below them and forgets its object, and levels stay
  open exactly if the way up ends before the last of them is taken away, or if a
  replay takes the line for one that has entered a node (`Departs.leaves`).
-/

namespace RouterCli

-- ============================================================================
-- Levels taken away
-- ============================================================================

namespace Session

variable {κ : Type}

/-- A level that is taken away is counted instead of kept. -/
theorem epoch_add_length_popParent (s : Session κ) :
    s.popParent.epoch + s.popParent.parents.length = s.epoch + s.parents.length := by
  cases hs : s.parents with
  | nil => rw [popParent_of_nil hs, hs]
  | cons f rest =>
    rw [popParent_cons hs]
    show s.epoch + 1 + rest.length = s.epoch + (rest.length + 1)
    omega

theorem epoch_add_length_clearParents (s : Session κ) :
    s.clearParents.epoch + s.clearParents.parents.length = s.epoch + s.parents.length := by
  generalize hn : s.parents.length = n
  induction n generalizing s with
  | zero =>
    rw [clearParents_of_nil (List.length_eq_zero_iff.1 hn), hn]
  | succ n ih =>
    obtain ⟨f, rest, hs⟩ := List.exists_cons_of_length_eq_add_one hn
    have hpop := s.epoch_add_length_popParent
    have hrest : s.popParent.parents.length = n := by
      rw [popParent_cons hs]
      simpa [hs] using hn
    rw [clearParents_cons hs, ih s.popParent hrest, ← hn, ← hpop, hrest]

/-- On to the privileged commands, from above them, and the object forgotten. -/
def toPrivileged (s : Session κ) : Session κ :=
  (if NodeId.enable.value < s.node.value then s.setNode .enable else s).clearContext

theorem node_toPrivileged_le (s : Session κ) :
    s.toPrivileged.node.value ≤ NodeId.enable.value := by
  unfold toPrivileged
  split
  · exact Nat.le_refl _
  · rename_i hbelow
    exact Nat.not_lt.1 hbelow

@[simp] theorem context_toPrivileged (s : Session κ) : s.toPrivileged.context = none := rfl

@[simp] theorem parents_toPrivileged (s : Session κ) : s.toPrivileged.parents = s.parents := by
  unfold toPrivileged
  split <;> rfl

@[simp] theorem epoch_toPrivileged (s : Session κ) : s.toPrivileged.epoch = s.epoch := by
  unfold toPrivileged
  split <;> rfl

end Session

namespace Registry

/-- A step up from the node takes every level away. -/
def DropsLevels (r : Registry) (node : NodeId) : Prop :=
  node ∈ [NodeId.logging, .terminalLine] ∨ r.parentOf node = none

/-- The way up from a node takes every level away. It ends at the global
    configuration, and at the node that it has come from last. -/
def WayOut {κ : Type} (r : Registry) : NodeId → NodeId → List (Frame κ) → Prop
  | _, _, [] => True
  | last, node, f :: rest =>
    NodeId.config.value < node.value ∧ node ≠ last ∧
      (r.DropsLevels node ∨ r.WayOut node f.node rest)

instance (r : Registry) (node : NodeId) : Decidable (r.DropsLevels node) :=
  inferInstanceAs (Decidable (_ ∨ _))

instance WayOut.decidable {κ : Type} (r : Registry) :
    ∀ (last node : NodeId) (levels : List (Frame κ)), Decidable (r.WayOut last node levels)
  | _, _, [] => isTrue trivial
  | _, node, f :: rest =>
    have := WayOut.decidable r node f.node rest
    inferInstanceAs (Decidable (_ ∧ _ ∧ (_ ∨ _)))

end Registry

namespace Program

open Session

variable {σ κ φ : Type} {p : Program σ κ} {app : σ} {s : Session κ}

theorem epoch_add_length_goParent :
    (p.goParent app s).epoch + (p.goParent app s).parents.length =
      s.epoch + s.parents.length := by
  obtain ⟨node, hpop | hclear⟩ := p.goParent_cases app s
  · rw [hpop]
    exact (s.setNode node).epoch_add_length_popParent
  · rw [hclear]
    exact (s.setNode node).epoch_add_length_clearParents

theorem Climbs.epoch_add_length {last : NodeId} {found : Option NodeId × Session κ}
    (h : p.Climbs app last s found) :
    found.2.epoch + found.2.parents.length = s.epoch + s.parents.length := by
  induction h with
  | arrived | stuck => rfl
  | up _ _ _ ih => exact ih.trans epoch_add_length_goParent

-- ============================================================================
-- The levels on the way up
-- ============================================================================

theorem notMem_of_deep {node : NodeId} (hdeep : NodeId.config.value < node.value) :
    node ∉ [NodeId.auth, .view, .enable, .config] ∧ node ≠ .authEnable := by
  have hcanonical : ∀ n ∈ [NodeId.auth, .view, .enable, .config],
      n.value ≤ NodeId.config.value := by decide
  have hauth : NodeId.authEnable.value ≤ NodeId.config.value := by decide
  constructor
  · intro hmem
    exact absurd (hcanonical node hmem) (Nat.not_le.2 hdeep)
  · rintro rfl
    exact absurd hauth (Nat.not_le.2 hdeep)

section Silent

variable (hsilent : ∀ s, p.application.above app s = none)
include hsilent

theorem goParent_of_dropsLevels (hdeep : NodeId.config.value < s.node.value)
    (hdrops : p.registry.DropsLevels s.node) : (p.goParent app s).parents = [] := by
  obtain ⟨hcanonical, hauth⟩ := notMem_of_deep hdeep
  unfold goParent
  rw [if_neg hcanonical, if_neg hauth, hsilent]
  by_cases hchild : s.node ∈ [NodeId.logging, .terminalLine]
  · rw [if_pos hchild]
    rfl
  · rw [if_neg hchild, hdrops.resolve_left hchild]
    show (if p.isConfigChild app s.node then _ else _ : Session κ).parents = []
    split <;> rfl

theorem goParent_of_not_dropsLevels (hdeep : NodeId.config.value < s.node.value)
    (hkeeps : ¬ p.registry.DropsLevels s.node) {f : Frame κ} {rest : List (Frame κ)}
    (hs : s.parents = f :: rest) :
    (p.goParent app s).node = f.node ∧ (p.goParent app s).parents = rest := by
  obtain ⟨hcanonical, hauth⟩ := notMem_of_deep hdeep
  have hchild : s.node ∉ [NodeId.logging, .terminalLine] := fun hmem => hkeeps (.inl hmem)
  obtain ⟨parent, hparent⟩ := Option.ne_none_iff_exists'.1 fun hnone => hkeeps (.inr hnone)
  have hup : p.goParent app s = (s.setNode parent).popParent := by
    unfold goParent
    rw [if_neg hcanonical, if_neg hauth, if_neg hchild, hsilent, hparent]
    rfl
  rw [hup, popParent_cons (s := s.setNode parent) hs]
  exact ⟨rfl, rfl⟩

theorem goParent_of_nil (hs : s.parents = []) : (p.goParent app s).parents = [] := by
  rcases goParent_of_noLevel (hsilent s) hs with hsettled | ⟨hlevels, -⟩
  · exact hsettled.2
  · exact hlevels

/-- Step by step the levels go, and none is left if the way takes them all. -/
theorem Climbs.parents_eq_nil_iff {last : NodeId} {found : Option NodeId × Session κ}
    (h : p.Climbs app last s found) :
    found.2.parents = [] ↔ p.registry.WayOut last s.node s.parents := by
  induction h with
  | @arrived last s hnode =>
    cases s.parents with
    | nil => exact iff_of_true rfl trivial
    | cons f rest =>
      refine iff_of_false (List.cons_ne_nil f rest) ?_
      rintro ⟨hdeep, -⟩
      exact absurd hnode (Nat.not_le.2 hdeep)
  | @stuck last s hnode hlast =>
    cases s.parents with
    | nil => exact iff_of_true rfl trivial
    | cons f rest =>
      refine iff_of_false (List.cons_ne_nil f rest) ?_
      rintro ⟨-, hother, -⟩
      exact hother hlast
  | @up last s found hdeep hlast rest ih =>
    rw [ih]
    cases hs : s.parents with
    | nil =>
      rw [goParent_of_nil hsilent hs]
      exact iff_of_true trivial trivial
    | cons f levels =>
      by_cases hdrops : p.registry.DropsLevels s.node
      · rw [goParent_of_dropsLevels hsilent hdeep hdrops]
        exact iff_of_true trivial ⟨hdeep, hlast, .inl hdrops⟩
      · obtain ⟨hnode, hlevels⟩ := goParent_of_not_dropsLevels hsilent hdeep hdrops hs
        rw [hnode, hlevels]
        constructor
        · exact fun hway => ⟨hdeep, hlast, .inr hway⟩
        · exact fun hway => hway.2.2.resolve_left hdrops

end Silent

-- ============================================================================
-- Leaving
-- ============================================================================

variable [FileStore φ]

/-- The way up ends, and from there it is on to the privileged commands. -/
theorem exists_climbs_leaveConfig {info : AppInfo} {edits : List Registry.Edit}
    (hregistry : p.registry = Registry.build info edits) {c : Console σ κ φ}
    (hsilent : ∀ s, p.application.above c.app s = none)
    (habove : NodeId.enable.value < c.session.node.value) :
    ∃ found, p.Climbs c.app .config c.session found ∧
      (p.leaveConfig c).session = found.2.toPrivileged := by
  have hclimbs := ((ascent_settles hregistry hsilent c.session).2.1 _).2 rfl
  refine ⟨_, hclimbs, ?_⟩
  unfold leaveConfig
  rw [if_neg (Nat.not_le.2 habove)]
  -- The number of steps is a large literal, and nothing below depends on it.
  generalize p.climb c.app (p.ascentBound c.session) .config c.session = found
  obtain ⟨_ | _, s⟩ := found <;> rfl

/-- The words mean a command of the library that is carried out here. -/
def Means (p : Program σ κ) (node : NodeId) (words : List String) (strict : Bool)
    (command : Builtin) : Prop :=
  ∃ found, resolve (p.registry.elements node) words strict p.limits.arguments = .ok found ∧
    found.element.spec.daemon = 0 ∧ found.element.spec.action = .builtin command

theorem means_iff {node : NodeId} {words : List String} {strict : Bool} {command : Builtin} :
    p.Means node words strict command ↔
      (resolve (p.registry.elements node) words strict p.limits.arguments).toOption.map
        (fun found => (found.element.spec.daemon, found.element.spec.action)) =
          some (0, .builtin command) := by
  unfold Means
  cases resolve (p.registry.elements node) words strict p.limits.arguments with
  | error e => simp [Except.toOption]
  | ok found => simp [Except.toOption]

instance (node : NodeId) (words : List String) (strict : Bool) (command : Builtin) :
    Decidable (p.Means node words strict command) :=
  decidable_of_iff _ means_iff.symm

theorem dispatch_of_leave {c : Console σ κ φ} {words : List String} {strict : Bool}
    (h : p.Means c.session.node words strict .leave) :
    p.dispatch words strict c = (.ok .success, p.leaveConfig c) := by
  obtain ⟨found, hfound, hdaemon, haction⟩ := h
  rw [p.dispatch_of_found hfound hdaemon, p.perform_of_builtin c haction]
  rfl

/-- The ways to ask for the end of the configuration: the command on a typed line,
    the key for it, and the command on a line of a configuration text, which counts
    from the level it is run at. The console behind it is the last one. -/
inductive Departs (p : Program σ κ) (c : Console σ κ φ) :
    Bool → Session κ → Console σ κ φ → Prop where
  | typed (line : String) (hwords : (Line.parse line).isEmpty = false)
      (hplain : isShortcut c.session.node (Line.parse line).first? = false)
      (hmeans : p.Means c.session.node (Line.parse line).words false .leave) :
      Departs p c false c.session (p.execute line c).2
  | key : Departs p c false c.session (p.leaveConfig c)
  | replayed (number : Nat) (text : String) (d : Dispatched σ κ φ)
      (hrun : p.dispatched? number text c = some d)
      (hmeans : p.Means d.before.session.node d.line.words true .leave) :
      Departs p c true d.before.session (p.replayLine number text c).2

@[simp] theorem node_openLevel (before s : Session κ) :
    (openLevel before s).node = s.node := by
  unfold openLevel
  split <;> rfl

@[simp] theorem context_openLevel (before s : Session κ) :
    (openLevel before s).context = s.context := by
  unfold openLevel
  split <;> rfl

/-- Behind a line that has moved the session and opened no level itself, none is open
    exactly if the line has taken some away, and with them all. -/
theorem parents_openLevel_eq_nil_iff {before s : Session κ} (hmoved : s.node ≠ before.node)
    (hcount : s.epoch + s.parents.length = before.epoch + before.parents.length) :
    (openLevel before s).parents = [] ↔ s.parents = [] ∧ before.parents ≠ [] := by
  by_cases hepoch : s.epoch = before.epoch
  · have hopens : openLevel before s = (s.pushParent before.frame).setIndent none :=
      if_pos ⟨hmoved, hepoch⟩
    have hlength : s.parents.length = before.parents.length := by omega
    rw [hopens]
    refine iff_of_false (List.cons_ne_nil _ _) ?_
    rintro ⟨hs, hbefore⟩
    rw [hs] at hlength
    exact hbefore (List.length_eq_zero_iff.1 hlength.symm)
  · have hkeeps : openLevel before s = s := if_neg fun h => hepoch h.2
    rw [hkeeps]
    constructor
    · intro hs
      refine ⟨hs, fun hbefore => hepoch ?_⟩
      rw [hs, hbefore] at hcount
      exact hcount
    · exact And.left

/-- A line of a replay that took no level away opens one behind it. -/
theorem Departs.exists_climbs {info : AppInfo} {edits : List Registry.Edit}
    (hregistry : p.registry = Registry.build info edits) {c c' : Console σ κ φ}
    (hsilent : ∀ s, p.application.above c.app s = none) {replayed : Bool}
    (h : p.Departs c replayed s c') (habove : NodeId.enable.value < s.node.value) :
    ∃ found, p.Climbs c.app .config s found ∧
      c'.session =
        if replayed then openLevel s found.2.toPrivileged else found.2.toPrivileged := by
  cases h with
  | typed line hwords hplain hmeans =>
    rw [p.execute_of_plain hwords hplain, dispatch_of_leave hmeans]
    exact exists_climbs_leaveConfig hregistry hsilent habove
  | key => exact exists_climbs_leaveConfig hregistry hsilent habove
  | replayed number text d hrun hmeans =>
    rw [replayLine_of_dispatched? hrun]
    obtain ⟨line, s, -, -, -, rfl⟩ := eq_of_dispatched? hrun
    have hdispatch := dispatch_of_leave (c := { c with session := s }) hmeans
    obtain ⟨found, hclimbs, hleft⟩ :=
      exists_climbs_leaveConfig (c := { c with session := s }) hregistry hsilent habove
    refine ⟨found, hclimbs, ?_⟩
    dsimp only
    rw [hdispatch, ← hleft]
    rfl

/-- Behind `end`, asked for above the privileged commands, the session is at those or
    below them and has no object. No level is open exactly if the way up has taken
    all of them away, and, where the line was replayed, there was one to take. -/
theorem Departs.leaves {info : AppInfo} {edits : List Registry.Edit}
    (hregistry : p.registry = Registry.build info edits)
    (hsilent : ∀ app s, p.application.above app s = none) {c c' : Console σ κ φ}
    {replayed : Bool} (h : p.Departs c replayed s c')
    (habove : NodeId.enable.value < s.node.value) :
    c'.session.node.value ≤ NodeId.enable.value ∧ c'.session.context = none ∧
      (c'.session.parents = [] ↔
        p.registry.WayOut .config s.node s.parents ∧ (replayed = true → s.parents ≠ [])) := by
  obtain ⟨⟨_, up⟩, hclimbs, hsession⟩ := h.exists_climbs hregistry (hsilent c.app) habove
  have hlevels := hclimbs.parents_eq_nil_iff (hsilent c.app)
  have hcount := hclimbs.epoch_add_length
  have hnode := up.node_toPrivileged_le
  rw [hsession]
  cases replayed with
  | false =>
    refine ⟨hnode, rfl, ?_⟩
    simpa using hlevels
  | true =>
    have hmoved : up.toPrivileged.node ≠ s.node := by
      intro heq
      rw [heq] at hnode
      exact absurd habove (Nat.not_lt.2 hnode)
    have hcounted : up.toPrivileged.epoch + up.toPrivileged.parents.length =
        s.epoch + s.parents.length := by
      rw [epoch_toPrivileged, parents_toPrivileged]
      exact hcount
    have hopened := parents_openLevel_eq_nil_iff hmoved hcounted
    rw [parents_toPrivileged, hlevels] at hopened
    refine ⟨?_, ?_, ?_⟩
    · show (openLevel s up.toPrivileged).node.value ≤ NodeId.enable.value
      rw [node_openLevel]
      exact hnode
    · show (openLevel s up.toPrivileged).context = none
      rw [context_openLevel]
      exact up.context_toPrivileged
    · simpa using hopened

/-- Calls that install a network below the global configuration and a site below the
    network, with `end` at all of them and a way to the global configuration. -/
def siteEdits : List Registry.Edit :=
  let leave : CommandSpec := { action := .builtin .leave, pattern := "end", doc := "" }
  [.install
    [.node { id := .enable, prompt := "%s# " },
      .node { id := .config, prompt := "%s(config)# " },
      .node { id := ⟨32⟩, prompt := "%s(config-net)# ", parent := some .config },
      .node { id := ⟨33⟩, prompt := "%s(config-site)# ", parent := some ⟨32⟩ },
      .command .enable
        { action := .builtin .configure, pattern := "configure terminal", doc := "" },
      .command .config leave, .command ⟨32⟩ leave, .command ⟨33⟩ leave]]

def siteProgram : Program Unit String where
  registry := Registry.build { name := "bsc", version := "1.0" } siteEdits
  application := .none

/-- A console in an empty world. -/
def bareConsole (session : Session String) : Console Unit String FileTree where
  host := {}
  app := ()
  world := { files := ⟨[]⟩, salts := { draw := fun _ => none } }
  session

/-- A session at a site that a replay has entered from the global configuration. -/
def siteConsole : Console Unit String FileTree :=
  bareConsole
    { node := ⟨33⟩, context := some "site", epoch := 2, indent := some "  ",
      parents := [⟨⟨32⟩, some "net", some " "⟩, ⟨.config, none, some ""⟩] }

/-- The line `end` of a configuration text, at the site. -/
def siteEnd : Dispatched Unit String FileTree :=
  (siteProgram.dispatched? 3 "  end" siteConsole).get (by decide +kernel)

/-- Both levels of the site go, whether `end` is typed there or replayed. -/
theorem Departs.leaves_site :
    NodeId.enable.value < siteConsole.session.node.value ∧
    siteConsole.session.parents.length = 2 ∧
    ∀ c' ∈ [(siteProgram.execute "end" siteConsole).2,
        (siteProgram.replayLine 3 "  end" siteConsole).2],
      c'.session.node.value ≤ NodeId.enable.value ∧ c'.session.context = none ∧
        c'.session.parents = [] := by
  have htyped : siteProgram.Departs siteConsole false siteConsole.session
      (siteProgram.execute "end" siteConsole).2 :=
    .typed "end" (by decide +kernel) (by decide +kernel) (by decide +kernel)
  have hreplayed : siteProgram.Departs siteConsole true siteEnd.before.session
      (siteProgram.replayLine 3 "  end" siteConsole).2 :=
    .replayed 3 "  end" siteEnd (Option.some_get _).symm (by decide +kernel)
  obtain ⟨hnode, hcontext, hparents⟩ := htyped.leaves rfl (fun _ _ => rfl) (by decide)
  obtain ⟨hnode', hcontext', hparents'⟩ :=
    hreplayed.leaves rfl (fun _ _ => rfl) (by decide +kernel)
  refine ⟨by decide, rfl, ?_⟩
  intro c' hc'
  rcases List.mem_cons.1 hc' with rfl | hc'
  · exact ⟨hnode, hcontext, hparents.2 (by decide +kernel)⟩
  · rw [List.mem_singleton.1 hc']
    exact ⟨hnode', hcontext', hparents'.2 (by decide +kernel)⟩

/-- The consoles that typed lines and configuration texts lead to, from a session
    without levels at any node. -/
inductive Reaches (p : Program σ κ) : Console σ κ φ → Prop where
  | start {c : Console σ κ φ} (hlevels : c.session.parents = []) : Reaches p c
  | typed {c : Console σ κ φ} (line : String) (h : Reaches p c) : Reaches p (p.execute line c).2
  | replayed {c : Console σ κ φ} (text : ConfigText) (h : Reaches p c) :
      Reaches p (p.replay text c).2

/-- A replayed `end` leaves a level open, which a typed one behind it does not take
    away. -/
theorem not_forall_parents_eq_nil :
    ¬ ∀ (p : Program Unit String) (info : AppInfo) (edits : List Registry.Edit),
      p.registry = Registry.build info edits → (∀ app s, p.application.above app s = none) →
      p.application.KeepsLevels → ∀ c c' : Console Unit String FileTree, p.Reaches c →
      ∀ replayed s, p.Departs c replayed s c' → NodeId.enable.value < s.node.value →
        c'.session.node.value ≤ NodeId.enable.value ∧ c'.session.context = none ∧
          c'.session.parents = [] := by
  intro h
  let c := (siteProgram.execute "configure terminal"
    (siteProgram.replay ⟨["end"], none⟩ (bareConsole { node := .config })).2).2
  have hreaches : siteProgram.Reaches c := .typed _ (.replayed _ (.start rfl))
  have hdeparts : siteProgram.Departs c false c.session (siteProgram.execute "end" c).2 := by
    apply Departs.typed "end" <;> decide +kernel
  have hleaves := h siteProgram _ _ rfl (fun _ _ => rfl) (fun _ _ _ _ => ⟨rfl, rfl⟩) c _ hreaches
    false c.session hdeparts (by decide +kernel)
  exact absurd hleaves.2.2 (by decide +kernel)

end Program

end RouterCli
