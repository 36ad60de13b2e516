import RouterCli.NodeFamily
import RouterCli.Proofs.Command.Lineage
import RouterCli.Proofs.Pattern.Compiled
import RouterCli.Proofs.Pattern.SortedLevels

/-!
  RouterCli.Proofs.Command.WellFormed

  What holds of a registry whatever calls have built it (`Registry.build_wellFormed`).
  A node has one command of a pattern, and each command is the one that its pattern is
  compiled to, but for the order of its last alternatives (`Element.IsOfPattern`).
  Every parent that was named is there, and no way up comes to a node twice
  (`Registry.Lineage.nodup_of_isChain`).
-/

namespace RouterCli

-- ============================================================================
-- Commands as they are compiled
-- ============================================================================

theorem compileFrom_ne_nil (g : Grouping) (cs : List Char) (docs : List String)
    (levels : List Level) {result : List Level}
    (h : compileFrom g cs docs levels = .ok result) : result ≠ [] := by
  fun_induction compileFrom g cs docs levels with
  | case1 => cases h
  | case2 => cases h
  | case3 => cases h
  | case4 g cs docs levels _ _ _ hempty =>
    obtain rfl := Except.ok.inj h
    simpa using hempty
  | case5 g cs docs levels found _ alternative ih => exact ih h

/-- A pattern that compiles has a last level. -/
theorem exists_last_of_compile {pattern doc : String} {levels : List Level}
    (h : compile pattern doc = .ok levels) : ∃ init last, levels = init ++ [last] :=
  ⟨levels.dropLast, levels.getLast (compileFrom_ne_nil _ _ _ _ h),
    (List.dropLast_append_getLast _).symm⟩

namespace Element

/-- The command is the one that its pattern and its help are compiled to, but for the
    order of the last alternatives. -/
def IsOfPattern (e : Element) : Prop :=
  ∃ init last last', compile e.spec.pattern e.spec.doc = .ok (init ++ [last]) ∧
    e.levels = init ++ [last'] ∧ last'.Perm last ∧
    e.mandatory = RouterCli.mandatory (init ++ [last])

theorem isOfPattern_of_ofSpec {spec : CommandSpec} {e : Element} (h : ofSpec spec = .ok e) :
    e.IsOfPattern := by
  unfold ofSpec at h
  cases hcompile : compile spec.pattern spec.doc with
  | error defect =>
    rw [hcompile] at h
    cases h
  | ok levels =>
    rw [hcompile] at h
    obtain rfl := Except.ok.inj h
    obtain ⟨init, last, rfl⟩ := exists_last_of_compile hcompile
    exact ⟨init, last, last, hcompile, rfl, .refl last, rfl⟩

/-- The texts of the tokens are made of the characters of the pattern. -/
theorem IsOfPattern.text_subset {e : Element} (h : e.IsOfPattern) {level : Level}
    (hlevel : level ∈ e.levels) {a : Alternative} (ha : a ∈ level) :
    a.text.toList ⊆ e.pattern.toList := by
  obtain ⟨init, last, last', hcompile, hlevels, hperm, -⟩ := h
  have hcompiled : ∀ level ∈ init ++ [last], ∀ a ∈ level, a.text.toList ⊆ e.pattern.toList := by
    refine forall_mem_compileFrom _ _ _ [] (by simp) (fun text doc hpart => ?_) hcompile
    rwa [Alternative.text, Token.text_ofText, String.toList_ofList]
  rw [hlevels] at hlevel
  rcases List.mem_append.1 hlevel with hinit | hlast
  · exact hcompiled level (List.mem_append_left _ hinit) a ha
  · rw [List.mem_singleton.1 hlast] at ha
    exact hcompiled last (by simp) a (hperm.mem_iff.1 ha)

theorem IsOfPattern.sortLast {e : Element} (h : e.IsOfPattern) : e.sortLast.IsOfPattern := by
  obtain ⟨init, last, last', hcompile, hlevels, hperm, hmandatory⟩ := h
  have hsorted : e.sortLast.levels =
      init ++ [last'.mergeSort fun a b => decide (a.text ≤ b.text)] := by
    show sortLastLevel e.levels = _
    rw [hlevels, sortLastLevel]
    simp
  refine ⟨init, last, _, hcompile, hsorted, (List.mergeSort_perm last' _).trans hperm, ?_⟩
  rw [mandatory_sortLast]
  exact hmandatory

end Element

-- ============================================================================
-- Nodes
-- ============================================================================

namespace Node

/-- The node has one command of a pattern, each as its pattern is compiled. -/
structure IsSound (n : Node) : Prop where
  patterns : (n.elements.map (·.pattern)).Nodup
  compiled : ∀ e ∈ n.elements, e.IsOfPattern

theorem IsSound.empty (definition : NodeDef) : IsSound { definition } where
  patterns := List.nodup_nil
  compiled := by simp

variable {n : Node}

theorem IsSound.append {spec : CommandSpec} {e : Element} (h : n.IsSound)
    (hnew : n.elements.any (·.pattern == spec.pattern) = false)
    (he : Element.ofSpec spec = .ok e) : IsSound { n with elements := n.elements ++ [e] } := by
  have hpattern : e.pattern = spec.pattern :=
    congrArg CommandSpec.pattern (Element.spec_of_ofSpec he)
  constructor
  · rw [List.map_append, List.map_singleton, List.nodup_append]
    refine ⟨h.patterns, List.pairwise_singleton _ _, ?_⟩
    rintro pattern hmem _ hlast rfl
    obtain ⟨older, holder, heq⟩ := List.mem_map.1 hmem
    have hother := List.any_eq_false.1 hnew older holder
    rw [List.mem_singleton.1 hlast, hpattern] at heq
    exact hother (beq_iff_eq.2 heq)
  · rw [List.forall_mem_append]
    refine ⟨h.compiled, ?_⟩
    simpa using Element.isOfPattern_of_ofSpec he

theorem IsSound.sort (h : n.IsSound) : n.sort.IsSound := by
  have hperm := List.mergeSort_perm n.elements fun a b => decide (a.pattern ≤ b.pattern)
  constructor
  · have hsame : n.sort.elements.map (·.pattern) =
        (n.elements.mergeSort fun a b => decide (a.pattern ≤ b.pattern)).map (·.pattern) :=
      List.map_map
    rw [hsame, (hperm.map _).nodup_iff]
    exact h.patterns
  · intro e he
    obtain ⟨older, holder, rfl⟩ := List.mem_map.1 he
    exact (h.compiled older (hperm.mem_iff.1 holder)).sortLast

end Node

namespace Registry

-- ============================================================================
-- Registries
-- ============================================================================

/-- The nodes stand in the order of their numbers, and are sound. -/
structure IsSound (r : Registry) : Prop where
  numbers : r.nodes.Pairwise fun m n => m.id.value < n.id.value
  nodes : ∀ n ∈ r.nodes, n.IsSound

theorem mem_insertNode {node n : Node} {nodes : List Node} :
    n ∈ insertNode node nodes ↔ n = node ∨ n ∈ nodes := by
  induction nodes with
  | nil => simp [insertNode]
  | cons m rest ih =>
    unfold insertNode
    split_ifs
    · exact List.mem_cons
    · rw [List.mem_cons, ih, List.mem_cons]
      tauto

/-- A node of a new number keeps the order of the numbers. -/
theorem pairwise_insertNode {node : Node} {nodes : List Node}
    (h : nodes.Pairwise fun m n => m.id.value < n.id.value) (hnew : ∀ n ∈ nodes, n.id ≠ node.id) :
    (insertNode node nodes).Pairwise fun m n => m.id.value < n.id.value := by
  induction nodes with
  | nil => exact List.pairwise_singleton _ _
  | cons m rest ih =>
    obtain ⟨hfirst, hrest⟩ := List.pairwise_cons.1 h
    obtain ⟨hm, hnew⟩ := List.forall_mem_cons.1 hnew
    unfold insertNode
    split_ifs with hlt
    · refine List.pairwise_cons.2 ⟨?_, h⟩
      rw [List.forall_mem_cons]
      exact ⟨hlt, fun n hn => Nat.lt_trans hlt (hfirst n hn)⟩
    · have hne : m.id.value ≠ node.id.value := fun heq => hm (congrArg NodeId.mk heq)
      refine List.pairwise_cons.2 ⟨?_, ih hrest hnew⟩
      intro n hn
      rcases mem_insertNode.1 hn with rfl | hn
      · omega
      · exact hfirst n hn

/-- The same nodes by number, holding other commands. -/
theorem pairwise_map {nodes : List Node} {f : Node → Node} (hf : ∀ n, (f n).id = n.id)
    (h : nodes.Pairwise fun m n => m.id.value < n.id.value) :
    (nodes.map f).Pairwise fun m n => m.id.value < n.id.value := by
  rw [List.pairwise_map]
  simpa only [hf] using h

namespace IsSound

variable {r r' : Registry}

/-- A node is found under its number. -/
theorem node?_of_mem (h : r.IsSound) {n : Node} (hn : n ∈ r.nodes) : r.node? n.id = some n := by
  obtain ⟨before, behind, hnodes⟩ := List.append_of_mem hn
  have hnumbers := h.numbers
  rw [hnodes, List.pairwise_append] at hnumbers
  rw [node?, List.find?_eq_some_iff_append]
  refine ⟨beq_self_eq_true _, before, behind, hnodes, ?_⟩
  intro m hm
  have hlt := hnumbers.2.2 m hm n List.mem_cons_self
  have hne : m.id ≠ n.id := fun heq => Nat.ne_of_lt hlt (congrArg NodeId.value heq)
  simpa using hne

theorem isOfPattern (h : r.IsSound) {id : NodeId} {e : Element} (he : e ∈ r.elements id) :
    e.IsOfPattern := by
  unfold elements at he
  cases hnode : r.node? id with
  | none =>
    rw [hnode] at he
    cases he
  | some n =>
    rw [hnode] at he
    exact (h.nodes n (List.mem_of_find?_eq_some hnode)).compiled e he

theorem empty (app : AppInfo) : IsSound { app } where
  numbers := List.Pairwise.nil
  nodes := by simp

theorem installNode {d : NodeDef} (h : r.IsSound) (hstep : r.installNode d = .ok r') :
    r'.IsSound := by
  obtain ⟨hnew, -, -⟩ := installNode_requires hstep
  have hother : ∀ n ∈ r.nodes, n.id ≠ d.id := by
    intro n hn heq
    have hfound := h.node?_of_mem hn
    rw [heq, hnew] at hfound
    cases hfound
  have hnodes : r'.nodes = insertNode { definition := d } r.nodes := by
    unfold Registry.installNode at hstep
    split_ifs at hstep
    split at hstep
    · cases hstep
    · cases hstep
      rfl
  constructor
  · rw [hnodes]
    exact pairwise_insertNode h.numbers hother
  · intro n hn
    rw [hnodes] at hn
    rcases mem_insertNode.1 hn with rfl | hn
    · exact .empty d
    · exact h.nodes n hn

theorem installCommand {id : NodeId} {spec : CommandSpec} (h : r.IsSound)
    (hstep : r.installCommand id spec = .ok r') : r'.IsSound := by
  obtain ⟨node, e, hnode, hany, he, rfl⟩ := installCommand_eq hstep
  constructor
  · refine pairwise_map (fun n => ?_) h.numbers
    split_ifs <;> rfl
  · intro n hn
    obtain ⟨m, hm, rfl⟩ := List.mem_map.1 hn
    split_ifs with hid
    · -- The node of the number is the one whose commands were looked through.
      have hfound := h.node?_of_mem hm
      rw [beq_iff_eq.1 hid, hnode] at hfound
      obtain rfl := Option.some.inj hfound
      exact (h.nodes node hm).append hany he
    · exact h.nodes m hm

theorem install {step : Installation} (h : r.IsSound) (hstep : r.install step = .ok r') :
    r'.IsSound := by
  cases step with
  | node d => exact h.installNode hstep
  | command id spec => exact h.installCommand hstep

theorem sort (h : r.IsSound) : r.sort.IsSound := by
  constructor
  · exact pairwise_map (fun _ => rfl) h.numbers
  · intro n hn
    obtain ⟨m, hm, rfl⟩ := List.mem_map.1 hn
    exact (h.nodes m hm).sort

end IsSound

theorem isSound_build (app : AppInfo) (edits : List Edit) : (build app edits).IsSound :=
  build_induction (.empty app) (fun h hstep => h.install hstep) (fun h => h.sort) edits

/-- Whatever calls have built a registry, failing ones included: its nodes are found
    under their numbers, each has one command of a pattern, every command is the one
    that its pattern is compiled to but for the order of its last alternatives, and
    every parent that was named is there. No way up comes to a node twice, and a call
    that installs one thing and fails changes nothing. -/
theorem build_wellFormed (app : AppInfo) (edits : List Edit) :
    let r := build app edits
    (∀ n ∈ r.nodes, r.node? n.id = some n ∧ (n.elements.map (·.pattern)).Nodup ∧
      (∀ e ∈ n.elements, e.IsOfPattern) ∧
      ∀ parent ∈ n.definition.parent, (r.node? parent).isSome = true) ∧
    (∀ way : List NodeId, way.IsChain (fun n parent => r.parentOf n = some parent) →
      way.Nodup) ∧
    ∀ step e, r.install step = .error e → build app (edits ++ [.install [step]]) = r := by
  intro r
  have hsound : r.IsSound := isSound_build app edits
  obtain ⟨order, hlineage⟩ : ∃ order, Lineage r order := exists_lineage_build app edits
  refine ⟨fun n hn => ?_, fun way hway => hlineage.nodup_of_isChain hway, fun step e hfail => ?_⟩
  · have hfound := hsound.node?_of_mem hn
    have hinstalled : n.id ∈ order := (hlineage.installed n.id).1 (by rw [hfound]; rfl)
    refine ⟨hfound, (hsound.nodes n hn).patterns, (hsound.nodes n hn).compiled, ?_⟩
    intro parent hparent
    have hnamed : r.parentOf n.id = some parent := by
      rw [parentOf, hfound]
      exact hparent
    exact (hlineage.installed parent).2 (hlineage.behind.parent_mem hinstalled hnamed)
  · have hkept : r.edit (.install [step]) = r := by
      rw [edit, installAll, hfail]
    rw [build, List.foldl_append, List.foldl_cons, List.foldl_nil]
    exact hkept

/-- Two commands of a station. -/
def stationSpecs : List CommandSpec :=
  [{ action := .application "type", pattern := "type (ip|bs11)", doc := "" },
    { action := .application "timer", pattern := "timer (t3|t1|t2) [<0-255>]", doc := "" }]

/-- A station below a network below the global configuration, where a command is
    installed that is there already. -/
def stationCalls : List Edit :=
  [.install [.node { id := .config, prompt := "%s(config)# " }],
    .install [.node { id := .application 0, prompt := "%s(config-net)# ", parent := some .config },
      .node { id := .application 1, prompt := "%s(config-net-bts)# ",
              parent := some (.application 0) }],
    .install ((stationSpecs ++ stationSpecs).map (.command (.application 1)))]

/-- A node whose parent is not there. -/
def orphan : Installation :=
  .node { id := .application 2, prompt := "%s(config-trx)# ", parent := some (.application 3) }

/-- Sorted, the station has its two commands in another order, and the alternatives of
    one in another. It is two steps below the global configuration, and an orphan is
    not installed. -/
theorem build_wellFormed_station :
    let r := build ⟨"bsc", "1.0", none⟩ (stationCalls ++ [.sort])
    (∃ n ∈ r.nodes,
      n.elements.map (fun e => (e.pattern, (e.levels.getLast?.getD []).map (·.text))) =
        [("timer (t3|t1|t2) [<0-255>]", ["[<0-255>]"]), ("type (ip|bs11)", ["bs11", "ip"])] ∧
      (n.elements.map (·.pattern)).Nodup ∧ ∀ e ∈ n.elements, e.IsOfPattern) ∧
    ([NodeId.application 1, .application 0, .config].IsChain
        (fun n parent => r.parentOf n = some parent) ∧
      [NodeId.application 1, .application 0, .config].Nodup) ∧
    r.install orphan = .error (.unknownParent (.application 2) (.application 3)) ∧
      build ⟨"bsc", "1.0", none⟩ (stationCalls ++ [.sort] ++ [.install [orphan]]) = r := by
  intro r
  obtain ⟨hnodes, hways, hfailed⟩ :=
    build_wellFormed ⟨"bsc", "1.0", none⟩ (stationCalls ++ [.sort])
  have hbefore : (build ⟨"bsc", "1.0", none⟩ stationCalls).elements (.application 1) =
      stationSpecs.zipWith (fun spec texts => ⟨spec, texts.map Level.ofTexts⟩)
        [[["type"], ["ip", "bs11"]], [["timer"], ["t3", "t1", "t2"], ["[<0-255>]"]]] := by
    decide +kernel
  obtain ⟨n, hfound⟩ : ∃ n, r.node? (.application 1) = some n :=
    Option.isSome_iff_exists.1 (by decide +kernel)
  have hn : n ∈ r.nodes := List.mem_of_find?_eq_some hfound
  have helements : n.elements = r.elements (.application 1) := by
    rw [elements, hfound]
    rfl
  have htexts : n.elements.map
      (fun e => (e.pattern, (e.levels.getLast?.getD []).map (·.text))) =
        [("timer (t3|t1|t2) [<0-255>]", ["[<0-255>]"]), ("type (ip|bs11)", ["bs11", "ip"])] := by
    have hsort : r = (build ⟨"bsc", "1.0", none⟩ stationCalls).sort := rfl
    rw [helements, hsort, elements_sort, hbefore]
    simp [stationSpecs, List.mergeSort, List.MergeSort.Internal.splitInTwo, Element.sortLast,
      sortLastLevel, Element.pattern, Level.ofTexts, Alternative.text]
  have hway : [NodeId.application 1, .application 0, .config].IsChain
      (fun n parent => r.parentOf n = some parent) := by
    decide +kernel
  have hfail : r.install orphan = .error (.unknownParent (.application 2) (.application 3)) := by
    decide +kernel
  exact ⟨⟨n, hn, htexts, (hnodes n hn).2.1, (hnodes n hn).2.2.1⟩, ⟨hway, hways _ hway⟩, hfail,
    hfailed _ _ hfail⟩

end Registry

end RouterCli
