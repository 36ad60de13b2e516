import Mathlib.Tactic.SplitIfs
import RouterCli.Registry

/-!
  RouterCli.Proofs.Command.Installed

  What a series of installations leaves at each node: the commands of the
  series, compiled, in its order, up to the first installation that fails
  (`elements_installAll`). A series whose nodes and patterns are new, and whose
  patterns compile, does not fail (`installAll_of_installable`).
-/

namespace RouterCli

theorem Element.spec_of_ofSpec {spec : CommandSpec} {e : Element} (h : ofSpec spec = .ok e) :
    e.spec = spec := by
  unfold ofSpec at h
  cases hc : compile spec.pattern spec.doc with
  | error defect => simp [hc, Except.map] at h
  | ok levels =>
    simp only [hc, Except.map, Except.ok.injEq] at h
    rw [← h]

namespace Registry

-- ============================================================================
-- One node
-- ============================================================================

theorem find?_insertNode {node : Node} {nodes : List Node}
    (h : nodes.find? (·.id == node.id) = none) (n : NodeId) :
    (insertNode node nodes).find? (·.id == n) =
      if node.id = n then some node else nodes.find? (·.id == n) := by
  induction nodes with
  | nil =>
    by_cases hn : node.id = n <;> simp [insertNode, hn]
  | cons m rest ih =>
    have hm : (m.id == node.id) = false := by
      cases hb : m.id == node.id with
      | false => rfl
      | true => simp [hb] at h
    rw [List.find?_cons_of_neg (by simp [hm])] at h
    unfold insertNode
    split_ifs with hlt hn hn
    · rw [List.find?_cons_of_pos (by simp [hn])]
    · rw [List.find?_cons_of_neg (by simp [hn])]
    · rw [List.find?_cons_of_neg, ih h, if_pos hn]
      simpa [hn] using hm
    · rw [List.find?_cons, List.find?_cons, ih h, if_neg hn]

theorem length_insertNode (node : Node) (nodes : List Node) :
    (insertNode node nodes).length = nodes.length + 1 := by
  induction nodes with
  | nil => rfl
  | cons m rest ih =>
    unfold insertNode
    split_ifs
    · rfl
    · rw [List.length_cons, ih, List.length_cons]

/-- What installing a node asks for, and how many nodes there are after it. -/
theorem installNode_requires {r r' : Registry} {d : NodeDef} (h : r.installNode d = .ok r') :
    r.node? d.id = none ∧ (∀ parent ∈ d.parent, (r.node? parent).isSome) ∧
      r'.nodes.length = r.nodes.length + 1 := by
  unfold installNode at h
  split_ifs at h with hpresent
  split at h
  · cases h
  · rename_i hparent
    cases h
    refine ⟨by simpa using hpresent, ?_, length_insertNode _ _⟩
    intro parent hmem
    rw [Option.mem_def.1 hmem] at hparent
    exact Option.isSome_iff_ne_none.2 (by simpa [Option.filter] using hparent)

theorem node?_installNode {r r' : Registry} {d : NodeDef} (h : r.installNode d = .ok r')
    (n : NodeId) : r'.node? n = if d.id = n then some { definition := d } else r.node? n := by
  unfold installNode at h
  split_ifs at h with hpresent
  split at h
  · cases h
  · cases h
    have hnone : r.node? d.id = none := by simpa using hpresent
    have hinsert : ∀ node : Node, node.id = d.id →
        (insertNode node r.nodes).find? (·.id == n) =
          if d.id = n then some node else r.nodes.find? (·.id == n) := by
      intro node hid
      rw [← hid]
      refine find?_insertNode ?_ n
      rw [hid]
      exact hnone
    exact hinsert { definition := d } rfl

theorem elements_installNode {r r' : Registry} {d : NodeDef} (h : r.installNode d = .ok r')
    (n : NodeId) : r'.elements n = r.elements n := by
  rw [elements, elements, node?_installNode h]
  split_ifs with hn
  · have hnone : r.node? n = none := by
      rw [← hn]
      exact (installNode_requires h).1
    rw [hnone]
    rfl
  · rfl

theorem find?_map_node {f : Node → Node} (hf : ∀ m, (f m).id = m.id) (nodes : List Node)
    (n : NodeId) :
    (nodes.map f).find? (·.id == n) = (nodes.find? (·.id == n)).map f := by
  rw [List.find?_map]
  congr 2
  funext m
  simp [hf]

/-- What installing a command asks for, and what it changes. -/
theorem installCommand_eq {r r' : Registry} {id : NodeId} {spec : CommandSpec}
    (h : r.installCommand id spec = .ok r') :
    ∃ node e, r.node? id = some node ∧ node.elements.any (·.pattern == spec.pattern) = false ∧
      Element.ofSpec spec = .ok e ∧
      r' = { r with
        nodes := r.nodes.map fun m =>
          if m.id == id then { m with elements := m.elements ++ [e] } else m } := by
  unfold installCommand at h
  split at h
  · cases h
  · rename_i node hnode
    split_ifs at h with hany
    split at h
    · cases h
    · rename_i e he
      exact ⟨node, e, hnode, by simpa using hany, he, (Except.ok.inj h).symm⟩

/-- The same, node by node. -/
theorem installCommand_cases {r r' : Registry} {id : NodeId} {spec : CommandSpec}
    (h : r.installCommand id spec = .ok r') :
    ∃ node e, r.node? id = some node ∧ node.elements.any (·.pattern == spec.pattern) = false ∧
      Element.ofSpec spec = .ok e ∧
      ∀ n, r'.node? n = (r.node? n).map fun m =>
        if m.id == id then { m with elements := m.elements ++ [e] } else m := by
  obtain ⟨node, e, hnode, hany, he, rfl⟩ := installCommand_eq h
  refine ⟨node, e, hnode, hany, he, ?_⟩
  intro n
  refine find?_map_node ?_ r.nodes n
  intro m
  split_ifs <;> rfl

theorem elements_installCommand {r r' : Registry} {id : NodeId} {spec : CommandSpec}
    (h : r.installCommand id spec = .ok r') :
    ∃ e, Element.ofSpec spec = .ok e ∧
      ∀ n, r'.elements n = r.elements n ++ if id = n then [e] else [] := by
  obtain ⟨node, e, hnode, -, he, hafter⟩ := installCommand_cases h
  refine ⟨e, he, ?_⟩
  intro n
  rw [elements, elements, hafter]
  cases hn : r.node? n with
  | none =>
    have hne : id ≠ n := by
      intro heq
      rw [heq, hn] at hnode
      cases hnode
    simp [hne]
  | some m =>
    have hm : m.id = n := by
      simpa using List.find?_some hn
    by_cases heq : id = n
    · simp [hm, heq]
    · simp [hm, heq, Ne.symm heq]

/-- The commands of a node in a sorted registry. -/
theorem elements_sort (r : Registry) (node : NodeId) :
    r.sort.elements node = ((r.elements node).mergeSort fun a b =>
      decide (a.pattern ≤ b.pattern)).map Element.sortLast := by
  unfold elements node? sort
  dsimp only
  rw [find?_map_node (f := Node.sort) fun _ => rfl]
  cases r.nodes.find? (·.id == node) with
  | none => simp
  | some n => rfl

-- ============================================================================
-- A series of installations
-- ============================================================================

/-- The commands that a series installs at a node. -/
def specsAt (n : NodeId) (steps : List Installation) : List CommandSpec :=
  steps.filterMap fun step =>
    match step with
    | .node _ => none
    | .command id spec => if id = n then some spec else none

/-- Commands compiled, those left out whose pattern is malformed. -/
def compiled (specs : List CommandSpec) : List Element :=
  specs.filterMap fun spec => (Element.ofSpec spec).toOption

theorem compiled_specsAt_cons (n : NodeId) (step : Installation) (rest : List Installation) :
    compiled (specsAt n (step :: rest)) =
      compiled (specsAt n [step]) ++ compiled (specsAt n rest) := by
  have hsplit : step :: rest = [step] ++ rest := rfl
  rw [hsplit, specsAt, List.filterMap_append, compiled, List.filterMap_append]
  rfl

theorem elements_install {r r' : Registry} {step : Installation} (h : r.install step = .ok r')
    (n : NodeId) : r'.elements n = r.elements n ++ compiled (specsAt n [step]) := by
  cases step with
  | node d =>
    rw [elements_installNode h]
    simp [specsAt, compiled]
  | command id spec =>
    obtain ⟨e, he, hafter⟩ := elements_installCommand h
    rw [hafter]
    by_cases hid : id = n <;> simp [specsAt, compiled, hid, he, Except.toOption]

/-- Each node has the commands of the series, up to where it failed if it did. -/
theorem elements_installAll (r : Registry) (steps : List Installation) :
    ∃ done, done <+: steps ∧ ((r.installAll steps).2 = .ok () → done = steps) ∧
      ∀ n, (r.installAll steps).1.elements n = r.elements n ++ compiled (specsAt n done) := by
  induction steps generalizing r with
  | nil => exact ⟨[], List.prefix_rfl, fun _ => rfl, by simp [installAll, specsAt, compiled]⟩
  | cons step rest ih =>
    unfold installAll
    cases hstep : r.install step with
    | error e => exact ⟨[], List.nil_prefix, by simp, by simp [specsAt, compiled]⟩
    | ok r' =>
      obtain ⟨done, hprefix, hall, helements⟩ := ih r'
      refine ⟨step :: done, List.cons_prefix_cons.2 ⟨rfl, hprefix⟩, ?_, ?_⟩
      · intro hok
        rw [hall hok]
      · intro n
        rw [helements n, elements_install hstep n, List.append_assoc, ← compiled_specsAt_cons]

-- ============================================================================
-- A series that does not fail
-- ============================================================================

/-- The series can be installed where `nodes` are there and `patterns` taken:
    each node is new and its parent there, each command is new at a node that
    is there. -/
def Installable (nodes : List NodeId) (patterns : List (NodeId × String)) :
    List Installation → Prop
  | [] => True
  | .node d :: rest =>
    d.id ∉ nodes ∧ (∀ parent ∈ d.parent, parent ∈ nodes) ∧
      Installable (d.id :: nodes) patterns rest
  | .command n spec :: rest =>
    n ∈ nodes ∧ (n, spec.pattern) ∉ patterns ∧
      Installable nodes ((n, spec.pattern) :: patterns) rest

instance decidableInstallable (nodes : List NodeId) (patterns : List (NodeId × String)) :
    (steps : List Installation) → Decidable (Installable nodes patterns steps)
  | [] => inferInstanceAs (Decidable True)
  | .node d :: rest =>
    have := decidableInstallable (d.id :: nodes) patterns rest
    inferInstanceAs (Decidable (_ ∧ _ ∧ Installable (d.id :: nodes) patterns rest))
  | .command n spec :: rest =>
    have := decidableInstallable nodes ((n, spec.pattern) :: patterns) rest
    inferInstanceAs
      (Decidable (_ ∧ _ ∧ Installable nodes ((n, spec.pattern) :: patterns) rest))

/-- A registry has these nodes, and at most these patterns at them. -/
structure Covered (nodes : List NodeId) (patterns : List (NodeId × String)) (r : Registry) :
    Prop where
  nodes : ∀ n, (r.node? n).isSome ↔ n ∈ nodes
  patterns : ∀ n, ∀ e ∈ r.elements n, (n, e.pattern) ∈ patterns

variable {nodes : List NodeId} {patterns : List (NodeId × String)} {r : Registry}

theorem Covered.empty (app : AppInfo) : Covered [] [] { app } := by
  refine ⟨?_, ?_⟩
  · intro n
    simp [node?]
  · intro n e he
    simp [elements, node?] at he

/-- A new node goes in where its parent is there. -/
theorem Covered.installNode {d : NodeDef} (h : Covered nodes patterns r) (hnew : d.id ∉ nodes)
    (hparent : ∀ parent ∈ d.parent, parent ∈ nodes) :
    ∃ r', r.install (.node d) = .ok r' ∧ Covered (d.id :: nodes) patterns r' := by
  have habsent : (r.node? d.id).isSome = false := by
    rw [← Bool.not_eq_true, h.nodes]
    exact hnew
  have hfilter : d.parent.filter (fun p => (r.node? p).isNone) = none := by
    rw [Option.filter_eq_none_iff]
    intro parent hmem
    have hthere := (h.nodes parent).2 (hparent parent hmem)
    simp [Option.isSome_iff_ne_none.1 hthere]
  have hstep : ∃ r', r.installNode d = .ok r' := by
    unfold Registry.installNode
    rw [habsent, hfilter]
    exact ⟨_, rfl⟩
  obtain ⟨r', hstep⟩ := hstep
  refine ⟨r', hstep, ?_, ?_⟩
  · intro n
    rw [node?_installNode hstep, List.mem_cons]
    split_ifs with hn
    · simp [hn]
    · rw [h.nodes]
      simp [Ne.symm hn]
  · intro n e he
    rw [elements_installNode hstep] at he
    exact h.patterns n e he

/-- A command of a new pattern goes in where its node is there. -/
theorem Covered.installCommand {id : NodeId} {spec : CommandSpec} {e : Element}
    (h : Covered nodes patterns r) (hnode : id ∈ nodes) (hnew : (id, spec.pattern) ∉ patterns)
    (he : Element.ofSpec spec = .ok e) :
    ∃ r', r.install (.command id spec) = .ok r' ∧
      Covered nodes ((id, spec.pattern) :: patterns) r' := by
  obtain ⟨node, hfound⟩ := Option.isSome_iff_exists.1 ((h.nodes id).2 hnode)
  have hfree : node.elements.any (·.pattern == spec.pattern) = false := by
    rw [List.any_eq_false]
    intro f hf heq
    have hmem : f ∈ r.elements id := by
      rw [elements, hfound]
      exact hf
    have htaken := h.patterns id f hmem
    rw [beq_iff_eq.1 heq] at htaken
    exact hnew htaken
  have hstep : ∃ r', r.installCommand id spec = .ok r' := by
    unfold Registry.installCommand
    simp only [hfound, hfree, he]
    exact ⟨_, rfl⟩
  obtain ⟨r', hstep⟩ := hstep
  refine ⟨r', hstep, ?_, ?_⟩
  · obtain ⟨_, _, -, -, -, hafter⟩ := installCommand_cases hstep
    intro n
    rw [hafter, Option.isSome_map]
    exact h.nodes n
  · obtain ⟨e', he', helements⟩ := elements_installCommand hstep
    intro n f hf
    rw [helements] at hf
    rcases List.mem_append.1 hf with hf | hf
    · exact List.mem_cons_of_mem _ (h.patterns n f hf)
    · split_ifs at hf with hid
      · rw [List.mem_singleton.1 hf, ← hid]
        simp [Element.pattern, Element.spec_of_ofSpec he']
      · simp at hf

/-- The series is installed to its end, if its patterns compile. -/
theorem installAll_of_installable {steps : List Installation}
    (h : Installable nodes patterns steps)
    (hcompile : ∀ n spec, .command n spec ∈ steps → ∃ e, Element.ofSpec spec = .ok e)
    (hr : Covered nodes patterns r) : (r.installAll steps).2 = .ok () := by
  induction steps generalizing r nodes patterns with
  | nil => rfl
  | cons step rest ih =>
    have hrest : ∀ n spec, .command n spec ∈ rest → ∃ e, Element.ofSpec spec = .ok e :=
      fun n spec hmem => hcompile n spec (List.mem_cons_of_mem step hmem)
    unfold installAll
    cases step with
    | node d =>
      obtain ⟨hnew, hparent, h⟩ := h
      obtain ⟨r', hstep, hr'⟩ := hr.installNode hnew hparent
      rw [hstep]
      exact ih h hrest hr'
    | command id spec =>
      obtain ⟨hnode, hnew, h⟩ := h
      obtain ⟨e, he⟩ := hcompile id spec List.mem_cons_self
      obtain ⟨r', hstep, hr'⟩ := hr.installCommand hnode hnew he
      rw [hstep]
      exact ih h hrest hr'

end Registry

end RouterCli
