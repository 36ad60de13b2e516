import RouterCli.Console.Basic

/-!
  RouterCli.Console.Navigation

  Moving up from node to node. A level to return to wins over the node that the
  application or the registry names as the one above.
-/

namespace RouterCli.Program

variable {σ κ φ : Type}

/-- A node that belongs to the configuration: one of the library's, or one of
    which the application says so; without a word from it, every node that was
    not installed as standing outside. -/
def isConfigChild (p : Program σ κ) (app : σ) (node : NodeId) : Bool :=
  if node.value ≤ NodeId.config.value then false
  else if node.isReservedChild then true
  else
    match p.application.isConfigNode app node with
    | some answer => answer
    | none => !(p.registry.node? node).any (·.definition.isTopLevel)

/-- Go up by one. The nodes that sessions settle on stay where they are. -/
def goParent (p : Program σ κ) (app : σ) (s : Session κ) : Session κ :=
  if s.node ∈ [NodeId.auth, .view, .enable, .config] then s.clearParents
  else if s.node = .authEnable then (s.setNode .view).clearParents
  else if s.node ∈ [NodeId.logging, .terminalLine] then (s.setNode .config).clearParents
  else
    match p.application.above app s <|> p.registry.parentOf s.node with
    | some node => (s.setNode node).popParent
    | none =>
      if p.isConfigChild app s.node then (s.setNode .config).clearParents
      else (s.setNode .view).clearParents

/-- More steps than any way up takes that does not turn in a circle: the open
    levels, the installed nodes, and all numbers a node may have. -/
def ascentBound (p : Program σ κ) (s : Session κ) : Nat :=
  s.parents.length + p.registry.nodes.length + 2 + UInt32.size

/-- Go up to the global configuration, in at most `fuel` steps. A node whose
    step up leads nowhere ends the way, and is returned. -/
def climb (p : Program σ κ) (app : σ) : Nat → NodeId → Session κ → Option NodeId × Session κ
  | 0, _, s => (none, s)
  | fuel + 1, last, s =>
    if s.node.value ≤ NodeId.config.value then (none, s)
    else if s.node = last then (some last, s)
    else p.climb app fuel s.node (p.goParent app s)

/-- Leave the configuration for the privileged commands. At those, and below
    them, nothing happens. -/
def leaveConfig [FileStore φ] (p : Program σ κ) (c : Console σ κ φ) : Console σ κ φ :=
  if c.session.node.value ≤ NodeId.enable.value then c
  else
    let (stuck, s) := p.climb c.app (p.ascentBound c.session) .config c.session
    let c := { c with session := s }
    let c :=
      match stuck with
      | some node => c.log .warn s!"node {node} does not ascend"
      | none => c
    c.mapSession fun s =>
      (if NodeId.enable.value < s.node.value then s.setNode .enable else s).clearContext

/-- The prompt of the session. -/
def prompt (p : Program σ κ) (c : Console σ κ φ) : String :=
  p.registry.prompt c.session.node c.host.name

end RouterCli.Program
