/-
  RouterCli.Node

  Identifiers of the interpreter's nodes (its modes). The library keeps the
  numbers below 32 for its own nodes: five canonical ones that every session
  settles on, and the children of the global configuration.
-/

namespace RouterCli

/-- A node's number. -/
structure NodeId where
  value : Nat
deriving DecidableEq, Repr, Inhabited

namespace NodeId

/-- Login password prompt. -/
def auth : NodeId := ⟨0⟩

/-- Unprivileged commands. -/
def view : NodeId := ⟨1⟩

/-- Enable password prompt. -/
def authEnable : NodeId := ⟨2⟩

/-- Privileged commands. -/
def enable : NodeId := ⟨3⟩

/-- Global configuration. -/
def config : NodeId := ⟨4⟩

/-- Logging configuration. -/
def logging : NodeId := ⟨7⟩

/-- Terminal line configuration. -/
def terminalLine : NodeId := ⟨9⟩

/-- The first number an application may use. -/
def applicationBase : NodeId := ⟨32⟩

/-- One of the five nodes every session settles on. -/
def isCanonical (n : NodeId) : Bool :=
  n.value ≤ config.value

/-- A child of the global configuration that the library keeps for itself. -/
def isReservedChild (n : NodeId) : Bool :=
  config.value < n.value && n.value < applicationBase.value

instance : ToString NodeId := ⟨fun n => toString n.value⟩

end NodeId

end RouterCli
