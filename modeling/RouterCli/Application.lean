import RouterCli.Command.Basic
import RouterCli.Outcome
import RouterCli.Session

/-!
  RouterCli.Application

  The application behind a command line, as functions on its state: what its
  commands do, and its part in moving between nodes and in saving the
  configuration.
-/

namespace RouterCli

/-- An application with states `σ`, whose nodes configure objects `κ`. -/
structure Application (σ κ : Type) where
  execute : CommandSpec → List String → σ → Session κ → Outcome × σ × Session κ
  /-- The application's part of the configuration at a node, if it has one. -/
  configAt : σ → NodeId → Option String := fun _ _ => none
  /-- The node above the session's, where the application decides it. -/
  above : σ → Session κ → Option NodeId := fun _ _ => none
  /-- Whether a node belongs to the configuration, where the application
      decides it. -/
  isConfigNode : σ → NodeId → Option Bool := fun _ _ => none
  /-- The configuration may be saved. -/
  isConsistent : σ → Session κ → Bool := fun _ _ => true

namespace Application

/-- An application without commands. -/
def none {κ : Type} : Application Unit κ where
  execute _ _ app session := (.error .noMatch, app, session)

/-- One call of a command. -/
structure Call where
  node : NodeId
  id : String
  arguments : List String
deriving DecidableEq, Repr

/-- The application, keeping a list of the calls beside its state. -/
def recording {σ κ : Type} (a : Application σ κ) : Application (σ × List Call) κ where
  execute spec args app session :=
    let call := { node := session.node, id := spec.id, arguments := args }
    let (outcome, state, session) := a.execute spec args app.1 session
    (outcome, (state, app.2 ++ [call]), session)
  configAt app := a.configAt app.1
  above app := a.above app.1
  isConfigNode app := a.isConfigNode app.1
  isConsistent app := a.isConsistent app.1

end Application

end RouterCli
