import RouterCli.Application
import RouterCli.Command.Standard
import RouterCli.NodeFamily
import RouterCli.Text.Numeral

/-!
  RouterCli.Application.BaseStation

  A small base station controller as an example of an application: a network of
  base transceiver stations, each with transceivers, configured in three nodes
  below the global configuration.
-/

namespace RouterCli.BaseStation

-- ============================================================================
-- State
-- ============================================================================

/-- One base transceiver station. -/
structure Station where
  description : Option String := none
  maintenance : Option String := none
  neighbors : List Nat := []
  /-- The channel of each transceiver, by number. -/
  transceivers : List (Nat × Option Nat) := []
deriving DecidableEq, Repr, Inhabited

/-- The configuration of the network. -/
structure Network where
  shortName : Option String := none
  countryCode : Option Nat := none
  stations : List (Nat × Station) := []
deriving DecidableEq, Repr, Inhabited

/-- What a node configures. -/
inductive Place where
  | station (number : Nat)
  | transceiver (station number : Nat)
  /-- Something that is no part of the network. -/
  | foreign (text : String)
deriving DecidableEq, Repr

namespace Place

/-- The station of a place. -/
def station? : Place → Option Nat
  | station n | transceiver n _ => some n
  | foreign _ => none

end Place

/-- Set the value of a number; the numbers stay in order. -/
def put {α : Type} (number : Nat) (value : α) : List (Nat × α) → List (Nat × α)
  | [] => [(number, value)]
  | (n, v) :: rest =>
    if number < n then (number, value) :: (n, v) :: rest
    else if number = n then (number, value) :: rest
    else (n, v) :: put number value rest

/-- Give a number a value where it has none. -/
def putNew {α : Type} (number : Nat) (value : α) (entries : List (Nat × α)) :
    List (Nat × α) :=
  if (entries.lookup number).isSome then entries else put number value entries

-- ============================================================================
-- Nodes and commands
-- ============================================================================

/-- The network. -/
def networkNode : NodeId := .application 0

/-- A station. -/
def stationNode : NodeId := .application 1

/-- A transceiver. -/
def transceiverNode : NodeId := .application 2

/-- A command of the application. -/
def command (id pattern : String) (help : List String) : CommandSpec :=
  { action := .application id, pattern, doc := Standard.helpText help }

/-- The nodes and commands, on top of the standard set. -/
def installations : List Registry.Installation :=
  let commands := Standard.commandsAt
  Standard.standard true ++
  [.node { id := networkNode, prompt := "%s(config-net)# ", name := some "net",
           writesConfig := true },
    .node { id := stationNode, prompt := "%s(config-net-bts)# ", parent := some networkNode },
    .node { id := transceiverNode, prompt := "%s(config-net-bts-trx)# ",
            parent := some stationNode }] ++
  commands .config
    [command "cfg_net" "network" ["Configure the GSM network"],
      { command "cfg_msc" "msc" ["Configure the MSC link"] with daemon := 2 }] ++
  commands .enable
    [{ command "shutdown" "shutdown" ["Stop the BSC"] with visibility := .hidden }] ++
  Registry.atViewAndEnable
    (command "show_bts" "show bts [<0-255>]"
      ["Show running system information", "Display information about a BTS", "BTS number"]) ++
  Registry.atViewAndEnable
    (command "show_net" "show network"
      ["Show running system information", "Display information about the network"]) ++
  Standard.interactiveDefaults networkNode ++
  commands networkNode
    [command "cfg_net_short_name" "short name NAME"
      ["Set the short GSM network name", "Short name", "Name to use"],
      command "cfg_net_ncc" "network country code <1-999>"
        ["Network", "Country", "Code", "MCC"],
      command "cfg_bts" "bts <0-255>" ["Select a BTS", "BTS number"]] ++
  Standard.interactiveDefaults stationNode ++
  commands stationNode
    [command "cfg_bts_description" "description .TEXT"
      ["Save human-readable description", "Text until the end of the line"],
      command "cfg_bts_oml_ip" "oml ip A.B.C.D"
        ["Organization & Maintenance Link", "IP address", "Remote address"],
      command "cfg_bts_route" "ip route A.B.C.D/M" ["IP", "Static route", "Prefix"],
      command "cfg_bts_ipv6" "ipv6 address X:X::X:X/M" ["IPv6", "Address", "Prefix"],
      command "cfg_bts_neighbor" "neighbor (add|del) <0-255>"
        ["Neighbor list", "Add a neighbor", "Remove a neighbor", "BTS number"],
      command "cfg_trx" "trx <0-7>" ["Select a TRX", "TRX number"]] ++
  Standard.interactiveDefaults transceiverNode ++
  commands transceiverNode
    [command "cfg_trx_arfcn" "arfcn <0-1023>"
      ["Set the ARFCN", "Absolute Radio Frequency Channel Number"]]

-- ============================================================================
-- Execution
-- ============================================================================

/-- An argument as a number of some bits. -/
def number (bits : Nat) (word : String) : Except CommandError Nat :=
  match Text.unsigned? bits word with
  | some n => .ok n
  | none => .error .noMatch

/-- The session's station, by number. -/
def selected (net : Network) (s : Session Place) : Except CommandError (Nat × Station) :=
  match s.context.bind (·.station?) with
  | none => .error (.fatal "no BTS selected")
  | some n =>
    match net.stations.lookup n with
    | none => .error (.fatal "BTS vanished")
    | some station => .ok (n, station)

/-- Change the session's station. -/
def editSelected (net : Network) (s : Session Place) (f : Station → Station) :
    Except CommandError (Network × Session Place) := do
  let (n, station) ← selected net s
  return ({ net with stations := put n (f station) net.stations }, s)

/-- The lines on stations, or on the one whose number is given. -/
def stationLines (net : Network) (which : Option String) : List String :=
  (net.stations.filter fun (n, _) => which.all (· == toString n)).map fun (n, station) =>
    s!"BTS {n}: {station.transceivers.length} TRX"

/-- Carry out a command; an error leaves the network and the session alone. -/
def perform (id : String) (args : List String) (net : Network) (s : Session Place) :
    Except CommandError (Network × Session Place) :=
  let word := fun i => args.getD i ""
  match id with
  | "cfg_net" => .ok (net, s.setNode networkNode)
  | "cfg_net_short_name" => .ok ({ net with shortName := some (word 0) }, s)
  | "cfg_net_ncc" => do
    let code ← number 16 (word 0)
    return ({ net with countryCode := some code }, s)
  | "cfg_bts" => do
    let n ← number 8 (word 0)
    return ({ net with stations := putNew n {} net.stations },
      s.enter stationNode (.station n))
  | "cfg_bts_description" =>
    editSelected net s fun b => { b with description := some (Text.unwords args) }
  | "cfg_bts_oml_ip" => editSelected net s fun b => { b with maintenance := some (word 0) }
  | "cfg_bts_route" | "cfg_bts_ipv6" => .ok (net, s)
  | "cfg_bts_neighbor" => do
    let n ← number 8 (word 1)
    editSelected net s fun b =>
      if Text.startsWith "add" (word 0) then { b with neighbors := b.neighbors ++ [n] }
      else { b with neighbors := b.neighbors.filter (· != n) }
  | "cfg_trx" =>
    match s.context.bind (·.station?) with
    | none => .error .noMatch
    | some station => do
      let n ← number 8 (word 0)
      let (net, s) ← editSelected net s fun b =>
        { b with transceivers := putNew n none b.transceivers }
      return (net, s.enter transceiverNode (.transceiver station n))
  | "cfg_trx_arfcn" =>
    match s.context with
    | some (.transceiver n t) => do
      let channel ← number 16 (word 0)
      match net.stations.lookup n with
      | none => return (net, s)
      | some b =>
        if (b.transceivers.lookup t).isSome then
          let b := { b with transceivers := put t (some channel) b.transceivers }
          return ({ net with stations := put n b net.stations }, s)
        else return (net, s)
    | _ => .error (.fatal "no TRX selected")
  | "show_bts" =>
    .ok (net, (stationLines net args.head?).foldl (fun s line => s.printLine line) s)
  | "show_net" => .ok (net, s.printLine ("Network: " ++ net.shortName.getD "-"))
  | "shutdown" => .error (.fatal "shutdown requested")
  | _ => .error .noMatch

-- ============================================================================
-- Configuration
-- ============================================================================

/-- The commands that bring a station back. -/
def stationConfig (n : Nat) (b : Station) : List String :=
  s!" bts {n}" ::
  (b.description.map ("  description " ++ ·)).toList ++
  (b.maintenance.map ("  oml ip " ++ ·)).toList ++
  b.neighbors.map (fun m => s!"  neighbor add {m}") ++
  b.transceivers.flatMap fun (t, channel) =>
    s!"  trx {t}" :: (channel.map fun a => s!"   arfcn {a}").toList

/-- The commands that bring the network back. -/
def config (net : Network) : List String :=
  "network" ::
  (net.shortName.map (" short name " ++ ·)).toList ++
  (net.countryCode.map fun c => s!" network country code {c}").toList ++
  net.stations.flatMap fun (n, b) => stationConfig n b

/-- The application. -/
def application : Application Network Place where
  execute spec args net s :=
    match perform spec.id args net s with
    | .ok (net, s) => (.ok .success, net, s)
    | .error e => (.error e, net, s)
  configAt net node :=
    if node = networkNode then some (String.join ((config net).map (· ++ "\n"))) else none
  isConsistent net _ :=
    net.stations.all fun (_, b) => b.transceivers.all (·.2.isSome)

end RouterCli.BaseStation
