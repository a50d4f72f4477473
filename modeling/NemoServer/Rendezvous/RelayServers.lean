import NemoServer.Foundations.Table
import NemoServer.Std.Net
import NemoServer.Std.Search

/-!
# The relay servers that hbbs hands out

`RendezvousServer` has two lists of relay servers (`rendezvous_server.rs`): those that were
configured, and those it hands out. Its main loop starts a check of the configured ones every three
seconds, and takes from its channel what checks and operators send: the servers a check reached, or
a new configuration. A connection works on the copy of the list it was accepted with.
-/

set_option autoImplicit false

namespace NemoServer

namespace Rendezvous

open Str

/-! ## Reading a list of servers -/

/-- `to_socket_addrs` at some instant; `none` is an error. -/
abbrev Resolver := String → Option (List SocketAddr)

def testIfValidServer (resolve : Resolver) (host : String) : Option SocketAddr :=
  (resolve (if host.toList.contains ':' then host else host ++ ":0")).bind List.head?

/-- `get_servers`. -/
def getServers (resolve : Resolver) (s : String) : List String :=
  (split ',' s).filter fun x => decide (x ≠ "") && (testIfValidServer resolve x).isSome

/-- `config::RELAY_PORT`. -/
def relayPort : ℕ := 21117

/-- What a check connects to. -/
def relayHostPort (x : String) : String :=
  if x.toList.contains ':' then x else x ++ ":" ++ toString relayPort

/-! ## The state -/

/-- `Data`, less the datagrams to send. -/
inductive Data
  | relayServers0 (rs : String)
  | relayServers (rs : List String)
  deriving DecidableEq

/-- A run of `check_relay_servers`: the servers it is still connecting to, and those it reached, in
that order. -/
structure RelayCheck where
  dialing : List String
  reached : List String
  deriving DecidableEq

structure RelayLoop where
  /-- The configured servers. -/
  relayServers0 : List String
  /-- Those that are handed out. -/
  relayServers : List String
  /-- What the main loop has not received yet, the oldest first. -/
  channel : List Data
  checks : Table ℕ RelayCheck
  nextCheck : ℕ
  /-- The copy of the list that a connection has. -/
  copies : Table ℕ (List String)
  nextConn : ℕ
  /-- `ALWAYS_USE_RELAY`. -/
  alwaysUseRelay : Bool
  /-- `ROTATION_RELAY_SERVER`. -/
  rotation : ℕ

/-- What the commands take from the standard library. -/
structure CmdDeps where
  /-- `str::to_uppercase`. -/
  toUppercase : String → String
  /-- `str::parse::<IpAddr>`. -/
  parseIp : String → Option IpAddr
  /-- `{:?}` of a text. -/
  debug : String → String

namespace RelayLoop

variable (D : CmdDeps) (s : RelayLoop)

def parseRelayServers (resolve : Resolver) (relayServers : String) : RelayLoop :=
  let rs := getServers resolve relayServers
  { s with relayServers0 := rs, relayServers := rs }

/-- hbbs is started with the argument `--relay-servers`. -/
def start (resolve : Resolver) (relayServers : String) (alwaysUseRelay : Bool) : RelayLoop :=
  RelayLoop.parseRelayServers ⟨[], [], [], Table.empty, 0, Table.empty, 0, alwaysUseRelay, 0⟩
    resolve relayServers

/-- The first server of a list of one, else the one whose turn it is. -/
def getRelayServer (relayServers : List String) : String × RelayLoop :=
  if relayServers.isEmpty then ("", s)
  else if relayServers.length = 1 then (relayServers.getD 0 "", s)
  else (relayServers.getD (s.rotation % relayServers.length) "",
    { s with rotation := (s.rotation + 1) % 2 ^ 64 })

/-! ## Commands -/

def helpText : String :=
  "relay-servers(rs) <separated by ,>\nreload-geo(rg)\nip-blocker(ib) [<ip>|<number>] [-]\n" ++
  "ip-changes(ic) [<id>|<number>] [-]\npunch-requests(pr) [<number>] [-]\n" ++
  "always-use-relay(aur)\ntest-geo(tg) <ip1> <ip2>\n"

/-- The words of a command, its name first. -/
def words (cmd : String) : List String := split ' ' (trim cmd)

/-- `test-geo` with one or two addresses, which it does not use otherwise. -/
def testsGeo (args : List String) : Bool :=
  match args with
  | [] => false
  | [a] => (D.parseIp a).isSome
  | a :: b :: _ => (D.parseIp a).isSome && (D.parseIp b).isSome

/-- `check_cmd` on a connection with the copy `relayServers`; the answer is `none` in the arms that
have nothing to do with relay servers. -/
def checkCmd (relayServers : List String) (cmd : String) : Option String × RelayLoop :=
  match words cmd with
  | [] => (some "", s)
  | name :: args =>
    if name = "h" then (some helpText, s)
    else if name = "relay-servers" ∨ name = "rs" then
      match args.head? with
      | some rs => (some "", { s with channel := s.channel ++ [.relayServers0 rs] })
      | none => (some (String.join (relayServers.map fun ip => ip ++ "\n")), s)
    else if name = "always-use-relay" ∨ name = "aur" then
      match args.head? with
      | some rs => (some "", { s with alwaysUseRelay := decide (D.toUppercase rs = "Y") })
      | none => (some ("ALWAYS_USE_RELAY: " ++ toString s.alwaysUseRelay ++ "\n"), s)
    else if name = "test-geo" ∨ name = "tg" then
      if testsGeo D args then
        let (server, s) := s.getRelayServer relayServers
        (some (D.debug server), s)
      else (some "", s)
    else (none, s)

/-! ## The main loop and what runs beside it -/

end RelayLoop

inductive LoopEvent
  /-- The timer. -/
  | tick
  /-- An attempt of a check to connect is over; `connects` says who takes connections. -/
  | dialed (k i : ℕ) (connects : String → Bool)
  /-- All attempts of a check are over. -/
  | joined (k : ℕ)
  | recv (resolve : Resolver)
  | accept
  /-- An operator's line on connection `c`. -/
  | command (c : ℕ) (cmd : String)
  /-- A relay server is needed, by a connection or by the main loop itself. -/
  | request (c : Option ℕ)

namespace RelayLoop

variable (D : CmdDeps) (s : RelayLoop)

/-- The list a request is served from. -/
def listOf : Option ℕ → Option (List String)
  | some c => s.copies c
  | none => some s.relayServers

def tick : RelayLoop :=
  if 1 < s.relayServers0.length then
    { s with
      checks := s.checks.insert s.nextCheck ⟨s.relayServers0, []⟩
      nextCheck := s.nextCheck + 1 }
  else s

def dialed (k i : ℕ) (connects : String → Bool) : RelayLoop :=
  match s.checks k with
  | none => s
  | some c =>
    match c.dialing[i]? with
    | none => s
    | some x =>
      let reached := if connects (relayHostPort x) then c.reached ++ [x] else c.reached
      { s with checks := s.checks.insert k ⟨c.dialing.eraseIdx i, reached⟩ }

/-- What follows `join_all` in `check_relay_servers`. -/
def joined (k : ℕ) : RelayLoop :=
  match s.checks k with
  | none => s
  | some c =>
    if c.dialing.isEmpty then
      { s with
        checks := s.checks.remove k
        channel := if c.reached.isEmpty then s.channel else s.channel ++ [.relayServers c.reached] }
    else s

def recv (resolve : Resolver) : RelayLoop :=
  match s.channel with
  | [] => s
  | .relayServers0 rs :: rest => { s with channel := rest }.parseRelayServers resolve rs
  | .relayServers rs :: rest => { s with channel := rest, relayServers := rs }

def step : LoopEvent → RelayLoop
  | .tick => s.tick
  | .dialed k i connects => s.dialed k i connects
  | .joined k => s.joined k
  | .recv resolve => s.recv resolve
  | .accept => { s with
      copies := s.copies.insert s.nextConn s.relayServers
      nextConn := s.nextConn + 1 }
  | .command c cmd =>
    match s.copies c with
    | none => s
    | some copy => (s.checkCmd D copy cmd).2
  | .request c =>
    match s.listOf c with
    | none => s
    | some l => (s.getRelayServer l).2

/-- The loop after the events, the newest first. -/
def run : List LoopEvent → RelayLoop
  | [] => s
  | e :: past => (run past).step D e

/-- The command calls `get_relay_server`. -/
def takesTurn (cmd : String) : Bool :=
  match words cmd with
  | [] => false
  | name :: args => decide (name = "test-geo" ∨ name = "tg") && testsGeo D args

/-- The list that `get_relay_server` is called with, if it is. -/
def asked : LoopEvent → Option (List String)
  | .command c cmd => if takesTurn D cmd then s.copies c else none
  | .request c => s.listOf c
  | _ => none

/-- What it returns then. -/
def answer (e : LoopEvent) : Option String := (s.asked D e).map fun l => (s.getRelayServer l).1

/-- The servers that were returned, the newest first. -/
def answers : List LoopEvent → List String
  | [] => []
  | e :: past => ((s.run D past).answer D e).toList ++ answers past

/-- The configuration that is received, as the list it is read as. -/
def configuration : LoopEvent → Option (List String)
  | .recv resolve =>
    match s.channel.head? with
    | some (.relayServers0 rs) => some (getServers resolve rs)
    | some (.relayServers _) => none
    | none => none
  | _ => none

/-- The lists that were configured, the newest first. -/
def configured : List LoopEvent → List (List String)
  | [] => [s.relayServers0]
  | e :: past => ((s.run D past).configuration e).toList ++ configured past

end RelayLoop

end Rendezvous

end NemoServer
