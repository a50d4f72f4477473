import NemoServer.Server.State
import NemoServer.Std.Parts

/-!
# Client setup

The addresses a fresh client is handed (`nemo_management.rs`): one profile for the local network,
derived from the authority under which the operator reached the dashboard, and one for clients
outside, derived from the relay flag. What the operator typed goes before a flag, and a flag before
what is derived.
-/

set_option autoImplicit false

namespace NemoServer

/-- What a setup profile reads of the served certificate. -/
structure ServedCertInfo extends TlsCertInfo where
  tls : Bool

inductive ClientSetupScope
  /-- Inside the network. -/
  | internal
  /-- From the internet. -/
  | external
  deriving DecidableEq

structure ClientSetupServer where
  idServer : String
  relayServer : String
  apiServer : String
  key : String
  apiCertFingerprint : String
  deriving DecidableEq

/-- What the operator typed; `none` stands for the default. -/
structure ClientSetupRequest where
  idServer : Option String
  relayServer : Option String
  apiServer : Option String
  apiCertFingerprint : Option String
  label : Option String

structure ClientSetupBundle where
  v : ℕ
  label : String
  issuedAt : String
  /-- The authority of the request the bundle was made for. -/
  issuedFrom : String
  scope : String
  server : ClientSetupServer
  deviceKey : String

/-- One profile, with its failure inside it. -/
structure ClientSetupProfile where
  scope : String
  server : ClientSetupServer
  setupString : String
  filename : String
  error : String

/-- What the process was started with: the arguments, under the names of their flags, and the
certificate it serves; and how addresses of sockets are parsed. -/
structure SetupEnv where
  arg : String → Option String
  certInfo : Option ServedCertInfo
  parseSocketAddr : String → Option SocketAddr

namespace SetupEnv

def getArgOr (env : SetupEnv) (name default : String) : String := (env.arg name).getD default

def getArg (env : SetupEnv) (name : String) : String := env.getArgOr name ""

end SetupEnv

namespace ClientSetupScope

/-- An unknown spelling means the local network. -/
def parse (value : Option String) : ClientSetupScope :=
  if ["external", "public", "wan", "internet"].contains
      (Str.toAsciiLowercase (Str.trim (value.getD ""))) then external
  else internal

def asStr : ClientSetupScope → String
  | internal => "internal"
  | external => "external"

/-- The suffix of the flags. -/
def argSuffix : ClientSetupScope → String
  | internal => ""
  | external => "-external"

def fileTag : ClientSetupScope → String
  | internal => "lan"
  | external => "wan"

end ClientSetupScope

namespace Management

open Str

/-- `hbb_common::config::RENDEZVOUS_PORT`. -/
def rendezvousPort : ℕ := 21116

def firstNonEmpty (candidates : List String) : String :=
  ((candidates.map trim).find? (· != "")).getD ""

/-- The text before the port and the port; a colon before the last bracket is none of a port. -/
def splitPort (l : List Char) : List Char × List Char :=
  match rfind ':' l with
  | some idx => if (rfind ']' l).getD 0 < idx then (l.take idx, l.drop (idx + 1)) else (l, [])
  | none => (l, [])

/-- `trim_matches(|c| c == '[' || c == ']')`. -/
def trimBrackets (l : List Char) : List Char := trimChars (fun c => c == '[' || c == ']') l

/-- The host of the first entry of `--relay-servers`. -/
def relayHost (relayServers : String) : String :=
  let first := (((relayServers.toList.splitOn ',').map fun e => trim (String.ofList e)).find?
    (· != "")).getD ""
  String.ofList (trimBrackets (splitPort first.toList).1)

/-- The port of the listener for clients, if there is one of its own. -/
def dedicatedClientApiPort (env : SetupEnv) : Option ℕ :=
  let bind := env.getArg "nemo-client-api-bind"
  if bind = "" then none else (env.parseSocketAddr bind).map (·.port.toNat)

def apiPortSuffix (dedicated : Option ℕ) (authorityPort : String) : String :=
  match dedicated with
  | some port => ":" ++ toString port
  | none => if authorityPort = "" then "" else ":" ++ authorityPort

def clientSetupServer (env : SetupEnv) (overrides : ClientSetupRequest)
    (hostHeader serverPublicKey : String) (scope : ClientSetupScope) : ClientSetupServer :=
  let sfx := scope.argSuffix
  let scopedRelayDefault := match scope with
    | .internal => env.getArg "local-ip"
    | .external => ""
  let parts := splitPort (trim hostHeader).toList
  let host := String.ofList (trimBrackets parts.1)
  let apiPort := apiPortSuffix (dedicatedClientApiPort env) (String.ofList parts.2)
  let publicHost := relayHost (env.getArg "relay-servers")
  let apiHost := match scope with
    | .internal => firstNonEmpty [host, env.getArg "local-ip"]
    -- not the host of the dashboard, which may be an address of the local network
    | .external => publicHost
  let apiDefault := if apiHost = "" then "" else "https://" ++ apiHost ++ apiPort
  let apiServer := firstNonEmpty
    [overrides.apiServer.getD "", env.getArg ("nemo-client-api" ++ sfx), apiDefault]
  let port := env.getArgOr "port" (toString rendezvousPort)
  let idHost := match scope with
    | .internal => firstNonEmpty [host, env.getArg "local-ip"]
    | .external => publicHost
  let idDefault :=
    if idHost = "" then ""
    else if port = toString rendezvousPort then idHost
    else idHost ++ ":" ++ port
  let idServer := firstNonEmpty
    [overrides.idServer.getD "", env.getArg ("nemo-client-id-server" ++ sfx), idDefault]
  let relayServer := firstNonEmpty
    [overrides.relayServer.getD "", env.getArg ("nemo-client-relay" ++ sfx), scopedRelayDefault]
  let pinDefault := ((env.certInfo.filter fun info => info.tls && info.mode == "self-signed").map
    (·.fingerprint)).getD ""
  let apiCertFingerprint := match overrides.apiCertFingerprint with
    -- an empty text means that nothing is pinned
    | some explicit => trim explicit
    | none => pinDefault
  ⟨idServer, relayServer, apiServer, trim serverPublicKey, apiCertFingerprint⟩

/-! ## Profiles -/

/-- The bundle of a profile, made at the time `now`. -/
def clientSetupBundle (env : SetupEnv) (overrides : ClientSetupRequest)
    (authority serverPublicKey deviceKey now : String) (scope : ClientSetupScope) :
    ClientSetupBundle where
  v := 1
  label := overrides.label.getD ""
  issuedAt := now
  issuedFrom := authority
  scope := scope.asStr
  server := clientSetupServer env overrides authority serverPublicKey scope
  deviceKey := deviceKey

def isSlugChar (c : Char) : Bool := c.isAlphanum || c == '-' || c == '_'

def clientSetupFilename (label : String) (withKey : Bool) (scope : ClientSetupScope) : String :=
  let slug := trimChars (· == '-') (label.toList.map fun c => if isSlugChar c then c else '-')
  let stem := if slug = [] then "tbfdesk" else "tbfdesk-" ++ String.ofList slug
  if withKey then stem ++ "-setup-" ++ scope.fileTag ++ "-with-key.tbfsetup"
  else stem ++ "-setup-" ++ scope.fileTag ++ ".tbfsetup"

def underivable : ClientSetupScope → String
  | .internal => "cannot work out this server's address on the local network; fill the ID " ++
    "server and api-server fields in, or start hbbs with --local-ip (or --nemo-client-id-server / " ++
    "--nemo-client-api)"
  | .external => "this server does not know its own public address: fill the ID server and " ++
    "api-server fields in, or start hbbs with -r <public-host:21117> (or " ++
    "--nemo-client-id-server-external / --nemo-client-api-external)"

/-- The server, the importable string and the name of the file; `encode` is
`encode_client_setup`. -/
def buildClientSetup (env : SetupEnv) (encode : ClientSetupBundle → Except String String)
    (overrides : ClientSetupRequest) (authority serverPublicKey deviceKey now : String)
    (scope : ClientSetupScope) : Except String (ClientSetupServer × String × String) := do
  let server := clientSetupServer env overrides authority serverPublicKey scope
  if server.idServer = "" ∨ server.apiServer = "" then throw (underivable scope)
  let string ← encode
    (clientSetupBundle env overrides authority serverPublicKey deviceKey now scope)
  pure (server, string,
    clientSetupFilename (overrides.label.getD "") (deviceKey != "") scope)

def clientSetupProfile (env : SetupEnv) (encode : ClientSetupBundle → Except String String)
    (overrides : ClientSetupRequest) (authority serverPublicKey deviceKey now : String)
    (scope : ClientSetupScope) : ClientSetupProfile :=
  match buildClientSetup env encode overrides authority serverPublicKey deviceKey now scope with
  | .ok (server, setupString, filename) => ⟨scope.asStr, server, setupString, filename, ""⟩
  | .error error =>
    ⟨scope.asStr, clientSetupServer env overrides authority serverPublicKey scope, "", "", error⟩

end Management

end NemoServer
