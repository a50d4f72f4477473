import NemoServer.Foundations.Lift
import NemoServer.Integration.Directory
import NemoServer.Integration.LoginLimits
import NemoServer.Integration.Permissions
import NemoServer.Management.PolicyRoutes
import NemoServer.Management.Replay
import NemoServer.Server.System
import NemoServer.Std.Json

/-!
# The server behind the account API

What the endpoints of an account share (`nemo_management.rs`, `nemo_integration.rs`): the state of
hbbs, the sessions with their file, the memories of the replay guards, the limits of failed logins
and the directory logins are checked against. `AccountOp.sem` gives the meaning of what their
handlers do between two points where another task may run.
-/

set_option autoImplicit false

namespace NemoServer

/-- What the account API takes from its dependencies, and how it was started. -/
structure AccountSetup extends Setup where
  /-- `HbbsApiState::server_public_key`. -/
  serverPublicKey : String
  /-- `sign::to_curve25519_sk` and `sign::to_curve25519_pk`. -/
  toCurve25519Sk : SecretKey → Option SecretKey
  toCurve25519Pk : PublicKey → Option PublicKey
  /-- `sealedbox::open` and `sealedbox::seal`. -/
  openBox : Bytes → PublicKey → SecretKey → Option Bytes
  sealBox : Bytes → PublicKey → Bytes
  /-- `box_::PublicKey::from_slice`. -/
  boxPublicKeyOfSlice : Bytes → Option PublicKey
  /-- The key pair of logins of the `n`-th start. -/
  loginEncKeypair : ℕ → PublicKey × SecretKey
  /-- The text of the `n`-th version 4 uuid, without hyphens. -/
  uuidSimple : ℕ → String
  tls : Tls

structure AccountServer where
  /-- The sessions are not here, but in `store`. -/
  hbbs : Server
  store : Integration.SessionStore
  requireSealedLogin : Bool
  requireSealedRequest : Bool
  ldap : LdapConfig
  /-- The directory as it answers now. -/
  directory : Directory
  limits : LoginLimits
  /-- `SEEN_LOGIN_NONCES` and `SEEN_REQUEST_NONCES`. -/
  seenLogin : Management.SeenNonces
  seenRequest : Management.SeenNonces
  /-- `PEER_HOSTNAMES`. -/
  hostnames : Table String String
  /-- How often the process was started before. -/
  boots : ℕ

/-! ## Answers -/

structure LoginUser where
  name : String
  displayName : String
  email : String
  note : String
  status : ℤ
  isAdmin : Bool
  deriving DecidableEq

/-- What `api_login` answers. -/
structure LoginReply where
  accessToken : Option String
  sealedAccessToken : Option String
  kind : Option String
  user : Option LoginUser
  error : Option String
  deriving DecidableEq

structure AbResult where
  updatedAt : Option ℕ
  data : Option String
  sealedData : Option String
  error : Option String
  deriving DecidableEq

inductive AccountReply
  | login (r : LoginReply)
  | logout
  | currentUser (r : Json)
  | abGet (r : AbResult)

/-! ## Operations -/

inductive AccountOp
  /-- An operation that other handlers of hbbs perform too. -/
  | hbbs (o : Op)
  | requireSealedLogin
  | requireSealedRequest
  | loginEncKeys
  | sealedLoginGuard (ts : ℕ) (nonce : String)
  | sealedRequestGuard (ts : ℕ) (nonce : String)
  | loginSprayBlock (sourceIp : Option String)
  | ldapConfig
  | authenticateLdap (cfg : LdapConfig) (username password : String)
  | noteLoginSpray (sourceIp : Option String) (username : String)
  | noteLoginFailure (username : String)
  | clearLoginFailures (username : String)
  | recordLogin (username displayName email : String)
  | createSession (username displayName email deviceKeyPub : String)
  | removeSession (token : String)
  | peerHostname (id : String)
  /-- The answer goes out. -/
  | reply (r : AccountReply)

@[reducible] def AccountOp.Res : AccountOp → Type
  | .hbbs o => o.Res
  | .requireSealedLogin => Bool
  | .requireSealedRequest => Bool
  | .loginEncKeys => PublicKey × SecretKey
  | .sealedLoginGuard _ _ => Except String Unit
  | .sealedRequestGuard _ _ => Except String Unit
  | .loginSprayBlock _ => Option String
  | .ldapConfig => LdapConfig
  | .authenticateLdap _ _ _ => Except String LdapUser
  | .noteLoginFailure _ => ℕ
  | .recordLogin _ _ _ => Bool × Bool × Bool
  | .createSession _ _ _ _ => String
  | .peerHostname _ => String
  | _ => Unit

abbrev AccountHandler := Prog AccountOp AccountOp.Res

/-- Perform one operation. -/
abbrev account (o : AccountOp) : AccountHandler o.Res := Prog.op o

/-- Perform the operations of another handler of hbbs. -/
abbrev onHbbs {α : Type} (p : Handler α) : AccountHandler α := p.lift AccountOp.hbbs

/-! ## Their meaning -/

/-- The login of a user, alone on its connection to the directory. -/
def Directory.login (D : Directory) (X : Setup) (cfg : LdapConfig) (T : Tls)
    (username password : String) : Except String LdapUser :=
  ((Integration.authenticateLdap X cfg T username password).run.solo D.sem (fun _ s => s) []
    ⟨0, none⟩).1

namespace AccountServer

variable (s : AccountServer)

/-- hbbs, as its own handlers see it. -/
def asHbbs : Server := { s.hbbs with sessions := fun token => s.store.sessions.lookup token }

/-- What an operation of hbbs does to the sessions. -/
def storeAfter : Op → Integration.SessionStore
  | .sessionForToken token => (s.store.sessionForToken s.hbbs.clock token).2
  | .dropSessionsOf publicKey => s.store.dropSessionsOf publicKey
  | _ => s.store

end AccountServer

/-- The answer of an operation, and the state after it. -/
def AccountOp.sem (A : AccountSetup) : (o : AccountOp) → AccountServer → o.Res × AccountServer
  | .hbbs o, s => ((Op.sem A.toSetup o s.asHbbs).1,
    { s with hbbs := (Op.sem A.toSetup o s.asHbbs).2, store := s.storeAfter o })
  | .requireSealedLogin, s => (s.requireSealedLogin, s)
  | .requireSealedRequest, s => (s.requireSealedRequest, s)
  | .loginEncKeys, s => (A.loginEncKeypair s.boots, s)
  | .sealedLoginGuard ts nonce, s =>
    let (r, seen) := Management.sealedLoginGuard ts nonce s.hbbs.clock s.seenLogin
    (r, { s with seenLogin := seen })
  | .sealedRequestGuard ts nonce, s =>
    let (r, seen) := Management.sealedRequestGuard ts nonce s.hbbs.clock s.seenRequest
    (r, { s with seenRequest := seen })
  | .loginSprayBlock sourceIp, s =>
    ((Integration.loginSprayBlock sourceIp s.hbbs.clock s.limits.spray).1,
      { s with limits := s.limits.perform A.toSetup ⟨s.hbbs.clock, .loginSprayBlock sourceIp⟩ })
  | .ldapConfig, s => (s.ldap, s)
  | .authenticateLdap cfg username password, s =>
    (s.directory.login A.toSetup cfg A.tls username password, s)
  | .noteLoginSpray sourceIp username, s =>
    ((), { s with
      limits := s.limits.perform A.toSetup ⟨s.hbbs.clock, .noteLoginSpray sourceIp username⟩ })
  | .noteLoginFailure username, s =>
    ((Integration.noteLoginFailure A.toSetup username s.hbbs.clock s.limits.failures).1,
      { s with limits := s.limits.perform A.toSetup ⟨s.hbbs.clock, .noteLoginFailure username⟩ })
  | .clearLoginFailures username, s =>
    ((), { s with
      limits := s.limits.perform A.toSetup ⟨s.hbbs.clock, .clearLoginFailures username⟩ })
  | .recordLogin username displayName email, s =>
    let (r, cfg) := Integration.recordLogin A.toSetup (toString s.hbbs.clock) username displayName
      email s.hbbs.cfg
    (r, { s with hbbs := { s.hbbs with cfg := cfg } })
  | .createSession username displayName email deviceKeyPub, s =>
    (A.uuidSimple s.hbbs.uuids, { s with
      hbbs := { s.hbbs with uuids := s.hbbs.uuids + 1 }
      store := s.store.createSession s.hbbs.clock (A.uuidSimple s.hbbs.uuids) username displayName
        email deviceKeyPub })
  | .removeSession token, s => ((), { s with store := s.store.removeSession token })
  | .peerHostname id, s => ((s.hostnames id).getD "", s)
  | .reply _, s => ((), s)

/-! ## What else happens -/

inductive AccountEvent
  /-- An operation of another handler of hbbs. -/
  | hbbs (o : Op)
  /-- An operation of a request of the dashboard. -/
  | admin (o : AdminOp)
  | env (e : Env)
  /-- The sessions a change of permissions concerns are evicted. -/
  | evictSessions (oldPerms newPerms : Table String UserPermission)
  | setRequireSealedLogin (v : Bool)
  | setRequireSealedRequest (v : Bool)
  | setLdap (cfg : LdapConfig)
  | setDirectory (D : Directory)
  | setHostnames (hostnames : Table String String)

namespace AccountServer

def act (A : AccountSetup) : AccountEvent → AccountServer → Option AccountServer
  | .hbbs o, s => some (AccountOp.sem A (.hbbs o) s).2
  | .admin o, s => some { s with hbbs := (AdminOp.sem A.toSetup o s.asHbbs).2 }
  | .env e, s => (Server.act A.toSetup e s.asHbbs).map fun t => { s with hbbs := t }
  | .evictSessions oldPerms newPerms, s => some { s with
      store := (s.store.evictSessionsWithChangedPermissions A.toSetup oldPerms newPerms).2 }
  | .setRequireSealedLogin v, s => some { s with requireSealedLogin := v }
  | .setRequireSealedRequest v, s => some { s with requireSealedRequest := v }
  | .setLdap cfg, s => some { s with ldap := cfg }
  | .setDirectory D, s => some { s with directory := D }
  | .setHostnames hostnames, s => some { s with hostnames := hostnames }

/-- A restart: the sessions are loaded from their file. -/
def reboot (s : AccountServer) : AccountServer :=
  { s with
    hbbs := s.hbbs.reboot
    store := s.store.reload s.hbbs.clock
    limits := LoginLimits.initial
    seenLogin := []
    seenRequest := []
    boots := s.boots + 1 }

end AccountServer

end NemoServer
