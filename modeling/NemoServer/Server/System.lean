import NemoServer.Foundations.Interleave
import NemoServer.Rendezvous.Listener

/-!
# hbbs as a system of jobs

Every connection task contributes its handshake and then its frames, one after the other; frames
of different connections, datagrams and the operations of the dashboard interleave. The
environment moves the clocks, lets the database fail, and administers what the dashboard
administers in one critical section.
-/

set_option autoImplicit false

namespace NemoServer

/-- What a task of hbbs is doing. -/
inductive Job
  /-- A connection that is accepted, up to its read loop. -/
  | handshake (c : ConnId) (self : Task) (reply : Option (Option RendezvousMessage))
  | frame (c : ConnId) (self : Task) (authed : Option AuthedDevice)
      (msg : Option RendezvousMessage)
  /-- The client is gone, or silent for too long, or not to be deciphered. -/
  | hangup (c : ConnId)
  | datagram (self : Task) (msg : Option RendezvousMessage)
  | setPeerStatus (id : String) (status : Option ℤ) (note : Option String)
  | setPeerManagementPolicy (id : String) (policy : Option String)
  | deletePeer (id : String)
  | removeDeviceKey (id : String)
  deriving DecidableEq

/-- What else may happen. -/
inductive Env
  | tick (nanos : ℕ)
  | setClock (secs : ℕ)
  | setDb (up : Bool)
  -- device keys
  | addDeviceKey (label publicKey createdAt peerId : String)
  | setDeviceKeyPeerId (id peerId : String)
  | approveDeviceKeyClaim (keyId peerId claimedAt : String)
  | denyDeviceKeyClaim (keyId peerId : String)
  | forgetDeviceKeyClaim (keyId peerId : String)
  | registerPendingClaim (publicKey peerId via : String)
  | setRequireDeviceKey (v : Bool)
  | setClaimUnboundDeviceKeys (v : Bool)
  -- users
  | setRequireLogin (v : Bool)
  | setPermissions (permissions : Table String UserPermission)
  | setPolicies (adminPolicy : UserManagedPolicy) (policies : Table String UserManagedPolicy)
      (defaultPolicyName : Option String)
  | setDevicePolicies (devicePolicies : Table String String)
  | setStripUnsealedSecrets (v : Bool)
  | setSessions (sessions : Table String Session)
  -- the management API
  | setApi (api : ApiState)
  -- flags and servers
  | setCompanyOnly (v : Bool)
  | setAlwaysUseRelay (v : Bool)
  | setRelayServers (relayServers : List String)
  | configureUpdate (serial : ℤ) (rendezvousServers : List String)

/-- The operation of a dashboard that removes a device key, with the sessions it proved. -/
def removeDeviceKey (id : String) : Handler Unit := do
  match ← perform (.removeDeviceKey id) with
  | some publicKey => perform (.dropSessionsOf publicKey)
  | none => pure ()

def Job.code (X : Setup) : Job → Handler Unit
  | .handshake c self reply => Rendezvous.handleListenerInner X c self reply
  | .frame c self authed msg => Rendezvous.serveFrame X c self authed msg
  | .hangup c => perform (.close c)
  | .datagram self msg => Rendezvous.handleUdp X self msg
  | .setPeerStatus id status note => PeerMap.setPeerStatus id status note
  | .setPeerManagementPolicy id policy => PeerMap.setPeerManagementPolicy id policy
  | .deletePeer id => PeerMap.deleteRegistered id
  | .removeDeviceKey id => NemoServer.removeDeviceKey id

namespace Server

/-- The copies a task takes when it starts. -/
def copies (s : Server) (self : Task) : Prop :=
  self.serial = s.serial ∧ self.rendezvousServers = s.rendezvousServers ∧
    self.relayServers = s.relayServers

instance (s : Server) (self : Task) : Decidable (s.copies self) :=
  inferInstanceAs (Decidable (_ ∧ _ ∧ _))

/-- A connection reads its frames one after the other: it must be idle for the next one. -/
def beginJob : Job → Server → Option Server
  | .handshake c self _, s =>
    if c = s.nextConn ∧ s.copies self then
      some { s with
        conns := s.conns.insert c ⟨self, none, true, .handshaking⟩
        nextConn := s.nextConn + 1 }
    else none
  | .frame c self authed _, s =>
    match s.conns c with
    | some w =>
      if w.phase = .idle ∧ w.task = self ∧ w.authed = authed then
        some (s.setConn c fun w => { w with phase := .busy })
      else none
    | none => none
  | .hangup c, s =>
    match s.conns c with
    | some w =>
      if w.phase = .idle then some (s.setConn c fun w => { w with phase := .busy }) else none
    | none => none
  | .datagram self _, s => if s.copies self then some s else none
  | _, s => some s

/-- Change the configuration. -/
def withCfg (s : Server) (f : IntegrationConfig → IntegrationConfig) : Server :=
  { s with cfg := f s.cfg }

def approveDeviceKeyClaim (s : Server) (keyId peerId claimedAt : String) : Option Server := do
  let claim ← s.cfg.pendingDeviceKeyClaims.find? fun c => c.keyId == keyId && c.peerId == peerId
  let keys ← Integration.claimDeviceKeyIn s.cfg.deviceKeys claim.publicKey peerId claimedAt
  some (s.withCfg fun cfg => { cfg with
    deviceKeys := keys
    pendingDeviceKeyClaims :=
      cfg.pendingDeviceKeyClaims.filter fun c => c.publicKey != claim.publicKey })

/-- Mark the first claim of the pair. -/
def denyClaim (keyId peerId : String) : List PendingDeviceKeyClaim → List PendingDeviceKeyClaim
  | [] => []
  | c :: cs =>
    if c.keyId = keyId ∧ c.peerId = peerId then { c with denied := true } :: cs
    else c :: denyClaim keyId peerId cs

def act (X : Setup) : Env → Server → Option Server
  | .tick nanos, s => some { s with now := s.now + nanos }
  | .setClock secs, s => some { s with clock := secs }
  | .setDb up, s => some { s with dbUp := up }
  | .addDeviceKey label publicKey createdAt peerId, s => some (s.withCfg fun cfg => { cfg with
      deviceKeys := Integration.addDeviceKey label publicKey createdAt peerId cfg.deviceKeys })
  | .setDeviceKeyPeerId id peerId, s =>
    (Integration.setDeviceKeyPeerIdIn s.cfg.deviceKeys id peerId).map fun (updated, keys) =>
      s.withCfg fun cfg => { cfg with
        deviceKeys := keys
        pendingDeviceKeyClaims :=
          cfg.pendingDeviceKeyClaims.filter fun c => c.publicKey != updated.publicKey }
  | .approveDeviceKeyClaim keyId peerId claimedAt, s =>
    s.approveDeviceKeyClaim keyId peerId claimedAt
  | .denyDeviceKeyClaim keyId peerId, s => some (s.withCfg fun cfg => { cfg with
      pendingDeviceKeyClaims := denyClaim keyId peerId cfg.pendingDeviceKeyClaims })
  | .forgetDeviceKeyClaim keyId peerId, s => some (s.withCfg fun cfg => { cfg with
      pendingDeviceKeyClaims := cfg.pendingDeviceKeyClaims.filter fun c =>
        !(c.keyId == keyId && c.peerId == peerId) })
  | .registerPendingClaim publicKey peerId via, s =>
    some (s.registerPendingClaim X publicKey peerId via).2
  | .setRequireDeviceKey v, s => some (s.withCfg fun cfg => { cfg with requireDeviceKey := v })
  | .setClaimUnboundDeviceKeys v, s =>
    some (s.withCfg fun cfg => { cfg with claimUnboundDeviceKeys := v })
  | .setRequireLogin v, s => some (s.withCfg fun cfg => { cfg with requireLogin := v })
  | .setPermissions permissions, s =>
    some (s.withCfg fun cfg => { cfg with permissions := permissions })
  | .setPolicies adminPolicy policies name, s => some (s.withCfg fun cfg => { cfg with
      adminPolicy := adminPolicy, policies := policies, defaultPolicyName := name })
  | .setDevicePolicies devicePolicies, s =>
    some (s.withCfg fun cfg => { cfg with devicePolicies := devicePolicies })
  | .setStripUnsealedSecrets v, s =>
    some (s.withCfg fun cfg => { cfg with stripUnsealedSecrets := v })
  | .setApi api, s => some { s with api := api }
  | .setSessions sessions, s => some { s with sessions := sessions }
  | .setCompanyOnly v, s => some { s with companyOnly := v }
  | .setAlwaysUseRelay v, s => some { s with alwaysUseRelay := v }
  | .setRelayServers relayServers, s => some { s with relayServers := relayServers }
  | .configureUpdate serial servers, s =>
    if s.serial < serial then some { s with serial := serial, rendezvousServers := servers }
    else none

/-- A restart of the process: what is in memory is lost, the database and the files stay. -/
def reboot (s : Server) : Server :=
  { s with
    tcpPunch := Table.empty
    pendingRelay := Table.empty
    tcpPeers := Table.empty
    map := Table.empty
    ipBlocker := Table.empty
    punchReqs := []
    conns := Table.empty
    rotation := 0 }

/-- A state hbbs may start in: nothing in memory, and a database as it keeps one itself. -/
structure Booted (s : Server) : Prop where
  tcpPunch : s.tcpPunch = Table.empty
  pendingRelay : s.pendingRelay = Table.empty
  tcpPeers : s.tcpPeers = Table.empty
  map : s.map = Table.empty
  cells : s.cells = Table.empty
  conns : s.conns = Table.empty
  ids : (s.db.map (·.id)).Nodup
  guids : (s.db.map (·.guid)).Nodup
  guid_lt : ∀ r ∈ s.db, r.guid < s.uuids
  id_len : ∀ r ∈ s.db, 6 ≤ r.id.utf8ByteSize
  uuid_ne : ∀ r ∈ s.db, r.uuid ≠ []

end Server

/-- hbbs. -/
def hbbs (X : Setup) : System Op Op.Res Server Job Env where
  sem := Op.sem X
  code := Job.code X
  start := Server.beginJob
  env := Server.act X
  reboot := Server.reboot

/-- The items of a run of hbbs, and the calls of a job. -/
abbrev Step := Item Op Server Job Env
abbrev Past := List (Call Op Server)

end NemoServer
