import Mathlib.Algebra.Group.Nat.Defs
import NemoServer.Server.Ops

/-!
# The meaning of the operations

`Op.sem X o s` is the answer of the operation `o` in the state `s`, and the state after it. The
operations with more than one access have their own definitions, under the names of the source.
-/

set_option autoImplicit false

namespace NemoServer

namespace Server

variable (X : Setup) (s : Server)

/-! ## The peer map -/

/-- A new cell, entered in the map at `id` whatever stood there. -/
def install (id : String) (p : Peer) : PeerRef × Server :=
  (s.nextCell, { s with
    map := s.map.insert id s.nextCell
    cells := s.cells.insert s.nextCell p
    nextCell := s.nextCell + 1 })

def getOrInsert (id : String) : PeerRef × Server :=
  match s.map id with
  | some r => (r, s)
  | none => s.install id (Peer.fresh s.now)

/-- The part of `PeerMap::update_pk` under the lock of the cell; it returns the guid. -/
def writePk (r : PeerRef) (addr : SocketAddr) (uuid pk : Bytes) (ip : String) :
    Option ℕ × Server :=
  ((s.cell r).guid, s.setCell r fun p =>
    { p with socketAddr := addr, uuid := uuid, pk := pk, lastRegTime := s.now, ip := ip })

/-- The address has changed, as `update_addr_core` sees it. -/
def ipChange (old : Peer) (addr : SocketAddr) : Bool :=
  (if old.socketAddr.port ≠ 0 then addr.ip != old.socketAddr.ip else addr.ip.toText != old.ip) &&
    !addr.ip.isLoopback

/-- The part of `update_addr_core` under the lock of the cell; it returns `request_pk`. -/
def writeHeartbeat (r : PeerRef) (addr : SocketAddr) : Bool × Server :=
  let requestPk := (s.cell r).pk.isEmpty || ipChange (s.cell r) addr
  (requestPk, if requestPk then s
    else s.setCell r fun p => { p with socketAddr := addr, lastRegTime := s.now })

/-! ## Queries: an error while the database is down -/

/-- A query that changes the rows. -/
def query {α : Type} (f : List Row → Option (α × List Row)) : Option α × Server :=
  if s.dbUp then
    match f s.db with
    | some (a, db) => (some a, { s with db := db })
    | none => (none, s)
  else (none, s)

def dbInsertPeer (id : String) (uuid pk : Bytes) (info : String) : Option ℕ × Server :=
  { s with uuids := s.uuids + 1 }.query fun db =>
    (Database.insertPeer db s.uuids id uuid pk info).map fun db => (s.uuids, db)

/-! ## Counters -/

def ipBlockDur : ℕ := 60
def daySeconds : ℕ := 3600 * 24

def checkIpBlocker (ip id : String) : Bool × Server :=
  match s.ipBlocker ip with
  | none => (true, { s with ipBlocker := s.ipBlocker.insert ip ⟨0, s.now, [], s.now⟩ })
  | some old =>
    let expired := decide (ipBlockDur < asSecs (s.now - old.countTime))
    if !expired && decide (30 < old.count) then (false, s)
    else
      let old := { old with
        count := (if expired then 0 else old.count) + 1
        countTime := s.now }
      let isNew := !old.ids.contains id
      let expired := decide (daySeconds < asSecs (s.now - old.idsTime))
      if !expired && decide (300 < old.ids.length) then
        (!isNew, { s with ipBlocker := s.ipBlocker.insert ip old })
      else
        let ids := if expired then [] else old.ids
        let ids := if isNew then id :: ids else ids
        (true, { s with ipBlocker := s.ipBlocker.insert ip { old with ids := ids, idsTime := s.now } })

def punchReqDedupeSec : ℕ := 60
def maxPunchReqs : ℕ := 10000

/-- Append to the audit ring, unless the same request is among its latest entries. -/
def auditPunch (fromIp toIp toId : String) : Server :=
  let last := (s.punchReqs.reverse.take 30).find? fun e => e.fromIp == fromIp && e.toId == toId
  let dup := match last with
    | some e => decide (asSecs (s.now - e.tm) < punchReqDedupeSec)
    | none => false
  let l := if dup then s.punchReqs else s.punchReqs ++ [⟨s.now, fromIp, toIp, toId⟩]
  { s with punchReqs := l.drop (l.length - maxPunchReqs) }

def getRelayServer (relayServers : List String) : String × Server :=
  match relayServers with
  | [] => ("", s)
  | [r] => (r, s)
  | rs =>
    (rs.getD (s.rotation % rs.length) "", { s with rotation := (s.rotation + 1) % 2 ^ 64 })

/-! ## Reaching clients -/

/-- A sink is parked once: a connection that has none any more parks nothing. -/
def parkSink (c : ConnId) (addr : SocketAddr) : Server :=
  match s.conns c with
  | some w =>
    if w.sink then
      { s.setConn c fun w => { w with sink := false } with
        tcpPunch := s.tcpPunch.insert (X.tryIntoV4 addr) c }
    else s
  | none => s

/-- `push_to_peer`: through the push channel if its receiver is there, else over UDP. -/
def pushToPeer (id : String) : Server :=
  if id = "" then s
  else match s.tcpPeers id with
    | some c => if s.isOpen c then s else { s with tcpPeers := s.tcpPeers.remove id }
    | none => s

def registerPeerPush (id : String) (c : ConnId) : Server :=
  if id = "" then s
  else { s with tcpPeers := (s.tcpPeers.retain fun _ d => s.isOpen d).insert id c }

/-- Sweep the expired entries and record a request; both forwarding paths do this. -/
def insertPending (addr : SocketAddr) (targetId sourceId : String) : Server :=
  let entry := ⟨targetId, sourceId, s.now + pendingRelayTtl⟩
  let pending := s.pendingRelay.retain fun _ p => decide (s.now < p.expires)
  { s with pendingRelay := pending.insert (X.tryIntoV4 addr) entry }

/-- The first half of the `RelayResponse` arm: take the entry out, check who answers, mint. -/
def redeemPending (addr : SocketAddr) (authed : Option AuthedDevice) : Redeem × Server :=
  let s' := { s with pendingRelay := s.pendingRelay.remove addr }
  match s.pendingRelay addr with
  | none => (.unsolicited, s')
  | some pending =>
    if authed.any fun who => who.peerId != pending.targetId then (.wrongPeer, s')
    else match X.sk with
      | none => (.noKey, s')
      | some sk =>
        (.granted pending (X.relayGrantMint sk Setup.relayGrantTtlSecs s.clock s.uuids),
          { s' with uuids := s.uuids + 1 })

/-! ## The connection task -/

/-- The end of the handshake: with no device proof the flag decides, with no secured channel
the mode. -/
def finishHandshake (c : ConnId) (authed : Option AuthedDevice) (secured : Bool) : Bool × Server :=
  if authed.isNone && s.cfg.requireDeviceKey then (false, s)
  else if !secured && X.mode == .require then (false, s)
  else (true, s.setConn c fun w => { w with authed := authed, phase := .busy })

/-- The check before each frame. -/
def dispatch (authed : Option AuthedDevice) : Bool :=
  match authed with
  | some a => Integration.isDeviceKeyPinned s.cfg.deviceKeys a.devicePubB64
  | none => true

/-- The end of the task: a sink it parked is taken back, whoever parked it. -/
def close (c : ConnId) : Server :=
  match s.conns c with
  | some w =>
    let s' := s.setConn c fun w => { w with phase := .closed }
    if w.sink then s' else { s' with tcpPunch := s.tcpPunch.remove (X.tryIntoV4 w.task.addr) }
  | none => s

/-- Both halves of `register_pending_claim`, under one lock. -/
def registerPendingClaim (publicKey peerId via : String) : PendingOutcome × Server :=
  let pk := Str.trim publicKey
  match s.cfg.deviceKeys.find? fun k => k.publicKey == pk with
  | none => (.rejected, s)
  | some key =>
    let (outcome, claims) := Integration.registerPendingClaimIn s.cfg.pendingDeviceKeyClaims
      key.id pk peerId via (X.isoOfSecs s.clock)
    (outcome, { s with cfg := { s.cfg with pendingDeviceKeyClaims := claims } })

/-- The first half of `remove_device_key`, under the lock of the configuration. -/
def removeDeviceKey (id : String) : Option String × Server :=
  match s.cfg.deviceKeys.findIdx? fun k => k.id == id with
  | none => (none, s)
  | some pos =>
    let publicKey := ((s.cfg.deviceKeys[pos]?).map (·.publicKey)).getD ""
    (some publicKey, { s with cfg := { s.cfg with
      deviceKeys := s.cfg.deviceKeys.eraseIdx pos
      pendingDeviceKeyClaims :=
        s.cfg.pendingDeviceKeyClaims.filter fun c => c.publicKey != publicKey } })

end Server

open Server in
/-- The answer of an operation, and the state after it. -/
def Op.sem (X : Setup) : (o : Op) → Server → o.Res × Server
  | .mapGet id, s => (s.map id, s)
  | .mapInstall id row, s => s.install id (Peer.ofRow X s.now row)
  | .mapGetOrInsert id, s => s.getOrInsert id
  | .mapRemove id, s => ((), { s with map := s.map.remove id })
  | .readPeer r, s => (s.cell r, s)
  | .readRegPk r, s => ((s.cell r).regPk, s)
  | .writePk r addr uuid pk ip, s => s.writePk r addr uuid pk ip
  | .writeGuid r guid, s => ((), s.setCell r fun p => { p with guid := some guid })
  | .writeRegPk r regPk, s => ((), s.setCell r fun p => { p with regPk := regPk })
  | .writeStatus r status, s => ((), s.setCell r fun p => { p with status := status })
  | .writeHeartbeat r addr, s => s.writeHeartbeat r addr
  | .dbGetPeer id, s => s.query fun db => some (Database.getPeer db id, db)
  | .dbGetRegisteredPeer id, s =>
    s.query fun db => some (Database.getRegisteredPeer X db id, db)
  | .dbListRegistered limit offset, s => s.query fun db =>
    some (Database.listRegisteredPeers X s.api.createdAt db limit offset, db)
  | .dbInsertPeer id uuid pk info, s => s.dbInsertPeer id uuid pk info
  | .dbUpdatePk guid id pk info, s =>
    s.query fun db => (Database.updatePk db guid id pk info).map fun db => ((), db)
  | .dbSetPeerStatus id status note, s =>
    s.query fun db => some (Database.setPeerStatus db id status note)
  | .dbSetManagementPolicy id policy, s =>
    s.query fun db => some (Database.setPeerManagementPolicy db id policy)
  | .dbDeletePeer id, s => s.query fun db => some (Database.deleteRegisteredPeer db id)
  | .companyOnly, s => (s.companyOnly, s)
  | .alwaysUseRelay, s => (s.alwaysUseRelay, s)
  | .requireLogin, s => (s.cfg.requireLogin, s)
  | .sessionForToken token, s =>
    let (session, sessions) := Integration.sessionForToken token s.clock s.sessions
    (session, { s with sessions := sessions })
  | .userIsEnabled username, s => (Integration.userIsEnabled X s.cfg username, s)
  | .effectivePermission username, s => (Integration.effectivePermission X s.cfg username, s)
  | .userPolicy username, s => (Integration.userPolicy X s.cfg username, s)
  | .isDeviceKeyPinned publicKey, s =>
    (Integration.isDeviceKeyPinned s.cfg.deviceKeys publicKey, s)
  | .deviceKeyBinding publicKey, s =>
    (Integration.deviceKeyBinding s.cfg.deviceKeys publicKey, s)
  | .claimUnboundDeviceKeys, s => (s.cfg.claimUnboundDeviceKeys, s)
  | .requireDeviceKey, s => (s.cfg.requireDeviceKey, s)
  | .stripUnsealedSecrets, s => (s.cfg.stripUnsealedSecrets, s)
  | .devicePolicy peerId, s => (Integration.devicePolicy s.cfg peerId, s)
  | .registerPendingClaim publicKey peerId via, s => s.registerPendingClaim X publicKey peerId via
  | .removeDeviceKey id, s => s.removeDeviceKey id
  | .dropSessionsOf publicKey, s =>
    ((), { s with sessions := s.sessions.retain fun _ t => t.deviceKeyPub != publicKey })
  | .globalPolicy, s => (s.api.globalPolicy, s)
  | .certInfo, s => (s.api.certInfo, s)
  | .peerEndpoints, s => (s.api.peerEndpoints, s)
  | .peerTerminateBefore id, s => ((s.api.peerTerminate id).getD 0, s)
  | .abVersion, s => (s.api.abVersion, s)
  | .instantNow, s => (s.now, s)
  | .wallClock, s => (s.clock, s)
  | .genKeypair, s => (X.genKeypair s.keypairs, { s with keypairs := s.keypairs + 1 })
  | .getRelayServer relayServers, s => s.getRelayServer relayServers
  | .checkIpBlocker ip id, s => s.checkIpBlocker ip id
  | .auditPunch fromIp toIp toId, s => ((), s.auditPunch fromIp toIp toId)
  | .record _, s => ((), s)
  | .parkSink c addr, s => ((), s.parkSink X c addr)
  | .sendToSink _ _, s => ((), s)
  | .sendToTcp _ addr, s => ((), { s with tcpPunch := s.tcpPunch.remove (X.tryIntoV4 addr) })
  | .pushToPeer id _ _, s => ((), s.pushToPeer id)
  | .registerPeerPush id c, s => ((), s.registerPeerPush id c)
  | .insertPending addr targetId sourceId, s => ((), s.insertPending X addr targetId sourceId)
  | .redeemPending addr authed, s => s.redeemPending X addr authed
  | .udpSend _ _, s => ((), s)
  | .finishHandshake c authed secured, s => s.finishHandshake X c authed secured
  | .dispatch _ authed _, s => (s.dispatch authed, s)
  | .resume c, s => ((), s.setConn c fun w => { w with phase := .idle })
  | .close c, s => ((), s.close X c)
  | .abandon c, s => ((), s.setConn c fun w => { w with phase := .closed })

end NemoServer
