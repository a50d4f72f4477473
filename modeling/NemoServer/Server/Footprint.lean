import NemoServer.Server.System

/-!
# What the helpers do

The operations fall into kinds, by the part of the state they act on. A helper that performs only
operations of certain kinds is used by its footprint: `Uses (Only ks)`. The gates only look, the
peer map looks and loads, the registration core also writes.
-/

set_option autoImplicit false

namespace NemoServer

/-- The kinds of operations. -/
inductive Kind
  /-- Reads, counters, statistics, and the expiry of sessions. -/
  | look
  /-- A new cell in the peer map. -/
  | load
  /-- Writes to a cell or to the database on behalf of a registration. -/
  | register
  | admin
  /-- The removal of a peer. -/
  | delete
  | claim
  | route
  /-- The checks before a connection, or a frame, is served. -/
  | gate
  | reply
  | park
  | push
  | deposit
  | redeem
  | deliver
  /-- The end of a round of a connection task. -/
  | final
  deriving DecidableEq

def Op.kind : Op → Kind
  | .mapGet _ | .readPeer _ | .readRegPk _ | .dbGetPeer _ | .dbGetRegisteredPeer _ => .look
  | .dbListRegistered _ _ | .requireDeviceKey | .stripUnsealedSecrets | .devicePolicy _ => .look
  | .globalPolicy | .certInfo | .peerEndpoints | .peerTerminateBefore _ | .abVersion => .look
  | .wallClock => .look
  | .companyOnly | .alwaysUseRelay | .requireLogin => .look
  | .sessionForToken _ | .userIsEnabled _ | .effectivePermission _ | .userPolicy _ => .look
  | .isDeviceKeyPinned _ | .deviceKeyBinding _ | .claimUnboundDeviceKeys => .look
  | .instantNow | .genKeypair | .getRelayServer _ | .checkIpBlocker _ _ | .auditPunch _ _ _ => .look
  | .record _ => .look
  | .mapInstall _ _ | .mapGetOrInsert _ => .load
  | .writePk _ _ _ _ _ | .writeGuid _ _ | .writeRegPk _ _ | .writeHeartbeat _ _ => .register
  | .dbInsertPeer _ _ _ _ | .dbUpdatePk _ _ _ _ => .register
  | .writeStatus _ _ | .dbSetPeerStatus _ _ _ | .dbSetManagementPolicy _ _ => .admin
  | .removeDeviceKey _ | .dropSessionsOf _ => .admin
  | .mapRemove _ | .dbDeletePeer _ => .delete
  | .registerPendingClaim _ _ _ => .claim
  | .registerPeerPush _ _ => .route
  | .finishHandshake _ _ _ | .dispatch _ _ _ => .gate
  | .sendToSink _ _ | .udpSend _ _ => .reply
  | .parkSink _ _ => .park
  | .pushToPeer _ _ _ => .push
  | .insertPending _ _ _ => .deposit
  | .redeemPending _ _ => .redeem
  | .sendToTcp _ _ => .deliver
  | .resume _ | .close _ | .abandon _ => .final

/-- An operation of one of the kinds `ks`. -/
def Only (ks : List Kind) (o : Op) : Prop := ks.contains o.kind = true

theorem only_iff {ks : List Kind} {o : Op} : Only ks o ↔ o.kind ∈ ks := List.contains_iff_mem

theorem Only.mono {ks ks' : List Kind} (h : ks ⊆ ks') (o : Op) (ho : Only ks o) : Only ks' o :=
  only_iff.2 (h (only_iff.1 ho))

/-- The operations of the gates, which look things up and drop at most an expired session. -/
def Op.asks : Op → Bool
  | .mapGet _ | .readPeer _ | .dbGetPeer _ | .dbGetRegisteredPeer _ => true
  | .companyOnly | .requireLogin => true
  | .sessionForToken _ | .userIsEnabled _ | .effectivePermission _ | .userPolicy _ => true
  | _ => false

def Asks (o : Op) : Prop := o.asks = true

theorem Asks.look (o : Op) (h : Asks o) : Only [.look] o := by
  cases o <;> first | rfl | cases h

section Uses

variable {P : Op → Prop} {α β : Type}

theorem uses_perform {o : Op} {f : o.Res → Handler β} :
    (perform o >>= f).Uses P ↔ P o ∧ ∀ r, (f r).Uses P := Iff.rfl

theorem uses_op {o : Op} (h : P o) : (perform o).Uses P := ⟨h, fun _ => trivial⟩

theorem uses_pure (a : α) : (pure a : Handler α).Uses P := trivial

theorem uses_ite {c : Prop} [Decidable c] {p q : Handler α} (hp : c → p.Uses P)
    (hq : ¬c → q.Uses P) : (if c then p else q).Uses P := by
  by_cases h : c
  · rw [if_pos h]
    exact hp h
  · rw [if_neg h]
    exact hq h

end Uses

open Prog

/-! ## The peer map -/

namespace PeerMap

theorem get_uses (id : String) : (get id).Uses (Only [.look, .load]) := by
  unfold get
  refine uses_perform.2 ⟨rfl, fun r => ?_⟩
  cases r with
  | some r => exact uses_pure _
  | none =>
    refine uses_perform.2 ⟨rfl, fun row => ?_⟩
    match row with
    | some (some row) => exact uses_perform.2 ⟨rfl, fun _ => uses_pure _⟩
    | some none => exact uses_pure _
    | none => exact uses_pure _

theorem getOr_uses (id : String) : (getOr id).Uses (Only [.look, .load]) := by
  unfold getOr
  refine uses_bind (get_uses id) fun r => ?_
  cases r with
  | some r => exact uses_pure _
  | none => exact uses_op rfl

theorem peerStatus_asks (id : String) : (peerStatus id).Uses Asks := by
  unfold peerStatus getInMemory
  refine uses_perform.2 ⟨rfl, fun r => ?_⟩
  cases r with
  | some r => exact uses_perform.2 ⟨rfl, fun _ => uses_pure _⟩
  | none =>
    refine uses_perform.2 ⟨rfl, fun row => ?_⟩
    cases row with
    | some row => exact uses_pure _
    | none => exact uses_pure _

theorem peerStatus_uses (id : String) : (peerStatus id).Uses (Only [.look]) :=
  (peerStatus_asks id).mono Asks.look

theorem isPeerBlocked_uses (id : String) : (isPeerBlocked id).Uses (Only [.look]) := by
  unfold isPeerBlocked
  exact uses_bind (peerStatus_uses id) fun _ => uses_pure _

theorem updatePk_uses (X : Setup) (id : String) (r : PeerRef) (addr : SocketAddr)
    (uuid pk : Bytes) (ip : String) :
    (updatePk X id r addr uuid pk ip).Uses (Only [.register]) := by
  unfold updatePk
  refine uses_perform.2 ⟨rfl, fun guid => ?_⟩
  cases guid with
  | none =>
    refine uses_perform.2 ⟨rfl, fun guid => ?_⟩
    cases guid with
    | none => exact uses_pure _
    | some guid => exact uses_perform.2 ⟨rfl, fun _ => uses_pure _⟩
  | some guid =>
    refine uses_perform.2 ⟨rfl, fun res => ?_⟩
    cases res with
    | none => exact uses_pure _
    | some u => exact uses_pure _

theorem setPeerStatus_uses (id : String) (status : Option ℤ) (note : Option String) :
    (setPeerStatus id status note).Uses (Only [.look, .admin]) := by
  unfold setPeerStatus
  refine uses_perform.2 ⟨rfl, fun found => ?_⟩
  match found with
  | some true =>
    refine uses_perform.2 ⟨rfl, fun r => ?_⟩
    cases r with
    | some r => exact uses_op rfl
    | none => exact uses_pure _
  | some false => exact uses_pure _
  | none => exact uses_pure _

theorem setPeerManagementPolicy_uses (id : String) (policy : Option String) :
    (setPeerManagementPolicy id policy).Uses (Only [.look, .admin]) := by
  unfold setPeerManagementPolicy
  exact uses_perform.2 ⟨rfl, fun _ => uses_pure _⟩

theorem deleteRegistered_uses (id : String) :
    (deleteRegistered id).Uses (Only [.delete]) := by
  unfold deleteRegistered
  refine uses_perform.2 ⟨rfl, fun found => ?_⟩
  match found with
  | some true => exact uses_op rfl
  | some false => exact uses_pure _
  | none => exact uses_pure _

end PeerMap

theorem removeDeviceKey_uses (id : String) :
    (removeDeviceKey id).Uses (Only [.look, .admin]) := by
  unfold removeDeviceKey
  refine uses_perform.2 ⟨rfl, fun key => ?_⟩
  cases key with
  | some key => exact uses_op rfl
  | none => exact uses_pure _

/-! ## The gates -/

namespace Management

variable (X : Setup)

theorem isPeerAllowed_asks (id : String) : (isPeerAllowed id).Uses Asks := by
  unfold isPeerAllowed PeerMap.isPeerAllowedForControl
  refine uses_perform.2 ⟨rfl, fun companyOnly => ?_⟩
  refine uses_bind (PeerMap.peerStatus_asks id) fun status => ?_
  split <;> exact uses_pure _

theorem isPeerAllowed_uses (id : String) : (isPeerAllowed id).Uses (Only [.look]) :=
  (isPeerAllowed_asks id).mono Asks.look

theorem controllerPolicyRejectionFromField_asks (proto : Option NemoSource)
    (field targetId : String) (peerId : Option String) :
    (controllerPolicyRejectionFromField X proto field targetId peerId).Uses Asks := by
  unfold controllerPolicyRejectionFromField
  split
  · exact uses_pure _
  · refine uses_bind ?_ fun _ => uses_pure _
    unfold controllerPolicyRejection
    refine uses_ite (fun _ => uses_pure _) fun _ => ?_
    refine uses_perform.2 ⟨rfl, fun row => ?_⟩
    match row with
    | none => exact uses_pure _
    | some none => exact uses_pure _
    | some (some source) => exact uses_pure _

theorem controllerPolicyRejectionFromField_uses (proto : Option NemoSource)
    (field targetId : String) (peerId : Option String) :
    (controllerPolicyRejectionFromField X proto field targetId peerId).Uses (Only [.look]) :=
  (controllerPolicyRejectionFromField_asks X proto field targetId peerId).mono Asks.look

theorem enabledSession_asks (token : Option String) :
    (enabledSession token).Uses Asks := by
  unfold enabledSession
  cases token with
  | none => exact uses_pure _
  | some token =>
    refine uses_perform.2 ⟨rfl, fun session => ?_⟩
    cases session with
    | none => exact uses_pure _
    | some session => exact uses_perform.2 ⟨rfl, fun _ => uses_pure _⟩

theorem nemoUserRejectionFromField_asks (proto : Option NemoSource) (field targetId : String)
    (devicePub : Option String) :
    (nemoUserRejectionFromField X proto field targetId devicePub).Uses Asks := by
  unfold nemoUserRejectionFromField nemoUserConnectionRejection
  refine uses_bind ?_ fun _ => uses_pure _
  refine uses_bind (enabledSession_asks _) fun session => ?_
  cases session with
  | none => exact uses_perform.2 ⟨rfl, fun _ => uses_pure _⟩
  | some session =>
    exact uses_ite (fun _ => uses_pure _)
      fun _ => uses_perform.2 ⟨rfl, fun _ => uses_pure _⟩

theorem nemoUserRejectionFromField_uses (proto : Option NemoSource) (field targetId : String)
    (devicePub : Option String) :
    (nemoUserRejectionFromField X proto field targetId devicePub).Uses (Only [.look]) :=
  (nemoUserRejectionFromField_asks X proto field targetId devicePub).mono Asks.look

theorem controlPermissionsFor_asks (proto : Option NemoSource) (field : String) :
    (controlPermissionsFor X proto field).Uses Asks := by
  unfold controlPermissionsFor
  split
  · exact uses_pure _
  · refine uses_bind (enabledSession_asks _) fun session => ?_
    cases session with
    | none => exact uses_pure _
    | some session => exact uses_perform.2 ⟨rfl, fun _ => uses_pure _⟩

theorem controlPermissionsFor_uses (proto : Option NemoSource) (field : String) :
    (controlPermissionsFor X proto field).Uses (Only [.look]) :=
  (controlPermissionsFor_asks X proto field).mono Asks.look

end Management

/-! ## The handlers -/

namespace Rendezvous

variable (X : Setup)

theorem relayTargetAllowed_asks (id : String) : (relayTargetAllowed id).Uses Asks :=
  uses_ite (fun _ => uses_pure _) fun _ => Management.isPeerAllowed_asks id

theorem relayTargetAllowed_uses (id : String) : (relayTargetAllowed id).Uses (Only [.look]) :=
  (relayTargetAllowed_asks id).mono Asks.look

theorem getPk_uses (version id : String) : (getPk X version id).Uses (Only [.look, .load]) := by
  unfold getPk
  split
  · exact uses_pure _
  · refine uses_bind (PeerMap.get_uses id) fun r => ?_
    cases r with
    | none => exact uses_pure _
    | some r => exact uses_perform.2 ⟨rfl, fun _ => uses_pure _⟩

theorem fixRelayServer_uses (self : Task) (relayServer : String) (addrB : SocketAddr) :
    (fixRelayServer X self relayServer addrB).Uses (Only [.look]) := by
  unfold fixRelayServer
  refine uses_ite (fun _ => uses_pure _) fun _ => uses_ite (fun _ => uses_pure _) fun _ => ?_
  exact uses_ite (fun _ => uses_op rfl) fun _ => uses_pure _

theorem refuseBlocked_uses (id : String) (addr : SocketAddr) :
    (refuseBlocked id addr).Uses (Only [.look]) := by
  unfold refuseBlocked
  refine uses_perform.2 ⟨rfl, fun _ => ?_⟩
  refine uses_bind (PeerMap.isPeerBlocked_uses id) fun blocked => ?_
  exact uses_ite (fun _ => uses_perform.2 ⟨rfl, fun _ => uses_pure _⟩) fun _ => uses_pure _

theorem updateAddrCore_uses (id : String) (addr : SocketAddr) :
    (updateAddrCore id addr).Uses (Only [.look, .register]) := by
  unfold updateAddrCore PeerMap.getInMemory
  refine uses_perform.2 ⟨rfl, fun r => ?_⟩
  cases r with
  | none => exact uses_pure _
  | some r => exact uses_op rfl

theorem registerPkCore_uses (rk : RegisterPk) (addr : SocketAddr) :
    (registerPkCore X rk addr).Uses (Only [.look, .load, .register]) := by
  unfold registerPkCore
  refine uses_ite (fun _ => uses_pure _) fun _ => ?_
  refine uses_bind ((PeerMap.isPeerBlocked_uses _).mono (Only.mono (by decide))) fun blocked => ?_
  refine uses_ite (fun _ => ?_) fun _ => uses_ite (fun _ => uses_pure _) fun _ => ?_
  · exact uses_perform.2 ⟨rfl, fun _ => uses_perform.2 ⟨rfl, fun _ => uses_pure _⟩⟩
  refine uses_perform.2 ⟨rfl, fun allowed => uses_ite (fun _ => uses_pure _) fun _ => ?_⟩
  refine uses_bind ((PeerMap.getOr_uses _).mono (Only.mono (by decide))) fun r => ?_
  refine uses_perform.2 ⟨rfl, fun old => ?_⟩
  split
  · exact uses_pure _
  refine uses_perform.2 ⟨rfl, fun regPk => uses_perform.2 ⟨rfl, fun now => ?_⟩⟩
  split
  · exact uses_pure _
  refine uses_perform.2 ⟨rfl, fun _ => ?_⟩
  refine uses_ite (fun _ => ?_) fun _ => uses_perform.2 ⟨rfl, fun _ => uses_pure _⟩
  exact uses_bind ((PeerMap.updatePk_uses X _ _ _ _ _ _).mono (Only.mono (by decide)))
    fun _ => uses_perform.2 ⟨rfl, fun _ => uses_pure _⟩

theorem nemoClientAuthOpen_uses (auth : NemoClientAuth) (ephPk : PublicKey) (ourSk : SecretKey) :
    (nemoClientAuthOpen X auth ephPk ourSk).Uses (Only [.look, .claim]) := by
  unfold nemoClientAuthOpen
  refine uses_perform.2 ⟨rfl, fun pinned => uses_ite (fun _ => uses_pure _) fun _ => ?_⟩
  refine uses_perform.2 ⟨rfl, fun bound => ?_⟩
  cases bound with
  | none => exact uses_pure _
  | some bound =>
    refine uses_perform.2 ⟨rfl, fun claimEnabled => ?_⟩
    split
    · exact uses_pure _
    · split
      · exact uses_pure _
      · refine uses_ite (fun _ => uses_perform.2 ⟨rfl, fun _ => uses_pure _⟩) fun _ => ?_
        split <;> exact uses_pure _

theorem readReply_uses (sk : SecretKey) (ourPk : PublicKey) (ourSk : SecretKey)
    (frame : Option RendezvousMessage) :
    (readReply X sk ourPk ourSk frame).Uses (Only [.look, .claim]) := by
  unfold readReply
  split
  · exact uses_pure _
  · split <;> exact uses_pure _
  · refine uses_bind (nemoClientAuthOpen_uses X _ _ _) fun r => ?_
    split <;> exact uses_pure _
  · exact uses_pure _

/-! ## Whole tasks -/

theorem brokerPunch_uses (self : Task) (ph : PunchHoleRequest) (ws : Bool)
    (authed : Option AuthedDevice) (peerAddr : SocketAddr) :
    (brokerPunch X self ph ws authed peerAddr).Uses (Only [.look, .deposit]) := by
  unfold brokerPunch
  refine uses_perform.2 ⟨rfl, fun _ => uses_perform.2 ⟨rfl, fun relayServer => ?_⟩⟩
  refine uses_perform.2 ⟨rfl, fun alwaysUseRelay => ?_⟩
  refine uses_bind ((Management.controlPermissionsFor_uses X _ _).mono (Only.mono (by decide)))
    fun permissions => uses_perform.2 ⟨rfl, fun _ => ?_⟩
  exact uses_ite (fun _ => uses_pure _) fun _ => uses_perform.2 ⟨rfl, fun _ => uses_pure _⟩

theorem punchTarget_uses (self : Task) (ph : PunchHoleRequest) (ws : Bool)
    (authed : Option AuthedDevice) :
    (punchTarget X self ph ws authed).Uses (Only [.look, .load, .deposit]) := by
  unfold punchTarget
  refine uses_bind ((PeerMap.get_uses _).mono (Only.mono (by decide))) fun r => ?_
  cases r with
  | none => exact uses_pure _
  | some r =>
    refine uses_perform.2 ⟨rfl, fun peer => uses_perform.2 ⟨rfl, fun now => ?_⟩⟩
    refine uses_ite (fun _ => uses_pure _) fun _ => ?_
    exact uses_bind ((brokerPunch_uses X _ _ _ _ _).mono (Only.mono (by decide)))
      fun _ => uses_pure _

theorem handlePunchHoleRequest_uses (self : Task) (ph : PunchHoleRequest) (ws : Bool)
    (authed : Option AuthedDevice) :
    (handlePunchHoleRequest X self ph ws authed).Uses (Only [.look, .load, .deposit]) := by
  unfold handlePunchHoleRequest
  refine uses_ite (fun _ => uses_perform.2 ⟨rfl, fun _ => uses_pure _⟩) fun _ => ?_
  refine uses_bind ((Management.isPeerAllowed_uses _).mono (Only.mono (by decide)))
    fun allowed => ?_
  refine uses_ite (fun _ => uses_perform.2 ⟨rfl, fun _ => uses_pure _⟩) fun _ => ?_
  refine uses_bind ((Management.controllerPolicyRejectionFromField_uses X _ _ _ _).mono
    (Only.mono (by decide))) fun rejection => ?_
  split
  · exact uses_perform.2 ⟨rfl, fun _ => uses_pure _⟩
  refine uses_bind ((Management.nemoUserRejectionFromField_uses X _ _ _ _).mono
    (Only.mono (by decide))) fun rejection => ?_
  split
  · exact uses_perform.2 ⟨rfl, fun _ => uses_pure _⟩
  · exact punchTarget_uses X _ _ _ _

theorem handleTcpPunchHoleRequest_uses (self : Task) (ph : PunchHoleRequest) (ws : Bool)
    (authed : Option AuthedDevice) : (handleTcpPunchHoleRequest X self ph ws authed).Uses
      (Only [.look, .load, .deposit, .push, .deliver]) := by
  unfold handleTcpPunchHoleRequest
  refine uses_bind ((handlePunchHoleRequest_uses X _ _ _ _).mono (Only.mono (by decide)))
    fun res => ?_
  split <;> exact uses_op rfl

theorem refuseRelay_uses (addr : SocketAddr) (controllerId reason id : String) :
    (refuseRelay addr controllerId reason id).Uses (Only [.look, .deliver]) := by
  unfold refuseRelay
  exact uses_perform.2 ⟨rfl, fun _ => uses_op rfl⟩

theorem forwardRelay_uses (addr : SocketAddr) (rf : RequestRelay) (sourceId : String) :
    (forwardRelay X addr rf sourceId).Uses (Only [.look, .push, .deposit]) := by
  unfold forwardRelay PeerMap.getInMemory
  refine uses_perform.2 ⟨rfl, fun r => ?_⟩
  cases r with
  | none => exact uses_pure _
  | some r =>
    refine uses_bind ((Management.controlPermissionsFor_uses X _ _).mono (Only.mono (by decide)))
      fun permissions => uses_perform.2 ⟨rfl, fun peer => ?_⟩
    exact uses_perform.2 ⟨rfl, fun _ => uses_perform.2 ⟨rfl, fun _ => uses_pure _⟩⟩

theorem handleRequestRelay_uses (self : Task) (rf : RequestRelay) (authed : Option AuthedDevice) :
    (handleRequestRelay X self rf authed).Uses (Only [.look, .deliver, .push, .deposit]) := by
  have hrefuse : ∀ controllerId reason,
      (refuseRelay self.addr controllerId reason rf.id).Uses
        (Only [.look, .deliver, .push, .deposit]) :=
    fun _ _ => (refuseRelay_uses _ _ _ _).mono (Only.mono (by decide))
  unfold handleRequestRelay
  refine uses_bind ((relayTargetAllowed_uses _).mono (Only.mono (by decide))) fun allowed => ?_
  refine uses_ite (fun _ => hrefuse _ _) fun _ => ?_
  refine uses_bind ((Management.controllerPolicyRejectionFromField_uses X _ _ _ _).mono
    (Only.mono (by decide))) fun rejection => ?_
  split
  · exact hrefuse _ _
  refine uses_bind ((Management.nemoUserRejectionFromField_uses X _ _ _ _).mono
    (Only.mono (by decide))) fun rejection => ?_
  split
  · exact hrefuse _ _
  refine uses_bind ((forwardRelay_uses X _ _ _).mono (Only.mono (by decide))) fun forwarded => ?_
  exact uses_ite (fun _ => uses_op rfl) fun _ => uses_pure _

theorem signResponder_uses (rr : RelayResponse) :
    (signResponder X rr).Uses (Only [.look, .load]) :=
  uses_ite (fun _ => uses_pure _) fun _ => uses_bind (getPk_uses X _ _) fun _ => uses_pure _

theorem deliverRelayResponse_uses (self : Task) (id : String) (rr : RelayResponse)
    (addrB : SocketAddr) :
    (deliverRelayResponse X self id rr addrB).Uses (Only [.look, .deliver]) := by
  unfold deliverRelayResponse
  refine uses_bind ((fixRelayServer_uses X _ _ _).mono (Only.mono (by decide))) fun server => ?_
  exact uses_ite (fun _ => uses_perform.2 ⟨rfl, fun _ => uses_op rfl⟩) fun _ => uses_op rfl

theorem handleRelayResponse_uses (c : ConnId) (self : Task) (rr : RelayResponse)
    (authed : Option AuthedDevice) : (handleRelayResponse X c self rr authed).Uses
      (Only [.redeem, .look, .load, .reply, .deliver]) := by
  unfold handleRelayResponse
  refine uses_perform.2 ⟨rfl, fun redeem => ?_⟩
  split
  · unfold forwardRelayResponse
    refine uses_perform.2 ⟨rfl, fun _ => uses_perform.2 ⟨rfl, fun _ => ?_⟩⟩
    refine uses_bind ((signResponder_uses X _).mono (Only.mono (by decide))) fun answer => ?_
    exact (deliverRelayResponse_uses X _ _ _ _).mono (Only.mono (by decide))
  · exact uses_pure _

theorem handleHoleSent_uses (self : Task) (phs : PunchHoleSent) :
    (handleHoleSent X self phs).Uses (Only [.look, .load, .deliver]) := by
  unfold handleHoleSent
  refine uses_perform.2 ⟨rfl, fun _ => ?_⟩
  exact uses_bind ((getPk_uses X _ _).mono (Only.mono (by decide))) fun _ => uses_op rfl

theorem handleLocalAddr_uses (self : Task) (la : LocalAddr) :
    (handleLocalAddr X self la).Uses (Only [.look, .load, .deliver]) := by
  unfold handleLocalAddr
  refine uses_perform.2 ⟨rfl, fun _ => ?_⟩
  exact uses_bind ((getPk_uses X _ _).mono (Only.mono (by decide))) fun _ => uses_op rfl

theorem handleRegisterPeer_uses (c : ConnId) (self : Task) (rp : RegisterPeer)
    (authed : Option AuthedDevice) :
    (handleRegisterPeer c self rp authed).Uses (Only [.look, .route, .register, .reply]) := by
  unfold handleRegisterPeer
  refine uses_ite (fun _ => uses_pure _) fun _ => ?_
  refine uses_bind ((refuseBlocked_uses _ _).mono (Only.mono (by decide))) fun blocked => ?_
  refine uses_ite (fun _ => uses_pure _) fun _ => uses_ite (fun _ => uses_pure _) fun _ => ?_
  refine uses_perform.2 ⟨rfl, fun _ => ?_⟩
  refine uses_bind ((updateAddrCore_uses _ _).mono (Only.mono (by decide))) fun requestPk => ?_
  refine uses_perform.2 ⟨rfl, fun _ => ?_⟩
  exact uses_ite (fun _ => uses_perform.2 ⟨rfl, fun _ => uses_pure _⟩) fun _ => uses_pure _

theorem handleRegisterPk_uses (c : ConnId) (self : Task) (rk : RegisterPk)
    (authed : Option AuthedDevice) : (handleRegisterPk X c self rk authed).Uses
      (Only [.route, .look, .load, .register, .reply]) := by
  unfold handleRegisterPk
  refine uses_ite (fun _ => uses_pure _) fun _ => uses_perform.2 ⟨rfl, fun _ => ?_⟩
  refine uses_bind ((registerPkCore_uses X _ _).mono (Only.mono (by decide))) fun res => ?_
  cases res with
  | none => exact uses_pure _
  | some res => exact uses_perform.2 ⟨rfl, fun _ => uses_pure _⟩

/-- The kinds of operations a client's frames lead to. -/
def clientKinds : List Kind :=
  [.look, .load, .register, .claim, .route, .gate, .reply, .park, .push, .deposit, .redeem,
    .deliver, .final]

theorem handleTcp_uses (c : ConnId) (self : Task) (ws : Bool) (authed : Option AuthedDevice)
    (frame : Option RendezvousMessage) :
    (handleTcp X c self ws authed frame).Uses (Only clientKinds) := by
  unfold handleTcp
  split
  · refine uses_perform.2 ⟨rfl, fun _ => uses_bind ?_ fun _ => uses_pure _⟩
    exact (handleTcpPunchHoleRequest_uses X _ _ _ _).mono (Only.mono (by decide))
  · refine uses_perform.2 ⟨rfl, fun _ => uses_bind ?_ fun _ => uses_pure _⟩
    exact (handleRequestRelay_uses X _ _ _).mono (Only.mono (by decide))
  · refine uses_bind ?_ fun _ => uses_pure _
    exact (handleRelayResponse_uses X _ _ _ _).mono (Only.mono (by decide))
  · refine uses_bind ?_ fun _ => uses_pure _
    exact (handleHoleSent_uses X _ _).mono (Only.mono (by decide))
  · refine uses_bind ?_ fun _ => uses_pure _
    exact (handleLocalAddr_uses X _ _).mono (Only.mono (by decide))
  · exact uses_bind (uses_op rfl) fun _ => uses_pure _
  · exact (handleRegisterPeer_uses _ _ _ _).mono (Only.mono (by decide))
  · exact (handleRegisterPk_uses X _ _ _ _).mono (Only.mono (by decide))
  · exact uses_pure _

theorem serveFrame_uses (c : ConnId) (self : Task) (authed : Option AuthedDevice)
    (frame : Option RendezvousMessage) :
    (serveFrame X c self authed frame).Uses (Only clientKinds) := by
  unfold serveFrame
  refine uses_perform.2 ⟨rfl, fun pass => uses_ite (fun _ => ?_) fun _ => uses_op rfl⟩
  refine uses_bind (handleTcp_uses X _ _ _ _ _) fun stays => ?_
  exact uses_ite (fun _ => uses_op rfl) fun _ => uses_op rfl

theorem enter_uses (c : ConnId) (self : Task) (authed : Option AuthedDevice) (secured : Bool)
    (pending : Option (Option RendezvousMessage)) :
    (enter X c self authed secured pending).Uses (Only clientKinds) := by
  unfold enter
  refine uses_perform.2 ⟨rfl, fun entered => uses_ite (fun _ => ?_) fun _ => uses_op rfl⟩
  cases pending with
  | none => exact uses_op rfl
  | some frame => exact serveFrame_uses X _ _ _ _

theorem handleListenerInner_uses (c : ConnId) (self : Task)
    (reply : Option (Option RendezvousMessage)) :
    (handleListenerInner X c self reply).Uses (Only clientKinds) := by
  unfold handleListenerInner
  refine uses_ite (fun _ => uses_op rfl) fun _ => ?_
  split
  · exact uses_ite (fun _ => uses_op rfl) fun _ => uses_op rfl
  refine uses_perform.2 ⟨rfl, fun pair => uses_perform.2 ⟨rfl, fun _ => ?_⟩⟩
  cases reply with
  | none => exact enter_uses X _ _ _ _ _
  | some frame =>
    refine uses_bind ((readReply_uses X _ _ _ _).mono (Only.mono (by decide))) fun reply => ?_
    cases reply with
    | refused => exact uses_op rfl
    | secured authed => exact enter_uses X _ _ _ _ _
    | plain frame => exact enter_uses X _ _ _ _ _

theorem handleUdp_uses (self : Task) (frame : Option RendezvousMessage) :
    (handleUdp X self frame).Uses (Only [.look, .load, .register, .reply]) := by
  unfold handleUdp
  split
  · refine uses_ite (fun _ => ?_) fun _ => uses_pure _
    refine uses_bind ((refuseBlocked_uses _ _).mono (Only.mono (by decide))) fun blocked => ?_
    refine uses_ite (fun _ => ?_) fun _ => uses_pure _
    refine uses_bind ((updateAddrCore_uses _ _).mono (Only.mono (by decide))) fun requestPk => ?_
    refine uses_perform.2 ⟨rfl, fun _ => ?_⟩
    exact uses_ite (fun _ => uses_op rfl) fun _ => uses_pure _
  · refine uses_ite (fun _ => ?_) fun _ => uses_pure _
    refine uses_bind ((registerPkCore_uses X _ _).mono (Only.mono (by decide))) fun res => ?_
    cases res with
    | none => exact uses_pure _
    | some res => exact uses_op rfl
  · exact uses_pure _

end Rendezvous

end NemoServer
