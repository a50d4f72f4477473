import NemoServer.Rendezvous.HandleTcp

/-!
# Connections

The task of a rendezvous connection (`handle_listener_inner`): the key exchange and the
device-key proof, then the frames, each checked against the registry before it is handled. And
the datagrams, which know neither.
-/

set_option autoImplicit false

namespace NemoServer

namespace Rendezvous

open Integration

variable (X : Setup)

/-! ## The handshake -/

def keyExchangeOpen (ex : KeyExchange) (ourSk : SecretKey) : Except String SessionKey :=
  match ex.keys with
  | [theirPk, sealedKey] =>
    match X.encryptDecode sealedKey theirPk ourSk with
    | some sym => .ok sym
    | none => .error "the session key does not open"
  | keys => .error ("Key exchange reply carries " ++ toString keys.length ++ " keys, expected 2")

/-- The check of the proof itself: the signature, by the pinned key, over the payload of this
connection. -/
def verifyProof (auth : NemoClientAuth) (serverEphPk : PublicKey) : Except String Unit :=
  match X.publicKeyOfSlice auth.devicePub with
  | none => .error "device public key is not a valid Ed25519 key"
  | some devicePk =>
    let payload := X.nemoDeviceAuthPayload serverEphPk auth.clientBoxPk auth.sealedKey auth.peerId
    match X.verify auth.sig devicePk with
    | none => .error "device signature does not verify"
    | some opened =>
      if opened ≠ payload then .error "device signature covers the wrong payload" else .ok ()

/-- Why a client whose claim was filed is refused all the same. -/
def pendingRefusal (outcome : PendingOutcome) (peerId : String) : String :=
  match outcome with
  | .new | .again => "device key is not bound yet: filed a claim for peer " ++ peerId ++
      ", awaiting operator confirmation in the dashboard"
  | .denied => "the operator denied this device key for peer " ++ peerId
  | .full => "too many pending claims against this device key; clear them in the dashboard"
  | .rejected => "cannot claim this device key for peer id " ++ peerId.quote

def nemoClientAuthOpen (auth : NemoClientAuth) (serverEphPk : PublicKey) (ourSk : SecretKey) :
    Handler (Except String (SessionKey × AuthedDevice)) := do
  let devicePubB64 := X.base64Encode auth.devicePub
  if !(← perform (.isDeviceKeyPinned devicePubB64)) then
    pure (.error "device key is not pinned on this server")
  else match ← perform (.deviceKeyBinding devicePubB64) with
    | none => pure (.error "device key vanished from the registry mid-handshake")
    | some bound =>
      let claimEnabled ← perform .claimUnboundDeviceKeys
      match deviceKeyBindingDecision bound auth.peerId X.allowUnboundDeviceKeys claimEnabled with
      | .refused reason => pure (.error reason)
      | decision =>
        match verifyProof X auth serverEphPk with
        | .error e => pure (.error e)
        | .ok () =>
          if decision = .claimOnProof then
            let outcome ←
              perform (.registerPendingClaim devicePubB64 auth.peerId "rendezvous handshake")
            pure (.error (pendingRefusal outcome auth.peerId))
          else match X.encryptDecode auth.sealedKey auth.clientBoxPk ourSk with
            | none => pure (.error "the session key does not open")
            | some session => pure (.ok (session, ⟨devicePubB64, auth.peerId⟩))

/-- What the first frame of a client amounts to. -/
inductive Reply
  | refused
  | secured (authed : Option AuthedDevice)
  /-- Not a handshake message: the first frame proper. -/
  | plain (frame : Option RendezvousMessage)

/-- A sealed proof is opened into a flat one. -/
def openSealedAuth (sk : SecretKey) (frame : Option RendezvousMessage) :
    Option (Option RendezvousMessage) :=
  match frame with
  | some (.nemoSealedAuth sealed) =>
    ((X.sealedboxOpen sealed sk).bind X.parseClientAuth).map fun auth => some (.nemoClientAuth auth)
  | other => some other

def readReply (sk : SecretKey) (ourPk : PublicKey) (ourSk : SecretKey)
    (frame : Option RendezvousMessage) : Handler Reply := do
  match openSealedAuth X sk frame with
  | none => pure .refused
  | some (some (.keyExchange ex)) =>
    match keyExchangeOpen X ex ourSk with
    | .ok _ => pure (.secured none)
    | .error _ => pure .refused
  | some (some (.nemoClientAuth auth)) =>
    match ← nemoClientAuthOpen X auth ourPk ourSk with
    | .ok (_, who) => pure (.secured (some who))
    | .error _ => pure .refused
  | some _ => pure (.plain frame)

/-! ## Frames -/

/-- One round of the read loop, after a frame has come. -/
def serveFrame (c : ConnId) (self : Task) (authed : Option AuthedDevice)
    (frame : Option RendezvousMessage) : Handler Unit := do
  if ← perform (.dispatch c authed frame) then
    if ← handleTcp X c self false authed frame then perform (.resume c)
    else perform (.close c)
  else perform (.close c)

/-- The end of the handshake; a frame read in its place is served now. -/
def enter (c : ConnId) (self : Task) (authed : Option AuthedDevice) (secured : Bool)
    (pending : Option (Option RendezvousMessage)) : Handler Unit := do
  if ← perform (.finishHandshake c authed secured) then
    match pending with
    | some frame => serveFrame X c self authed frame
    | none => perform (.resume c)
  else perform (.abandon c)

/-- The task up to its read loop. `reply` is the one frame read during the handshake, if it came
in time. -/
def handleListenerInner (c : ConnId) (self : Task) (reply : Option (Option RendezvousMessage)) :
    Handler Unit := do
  if X.mode = .off then perform (.resume c)
  else match X.sk with
    | none => if X.mode = .require then perform (.abandon c) else perform (.resume c)
    | some sk =>
      let (ourPk, ourSk) ← perform .genKeypair
      perform (.sendToSink c (.keyExchange ⟨[X.sign ourPk sk]⟩))
      match reply with
      | none => enter X c self none false none
      | some frame =>
        match ← readReply X sk ourPk ourSk frame with
        | .refused => perform (.abandon c)
        | .secured authed => enter X c self authed true none
        | .plain frame => enter X c self none false (some frame)

/-! ## Datagrams -/

def handleUdp (self : Task) : Option RendezvousMessage → Handler Unit
  | some (.registerPeer rp) => do
    if X.udpRegistration && rp.id != "" then
      if !(← refuseBlocked rp.id self.addr) then
        let requestPk ← updateAddrCore rp.id self.addr
        perform (.udpSend (.registerPeerResponse requestPk) self.addr)
        if rp.serial < self.serial then
          perform (.udpSend (.configureUpdate (configUpdate self)) self.addr)
  | some (.registerPk rk) => do
    if X.udpRegistration then
      match ← registerPkCore X rk self.addr with
      | some res => perform (.udpSend (.registerPkResponse res) self.addr)
      | none => pure ()
  | _ => pure ()

end Rendezvous

end NemoServer
