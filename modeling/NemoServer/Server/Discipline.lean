import NemoServer.Server.Footprint

/-!
# The discipline of the tasks

`Rule X j past o` says when a task `j` that has made the calls `past` performs the operation `o`:
what it has checked before it pushes a request to a peer, records one, delivers an answer or
writes a registration. Every task keeps to it (`NemoServer.hbbs_verified`), under any interference
by the others; the laws about runs are drawn from it.
-/

set_option autoImplicit false

namespace NemoServer

open Prog Management Rendezvous

/-! ## What a task is about -/

/-- A frame that is being handled. -/
structure Handling where
  conn : ConnId
  self : Task
  authed : Option AuthedDevice
  msg : RendezvousMessage

/-- The frame a task handles; the one read in place of a handshake is handled unauthenticated. -/
def Job.handling : Job → Option Handling
  | .frame c self authed (some m) => some ⟨c, self, authed, m⟩
  | .handshake c self (some (some m)) => some ⟨c, self, none, m⟩
  | _ => none

/-- The connection whose task this is. -/
def Job.conn : Job → Option ConnId
  | .handshake c _ _ => some c
  | .frame c _ _ _ => some c
  | .hangup c => some c
  | _ => none

/-- The registration a task handles. -/
def Job.registers (j : Job) : Option RegisterPk :=
  match j with
  | .datagram _ (some (.registerPk rk)) => some rk
  | j =>
    match j.handling with
    | some ⟨_, _, _, .registerPk rk⟩ => some rk
    | _ => none

/-- A request to reach a peer, as the gates see it: the target, and what the controller says of
itself in the typed field and in a text field. -/
structure Request where
  target : String
  source : Option NemoSource
  field : String

def RendezvousMessage.request : RendezvousMessage → Option Request
  | .punchHoleRequest ph => some ⟨ph.id, ph.nemoSource, ph.version⟩
  | .requestRelay rf => some ⟨rf.id, rf.nemoSource, rf.licenceKey⟩
  | _ => none

/-! ## Histories -/

/-- Only operations of the kinds `ks` so far. -/
def Within (ks : List Kind) (past : Past) : Prop := ∀ x ∈ past, x.op.kind ∈ ks

/-- No operation of the kind `k` so far. -/
def Lacks (k : Kind) (past : Past) : Prop := ∀ x ∈ past, x.op.kind ≠ k

/-- The task got the cell `r` for the peer `id`. -/
def Held (past : Past) (id : String) (r : PeerRef) : Prop :=
  (∃ s, ⟨.mapGet id, s⟩ ∈ past ∧ s.map id = some r) ∨
    (∃ row s, ⟨.mapInstall id row, s⟩ ∈ past ∧ s.nextCell = r) ∨
    ∃ s, ⟨.mapGetOrInsert id, s⟩ ∈ past ∧ (s.getOrInsert id).1 = r

/-- The request passed every gate, and its target was found. -/
structure Cleared (X : Setup) (authed : Option AuthedDevice) (q : Request) (past : Past) :
    Prop where
  target : q.target ≠ "" → Ran (Op.sem X) past (isPeerAllowed q.target) true
  controller : Ran (Op.sem X) past (controllerPolicyRejectionFromField X q.source q.field q.target
    (authed.map (·.peerId))) none
  user : Ran (Op.sem X) past (nemoUserRejectionFromField X q.source q.field q.target
    (authed.map (·.devicePubB64))) none
  found : ∃ r, Held past q.target r

/-- The task brokers a request from the address `addr` to the target `t`. -/
def Brokers (X : Setup) (j : Job) (past : Past) (t : String) (addr : SocketAddr) : Prop :=
  ∃ h q, j.handling = some h ∧ h.msg.request = some q ∧ q.target = t ∧ h.self.addr = addr ∧
    Cleared X h.authed q past

/-- What is pushed to a target on behalf of the controller at `addr`: a punch hole is recorded
before it is pushed, a relay request is not. -/
def PushMsg (X : Setup) (t : String) (addr : SocketAddr) (past : Past) :
    RendezvousMessage → Prop
  | .punchHole p => p.socketAddr = X.mangleEncode addr ∧
      ∃ src s, ⟨.insertPending addr t src, s⟩ ∈ past
  | .fetchLocalAddr f => f.socketAddr = X.mangleEncode addr ∧ Lacks .deposit past
  | .requestRelay rf => rf.socketAddr = X.mangleEncode addr ∧ Lacks .deposit past
  | _ => False

/-- A call of the task got the grant `grant` for the entry at `a`. -/
def Granted (X : Setup) (past : Past) (a : SocketAddr) (authed : Option AuthedDevice)
    (entry : PendingRelay) (grant : String) : Prop :=
  ∃ s, ⟨.redeemPending a authed, s⟩ ∈ past ∧
    (s.redeemPending X a authed).1 = .granted entry grant

/-- What is delivered to the connection parked under `a`. -/
def Answers (X : Setup) (h : Handling) (past : Past) (msg : RendezvousMessage)
    (a : SocketAddr) : Prop :=
  match h.msg with
  | .punchHoleRequest _ => a = h.self.addr
  | .requestRelay _ => a = h.self.addr
  | .punchHoleSent phs => a = X.mangleDecode phs.socketAddr
  | .localAddr la => a = X.mangleDecode la.socketAddr
  | .relayResponse rr => a = X.mangleDecode rr.socketAddr ∧ ∃ entry grant rr',
      Granted X past a h.authed entry grant ∧ msg = .relayResponse rr' ∧ rr'.uuid = grant
  | _ => False

/-- Every grant the task got has been forwarded. -/
def Forwarded (X : Setup) (past : Past) : Prop :=
  ∀ a authed entry grant, Granted X past a authed entry grant →
    ∃ rr s, ⟨.sendToTcp (.relayResponse rr) a, s⟩ ∈ past ∧ rr.uuid = grant

/-- The identity of the connection was proved in this handshake. -/
def Proven (X : Setup) (past : Past) (reply : Option (Option RendezvousMessage))
    (who : AuthedDevice) : Prop :=
  ∃ sk frame auth s sym, X.sk = some sk ∧ reply = some frame ∧
    openSealedAuth X sk frame = some (some (.nemoClientAuth auth)) ∧ ⟨.genKeypair, s⟩ ∈ past ∧
    Ran (Op.sem X) past (nemoClientAuthOpen X auth (X.genKeypair s.keypairs).1
      (X.genKeypair s.keypairs).2) (.ok (sym, who))

/-- The handshake ended with the connection `c` let in, as `authed`. -/
def LetIn (X : Setup) (past : Past) (c : ConnId) (authed : Option AuthedDevice) : Prop :=
  ∃ secured s, ⟨.finishHandshake c authed secured, s⟩ ∈ past ∧
    (s.finishHandshake X c authed secured).1 = true

/-- A handshake has let its connection in, unless there is no key exchange at all. -/
def Entered (X : Setup) (j : Job) (past : Past) : Prop :=
  ∀ c self reply, j = .handshake c self reply → X.mode = .off ∨ ∃ authed, LetIn X past c authed

/-! ## Registrations -/

/-- The task wrote the uuid of its registration to the cell `r`, where it found the guid `guid`. -/
def Wrote (past : Past) (rk : RegisterPk) (r : PeerRef) (guid : Option ℕ) : Prop :=
  ∃ addr ip s, ⟨.writePk r addr rk.uuid rk.pk ip, s⟩ ∈ past ∧ (s.cell r).guid = guid

/-- The uuid of the registration is backed by what the task saw or did: it found it in the cell
it read after its admission, or it inserted or updated the row. -/
def Anchored (past : Past) (rk : RegisterPk) : Prop :=
  (∃ r s h, (⟨.readPeer r, s⟩ :: h) <:+ past ∧ (∃ x ∈ h, ∃ ip id, x.op = .checkIpBlocker ip id) ∧
      Held h rk.id r ∧ (s.cell r).uuid = rk.uuid) ∨
    (∃ info s, ⟨.dbInsertPeer rk.id rk.uuid rk.pk info, s⟩ ∈ past) ∨
    ∃ guid info s, ⟨.dbUpdatePk guid rk.id rk.pk info, s⟩ ∈ past

/-- An answer OK is only given to a registration that is backed. -/
def AnswersOk (j : Job) (past : Past) (msg : RendezvousMessage) : Prop :=
  msg = .registerPkResponse .ok → ∃ rk, j.registers = some rk ∧ rk.uuid ≠ [] ∧ Anchored past rk

/-! ## The rule -/

/-- The rule, operation by operation. -/
def OpRule (X : Setup) (j : Job) (past : Past) : Op → Prop
  | .mapInstall id row => row.id = id ∧ 6 ≤ id.utf8ByteSize ∧ row.uuid ≠ [] ∧
      ∃ s h, past = ⟨.dbGetPeer id, s⟩ :: h ∧ row ∈ s.db
  | .mapGetOrInsert id => 6 ≤ id.utf8ByteSize ∧ ∃ rk, j.registers = some rk ∧ rk.id = id
  | .writePk r _ uuid pk _ => ∃ rk, j.registers = some rk ∧ rk.uuid = uuid ∧ rk.pk = pk ∧
      uuid ≠ [] ∧ Held past rk.id r
  | .dbInsertPeer id uuid pk _ => 6 ≤ id.utf8ByteSize ∧ uuid ≠ [] ∧ ∃ rk r,
      j.registers = some rk ∧ rk.id = id ∧ rk.uuid = uuid ∧ rk.pk = pk ∧ Held past id r ∧
        Wrote past rk r none
  | .writeGuid r guid => ∃ rk info s, j.registers = some rk ∧ Held past rk.id r ∧
      Wrote past rk r none ∧ ⟨.dbInsertPeer rk.id rk.uuid rk.pk info, s⟩ ∈ past ∧
        (s.dbInsertPeer rk.id rk.uuid rk.pk info).1 = some guid
  | .dbUpdatePk guid id pk _ => 6 ≤ id.utf8ByteSize ∧ ∃ rk r, j.registers = some rk ∧
      rk.id = id ∧ rk.pk = pk ∧ Held past id r ∧ Wrote past rk r (some guid)
  | .dbDeletePeer id => j = .deletePeer id
  | .mapRemove id => j = .deletePeer id
  | .parkSink c addr => ∃ h q, j.handling = some h ∧ h.msg.request = some q ∧ h.conn = c ∧
      h.self.addr = addr
  | .pushToPeer t msg _ => Lacks .push past ∧ ∃ addr, Brokers X j past t addr ∧
      PushMsg X t addr past msg
  | .insertPending addr t _ => Lacks .deposit past ∧ Brokers X j past t addr
  | .redeemPending a authed => Lacks .redeem past ∧ ∃ h rr, j.handling = some h ∧
      h.msg = .relayResponse rr ∧ h.authed = authed ∧ X.mangleDecode rr.socketAddr = a
  | .sendToTcp msg a => Lacks .deliver past ∧ ∃ h, j.handling = some h ∧ Answers X h past msg a
  | .sendToSink c msg => j.conn = some c ∧ AnswersOk j past msg
  | .udpSend msg _ => AnswersOk j past msg
  | .finishHandshake c authed _ => Lacks .gate past ∧ ∃ self reply, j = .handshake c self reply ∧
      ∀ who, authed = some who → Proven X past reply who
  | .dispatch c authed msg => (∃ self, j = .frame c self authed msg ∧ past = []) ∨
      authed = none ∧ ∃ self s h, j = .handshake c self (some msg) ∧
        past = ⟨.finishHandshake c none false, s⟩ :: h ∧ Lacks .gate h ∧
        (s.finishHandshake X c none false).1 = true
  | .resume c => j.conn = some c ∧ Forwarded X past ∧ Entered X j past
  | .close c => j.conn = some c ∧ Forwarded X past
  | .abandon c => j.conn = some c
  | _ => True

/-- The end of a round is the last thing a task does. -/
def Rule (X : Setup) (j : Job) (past : Past) (o : Op) (_ : Server) : Prop :=
  Lacks .final past ∧ OpRule X j past o

/-! ## The invariant of the state -/

/-- Ids have at least six bytes, in the database and in memory, and every row has a uuid. -/
structure WellFormed (s : Server) : Prop where
  map_len : ∀ id r, s.map id = some r → 6 ≤ id.utf8ByteSize
  row_len : ∀ row ∈ s.db, 6 ≤ row.id.utf8ByteSize
  row_uuid : ∀ row ∈ s.db, row.uuid ≠ []

/-! ## Lemmas on histories -/

theorem Within.lacks {ks : List Kind} {k : Kind} {past : Past} (h : Within ks past)
    (hk : k ∉ ks) : Lacks k past :=
  fun x hx heq => hk (heq ▸ h x hx)

theorem Within.mono {ks ks' : List Kind} {past : Past} (h : Within ks past) (hks : ks ⊆ ks') :
    Within ks' past :=
  fun x hx => hks (h x hx)

theorem Within.cons {ks : List Kind} {past : Past} {o : Op} {s : Server} (h : Within ks past)
    (ho : o.kind ∈ ks) : Within ks (⟨o, s⟩ :: past) :=
  List.forall_mem_cons.2 ⟨ho, h⟩

theorem Within.record {ks : List Kind} {past : Past} {e : Event} {s : Server}
    (h : Within ks past) (hk : .look ∈ ks) : Within ks (⟨.record e, s⟩ :: past) :=
  h.cons hk

theorem Held.mono {past past' : Past} {id : String} {r : PeerRef} (h : Held past id r)
    (hs : past <:+ past') : Held past' id r := by
  obtain ⟨s, hm, hr⟩ | ⟨row, s, hm, hr⟩ | ⟨s, hm, hr⟩ := h
  · exact .inl ⟨s, hs.subset hm, hr⟩
  · exact .inr (.inl ⟨row, s, hs.subset hm, hr⟩)
  · exact .inr (.inr ⟨s, hs.subset hm, hr⟩)

theorem Cleared.mono {X : Setup} {authed : Option AuthedDevice} {q : Request} {past past' : Past}
    (h : Cleared X authed q past) (hs : past <:+ past') : Cleared X authed q past' where
  target ht := (h.target ht).mono hs
  controller := h.controller.mono hs
  user := h.user.mono hs
  found := let ⟨r, hr⟩ := h.found; ⟨r, hr.mono hs⟩

theorem Entered.mono {X : Setup} {j : Job} {past past' : Past} (h : Entered X j past)
    (hs : past <:+ past') : Entered X j past' := fun c self reply hj =>
  (h c self reply hj).imp_right fun ⟨authed, secured, s, hm, hr⟩ =>
    ⟨authed, secured, s, hs.subset hm, hr⟩

theorem Granted.lacks {X : Setup} {past : Past} {a : SocketAddr} {authed : Option AuthedDevice}
    {entry : PendingRelay} {grant : String} (h : Granted X past a authed entry grant) :
    ¬ Lacks .redeem past :=
  let ⟨_, hm, _⟩ := h
  fun hl => hl _ hm rfl

theorem Forwarded.of_lacks {X : Setup} {past : Past} (h : Lacks .redeem past) :
    Forwarded X past :=
  fun _ _ _ _ hg => absurd h hg.lacks

/-- The rule asks nothing of an operation that only looks. -/
theorem opRule_of_look {X : Setup} {j : Job} {past : Past} {o : Op} (h : Only [.look] o) :
    OpRule X j past o := by
  cases o <;> trivial

end NemoServer
