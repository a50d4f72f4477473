import NemoServer.Server.Footprint

/-!
# What an operation leaves alone

Each kind of operation changes its own part of the state: `sem_frame` says which, once for all
operations, and the laws below read single components off it.
-/

set_option autoImplicit false

namespace NemoServer

/-- `s'` differs from `s` at most in the part of the state that operations of the kind act on. -/
def Frame (s s' : Server) : Kind → Prop
  | .look => s' = { s with
      sessions := s'.sessions, keypairs := s'.keypairs, rotation := s'.rotation
      ipBlocker := s'.ipBlocker, punchReqs := s'.punchReqs }
  | .load => s' = { s with map := s'.map, cells := s'.cells, nextCell := s'.nextCell }
  | .register => s' = { s with cells := s'.cells, db := s'.db, uuids := s'.uuids }
  | .admin => s' = { s with
      cells := s'.cells, db := s'.db, cfg := s'.cfg, sessions := s'.sessions }
  | .delete => s' = { s with map := s'.map, db := s'.db }
  | .claim => s' = { s with cfg := s'.cfg }
  | .route => s' = { s with tcpPeers := s'.tcpPeers }
  | .gate => s' = { s with conns := s'.conns }
  | .reply => s' = s
  | .park => s' = { s with conns := s'.conns, tcpPunch := s'.tcpPunch }
  | .push => s' = { s with tcpPeers := s'.tcpPeers }
  | .deposit => s' = { s with pendingRelay := s'.pendingRelay }
  | .redeem => s' = { s with pendingRelay := s'.pendingRelay, uuids := s'.uuids }
  | .deliver => s' = { s with tcpPunch := s'.tcpPunch }
  | .final => s' = { s with conns := s'.conns, tcpPunch := s'.tcpPunch }

namespace Server

variable (X : Setup) (s : Server)

theorem query_snd {α : Type} (f : List Row → Option (α × List Row)) :
    ∃ db, (s.query f).2 = { s with db := db } := by
  unfold query
  split
  · split
    · exact ⟨_, rfl⟩
    · exact ⟨s.db, rfl⟩
  · exact ⟨s.db, rfl⟩

theorem query_frame {α : Type} (f : List Row → Option (α × List Row)) {k : Kind}
    (hk : k ∈ [.register, .admin, .delete]) : Frame s (s.query f).2 k := by
  obtain ⟨db, h⟩ := s.query_snd f
  rw [h]
  simp only [List.mem_cons, List.not_mem_nil, or_false] at hk
  obtain rfl | rfl | rfl := hk <;> rfl

/-- A query that only reads. -/
theorem query_read {α : Type} (f : List Row → α) :
    (s.query fun db => some (f db, db)).2 = s := by
  unfold query
  split <;> rfl

theorem dbInsertPeer_frame (id : String) (uuid pk : Bytes) (info : String) :
    Frame s (s.dbInsertPeer id uuid pk info).2 .register := by
  unfold dbInsertPeer
  obtain ⟨db, h⟩ := { s with uuids := s.uuids + 1 }.query_snd fun db =>
    (Database.insertPeer db s.uuids id uuid pk info).map fun db => (s.uuids, db)
  rw [h]
  rfl

theorem auditPunch_eq (fromIp toIp toId : String) :
    ∃ l, s.auditPunch fromIp toIp toId = { s with punchReqs := l } :=
  ⟨_, rfl⟩

theorem auditPunch_frame (fromIp toIp toId : String) :
    Frame s (s.auditPunch fromIp toIp toId) .look := by
  obtain ⟨l, h⟩ := s.auditPunch_eq fromIp toIp toId
  rw [h]
  rfl

theorem getOrInsert_frame (id : String) : Frame s (s.getOrInsert id).2 .load := by
  unfold getOrInsert
  split <;> rfl

theorem writeHeartbeat_frame (r : PeerRef) (addr : SocketAddr) :
    Frame s (s.writeHeartbeat r addr).2 .register := by
  unfold writeHeartbeat
  simp only
  split <;> rfl

theorem checkIpBlocker_frame (ip id : String) : Frame s (s.checkIpBlocker ip id).2 .look := by
  unfold checkIpBlocker
  split
  · rfl
  · simp only
    split
    · rfl
    · split <;> rfl

theorem getRelayServer_frame (relayServers : List String) :
    Frame s (s.getRelayServer relayServers).2 .look := by
  unfold getRelayServer
  split <;> rfl

theorem parkSink_frame (c : ConnId) (addr : SocketAddr) :
    Frame s (s.parkSink X c addr) .park := by
  unfold parkSink
  split
  · split <;> rfl
  · rfl

theorem pushToPeer_frame (id : String) : Frame s (s.pushToPeer id) .push := by
  unfold pushToPeer
  split
  · rfl
  · split
    · split <;> rfl
    · rfl

theorem registerPeerPush_frame (id : String) (c : ConnId) :
    Frame s (s.registerPeerPush id c) .route := by
  unfold registerPeerPush
  split <;> rfl

theorem redeemPending_frame (addr : SocketAddr) (authed : Option AuthedDevice) :
    Frame s (s.redeemPending X addr authed).2 .redeem := by
  unfold redeemPending
  simp only
  split
  · rfl
  · split
    · rfl
    · split <;> rfl

theorem finishHandshake_frame (c : ConnId) (authed : Option AuthedDevice) (secured : Bool) :
    Frame s (s.finishHandshake X c authed secured).2 .gate := by
  unfold finishHandshake
  split
  · rfl
  · split <;> rfl

theorem close_frame (c : ConnId) : Frame s (s.close X c) .final := by
  unfold close
  split
  · simp only
    split <;> rfl
  · rfl

theorem registerPendingClaim_frame (publicKey peerId via : String) :
    Frame s (s.registerPendingClaim X publicKey peerId via).2 .claim := by
  unfold registerPendingClaim
  simp only
  split <;> rfl

theorem removeDeviceKey_frame (id : String) : Frame s (s.removeDeviceKey id).2 .admin := by
  unfold removeDeviceKey
  split <;> rfl

end Server

theorem Frame.refl (s : Server) (k : Kind) : Frame s s k := by
  cases k <;> rfl

/-- An operation changes at most the part of the state that its kind acts on. -/
theorem sem_frame (X : Setup) (o : Op) (s : Server) : Frame s (Op.sem X o s).2 o.kind := by
  cases o with
  | mapGetOrInsert id => exact s.getOrInsert_frame id
  | writeHeartbeat r addr => exact s.writeHeartbeat_frame r addr
  | dbGetPeer id => exact (s.query_read _).symm ▸ .refl s _
  | dbGetRegisteredPeer id => exact (s.query_read _).symm ▸ .refl s _
  | dbListRegistered limit offset => exact (s.query_read _).symm ▸ .refl s _
  | dbInsertPeer id uuid pk info => exact s.dbInsertPeer_frame id uuid pk info
  | dbUpdatePk guid id pk info => exact s.query_frame _ (by simp [Op.kind])
  | dbSetPeerStatus id status note => exact s.query_frame _ (by simp [Op.kind])
  | dbSetManagementPolicy id policy => exact s.query_frame _ (by simp [Op.kind])
  | dbDeletePeer id => exact s.query_frame _ (by simp [Op.kind])
  | registerPendingClaim publicKey peerId via =>
    exact s.registerPendingClaim_frame X publicKey peerId via
  | removeDeviceKey id => exact s.removeDeviceKey_frame id
  | getRelayServer relayServers => exact s.getRelayServer_frame relayServers
  | checkIpBlocker ip id => exact s.checkIpBlocker_frame ip id
  | parkSink c addr => exact s.parkSink_frame X c addr
  | pushToPeer id msg addr => exact s.pushToPeer_frame id
  | registerPeerPush id c => exact s.registerPeerPush_frame id c
  | redeemPending addr authed => exact s.redeemPending_frame X addr authed
  | finishHandshake c authed secured => exact s.finishHandshake_frame X c authed secured
  | close c => exact s.close_frame X c
  | auditPunch fromIp toIp toId => exact s.auditPunch_frame fromIp toIp toId
  | _ => rfl

/-! ## Queries that write -/

section Queries

variable {X : Setup} {s : Server}

/-- A query that changed the rows succeeded. -/
theorem query_db_cases {α : Type} (f : List Row → Option (α × List Row)) :
    (s.query f).2.db = s.db ∨
      ∃ a, f s.db = some (a, (s.query f).2.db) ∧ (s.query f).1 = some a ∧ s.dbUp = true := by
  unfold Server.query
  split
  · next hup =>
    split
    · next a db h => exact .inr ⟨a, h, rfl, hup⟩
    · exact .inl rfl
  · exact .inl rfl

theorem dbInsertPeer_db_cases (id : String) (uuid pk : Bytes) (info : String) :
    (s.dbInsertPeer id uuid pk info).2.db = s.db ∨
      (∀ r ∈ s.db, r.id ≠ id) ∧ (s.dbInsertPeer id uuid pk info).1 = some s.uuids ∧
        (s.dbInsertPeer id uuid pk info).2.db =
          s.db ++ [⟨s.uuids, id, uuid, pk, info, none, none, none⟩] := by
  unfold Server.dbInsertPeer
  obtain h | ⟨a, h, h₁, -⟩ := query_db_cases (s := { s with uuids := s.uuids + 1 }) fun db =>
    (Database.insertPeer db s.uuids id uuid pk info).map fun db => (s.uuids, db)
  · exact .inl h
  · simp only [Option.map_eq_some_iff, Prod.mk.injEq] at h
    obtain ⟨db, hins, rfl, hdb⟩ := h
    unfold Database.insertPeer at hins
    split at hins
    · cases hins
    · next hany =>
      refine .inr ⟨by simpa using hany, h₁, ?_⟩
      rw [← hdb]
      exact (Option.some.inj hins).symm

/-- Each row after an update of a key has an origin: the row of the guid takes the id and the key,
the others stay. -/
theorem dbUpdatePk_db_cases (guid : ℕ) (id : String) (pk : Bytes) (info : String) :
    (Op.sem X (.dbUpdatePk guid id pk info) s).2.db = s.db ∨
      (∀ r ∈ s.db, r.guid = guid → ∀ r' ∈ s.db, r'.id = id → r'.guid = guid) ∧
        (Op.sem X (.dbUpdatePk guid id pk info) s).2.db = s.db.map fun r =>
          if r.guid = guid then { r with id := id, pk := pk, info := info } else r := by
  unfold Op.sem
  obtain h | ⟨a, h, -, -⟩ := query_db_cases (s := s) fun db =>
    (Database.updatePk db guid id pk info).map fun db => ((), db)
  · exact .inl h
  · simp only [Option.map_eq_some_iff, Prod.mk.injEq] at h
    obtain ⟨db, hupd, -, hdb⟩ := h
    unfold Database.updatePk at hupd
    split at hupd
    · cases hupd
    · next hany =>
      refine .inr ⟨fun r hr hguid r' hr' hid => ?_, ?_⟩
      · by_contra hne
        refine hany (Bool.and_eq_true _ _ ▸ ⟨?_, ?_⟩)
        · exact List.any_eq_true.2 ⟨r, hr, by simpa using hguid⟩
        · exact List.any_eq_true.2 ⟨r', hr', by simpa using ⟨hid, hne⟩⟩
      · rw [← hdb]
        exact (Option.some.inj hupd).symm

/-- The dashboard changes a row in place, keeping its guid, id and uuid. -/
theorem admin_db_cases {o : Op} (h : o.kind = .admin) :
    (Op.sem X o s).2.db.map (fun r => (r.guid, r.id, r.uuid)) =
      s.db.map fun r => (r.guid, r.id, r.uuid) := by
  have hmap : ∀ f : Row → Row, (∀ r, (f r).guid = r.guid ∧ (f r).id = r.id ∧ (f r).uuid = r.uuid) →
      (s.db.map f).map (fun r => (r.guid, r.id, r.uuid)) =
        s.db.map fun r => (r.guid, r.id, r.uuid) := by
    intro f hf
    rw [List.map_map]
    refine List.map_congr_left fun r _ => ?_
    obtain ⟨hg, hi, hu⟩ := hf r
    rw [Function.comp_apply, hg, hi, hu]
  cases o with
  | writeStatus r status => rfl
  | dbSetPeerStatus id status note =>
    unfold Op.sem
    obtain h | ⟨a, h, -, -⟩ := query_db_cases (s := s) fun db =>
      some (Database.setPeerStatus db id status note)
    · rw [h]
    · rw [← (Prod.mk.inj (Option.some.inj h)).2]
      refine hmap _ fun r => ?_
      split <;> exact ⟨rfl, rfl, rfl⟩
  | dbSetManagementPolicy id policy =>
    unfold Op.sem
    obtain h | ⟨a, h, -, -⟩ := query_db_cases (s := s) fun db =>
      some (Database.setPeerManagementPolicy db id policy)
    · rw [h]
    · rw [← (Prod.mk.inj (Option.some.inj h)).2]
      refine hmap _ fun r => ?_
      split <;> exact ⟨rfl, rfl, rfl⟩
  | removeDeviceKey id =>
    simp only [Op.sem, Server.removeDeviceKey]
    split <;> rfl
  | dropSessionsOf publicKey => rfl
  | _ => cases h

theorem dbDeletePeer_db_cases (id : String) :
    (Op.sem X (.dbDeletePeer id) s).2.db = s.db ∨
      (Op.sem X (.dbDeletePeer id) s).2.db = s.db.filter fun r => r.id != id := by
  unfold Op.sem
  obtain h | ⟨a, h, -, -⟩ := query_db_cases (s := s) fun db =>
    some (Database.deleteRegisteredPeer db id)
  · exact .inl h
  · exact .inr (Prod.mk.inj (Option.some.inj h)).2.symm

end Queries

/-! ## Single components -/

section Components

variable {X : Setup} {o : Op} {s : Server}

theorem sem_map (hl : o.kind ≠ .load) (hd : o.kind ≠ .delete) :
    (Op.sem X o s).2.map = s.map := by
  have h := sem_frame X o s
  cases hk : o.kind <;> rw [hk] at h <;> first
    | exact absurd hk hl
    | exact absurd hk hd
    | exact (congrArg Server.map h).trans rfl

theorem sem_cells (hl : o.kind ≠ .load) (hr : o.kind ≠ .register) (ha : o.kind ≠ .admin) :
    (Op.sem X o s).2.cells = s.cells := by
  have h := sem_frame X o s
  cases hk : o.kind <;> rw [hk] at h <;> first
    | exact absurd hk hl
    | exact absurd hk hr
    | exact absurd hk ha
    | exact (congrArg Server.cells h).trans rfl

theorem sem_tcpPeers (hr : o.kind ≠ .route) (hp : o.kind ≠ .push) :
    (Op.sem X o s).2.tcpPeers = s.tcpPeers := by
  have h := sem_frame X o s
  cases hk : o.kind <;> rw [hk] at h <;> first
    | exact absurd hk hr
    | exact absurd hk hp
    | exact (congrArg Server.tcpPeers h).trans rfl

theorem sem_db (hr : o.kind ≠ .register) (ha : o.kind ≠ .admin) (hd : o.kind ≠ .delete) :
    (Op.sem X o s).2.db = s.db := by
  have h := sem_frame X o s
  cases hk : o.kind <;> rw [hk] at h <;> first
    | exact absurd hk hr
    | exact absurd hk ha
    | exact absurd hk hd
    | exact (congrArg Server.db h).trans rfl

theorem sem_pendingRelay (hd : o.kind ≠ .deposit) (hr : o.kind ≠ .redeem) :
    (Op.sem X o s).2.pendingRelay = s.pendingRelay := by
  have h := sem_frame X o s
  cases hk : o.kind <;> rw [hk] at h <;> first
    | exact absurd hk hd
    | exact absurd hk hr
    | exact (congrArg Server.pendingRelay h).trans rfl

theorem sem_conns (hg : o.kind ≠ .gate) (hp : o.kind ≠ .park) (hf : o.kind ≠ .final) :
    (Op.sem X o s).2.conns = s.conns := by
  have h := sem_frame X o s
  cases hk : o.kind <;> rw [hk] at h <;> first
    | exact absurd hk hg
    | exact absurd hk hp
    | exact absurd hk hf
    | exact (congrArg Server.conns h).trans rfl

theorem sem_cfg (ha : o.kind ≠ .admin) (hc : o.kind ≠ .claim) :
    (Op.sem X o s).2.cfg = s.cfg := by
  have h := sem_frame X o s
  cases hk : o.kind <;> rw [hk] at h <;> first
    | exact absurd hk ha
    | exact absurd hk hc
    | exact (congrArg Server.cfg h).trans rfl

theorem sem_keypairs (hl : o.kind ≠ .look) : (Op.sem X o s).2.keypairs = s.keypairs := by
  have h := sem_frame X o s
  cases hk : o.kind <;> rw [hk] at h <;> first
    | exact absurd hk hl
    | exact (congrArg Server.keypairs h).trans rfl

theorem sem_sessionForToken_eq (token : String) (s : Server) :
    Op.sem X (.sessionForToken token) s =
      ((Integration.sessionForToken token s.clock s.sessions).1,
        { s with sessions := (Integration.sessionForToken token s.clock s.sessions).2 }) := by
  rw [Op.sem]

/-- Time and the flags are the environment's. -/
theorem sem_now : (Op.sem X o s).2.now = s.now := by
  have h := sem_frame X o s
  cases hk : o.kind <;> rw [hk] at h <;> exact (congrArg Server.now h).trans rfl

theorem sem_nextConn : (Op.sem X o s).2.nextConn = s.nextConn := by
  have h := sem_frame X o s
  cases hk : o.kind <;> rw [hk] at h <;> exact (congrArg Server.nextConn h).trans rfl

end Components

/-! ## The other steps -/

namespace Server

/-- Only the connections of a task that starts are marked. -/
theorem beginJob_eq {j : Job} {s s' : Server} (h : beginJob j s = some s') :
    s' = { s with conns := s'.conns, nextConn := s'.nextConn } := by
  unfold beginJob at h
  split at h
  · split at h
    · exact Option.some.inj h ▸ rfl
    · cases h
  · split at h
    · split at h
      · exact Option.some.inj h ▸ rfl
      · cases h
    · cases h
  · split at h
    · split at h
      · exact Option.some.inj h ▸ rfl
      · cases h
    · cases h
  · split at h
    · exact Option.some.inj h ▸ rfl
    · cases h
  · exact Option.some.inj h ▸ rfl

/-- The environment moves the clocks and changes what is configured. -/
theorem act_eq {X : Setup} {e : Env} {s s' : Server} (h : act X e s = some s') :
    s' = { s with
      now := s'.now, clock := s'.clock, dbUp := s'.dbUp, cfg := s'.cfg, sessions := s'.sessions
      companyOnly := s'.companyOnly, alwaysUseRelay := s'.alwaysUseRelay
      relayServers := s'.relayServers, serial := s'.serial
      rendezvousServers := s'.rendezvousServers, api := s'.api } := by
  cases e with
  | setDeviceKeyPeerId id peerId =>
    obtain ⟨x, -, rfl⟩ := Option.map_eq_some_iff.1 h
    rfl
  | approveDeviceKeyClaim keyId peerId claimedAt =>
    simp only [act, approveDeviceKeyClaim, Option.bind_eq_bind, Option.bind_eq_some_iff] at h
    obtain ⟨claim, -, keys, -, h⟩ := h
    exact Option.some.inj h ▸ rfl
  | registerPendingClaim publicKey peerId via =>
    obtain rfl := Option.some.inj h
    have hframe : _ = _ := s.registerPendingClaim_frame X publicKey peerId via
    rw [hframe]
  | configureUpdate serial servers =>
    simp only [act, Option.ite_none_right_eq_some] at h
    exact Option.some.inj h.2 ▸ rfl
  | _ => exact Option.some.inj h ▸ rfl

end Server

end NemoServer
