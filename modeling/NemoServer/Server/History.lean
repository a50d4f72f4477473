import NemoServer.Server.Solo
import NemoServer.Server.System

/-!
# Histories

What is asked of the server about its peers, one request after the other, each with an outage of
the database of its own (`Server.after`). Only a registration whose write fails can part the cached
entries from their rows (`Turn.run_synced`).
-/

set_option autoImplicit false

namespace NemoServer

open Prog PeerMap Rendezvous

/-- A request that concerns a peer, or something else that happens to the server. -/
inductive Turn
  | registerPk (rk : RegisterPk) (addr : SocketAddr)
  | registerPeer (id : String) (addr : SocketAddr)
  | getPeer (id : String)
  | setPeerStatus (id : String) (status : Option ℤ) (note : Option String)
  | setPeerManagementPolicy (id : String) (policy : Option String)
  | deletePeer (id : String)
  | act (e : Env)
  | reboot

variable (X : Setup) (u : Past → Bool)

/-- A registration from the state `s`: its answer, the calls it made, and the state after it. -/
def registration (rk : RegisterPk) (addr : SocketAddr) (s : Server) :
    Option RegisterPkResult × Past × Server :=
  (registerPkCore X rk addr).solo (Op.sem X) (outage u) [] s

namespace Turn

def run : Turn → Server → Server
  | .registerPk rk addr, s => (registration X u rk addr s).2.2
  | .registerPeer id addr, s => ((updateAddrCore id addr).solo (Op.sem X) (outage u) [] s).2.2
  | .getPeer id, s => ((PeerMap.get id).solo (Op.sem X) (outage u) [] s).2.2
  | .setPeerStatus id status note, s =>
    ((PeerMap.setPeerStatus id status note).solo (Op.sem X) (outage u) [] s).2.2
  | .setPeerManagementPolicy id policy, s =>
    ((PeerMap.setPeerManagementPolicy id policy).solo (Op.sem X) (outage u) [] s).2.2
  | .deletePeer id, s => ((deleteRegistered id).solo (Op.sem X) (outage u) [] s).2.2
  | .act e, s => (Server.act X e s).getD s
  | .reboot, s => s.reboot

end Turn

/-- Requests with their outages, the newest first. -/
abbrev History := List (Turn × (Past → Bool))

namespace Server

/-- The state after a history. -/
def after (s₀ : Server) : History → Server
  | [] => s₀
  | (q, u) :: before => q.run X u (s₀.after before)

/-- Every request of the history satisfies `Q`, with its outage and in the state it is made in. -/
def Every (Q : (Past → Bool) → Server → Turn → Prop) (s₀ : Server) : History → Prop
  | [] => True
  | (q, u) :: before => Q u (s₀.after X before) q ∧ s₀.Every Q before

end Server

/-! ## Requests that are no registrations -/

variable {X u} {s : Server} {h : Past}

theorem act_peers {e : Env} {s' : Server} (he : Server.act X e s = some s') :
    s'.peers = s.peers := by
  cases e with
  | registerPendingClaim publicKey peerId via =>
    have hs' : (Op.sem X (.registerPendingClaim publicKey peerId via) s).2 = s' :=
      Option.some.inj he
    rw [← hs']
    exact sem_peers (by simp [Op.kind])
  | setDeviceKeyPeerId id peerId =>
    obtain ⟨-, -, rfl⟩ := Option.map_eq_some_iff.1 he
    rfl
  | approveDeviceKeyClaim keyId peerId claimedAt =>
    simp only [Server.act, Server.approveDeviceKeyClaim, Option.bind_eq_bind,
      Option.bind_eq_some_iff] at he
    obtain ⟨_, -, _, -, hs'⟩ := he
    obtain rfl := Option.some.inj hs'
    rfl
  | configureUpdate serial servers =>
    simp only [Server.act] at he
    split at he
    · obtain rfl := Option.some.inj he
      rfl
    · cases he
  | _ =>
    obtain rfl := Option.some.inj he
    rfl

theorem updateAddrCore_ends (id : String) (addr : SocketAddr) :
    (updateAddrCore id addr).Ends (Op.sem X) (outage u) (fun _ _ s' => s'.peers = s.peers) h s := by
  unfold updateAddrCore getInMemory
  refine ends_perform_look rfl fun s₁ t h₁ _ hs₁ _ => ?_
  split
  · next r _ =>
    refine ends_perform (o := .writeHeartbeat r addr) (f := .ret) (by simp [Op.kind])
      fun s₂ t₂ _ _ _ hs₂ => ends_ret.2 ?_
    exact hs₂.trans hs₁
  · exact hs₁

/-! ## The writes of an administrator -/

variable {P P' : Peers}

/-- One row is changed in place; its id, guid and what a peer registered stay. -/
theorem Database.getPeer_change {db : List Row} {id : String} {f : Row → Row}
    (hid : ∀ row, (f row).id = row.id) (id' : String) :
    getPeer (db.map fun row => if row.id = id then f row else row) id' =
      (getPeer db id').map fun row => if row.id = id then f row else row :=
  getPeer_map (fun row _ => by split <;> simp [hid]) id'

/-- The entries follow when the row of `id` changes and the entry of `id` with it. -/
theorem Synced.change (hP : Synced X P) {id : String} {f : Row → Row} {g : Stored → Stored}
    (hid : ∀ row, (f row).id = row.id) (hguid : ∀ row, (f row).guid = row.guid)
    (huuid : ∀ row, (f row).uuid = row.uuid)
    (hfg : ∀ row, g (.ofRow X row) = .ofRow X (f row))
    (hdb : P'.db = P.db.map fun row => if row.id = id then f row else row)
    (hmap : P'.map = P.map) (hnext : P'.nextCell = P.nextCell) (huuids : P'.uuids = P.uuids)
    (hcells : ∀ id' r, P.map id' = some r →
      P'.cells r = if id' = id then (P.cells r).map g else P.cells r) : Synced X P' := by
  refine hP.mapRows (f := fun row => if row.id = id then f row else row) (fun row _ => ?_)
    (fun row => ?_) (fun row => ?_) hdb hmap hnext huuids fun id' r row hr hrow => ?_
  · split <;> simp [hid]
  · split <;> simp [hguid]
  · split <;> simp [huuid]
  · obtain ⟨-, row', hrow', hc⟩ := hP.cell id' r hr
    obtain rfl := Option.some.inj (hrow.symm.trans hrow')
    obtain ⟨-, rfl⟩ := (Database.getPeer_eq_some hP.ids).1 hrow
    rw [hcells _ r hr, hc]
    split <;> simp [hfg]

theorem dbSetPeerStatus_fst (id : String) (status : Option ℤ) (note : Option String) (t : Server) :
    (Op.sem X (.dbSetPeerStatus id status note) t).1 =
      if t.dbUp then some (t.peers.db.any fun row => row.id == id) else none := by
  simp only [Op.sem, Server.query, Database.setPeerStatus]
  cases t.dbUp <;> rfl

theorem dbDeletePeer_fst (id : String) (t : Server) :
    (Op.sem X (.dbDeletePeer id) t).1 =
      if t.dbUp then some (t.peers.db.any fun row => row.id == id) else none := by
  simp only [Op.sem, Server.query, Database.deleteRegisteredPeer]
  cases t.dbUp <;> rfl

/-- The row of `id` with this status. -/
def Row.withStatus (status : Option ℤ) (note : Option String) (row : Row) : Row :=
  { row with status := status, note := note <|> row.note }

theorem Peers.getPeer_setStatus (X : Setup) (P : Peers) (id id' : String) (status : Option ℤ)
    (note : Option String) :
    Database.getPeer (P.act X true (.dbSetPeerStatus id' status note)).db id =
      (Database.getPeer P.db id).map fun row =>
        if row.id = id' then row.withStatus status note else row :=
  Database.getPeer_change (f := Row.withStatus status note) (fun _ => rfl) id

theorem map_no_row {db : List Row} {id : String} (h : (db.any fun row => row.id == id) = false)
    (f : Row → Row) : (db.map fun row => if row.id = id then f row else row) = db := by
  rw [List.any_eq_false] at h
  refine (List.map_congr_left fun row hrow => ?_).trans (List.map_id db)
  rw [if_neg (by simpa using h row hrow)]
  rfl

theorem setPeerStatus_ends (hP : Synced X s.peers) (id : String) (status : Option ℤ)
    (note : Option String) :
    (PeerMap.setPeerStatus id status note).Ends (Op.sem X) (outage u) (fun _ _ s' =>
      Synced X s'.peers ∧ s'.peers.db = if u h then
        s.peers.db.map fun row => if row.id = id then row.withStatus status note else row
        else s.peers.db) h s := by
  unfold PeerMap.setPeerStatus
  refine ends_perform (by simp [Op.kind]) fun s₁ t ht hup _ hs₁ => ?_
  rw [dbSetPeerStatus_fst, hup, ht]
  have hdb : s₁.peers = { s.peers with db := if u h then
      (s.peers.db.map fun row => if row.id = id then row.withStatus status note else row)
      else s.peers.db } := hs₁
  cases hu : u h with
  | false =>
    rw [hu] at hdb
    simp only [Bool.false_eq_true, if_false] at hdb ⊢
    exact ends_ret.2 ⟨hdb ▸ hP, congrArg Peers.db hdb⟩
  | true =>
    rw [hu] at hdb
    simp only [if_true] at hdb ⊢
    cases hany : s.peers.db.any fun row => row.id == id with
    | false =>
      rw [map_no_row hany] at hdb ⊢
      exact ends_ret.2 ⟨hdb ▸ hP, congrArg Peers.db hdb⟩
    | true =>
      refine ends_perform_look rfl fun s₂ t₂ h₂ ht₂ hs₂ _ => ?_
      have hmap : (Op.sem X (.mapGet id) t₂).1 = s.peers.map id := by
        have hm : (Op.sem X (.mapGet id) t₂).1 = t₂.peers.map id := rfl
        rw [hm, ht₂, hdb]
      rw [hmap]
      cases hid : s.peers.map id with
      | none =>
        refine ends_ret.2 ⟨?_, congrArg Peers.db (hs₂.trans hdb)⟩
        rw [hs₂, hdb]
        refine hP.change (f := Row.withStatus status note) (g := fun c => { c with status := status })
          (fun row => rfl) (fun row => rfl) (fun row => rfl) (fun row => rfl) rfl rfl rfl rfl fun id' r hr => ?_
        rw [if_neg]
        rintro rfl
        cases hid.symm.trans hr
      | some r =>
        refine ends_perform (o := .writeStatus r status) (f := .ret) (by simp [Op.kind]) fun s₃ t₃ _ _ _ hs₃ => ends_ret.2 ?_
        rw [hs₃, hs₂, hdb]
        refine ⟨?_, rfl⟩
        refine hP.change (f := Row.withStatus status note) (g := fun c => { c with status := status })
          (fun row => rfl) (fun row => rfl) (fun row => rfl) (fun row => rfl) rfl rfl rfl rfl fun id' r' hr' => ?_
        by_cases hq : r' = r
        · subst hq
          rw [if_pos (hP.map_inj hr' hid)]
          exact if_pos rfl
        · rw [if_neg]
          · exact if_neg hq
          · rintro rfl
            exact hq (Option.some.inj (hr'.symm.trans hid))

theorem setPeerManagementPolicy_ends (hP : Synced X s.peers) (id : String)
    (policy : Option String) :
    (PeerMap.setPeerManagementPolicy id policy).Ends (Op.sem X) (outage u) (fun _ _ s' =>
      Synced X s'.peers ∧ s'.peers.db = if u h then
        s.peers.db.map fun row => if row.id = id then { row with managementPolicy := policy } else row
        else s.peers.db) h s := by
  unfold PeerMap.setPeerManagementPolicy
  refine ends_perform (by simp [Op.kind]) fun s₁ t _ _ _ hs₁ => ends_ret.2 ⟨?_, ?_⟩
  · rw [hs₁]
    cases hu : u h with
    | false => exact hP
    | true =>
      refine hP.change (f := fun row => { row with managementPolicy := policy }) (g := fun c => c)
        (fun row => rfl) (fun row => rfl) (fun row => rfl) (fun row => rfl) rfl rfl rfl rfl
        fun id' r hr => ?_
      simp [Peers.act]
  · exact congrArg Peers.db hs₁

theorem Database.getPeer_filter {db : List Row} {id id' : String} (h : id' ≠ id) :
    getPeer (db.filter fun row => row.id != id) id' = getPeer db id' := by
  unfold getPeer
  rw [List.find?_filter]
  congr 1
  funext row
  by_cases hrow : row.id = id' <;> simp [hrow, h]

/-- The row of `id` goes, and its entry with it. -/
theorem Synced.remove (hP : Synced X P) (id : String) :
    Synced X { P with map := P.map.remove id, db := P.db.filter fun row => row.id != id } where
  ids := hP.ids.sublist (List.Sublist.map _ List.filter_sublist)
  guids := hP.guids.sublist (List.Sublist.map _ List.filter_sublist)
  guid_lt row hrow := hP.guid_lt row (List.mem_filter.1 hrow).1
  uuid_ne row hrow := hP.uuid_ne row (List.mem_filter.1 hrow).1
  cell id' r hr := by
    obtain ⟨hne, hr⟩ := Table.remove_eq_some.1 hr
    obtain ⟨hlt, row, hrow, hc⟩ := hP.cell id' r hr
    refine ⟨hlt, row, ?_, hc⟩
    exact (Database.getPeer_filter hne).trans hrow

theorem deleteRegistered_ends (hP : Synced X s.peers) (id : String) :
    (deleteRegistered id).Ends (Op.sem X) (outage u) (fun _ _ s' =>
      Synced X s'.peers ∧ s'.peers.db =
        if u h then s.peers.db.filter fun row => row.id != id else s.peers.db) h s := by
  unfold deleteRegistered
  refine ends_perform (by simp [Op.kind]) fun s₁ t ht hup _ hs₁ => ?_
  rw [dbDeletePeer_fst, hup, ht]
  have hdb : s₁.peers = { s.peers with
      db := if u h then (s.peers.db.filter fun row => row.id != id) else s.peers.db } := hs₁
  cases hu : u h with
  | false =>
    rw [hu] at hdb
    simp only [Bool.false_eq_true, if_false] at hdb ⊢
    exact ends_ret.2 ⟨hdb ▸ hP, congrArg Peers.db hdb⟩
  | true =>
    rw [hu] at hdb
    simp only [if_true] at hdb ⊢
    cases hany : s.peers.db.any fun row => row.id == id with
    | false =>
      refine ends_ret.2 ⟨?_, congrArg Peers.db hdb⟩
      have hsame : (s.peers.db.filter fun row => row.id != id) = s.peers.db := by
        rw [List.any_eq_false] at hany
        exact List.filter_eq_self.2 fun row hrow => by simpa using hany row hrow
      rw [hsame] at hdb
      exact hdb ▸ hP
    | true =>
      refine ends_perform (o := .mapRemove id) (f := .ret) (by simp [Op.kind])
        fun s₂ t₂ _ _ _ hs₂ => ends_ret.2 ?_
      rw [hs₂, hdb]
      exact ⟨hP.remove id, rfl⟩

/-! ## A whole history -/

namespace Turn

/-- The request is no registration whose write fails. -/
def Clean (X : Setup) (u : Past → Bool) (s : Server) : Turn → Prop
  | .registerPk rk addr => ¬WriteFailed X (registration X u rk addr s).2.1
  | _ => True

variable {q : Turn}

theorem run_synced (hjson : ∀ ip, X.infoOfJson (X.infoToJson ip) = some ip)
    (hP : Synced X s.peers) (hq : q.Clean X u s) : Synced X (q.run X u s).peers := by
  cases q with
  | registerPk rk addr =>
    obtain ⟨failed, hres, hw⟩ := registerPkCore_ends (u := u) hP.allocated rk addr
    exact (hres.synced hjson hP (by simpa using (not_congr hw).1 hq)).1
  | registerPeer id addr =>
    have hs' : ((Turn.registerPeer id addr).run X u s).peers = s.peers :=
      updateAddrCore_ends id addr
    rw [hs']
    exact hP
  | getPeer id =>
    have hget := (get_ends (X := X) (u := u) (h := []) (s := s) id).2
    change Synced X ((PeerMap.get id).solo (Op.sem X) (outage u) [] s).2.2.peers
    cases hr : ((PeerMap.get id).solo (Op.sem X) (outage u) [] s).1 with
    | some r =>
      rw [hr] at hget
      exact (hget.synced hP).1
    | none =>
      rw [hr] at hget
      rw [hget.1]
      exact hP
  | setPeerStatus id status note => exact (setPeerStatus_ends hP id status note).1
  | setPeerManagementPolicy id policy => exact (setPeerManagementPolicy_ends hP id policy).1
  | deletePeer id => exact (deleteRegistered_ends hP id).1
  | act e =>
    simp only [run]
    cases he : Server.act X e s with
    | none => exact hP
    | some s' =>
      rw [Option.getD_some, act_peers he]
      exact hP
  | reboot =>
    exact ⟨hP.ids, hP.guids, hP.guid_lt, hP.uuid_ne, fun id r hr => by cases hr⟩

/-- With the database up, the status a peer is stored with is what was written, as long as the peer
is there. -/
theorem run_status (hjson : ∀ ip, X.infoOfJson (X.infoToJson ip) = some ip)
    (hP : Synced X s.peers) (hup : ∀ h, u h = true) (id : String) :
    storedStatus (q.run X u s).db id = match q with
      | .setPeerStatus id' status _ =>
        if id' = id ∧ (Database.getPeer s.db id).isSome then status else storedStatus s.db id
      | .deletePeer id' => if id' = id then none else storedStatus s.db id
      | _ => storedStatus s.db id := by
  have hdb : ∀ {s' : Server}, s'.peers = s.peers → storedStatus s'.db id = storedStatus s.db id :=
    fun hs' => congrArg (fun P : Peers => storedStatus P.db id) hs'
  cases q with
  | registerPk rk addr =>
    obtain ⟨failed, hres, -⟩ := registerPkCore_ends (u := u) hP.allocated rk addr
    have hdown : ¬Down u := by
      rintro ⟨h, hh⟩
      rw [hup h] at hh
      cases hh
    exact (hres.synced hjson hP (hres.not_failed hP hdown)).2.2 id
  | registerPeer id' addr => exact hdb (updateAddrCore_ends (X := X) (u := u) (h := []) id' addr)
  | getPeer id' =>
    have hget := (get_ends (X := X) (u := u) (h := []) (s := s) id').2
    change storedStatus ((PeerMap.get id').solo (Op.sem X) (outage u) [] s).2.2.peers.db id = _
    cases hr : ((PeerMap.get id').solo (Op.sem X) (outage u) [] s).1 with
    | some r =>
      rw [hr] at hget
      rw [(hget.synced hP).2.2]
      rfl
    | none =>
      rw [hr] at hget
      rw [hget.1]
      rfl
  | setPeerStatus id' status note =>
    have hset := (setPeerStatus_ends (X := X) (u := u) (h := []) hP id' status note).2
    rw [hup, if_pos rfl] at hset
    have hget : Database.getPeer ((setPeerStatus id' status note).run X u s).db id =
        (Database.getPeer s.db id).map fun row =>
          if row.id = id' then row.withStatus status note else row :=
      (congrArg (Database.getPeer · id) hset).trans
        (Database.getPeer_change (f := Row.withStatus status note) (fun _ => rfl) id)
    simp only [storedStatus, hget]
    cases hrow : Database.getPeer s.db id with
    | none => simp
    | some row =>
      obtain ⟨-, rfl⟩ := (Database.getPeer_eq_some hP.ids).1 hrow
      by_cases hid : row.id = id'
      · simp [hid, Row.withStatus]
      · simp [hid, Ne.symm hid]
  | setPeerManagementPolicy id' policy =>
    have hset := (setPeerManagementPolicy_ends (X := X) (u := u) (h := []) hP id' policy).2
    rw [hup, if_pos rfl] at hset
    have hget : Database.getPeer ((setPeerManagementPolicy id' policy).run X u s).db id =
        (Database.getPeer s.db id).map fun row =>
          if row.id = id' then { row with managementPolicy := policy } else row :=
      (congrArg (Database.getPeer · id) hset).trans
        (Database.getPeer_change (f := fun row => { row with managementPolicy := policy })
          (fun _ => rfl) id)
    simp only [storedStatus, hget]
    cases Database.getPeer s.db id with
    | none => rfl
    | some row =>
      simp only [Option.map_some, Option.bind_some]
      split <;> rfl
  | deletePeer id' =>
    have hdel := (deleteRegistered_ends (X := X) (u := u) (h := []) hP id').2
    rw [hup, if_pos rfl] at hdel
    have hget : Database.getPeer ((deletePeer id').run X u s).db id =
        Database.getPeer (s.db.filter fun row => row.id != id') id :=
      congrArg (Database.getPeer · id) hdel
    simp only [storedStatus, hget]
    split
    · next hid =>
      rw [Database.getPeer_none.2]
      · rfl
      · intro row hrow
        simpa [hid] using (List.mem_filter.1 hrow).2
    · next hid => rw [Database.getPeer_filter (Ne.symm hid)]
  | act e =>
    simp only [run]
    cases he : Server.act X e s with
    | none => rfl
    | some s' => exact hdb (act_peers he)
  | reboot => rfl

end Turn

theorem Server.Booted.synced {s₀ : Server} (h : s₀.Booted) : Synced X s₀.peers where
  ids := h.ids
  guids := h.guids
  guid_lt := h.guid_lt
  uuid_ne := h.uuid_ne
  cell id r hr := by
    have hnone : s₀.peers.map id = none := congrFun h.map id
    cases hnone.symm.trans hr

/-- As long as no write of a registration fails, the entries are the images of their rows. -/
theorem after_synced (hjson : ∀ ip, X.infoOfJson (X.infoToJson ip) = some ip) {s₀ : Server}
    (hboot : s₀.Booted) {hist : History}
    (hclean : s₀.Every X (fun u s q => q.Clean X u s) hist) :
    Synced X (s₀.after X hist).peers := by
  induction hist with
  | nil => exact hboot.synced
  | cons x before ih => exact Turn.run_synced hjson (ih hclean.2) hclean.1

end NemoServer
