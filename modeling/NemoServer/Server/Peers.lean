import Mathlib.Data.List.Nodup
import NemoServer.Server.Frame

/-!
# The peers, cached and stored

What the peer map and the database say about peers, without the addresses and the times that a
heartbeat refreshes: `Server.peers` reads it off the state, and `Peers.act` is what an operation
does to it (`sem_peers`). `Synced` says that every cached entry is the image of its row.
-/

set_option autoImplicit false

namespace NemoServer

/-- The part of a cached entry that the database stores. -/
structure Stored where
  guid : Option ℕ
  uuid : Bytes
  pk : Bytes
  ip : String
  status : Option ℤ
  deriving DecidableEq

structure Peers where
  map : Table String PeerRef
  cells : Table PeerRef Stored
  nextCell : ℕ
  db : List Row
  uuids : ℕ

def Peer.stored (p : Peer) : Stored := ⟨p.guid, p.uuid, p.pk, p.ip, p.status⟩

def Server.peers (s : Server) : Peers where
  map := s.map
  cells := fun r => (s.cells r).map Peer.stored
  nextCell := s.nextCell
  db := s.db
  uuids := s.uuids

namespace Stored

/-- The address a row is read with. -/
def readIp (X : Setup) (row : Row) : String := (X.infoOfJson row.info).getD ""

def fresh : Stored := ⟨none, [], [], "", none⟩

def ofRow (X : Setup) (row : Row) : Stored :=
  ⟨some row.guid, row.uuid, row.pk, readIp X row, row.status⟩

end Stored

namespace Peers

variable (X : Setup) (P : Peers)

/-- A new cell, entered in the map at `id`. -/
def install (id : String) (c : Stored) : Peers := { P with
  map := P.map.insert id P.nextCell
  cells := P.cells.insert P.nextCell c
  nextCell := P.nextCell + 1 }

/-- Change the cell `r`. -/
def modify (r : PeerRef) (f : Stored → Stored) : Peers :=
  { P with cells := fun q => if q = r then (P.cells r).map f else P.cells q }

/-- What an operation does to the peers; `up` says whether a query succeeds. -/
def act (up : Bool) : Op → Peers
  | .mapInstall id row => P.install id (.ofRow X row)
  | .mapGetOrInsert id => if (P.map id).isSome then P else P.install id .fresh
  | .mapRemove id => { P with map := P.map.remove id }
  | .writePk r _ uuid pk ip => P.modify r fun c => { c with uuid := uuid, pk := pk, ip := ip }
  | .writeGuid r guid => P.modify r fun c => { c with guid := some guid }
  | .writeStatus r status => P.modify r fun c => { c with status := status }
  | .dbInsertPeer id uuid pk info => { P with
      uuids := P.uuids + 1
      db := if up then (Database.insertPeer P.db P.uuids id uuid pk info).getD P.db else P.db }
  | .dbUpdatePk guid id pk info =>
    { P with db := if up then (Database.updatePk P.db guid id pk info).getD P.db else P.db }
  | .dbSetPeerStatus id status note =>
    { P with db := if up then (Database.setPeerStatus P.db id status note).2 else P.db }
  | .dbSetManagementPolicy id policy =>
    { P with db := if up then (Database.setPeerManagementPolicy P.db id policy).2 else P.db }
  | .dbDeletePeer id =>
    { P with db := if up then (Database.deleteRegisteredPeer P.db id).2 else P.db }
  | _ => P

@[simp] theorem modify_map (r : PeerRef) (f : Stored → Stored) : (P.modify r f).map = P.map := rfl

@[simp] theorem modify_nextCell (r : PeerRef) (f : Stored → Stored) :
    (P.modify r f).nextCell = P.nextCell := rfl

@[simp] theorem modify_db (r : PeerRef) (f : Stored → Stored) : (P.modify r f).db = P.db := rfl

@[simp] theorem modify_uuids (r : PeerRef) (f : Stored → Stored) :
    (P.modify r f).uuids = P.uuids := rfl

@[simp] theorem modify_modify (r : PeerRef) (f g : Stored → Stored) :
    (P.modify r f).modify r g = P.modify r fun c => g (f c) := by
  have hcells : (fun q => if q = r then ((P.modify r f).cells r).map g
      else (P.modify r f).cells q) =
      fun q => if q = r then (P.cells r).map fun c => g (f c) else P.cells q := by
    funext q
    by_cases hq : q = r
    · simp [hq, modify, Function.comp_def]
    · simp [hq, modify]
  exact congrArg (fun cells => (⟨P.map, cells, P.nextCell, P.db, P.uuids⟩ : Peers)) hcells

theorem modify_cells_self {P : Peers} {r : PeerRef} {c : Stored} (h : P.cells r = some c)
    (f : Stored → Stored) : (P.modify r f).cells r = some (f c) := by
  simp [modify, h]

theorem modify_cells_of_ne {P : Peers} {r q : PeerRef} (h : q ≠ r) (f : Stored → Stored) :
    (P.modify r f).cells q = P.cells q := by
  simp [modify, h]

/-- The cell has this status. -/
def StatusIs (P : Peers) (r : PeerRef) (status : Option ℤ) : Prop :=
  ∃ c, P.cells r = some c ∧ c.status = status

variable {X P}

theorem statusIs_modify {r q : PeerRef} {f : Stored → Stored} {status : Option ℤ}
    (h : P.StatusIs r status) (hf : q = r → ∀ c, c.status = status → (f c).status = status) :
    (P.modify q f).StatusIs r status := by
  obtain ⟨c, hc, hst⟩ := h
  by_cases hq : r = q
  · subst hq
    exact ⟨f c, modify_cells_self hc f, hf rfl c hst⟩
  · exact ⟨c, (modify_cells_of_ne hq f).trans hc, hst⟩

theorem statusIs_install {r : PeerRef} {id : String} {c : Stored} {status : Option ℤ}
    (h : P.StatusIs r status) (hlt : r < P.nextCell) : (P.install id c).StatusIs r status := by
  obtain ⟨c', hc, hst⟩ := h
  exact ⟨c', (Table.insert_of_ne _ _ (Nat.ne_of_lt hlt)).trans hc, hst⟩

/-- The status of a cell changes only by being written. -/
theorem statusIs_act {r : PeerRef} {status : Option ℤ} {o : Op} (h : P.StatusIs r status)
    (hlt : r < P.nextCell) (ho : ∀ status', o = .writeStatus r status' → status' = status)
    (up : Bool) : (P.act X up o).StatusIs r status := by
  cases o with
  | mapInstall id row => exact statusIs_install h hlt
  | mapGetOrInsert id =>
    simp only [act]
    split
    · exact h
    · exact statusIs_install h hlt
  | writePk q addr uuid pk ip => exact statusIs_modify h fun _ _ hst => hst
  | writeGuid q guid => exact statusIs_modify h fun _ _ hst => hst
  | writeStatus q status' => exact statusIs_modify h fun hq _ _ => ho status' (by rw [hq])
  | _ => exact h

/-- An id is mapped to what it was mapped to, or to a new cell. -/
theorem act_map {id : String} {r : PeerRef} {o : Op} {up : Bool}
    (h : (P.act X up o).map id = some r) : P.map id = some r ∨
      (∃ row, o = .mapInstall id row ∧ (P.act X up o).cells r = some (.ofRow X row)) ∨
      o = .mapGetOrInsert id ∧ P.map id = none ∧ (P.act X up o).cells r = some .fresh := by
  cases o with
  | mapInstall id' row =>
    obtain ⟨rfl, rfl⟩ | ⟨-, h⟩ := Table.insert_eq_some.1 h
    · exact .inr (.inl ⟨row, rfl, Table.insert_self _ _ _⟩)
    · exact .inl h
  | mapGetOrInsert id' =>
    cases hid : P.map id' with
    | some q =>
      simp only [act, hid, Option.isSome_some, if_true] at h
      exact .inl h
    | none =>
      simp only [act, hid, Option.isSome_none, Bool.false_eq_true, if_false] at h ⊢
      obtain ⟨rfl, rfl⟩ | ⟨-, h⟩ := Table.insert_eq_some.1 h
      · exact .inr (.inr ⟨rfl, hid, Table.insert_self _ _ _⟩)
      · exact .inl h
  | mapRemove id' => exact .inl (Table.remove_eq_some.1 h).2
  | _ => exact .inl h

end Peers

namespace Server

variable {X : Setup} {s : Server}

theorem peers_install (id : String) (p : Peer) :
    (s.install id p).2.peers = s.peers.install id p.stored := by
  have hcells : (fun r => (s.cells.insert s.nextCell p r).map Peer.stored) =
      Table.insert (fun r => (s.cells r).map Peer.stored) s.nextCell p.stored := by
    funext r
    rw [Table.insert_apply]
    by_cases hr : r = s.nextCell
    · rw [if_pos hr]
      exact (if_pos hr).symm
    · rw [if_neg hr]
      exact (if_neg hr).symm
  simp only [install, peers, Peers.install, hcells]

theorem peers_setCell (r : PeerRef) (f : Peer → Peer) (g : Stored → Stored)
    (h : ∀ p, (f p).stored = g p.stored) : (s.setCell r f).peers = s.peers.modify r g := by
  have hcells : (fun q => (if q = r then (s.cells r).map f else s.cells q).map Peer.stored) =
      fun q => if q = r then ((s.cells r).map Peer.stored).map g
        else (s.cells q).map Peer.stored := by
    funext q
    by_cases hq : q = r
    · subst hq
      cases s.cells q <;> simp [h]
    · simp [hq]
  simp only [setCell, peers, Peers.modify, hcells]

/-- A cell of which only the address and the times are written. -/
theorem peers_setCell_id (r : PeerRef) (f : Peer → Peer) (h : ∀ p, (f p).stored = p.stored) :
    (s.setCell r f).peers = s.peers := by
  rw [peers_setCell r f (fun c => c) h]
  have hcells : (fun q => if q = r then (s.peers.cells r).map (fun c => c)
      else s.peers.cells q) = s.peers.cells := by
    funext q
    by_cases hq : q = r <;> simp [hq]
  simp only [Peers.modify, hcells]

theorem peers_query {α : Type} (f : List Row → Option (α × List Row)) :
    (s.query f).2.peers =
      { s.peers with db := if s.dbUp then ((f s.db).map (·.2)).getD s.db else s.db } := by
  unfold query
  split
  · split
    · next h => simp [peers, h]
    · next h => simp [peers, h]
  · rfl

end Server

/-- What an operation does to the peers. Redeeming a grant uses up a uuid as well. -/
theorem sem_peers {X : Setup} {o : Op} {s : Server} (hr : o.kind ≠ .redeem) :
    (Op.sem X o s).2.peers = s.peers.act X s.dbUp o := by
  have hframe := sem_frame X o s
  cases hk : o.kind with
  | load =>
    cases o with
    | mapInstall id row => exact Server.peers_install id _
    | mapGetOrInsert id =>
      simp only [Op.sem, Server.getOrInsert, Peers.act]
      cases hid : s.map id with
      | some r => simp [Server.peers, hid]
      | none =>
        have hnone : s.peers.map id = none := hid
        simp only [hnone, Option.isSome_none, Bool.false_eq_true, if_false]
        exact Server.peers_install id _
    | _ => cases hk
  | register =>
    cases o with
    | writePk r addr uuid pk ip => exact Server.peers_setCell r _ _ fun p => rfl
    | writeGuid r guid => exact Server.peers_setCell r _ _ fun p => rfl
    | writeRegPk r regPk => exact Server.peers_setCell_id r _ fun p => rfl
    | writeHeartbeat r addr =>
      simp only [Op.sem, Server.writeHeartbeat]
      split
      · rfl
      · exact Server.peers_setCell_id r _ fun p => rfl
    | dbInsertPeer id uuid pk info =>
      simp only [Op.sem, Server.dbInsertPeer, Server.peers_query, Peers.act]
      simp [Server.peers, Function.comp_def]
    | dbUpdatePk guid id pk info =>
      simp only [Op.sem, Server.peers_query, Peers.act]
      simp [Server.peers, Function.comp_def]
    | _ => cases hk
  | admin =>
    cases o with
    | writeStatus r status => exact Server.peers_setCell r _ _ fun p => rfl
    | dbSetPeerStatus id status note => exact Server.peers_query _
    | dbSetManagementPolicy id policy => exact Server.peers_query _
    | removeDeviceKey id =>
      simp only [Op.sem, Server.removeDeviceKey]
      split <;> rfl
    | dropSessionsOf publicKey => rfl
    | _ => cases hk
  | delete =>
    cases o with
    | mapRemove id => rfl
    | dbDeletePeer id => exact Server.peers_query _
    | _ => cases hk
  | redeem => exact absurd hk hr
  | _ =>
    have hact : s.peers.act X s.dbUp o = s.peers := by
      cases o <;> first | rfl | cases hk
    rw [hact]
    rw [hk] at hframe
    exact (congrArg Server.peers hframe).trans rfl

/-! ## Entries that are images of their rows -/

namespace Database

theorem getPeer_eq_some {db : List Row} (h : (db.map (·.id)).Nodup) {id : String} {row : Row} :
    getPeer db id = some row ↔ row ∈ db ∧ row.id = id := by
  unfold getPeer
  constructor
  · intro hrow
    exact ⟨List.mem_of_find?_eq_some hrow, by simpa using List.find?_some hrow⟩
  · rintro ⟨hmem, rfl⟩
    obtain ⟨row', hrow'⟩ := Option.isSome_iff_exists.1
      (List.find?_isSome.2 ⟨row, hmem, by simp⟩ : (db.find? fun r => r.id == row.id).isSome = true)
    have hid : row'.id = row.id := by simpa using List.find?_some hrow'
    have hsame := List.inj_on_of_nodup_map h (List.mem_of_find?_eq_some hrow') hmem hid
    rw [hrow', hsame]

theorem getPeer_none {db : List Row} {id : String} :
    getPeer db id = none ↔ ∀ row ∈ db, row.id ≠ id := by
  unfold getPeer
  rw [List.find?_eq_none]
  simp

theorem getPeer_append (db db' : List Row) (id : String) :
    getPeer (db ++ db') id = (getPeer db id).or (getPeer db' id) := by
  unfold getPeer
  exact List.find?_append

theorem getPeer_map {db : List Row} {f : Row → Row} (hf : ∀ row ∈ db, (f row).id = row.id)
    (id : String) : getPeer (db.map f) id = (getPeer db id).map f := by
  unfold getPeer
  induction db with
  | nil => rfl
  | cons row db ih =>
    have hrow := hf row List.mem_cons_self
    rw [List.map_cons, List.find?_cons, List.find?_cons, hrow]
    cases row.id == id with
    | true => rfl
    | false => exact ih fun r hr => hf r (List.mem_cons_of_mem _ hr)

end Database

/-- Every entry of the map has its cell. -/
def Peers.Allocated (P : Peers) : Prop :=
  ∀ id r, P.map id = some r → r < P.nextCell ∧ (P.cells r).isSome = true

theorem modify_isSome (P : Peers) (r q : PeerRef) (f : Stored → Stored) :
    ((P.modify r f).cells q).isSome = (P.cells q).isSome := by
  unfold Peers.modify
  by_cases hq : q = r <;> simp [hq]

namespace Peers.Allocated

variable {X : Setup} {P P' : Peers}

theorem install (hP : P.Allocated) (id : String) (c : Stored) : (P.install id c).Allocated := by
  intro id' r' hr'
  obtain ⟨rfl, rfl⟩ | ⟨-, hr'⟩ := Table.insert_eq_some.1 hr'
  · exact ⟨Nat.lt_succ_self _, by simp [Peers.install]⟩
  · obtain ⟨hlt, hsome⟩ := hP id' r' hr'
    refine ⟨Nat.lt_succ_of_lt hlt, ?_⟩
    rw [← hsome]
    exact congrArg Option.isSome (Table.insert_of_ne _ _ (Nat.ne_of_lt hlt))

/-- No entry is added and no cell is freed. -/
theorem mono (hP : P.Allocated) (hmap : ∀ id r, P'.map id = some r → P.map id = some r)
    (hnext : P'.nextCell = P.nextCell) (hsome : ∀ r, (P'.cells r).isSome = (P.cells r).isSome) :
    P'.Allocated := by
  intro id r hr
  obtain ⟨hlt, hs⟩ := hP id r (hmap id r hr)
  exact ⟨hnext ▸ hlt, (hsome r).trans hs⟩

theorem act (hP : P.Allocated) (up : Bool) (o : Op) : (P.act X up o).Allocated := by
  cases o with
  | mapInstall id row => exact hP.install id _
  | mapGetOrInsert id =>
    simp only [Peers.act]
    split
    · exact hP
    · exact hP.install id _
  | mapRemove id =>
    refine hP.mono (fun id' r hr => ?_) rfl fun _ => rfl
    exact (Table.remove_eq_some.1 hr).2
  | writePk r addr uuid pk ip =>
    exact hP.mono (fun _ _ hr => hr) rfl fun q => modify_isSome P r q _
  | writeGuid r guid => exact hP.mono (fun _ _ hr => hr) rfl fun q => modify_isSome P r q _
  | writeStatus r status => exact hP.mono (fun _ _ hr => hr) rfl fun q => modify_isSome P r q _
  | _ => exact hP

end Peers.Allocated

/-- Every entry of the map is the image of the row of its id. -/
structure Synced (X : Setup) (P : Peers) : Prop where
  ids : (P.db.map (·.id)).Nodup
  guids : (P.db.map (·.guid)).Nodup
  guid_lt : ∀ row ∈ P.db, row.guid < P.uuids
  uuid_ne : ∀ row ∈ P.db, row.uuid ≠ []
  cell : ∀ id r, P.map id = some r → r < P.nextCell ∧
    ∃ row, Database.getPeer P.db id = some row ∧ P.cells r = some (.ofRow X row)

namespace Synced

variable {X : Setup} {P P' : Peers}

theorem allocated (h : Synced X P) : P.Allocated := by
  intro id r hr
  obtain ⟨hlt, row, -, hc⟩ := h.cell id r hr
  exact ⟨hlt, by rw [hc]; rfl⟩

/-- Entries of two ids are two cells. -/
theorem map_inj (h : Synced X P) {id id' : String} {r : PeerRef} (hr : P.map id = some r)
    (hr' : P.map id' = some r) : id = id' := by
  obtain ⟨-, row, hrow, hc⟩ := h.cell id r hr
  obtain ⟨-, row', hrow', hc'⟩ := h.cell id' r hr'
  rw [Database.getPeer_eq_some h.ids] at hrow hrow'
  have hguid : row.guid = row'.guid :=
    Option.some.inj (congrArg Stored.guid (Option.some.inj (hc.symm.trans hc')))
  rw [← hrow.2, ← hrow'.2, List.inj_on_of_nodup_map h.guids hrow.1 hrow'.1 hguid]

/-- Rows change in place, and the entries with them. -/
theorem mapRows (h : Synced X P) {f : Row → Row} (hid : ∀ row ∈ P.db, (f row).id = row.id)
    (hguid : ∀ row, (f row).guid = row.guid) (huuid : ∀ row, (f row).uuid = row.uuid)
    (hdb : P'.db = P.db.map f) (hmap : P'.map = P.map) (hnext : P'.nextCell = P.nextCell)
    (huuids : P'.uuids = P.uuids) (hcells : ∀ id r row, P.map id = some r →
      Database.getPeer P.db id = some row → P'.cells r = some (.ofRow X (f row))) :
    Synced X P' where
  ids := by
    rw [hdb, List.map_map]
    exact (List.map_congr_left fun row hrow => hid row hrow) ▸ h.ids
  guids := by
    rw [hdb, List.map_map]
    exact (List.map_congr_left fun row _ => hguid row) ▸ h.guids
  guid_lt row hrow := by
    rw [hdb] at hrow
    obtain ⟨row₀, hmem, rfl⟩ := List.mem_map.1 hrow
    rw [hguid, huuids]
    exact h.guid_lt row₀ hmem
  uuid_ne row hrow := by
    rw [hdb] at hrow
    obtain ⟨row₀, hmem, rfl⟩ := List.mem_map.1 hrow
    rw [huuid]
    exact h.uuid_ne row₀ hmem
  cell id r hr := by
    rw [hmap] at hr
    obtain ⟨hlt, row, hrow, -⟩ := h.cell id r hr
    refine ⟨hnext ▸ hlt, f row, ?_, hcells id r row hr hrow⟩
    rw [hdb, Database.getPeer_map hid, hrow]
    rfl

/-- A new cell for an id, the image of its row. -/
theorem install (h : Synced X P) {id : String} {row : Row}
    (hrow : Database.getPeer P.db id = some row) : Synced X (P.install id (.ofRow X row)) where
  ids := h.ids
  guids := h.guids
  guid_lt := h.guid_lt
  uuid_ne := h.uuid_ne
  cell id' r hr := by
    obtain ⟨rfl, rfl⟩ | ⟨-, hr⟩ := Table.insert_eq_some.1 hr
    · exact ⟨Nat.lt_succ_self _, row, hrow, Table.insert_self _ _ _⟩
    · obtain ⟨hlt, row', hrow', hc⟩ := h.cell id' r hr
      exact ⟨Nat.lt_succ_of_lt hlt, row', hrow',
        (Table.insert_of_ne _ _ (Nat.ne_of_lt hlt)).trans hc⟩

end Synced

end NemoServer
