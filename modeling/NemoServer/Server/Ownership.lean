import NemoServer.Server.History
import NemoServer.Server.PeerTasks

/-!
# Whose cell it is

A cell of the peer map and a guid of the database belong to one peer id for good, whatever the
tasks of the peer map do in whatever order: `Owned` is the invariant, `Known` what the calls made
so far tell about it, and `Run.owned` says that both hold in every run.
-/

set_option autoImplicit false

namespace NemoServer

open Prog PeerMap Rendezvous

/-- Whom the cells and the guids belong to. -/
structure Owners where
  cell : PeerRef → String
  guid : ℕ → String

/-- The cell is in use, for the peer `id`. -/
structure Owners.Has (G : Owners) (P : Peers) (id : String) (r : PeerRef) : Prop where
  lt : r < P.nextCell
  isSome : (P.cells r).isSome = true
  cell : G.cell r = id

structure Owned (G : Owners) (P : Peers) : Prop where
  map : ∀ id r, P.map id = some r → G.Has P id r
  cell : ∀ r c g, P.cells r = some c → c.guid = some g → g < P.uuids ∧ G.guid g = G.cell r
  row : ∀ row ∈ P.db, row.guid < P.uuids ∧ G.guid row.guid = row.id
  ids : (P.db.map (·.id)).Nodup
  guids : (P.db.map (·.guid)).Nodup

/-- What a call made in the state `s` tells about the owners. -/
def Known (G : Owners) (P : Peers) (s : Server) : Op → Prop
  | .mapGet id => ∀ r, s.map id = some r → G.Has P id r
  | .mapInstall id _ => G.Has P id s.nextCell
  | .mapGetOrInsert id => G.Has P id (s.getOrInsert id).1
  | .dbGetPeer id => ∀ row, Database.getPeer s.db id = some row →
      row.guid < P.uuids ∧ G.guid row.guid = id
  | .writePk r _ _ _ _ => r < P.nextCell ∧
      ∀ g, (s.cell r).guid = some g → g < P.uuids ∧ G.guid g = G.cell r
  | .dbInsertPeer id _ _ _ => s.uuids < P.uuids ∧ G.guid s.uuids = id
  | _ => True

/-- From `P` to `P'` cells and guids are only added, and those there were keep their owners. -/
structure Grows (G G' : Owners) (P P' : Peers) : Prop where
  cell : ∀ r < P.nextCell, G'.cell r = G.cell r
  guid : ∀ g < P.uuids, G'.guid g = G.guid g
  nextCell : P.nextCell ≤ P'.nextCell
  uuids : P.uuids ≤ P'.uuids
  isSome : ∀ r, (P.cells r).isSome = true → (P'.cells r).isSome = true

variable {X : Setup} {G G' : Owners} {P P' : Peers}

theorem Grows.refl (G : Owners) (P : Peers) : Grows G G P P :=
  ⟨fun _ _ => rfl, fun _ _ => rfl, le_rfl, le_rfl, fun _ h => h⟩

/-- The rows and the map do not matter. -/
theorem Grows.of_eq (hcells : P'.cells = P.cells) (hnext : P'.nextCell = P.nextCell)
    (huuids : P'.uuids = P.uuids) : Grows G G P P' :=
  ⟨fun _ _ => rfl, fun _ _ => rfl, hnext.ge, huuids.ge, fun _ h => hcells ▸ h⟩

theorem Grows.modify (G : Owners) (P : Peers) (r : PeerRef) (f : Stored → Stored) :
    Grows G G P (P.modify r f) :=
  ⟨fun _ _ => rfl, fun _ _ => rfl, le_rfl, le_rfl, fun q h => (modify_isSome P r q f).trans h⟩

theorem Grows.install (G : Owners) (P : Peers) (id : String) (c : Stored) :
    Grows G { G with cell := Function.update G.cell P.nextCell id } P (P.install id c) where
  cell r hr := Function.update_of_ne (Nat.ne_of_lt hr) _ _
  guid _ _ := rfl
  nextCell := Nat.le_succ _
  uuids := le_rfl
  isSome r h := by
    simp only [Peers.install, Table.insert_apply]
    split
    · rfl
    · exact h

theorem Grows.insert (G : Owners) (P : Peers) (id : String) (db : List Row) :
    Grows G { G with guid := Function.update G.guid P.uuids id } P
      { P with uuids := P.uuids + 1, db := db } :=
  ⟨fun _ _ => rfl, fun _ hg => Function.update_of_ne (Nat.ne_of_lt hg) _ _, le_rfl, Nat.le_succ _,
    fun _ h => h⟩

theorem Owners.Has.mono {id : String} {r : PeerRef} (h : G.Has P id r) (hg : Grows G G' P P') :
    G'.Has P' id r :=
  ⟨lt_of_lt_of_le h.lt hg.nextCell, hg.isSome r h.isSome, (hg.cell r h.lt).trans h.cell⟩

theorem Known.mono {s : Server} {o : Op} (h : Known G P s o) (hg : Grows G G' P P') :
    Known G' P' s o := by
  have hguid : ∀ g id, g < P.uuids ∧ G.guid g = id → g < P'.uuids ∧ G'.guid g = id := by
    rintro g id ⟨hlt, hid⟩
    exact ⟨lt_of_lt_of_le hlt hg.uuids, (hg.guid g hlt).trans hid⟩
  cases o with
  | mapGet id => exact fun r hr => (h r hr).mono hg
  | mapInstall id row => exact Owners.Has.mono h hg
  | mapGetOrInsert id => exact Owners.Has.mono h hg
  | dbGetPeer id => exact fun row hrow => hguid _ _ (h row hrow)
  | writePk r addr uuid pk ip =>
    refine ⟨lt_of_lt_of_le h.1 hg.nextCell, fun g hg' => ?_⟩
    rw [hg.cell r h.1]
    exact hguid _ _ (h.2 g hg')
  | dbInsertPeer id uuid pk info => exact hguid _ _ h
  | _ => trivial

/-- A cell a task got for a peer belongs to it. -/
theorem Held.owner {past : Past} {id : String} {r : PeerRef} (h : Held past id r)
    (hpast : ∀ x ∈ past, Known G P x.pre x.op) : G.Has P id r := by
  obtain ⟨s, hm, hr⟩ | ⟨row, s, hm, rfl⟩ | ⟨s, hm, rfl⟩ := h
  · exact hpast _ hm r hr
  · exact hpast _ hm
  · exact hpast _ hm

theorem Admitted.owner {past : Past} {rk : RegisterPk} {r : PeerRef} {peer : Peer}
    (h : Admitted past rk r peer) (hpast : ∀ x ∈ past, Known G P x.pre x.op) :
    G.Has P rk.id r := by
  obtain ⟨regPk, s₁, s₂, s₃, s, h', rfl, -, hheld⟩ := h
  exact hheld.owner fun x hx => hpast x (by simp [hx])

theorem JustWrote.owner {past : Past} {rk : RegisterPk} {r : PeerRef} {guid : Option ℕ}
    (h : JustWrote past rk r guid) (hpast : ∀ x ∈ past, Known G P x.pre x.op) :
    G.Has P rk.id r ∧ ∀ g, guid = some g → g < P.uuids ∧ G.guid g = rk.id := by
  obtain ⟨addr, ip, s, h', peer, rfl, hguid, hadm⟩ := h
  have hhas := hadm.owner fun x hx => hpast x (List.mem_cons_of_mem _ hx)
  refine ⟨hhas, fun g hg => ?_⟩
  rw [← hhas.cell]
  exact (hpast _ List.mem_cons_self).2 g (hguid.trans hg)

theorem dbInsertPeer_fst {s : Server} {id info : String} {uuid pk : Bytes} {guid : ℕ}
    (h : (s.dbInsertPeer id uuid pk info).1 = some guid) : guid = s.uuids := by
  unfold Server.dbInsertPeer Server.query at h
  split at h
  · split at h
    · next heq =>
      obtain ⟨db, -, hdb⟩ := Option.map_eq_some_iff.1 heq
      rw [← Option.some.inj h, ← (Prod.mk.inj hdb).1]
    · cases h
  · cases h

/-! ## What an operation keeps -/

namespace Owned

/-- Rows change in place. -/
theorem mapRows (h : Owned G P) {f : Row → Row} (hid : ∀ row ∈ P.db, (f row).id = row.id)
    (hguid : ∀ row, (f row).guid = row.guid) : Owned G { P with db := P.db.map f } where
  map id r hr := (h.map id r hr).mono (.of_eq rfl rfl rfl)
  cell := h.cell
  row row hrow := by
    obtain ⟨row₀, hmem, rfl⟩ := List.mem_map.1 hrow
    rw [hguid, hid row₀ hmem]
    exact h.row row₀ hmem
  ids := by
    rw [List.map_map]
    exact (List.map_congr_left fun row hrow => hid row hrow) ▸ h.ids
  guids := by
    rw [List.map_map]
    exact (List.map_congr_left fun row _ => hguid row) ▸ h.guids

/-- A cell changes, not its guid. -/
theorem modify (h : Owned G P) {r : PeerRef} {f : Stored → Stored}
    (hf : ∀ c, (f c).guid = c.guid) : Owned G (P.modify r f) where
  map id q hq := (h.map id q hq).mono (.modify G P r f)
  cell q c g hc hg := by
    by_cases hq : q = r
    · subst hq
      simp only [Peers.modify, if_true, Option.map_eq_some_iff] at hc
      obtain ⟨c₀, hc₀, rfl⟩ := hc
      exact h.cell q c₀ g hc₀ ((hf c₀).symm.trans hg)
    · rw [Peers.modify_cells_of_ne hq] at hc
      exact h.cell q c g hc hg
  row := h.row
  ids := h.ids
  guids := h.guids

/-- A new cell gets its owner. -/
theorem install (h : Owned G P) {id : String} {c : Stored}
    (hc : ∀ g, c.guid = some g → g < P.uuids ∧ G.guid g = id) :
    Owned { G with cell := Function.update G.cell P.nextCell id } (P.install id c) where
  map id' r hr := by
    obtain ⟨rfl, rfl⟩ | ⟨-, hr⟩ := Table.insert_eq_some.1 hr
    · exact ⟨Nat.lt_succ_self _, by simp [Peers.install], Function.update_self _ _ _⟩
    · exact (h.map id' r hr).mono (.install G P id c)
  cell r c' g hc' hg := by
    obtain ⟨rfl, rfl⟩ | ⟨hne, hc'⟩ := Table.insert_eq_some.1 hc'
    · obtain ⟨hlt, hid⟩ := hc g hg
      exact ⟨hlt, by simp [hid]⟩
    · obtain ⟨hlt, hid⟩ := h.cell r c' g hc' hg
      exact ⟨hlt, hid.trans (Function.update_of_ne hne _ _).symm⟩
  row := h.row
  ids := h.ids
  guids := h.guids

/-- A new guid gets its owner, whether or not a row comes of it. -/
theorem insert (h : Owned G P) {id : String} {db : List Row} (hdb : db = P.db ∨ ∃ row,
      db = P.db ++ [row] ∧ row.guid = P.uuids ∧ row.id = id ∧ ∀ row' ∈ P.db, row'.id ≠ id) :
    Owned { G with guid := Function.update G.guid P.uuids id }
      { P with uuids := P.uuids + 1, db := db } := by
  have hold : ∀ g < P.uuids, Function.update G.guid P.uuids id g = G.guid g :=
    fun g hg => Function.update_of_ne (Nat.ne_of_lt hg) _ _
  have hrow : ∀ row ∈ P.db, row.guid < P.uuids + 1 ∧
      Function.update G.guid P.uuids id row.guid = row.id := by
    intro row hmem
    obtain ⟨hlt, hid⟩ := h.row row hmem
    exact ⟨Nat.lt_succ_of_lt hlt, (hold _ hlt).trans hid⟩
  have hcell : ∀ r c g, P.cells r = some c → c.guid = some g → g < P.uuids + 1 ∧
      Function.update G.guid P.uuids id g = G.cell r := by
    intro r c g hc hg
    obtain ⟨hlt, hid⟩ := h.cell r c g hc hg
    exact ⟨Nat.lt_succ_of_lt hlt, (hold _ hlt).trans hid⟩
  have hmap : ∀ id' r, P.map id' = some r → Owners.Has
      { G with guid := Function.update G.guid P.uuids id } { P with uuids := P.uuids + 1, db := db }
      id' r := fun id' r hr => (h.map id' r hr).mono (.insert G P id db)
  obtain rfl | ⟨row, rfl, hguid, hid, hnone⟩ := hdb
  · exact ⟨hmap, hcell, hrow, h.ids, h.guids⟩
  · refine ⟨hmap, hcell, fun row' hmem => ?_, ?_, ?_⟩
    · rcases List.mem_append.1 hmem with hmem | hmem
      · exact hrow row' hmem
      · rw [List.mem_singleton.1 hmem, hguid, hid]
        exact ⟨Nat.lt_succ_self _, Function.update_self _ _ _⟩
    · rw [List.map_append, List.nodup_append]
      refine ⟨h.ids, by simp, fun a ha b hb => ?_⟩
      obtain ⟨row', hmem, rfl⟩ := List.mem_map.1 ha
      rw [List.map_singleton, List.mem_singleton] at hb
      rw [hb, hid]
      exact hnone row' hmem
    · rw [List.map_append, List.nodup_append]
      refine ⟨h.guids, by simp, fun a ha b hb => ?_⟩
      obtain ⟨row', hmem, rfl⟩ := List.mem_map.1 ha
      rw [List.map_singleton, List.mem_singleton] at hb
      rw [hb, hguid]
      exact Nat.ne_of_lt (h.row row' hmem).1

/-- An operation of a task keeps the owners, and adds one at most. -/
theorem act (h : Owned G P) {j : PeerTask} {past : Past} {o : Op} {s : Server}
    (hs : s.peers = P) (hrule : TaskRule X j past o)
    (hpast : ∀ x ∈ past, Known G P x.pre x.op) (up : Bool) :
    ∃ G', Grows G G' P (P.act X up o) ∧ Owned G' (P.act X up o) ∧
      Known G' (P.act X up o) s o := by
  subst hs
  cases o with
  | mapGet id => exact ⟨G, .refl G _, h, h.map id⟩
  | dbGetPeer id =>
    refine ⟨G, .refl G _, h, fun row hrow => ?_⟩
    obtain ⟨hmem, rfl⟩ := (Database.getPeer_eq_some h.ids).1 hrow
    exact h.row row hmem
  | mapInstall id row =>
    obtain ⟨s₁, s₂, h', rfl, -, hres⟩ := hrule
    rw [dbGetPeer_fst] at hres
    have hrow : Database.getPeer s₁.db id = some row := by
      split at hres
      · exact Option.some.inj hres
      · cases hres
    obtain ⟨hlt, hid⟩ := hpast _ List.mem_cons_self row hrow
    refine ⟨_, .install G _ id (.ofRow X row), h.install fun g hg => ?_,
      ⟨Nat.lt_succ_self _, congrArg Option.isSome (Table.insert_self _ _ _),
        Function.update_self _ _ _⟩⟩
    obtain rfl := Option.some.inj hg
    exact ⟨hlt, hid⟩
  | mapGetOrInsert id =>
    have hfst : (s.getOrInsert id).1 = (s.peers.map id).getD s.peers.nextCell := by
      unfold Server.getOrInsert
      cases hmap : s.map id with
      | some r => simp [Server.peers, hmap]
      | none => simp [Server.peers, hmap, Server.install]
    simp only [Known, hfst, Peers.act]
    cases hmap : s.peers.map id with
    | some r => exact ⟨G, .refl G _, h, h.map id r hmap⟩
    | none =>
      refine ⟨_, .install G _ id .fresh, h.install fun g hg => ?_,
        ⟨Nat.lt_succ_self _, by simp [Peers.install], Function.update_self _ _ _⟩⟩
      cases hg
  | mapRemove id =>
    refine ⟨G, .of_eq rfl rfl rfl, ⟨fun id' r hr => ?_, h.cell, h.row, h.ids, h.guids⟩, trivial⟩
    exact (h.map id' r (Table.remove_eq_some.1 hr).2).mono (.of_eq rfl rfl rfl)
  | writePk r addr uuid pk ip =>
    obtain ⟨rk, a, peer, -, -, -, -, hadm, -⟩ := hrule
    refine ⟨G, .modify G _ r _, h.modify fun _ => rfl, (hadm.owner hpast).lt, fun g hg => ?_⟩
    cases hc : s.cells r with
    | none => simp [Server.cell, hc, Peer.fresh] at hg
    | some p =>
      have hc' : s.peers.cells r = some p.stored := by simp [Server.peers, hc]
      refine h.cell r _ g hc' ?_
      rw [Server.cell, hc] at hg
      exact hg
  | writeGuid r guid =>
    obtain ⟨rk, a, info, s₁, h', -, rfl, hins, hwrote⟩ := hrule
    obtain ⟨hhas, -⟩ := hwrote.owner fun x hx => hpast x (List.mem_cons_of_mem _ hx)
    obtain ⟨hu, hg⟩ := hpast _ List.mem_cons_self
    obtain rfl := dbInsertPeer_fst hins
    refine ⟨G, .modify G _ r _, ⟨fun id q hq => ?_, fun q c g hc hgc => ?_, h.row, h.ids, h.guids⟩,
      trivial⟩
    · exact (h.map id q hq).mono (.modify G _ r _)
    by_cases hq : q = r
    · subst hq
      simp only [Peers.act, Peers.modify, if_true, Option.map_eq_some_iff] at hc
      obtain ⟨c₀, -, rfl⟩ := hc
      obtain rfl := Option.some.inj hgc
      exact ⟨hu, hg.trans hhas.cell.symm⟩
    · exact h.cell q c g ((Peers.modify_cells_of_ne hq _).symm.trans hc) hgc
  | dbInsertPeer id uuid pk info =>
    refine ⟨_, .insert G _ id _, h.insert ?_, Nat.lt_succ_self _, Function.update_self _ _ _⟩
    cases up with
    | false => exact .inl rfl
    | true =>
      simp only [if_true, Database.insertPeer]
      split
      · exact .inl rfl
      · next hany => exact .inr ⟨_, rfl, rfl, rfl, by simpa using hany⟩
  | dbUpdatePk guid id pk info =>
    obtain ⟨rk, a, r, -, rfl, -, hwrote⟩ := hrule
    obtain ⟨-, hid⟩ := (hwrote.owner hpast).2 guid rfl
    refine ⟨G, .of_eq rfl rfl rfl, ?_, trivial⟩
    cases up with
    | false => exact h
    | true =>
      simp only [Peers.act, if_true, Database.updatePk]
      split
      · exact h
      · refine h.mapRows (fun row hrow => ?_) fun row => ?_
        · split
          · next hrg => rw [← (h.row row hrow).2, hrg, hid]
          · rfl
        · split <;> rfl
  | writeStatus r status => exact ⟨G, .modify G _ r _, h.modify fun _ => rfl, trivial⟩
  | dbSetPeerStatus id status note =>
    refine ⟨G, .of_eq rfl rfl rfl, ?_, trivial⟩
    cases up with
    | false => exact h
    | true => exact h.mapRows (fun row _ => by split <;> rfl) fun row => by split <;> rfl
  | dbSetManagementPolicy id policy => cases hrule
  | dbDeletePeer id =>
    refine ⟨G, .of_eq rfl rfl rfl, ?_, trivial⟩
    cases up with
    | false => exact h
    | true =>
      exact ⟨fun id r hr => (h.map id r hr).mono (.of_eq rfl rfl rfl), h.cell,
        fun row hrow => h.row row (List.mem_filter.1 hrow).1,
        h.ids.sublist (List.filter_sublist.map _), h.guids.sublist (List.filter_sublist.map _)⟩
  | _ => exact ⟨G, .refl G _, h, trivial⟩

/-- A row stays until it is deleted, with its guid and its uuid; its status stays until it is
set. -/
theorem row_kept (h : Owned G P) {j : PeerTask} {past : Past} {o : Op} (hrule : TaskRule X j past o)
    (hpast : ∀ x ∈ past, Known G P x.pre x.op) (up : Bool) {id : String} {row : Row}
    (hrow : Database.getPeer P.db id = some row) (hdel : o ≠ .dbDeletePeer id) :
    ∃ row', Database.getPeer (P.act X up o).db id = some row' ∧ row'.guid = row.guid ∧
      row'.uuid = row.uuid ∧
      ((∀ status note, o ≠ .dbSetPeerStatus id status note) → row'.status = row.status) := by
  have hsame : ∃ row', Database.getPeer P.db id = some row' ∧ row'.guid = row.guid ∧
      row'.uuid = row.uuid ∧
      ((∀ status note, o ≠ .dbSetPeerStatus id status note) → row'.status = row.status) :=
    ⟨row, hrow, rfl, rfl, fun _ => rfl⟩
  obtain ⟨hmem, hid⟩ := (Database.getPeer_eq_some h.ids).1 hrow
  cases up with
  | false =>
    cases o with
    | mapGetOrInsert id' =>
      simp only [Peers.act]
      split <;> exact hsame
    | _ => exact hsame
  | true =>
    cases o with
    | mapGetOrInsert id' =>
      simp only [Peers.act]
      split <;> exact hsame
    | dbInsertPeer id' uuid pk info =>
      simp only [Peers.act, if_true, Database.insertPeer]
      split
      · exact hsame
      · rw [Option.getD_some, Database.getPeer_append, hrow]
        exact ⟨row, rfl, rfl, rfl, fun _ => rfl⟩
    | dbUpdatePk guid id' pk info =>
      obtain ⟨rk, a, r, -, rfl, -, hwrote⟩ := hrule
      obtain ⟨-, hg⟩ := (hwrote.owner hpast).2 guid rfl
      simp only [Peers.act, if_true, Database.updatePk]
      split
      · exact hsame
      · rw [Option.getD_some, Database.getPeer_map, hrow]
        · refine ⟨_, rfl, ?_⟩
          simp only
          split <;> exact ⟨rfl, rfl, fun _ => rfl⟩
        · intro row' hrow'
          split
          · next hrg => rw [← (h.row row' hrow').2, hrg, hg]
          · rfl
    | dbSetPeerStatus id' status note =>
      rw [Peers.getPeer_setStatus, hrow]
      refine ⟨_, rfl, ?_⟩
      simp only
      split
      · next heq =>
        obtain rfl := heq
        obtain rfl := hid
        exact ⟨rfl, rfl, fun hset => absurd rfl (hset status note)⟩
      · exact ⟨rfl, rfl, fun _ => rfl⟩
    | dbSetManagementPolicy id' policy => cases hrule
    | dbDeletePeer id' =>
      have hne : id ≠ id' := fun heq => hdel (heq ▸ rfl)
      have hget : Database.getPeer (P.act X true (.dbDeletePeer id')).db id =
          Database.getPeer P.db id := Database.getPeer_filter hne
      rw [hget]
      exact hsame
    | _ => exact hsame

end Owned

/-! ## Runs -/

theorem Server.Booted.owned {s : Server} (h : s.Booted) : ∃ G, Owned G s.peers := by
  refine ⟨⟨fun _ => "", fun g => ((s.db.find? fun row => row.guid == g).map (·.id)).getD ""⟩,
    fun id r hr => ?_, fun r c g hc => ?_, fun row hrow => ⟨h.guid_lt row hrow, ?_⟩, h.ids, h.guids⟩
  · have hnone : s.peers.map id = none := congrFun h.map id
    cases hnone.symm.trans hr
  · have hnone : s.peers.cells r = none := by simp [Server.peers, h.cells, Table.empty]
    cases hnone.symm.trans hc
  · have hsome : (s.db.find? fun row' => row'.guid == row.guid).isSome = true :=
      List.find?_isSome.2 ⟨row, hrow, by simp⟩
    obtain ⟨row', hrow'⟩ := Option.isSome_iff_exists.1 hsome
    have hguid : row'.guid = row.guid := by simpa using List.find?_some hrow'
    simp only [hrow', Option.map_some, Option.getD_some]
    rw [List.inj_on_of_nodup_map h.guids (List.mem_of_find?_eq_some hrow') hrow hguid]

variable {C : List TaskStep → Pool Op Op.Res Server PeerTask → Choice PeerTask Env → Prop}
  {l : List TaskStep} {p : Pool Op Op.Res Server PeerTask}

/-- In every run the cells and the guids have owners, and every call made so far tells of them. -/
theorem Run.owned (hr : (peerTasks X).Run Server.Booted C l p) :
    ∃ G, Owned G p.shared.peers ∧ ∀ n j past o s, .step n j past o s ∈ l →
      Known G p.shared.peers s o := by
  induction hr using System.Run.induct with
  | hboot s hs =>
    obtain ⟨G, hG⟩ := hs.owned
    exact ⟨G, hG, by simp⟩
  | hstart l p j s hr _ hs ih =>
    obtain rfl := Option.some.inj hs
    simpa using ih
  | hstep l p n j past o k hr _ hl ih =>
    obtain ⟨G, hG, hknown⟩ := ih
    have hver := (hr.verified (peerTasks_verified X)).2 n _ hl p.shared trivial
    have hpast : ∀ x ∈ past, Known G p.shared.peers x.pre x.op := by
      intro x hx
      have heq : past = System.calls n l := hr.live_past n _ hl
      rw [heq] at hx
      obtain ⟨j', past', hm⟩ := System.mem_calls.1 hx
      exact hknown _ _ _ _ _ hm
    obtain ⟨G', hgrows, hG', hnew⟩ := hG.act rfl hver.1 hpast p.shared.dbUp
    have hpeers : ((peerTasks X).sem o p.shared).2.peers = p.shared.peers.act X p.shared.dbUp o :=
      sem_peers (taskRule_not_redeem hver.1)
    rw [← hpeers] at hgrows hG' hnew
    refine ⟨G', hG', fun n' j' past' o' s' hm => ?_⟩
    rcases List.mem_cons.1 hm with heq | hm
    · cases heq
      exact hnew
    · exact (hknown _ _ _ _ _ hm).mono hgrows
  | henv l p e s hr _ hs ih =>
    obtain ⟨G, hG, hknown⟩ := ih
    have hpeers : s.peers = p.shared.peers := act_peers hs
    rw [hpeers]
    exact ⟨G, hG, fun n j past o s' hm => hknown n j past o s' (by simpa using hm)⟩
  | hcrash l p hr _ ih =>
    obtain ⟨G, hG, hknown⟩ := ih
    refine ⟨G, ⟨fun id r hr => ?_, hG.cell, hG.row, hG.ids, hG.guids⟩, fun n j past o s hm => ?_⟩
    · cases hr
    · exact (hknown n j past o s (by simpa using hm)).mono (.of_eq rfl rfl rfl)

/-- A step of a run: the task keeps to the rule, has made the calls `past` before, all of which are
known to tell of the owners, and the peers change as the operation says. -/
structure Performed (X : Setup) (l' : List TaskStep) (n : ℕ) (j : PeerTask) (past : Past) (o : Op)
    (s : Server) : Prop where
  rule : TaskRule X j past o
  past : past = System.calls n l'
  owned : ∃ G, Owned G s.peers ∧ ∀ n j past o s', .step n j past o s' ∈ l' → Known G s.peers s' o
  post : (Op.sem X o s).2.peers = s.peers.act X s.dbUp o

theorem Run.performed (hr : (peerTasks X).Run Server.Booted C l p) {l' : List TaskStep} {n : ℕ}
    {j : PeerTask} {past : Past} {o : Op} {s : Server} (hx : (.step n j past o s :: l') <:+ l) :
    Performed X l' n j past o s := by
  obtain ⟨p', c, p'', hr', -, -, hr'', hpre⟩ := hr.before _ _ hx
  have hrule : TaskRule X j past o :=
    hr.guarantee (peerTasks_verified X) n j past o s (hx.subset List.mem_cons_self)
  have howned := Run.owned hr'
  have hs : p'.shared = s := hpre
  rw [hs] at howned
  exact ⟨hrule, hr.past n j past o s l' hx, howned, sem_peers (taskRule_not_redeem hrule)⟩

theorem Performed.known {l' : List TaskStep} {n : ℕ} {j : PeerTask} {past : Past} {o : Op}
    {s : Server} (h : Performed X l' n j past o s) {G : Owners}
    (hG : ∀ n j past o s', .step n j past o s' ∈ l' → Known G s.peers s' o) :
    ∀ x ∈ past, Known G s.peers x.pre x.op := by
  intro x hx
  rw [h.past] at hx
  obtain ⟨j', past', hm⟩ := System.mem_calls.1 hx
  exact hG _ _ _ _ _ hm

/-- An item of a run is a step of a task, or leaves the peers alone, or empties the map. -/
theorem Run.item_peers (hr : (peerTasks X).Run Server.Booted C l p) {l' : List TaskStep}
    {x : TaskStep} (hx : (x :: l') <:+ l) :
    (∃ n j past o s, x = .step n j past o s ∧ Performed X l' n j past o s ∧
      ((peerTasks X).post x).peers = s.peers.act X s.dbUp o) ∨
    ((peerTasks X).post x).peers = x.pre.peers ∨
      ((peerTasks X).post x).peers = { x.pre.peers with map := Table.empty } := by
  cases x with
  | start n j s => exact .inr (.inl rfl)
  | step n j past o s =>
    have hperf := Run.performed hr hx
    exact .inl ⟨n, j, past, o, s, rfl, hperf, hperf.post⟩
  | env e s =>
    refine .inr (.inl ?_)
    simp only [System.post, peerTasks]
    cases he : Server.act X e s with
    | none => rfl
    | some s' => exact act_peers he
  | crash s => exact .inr (.inr rfl)

end NemoServer
