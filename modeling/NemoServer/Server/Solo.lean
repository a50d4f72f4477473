import NemoServer.Server.Peers

/-!
# Requests one after the other

A registration that runs by itself while the database may fail at any of its queries: what it does
to the peers (`registerPkCore_ends`), and when its write has failed (`WriteFailed`).
-/

set_option autoImplicit false

namespace NemoServer

open Prog PeerMap Rendezvous

/-- The database answers the calls that `u` says, given the calls before. -/
def outage (u : Past → Bool) (h : Past) (s : Server) : Server := { s with dbUp := u h }

@[simp] theorem outage_peers (u : Past → Bool) (h : Past) (s : Server) :
    (outage u h s).peers = s.peers := rfl

/-- Some call is not answered. -/
def Down (u : Past → Bool) : Prop := ∃ h, u h = false

/-- The call is a write of a registration to the database that failed. -/
def FailedWrite (X : Setup) (x : Call Op Server) : Prop :=
  match x.op with
  | .dbInsertPeer id uuid pk info => (Op.sem X (.dbInsertPeer id uuid pk info) x.pre).1 = none
  | .dbUpdatePk guid id pk info => (Op.sem X (.dbUpdatePk guid id pk info) x.pre).1 = none
  | _ => False

/-- A write of the registration that made the calls has failed. -/
def WriteFailed (X : Setup) (calls : Past) : Prop := ∃ x ∈ calls, FailedWrite X x

variable {X : Setup} {u : Past → Bool} {h : Past} {s : Server}

theorem writeFailed_cons {x : Call Op Server} :
    WriteFailed X (x :: h) ↔ FailedWrite X x ∨ WriteFailed X h := by simp [WriteFailed]

/-- A program that only looks leaves the peers alone, and no write of it fails. -/
theorem ends_look {α : Type} {p : Handler α} (hp : p.Uses (Only [.look])) :
    p.Ends (Op.sem X) (outage u) (fun _ h' s' => s'.peers = s.peers ∧
      (WriteFailed X h' ↔ WriteFailed X h)) h s := by
  refine hp.ends ⟨rfl, Iff.rfl⟩ fun o h' s' ho hI => ?_
  have hk : o.kind = .look := by simpa [Only] using ho
  refine ⟨?_, ?_⟩
  · rw [sem_peers (by simp [hk])]
    have hact : ∀ b, s'.peers.act X b o = s'.peers := by
      intro b
      cases o <;> first | rfl | cases hk
    exact (hact _).trans hI.1
  · rw [writeFailed_cons, hI.2]
    have hno : ¬FailedWrite X ⟨o, outage u h' s'⟩ := by
      cases o <;> first | exact fun hf => hf | cases hk
    simp [hno]

/-! ## The entry of a peer -/

/-- `r` is the entry of `id`: the one that was there, the image of the row, or a fresh one, if the
row was not found. -/
inductive Opened (X : Setup) (P : Peers) (id : String) : PeerRef → Peers → Prop
  | cached {r : PeerRef} (hr : P.map id = some r) : Opened X P id r P
  | loaded {row : Row} (hnone : P.map id = none) (hrow : Database.getPeer P.db id = some row) :
    Opened X P id P.nextCell (P.install id (.ofRow X row))

/-- A fresh entry was made, for a peer that was not found. -/
def OpenedFresh (down : Prop) (P : Peers) (id : String) (r : PeerRef) (P' : Peers) : Prop :=
  P.map id = none ∧ (down ∨ Database.getPeer P.db id = none) ∧ r = P.nextCell ∧
    P' = P.install id .fresh

/-- One operation, and what is left after it. -/
theorem ends_perform {α : Type} {o : Op} {f : o.Res → Handler α} {Q : α → Past → Server → Prop}
    (hk : o.kind ≠ .redeem)
    (hf : ∀ s₁ t, t.peers = s.peers → t.dbUp = u h → s₁ = (Op.sem X o t).2 →
      s₁.peers = s.peers.act X (u h) o →
      (f (Op.sem X o t).1).Ends (Op.sem X) (outage u) Q (⟨o, t⟩ :: h) s₁) :
    (perform o >>= f).Ends (Op.sem X) (outage u) Q h s :=
  hf _ (outage u h s) rfl rfl rfl (sem_peers hk)

/-- An operation that only looks: the peers are what they were, and nothing has failed. -/
theorem ends_perform_look {α : Type} {o : Op} {f : o.Res → Handler α}
    {Q : α → Past → Server → Prop} (hk : o.kind = .look)
    (hf : ∀ s₁ t h', t.peers = s.peers → s₁.peers = s.peers →
      (WriteFailed X h' ↔ WriteFailed X h) →
      (f (Op.sem X o t).1).Ends (Op.sem X) (outage u) Q h' s₁) :
    (perform o >>= f).Ends (Op.sem X) (outage u) Q h s := by
  have hlook := ends_look (X := X) (u := u) (h := h) (s := s) (p := perform o)
    ⟨by simp [Only, hk], fun _ => trivial⟩
  exact hf _ (outage u h s) _ rfl hlook.1 hlook.2

/-- An operation that reads a cell. -/
theorem ends_perform_read {α : Type} {o : Op} {f : o.Res → Handler α}
    {Q : α → Past → Server → Prop} (hk : o.kind = .look) (ho : ∀ t, (Op.sem X o t).2 = t)
    (hf : ∀ h' t, t.peers = s.peers → t.cells = s.cells → (WriteFailed X h' ↔ WriteFailed X h) →
      (f (Op.sem X o t).1).Ends (Op.sem X) (outage u) Q h' t) :
    (perform o >>= f).Ends (Op.sem X) (outage u) Q h s := by
  have hlook := ends_look (X := X) (u := u) (h := h) (s := s) (p := perform o)
    ⟨by simp [Only, hk], fun _ => trivial⟩
  refine ends_call.2 ?_
  rw [ho]
  exact hf _ (outage u h s) rfl rfl hlook.2

theorem dbGetPeer_fst (id : String) (t : Server) :
    (Op.sem X (.dbGetPeer id) t).1 =
      if t.dbUp then some (Database.getPeer t.peers.db id) else none := by
  simp only [Op.sem, Server.query]
  cases t.dbUp <;> rfl

theorem get_ends (id : String) : (PeerMap.get id).Ends (Op.sem X) (outage u) (fun r h' s' =>
    (WriteFailed X h' ↔ WriteFailed X h) ∧
      match r with
      | some r => Opened X s.peers id r s'.peers
      | none => s'.peers = s.peers ∧ s.peers.map id = none ∧
          (Down u ∨ Database.getPeer s.peers.db id = none)) h s := by
  unfold PeerMap.get
  refine ends_perform_look rfl fun s₁ t h₁ ht hs₁ hw₁ => ?_
  have hmap : (Op.sem X (.mapGet id) t).1 = s.peers.map id := congrFun (congrArg Peers.map ht) id
  rw [hmap]
  cases hid : s.peers.map id with
  | some r =>
    have hopen : Opened X s.peers id r s₁.peers := by
      rw [hs₁]
      exact .cached hid
    exact ⟨hw₁, hopen⟩
  | none =>
    refine ends_perform (by simp [Op.kind]) fun s₂ t₂ ht₂ hup _ hs₂ => ?_
    have hs₂' : s₂.peers = s.peers := hs₂.trans hs₁
    have hw₂ : WriteFailed X (⟨.dbGetPeer id, t₂⟩ :: h₁) ↔ WriteFailed X h := by
      rw [writeFailed_cons, hw₁]
      exact or_iff_right fun hf => hf
    rw [dbGetPeer_fst, hup, ht₂, hs₁]
    cases hu : u h₁ with
    | false => exact ⟨hw₂, hs₂', rfl, .inl ⟨_, hu⟩⟩
    | true =>
      cases hrow : Database.getPeer s.peers.db id with
      | none => exact ⟨hw₂, hs₂', rfl, .inr rfl⟩
      | some row =>
        refine ends_perform (by simp [Op.kind]) fun s₃ t₃ ht₃ _ _ hs₃ => ?_
        have hr : (Op.sem X (.mapInstall id row) t₃).1 = s.peers.nextCell :=
          congrArg Peers.nextCell (ht₃.trans hs₂')
        have hopen : Opened X s.peers id (Op.sem X (.mapInstall id row) t₃).1 s₃.peers := by
          rw [hr, hs₃, hs₂']
          exact .loaded hid hrow
        have hw : WriteFailed X (⟨.mapInstall id row, t₃⟩ :: ⟨.dbGetPeer id, t₂⟩ :: h₁) ↔
            WriteFailed X h := by
          rw [writeFailed_cons, hw₂]
          exact or_iff_right fun hf => hf
        exact ⟨hw, hopen⟩

theorem getOr_ends (id : String) : (PeerMap.getOr id).Ends (Op.sem X) (outage u) (fun r h' s' =>
    (WriteFailed X h' ↔ WriteFailed X h) ∧
      (Opened X s.peers id r s'.peers ∨
        OpenedFresh (Down u) s.peers id r s'.peers ∧ (s'.cell r).regPk.1 = 0)) h s := by
  unfold PeerMap.getOr
  refine ends_bind.2 ((get_ends id).mono fun res h₁ s₁ hres => ?_)
  obtain ⟨hw₁, hres⟩ := hres
  cases res with
  | some r => exact ⟨hw₁, .inl hres⟩
  | none =>
    obtain ⟨hs₁, hid, hrow⟩ := hres
    refine ends_perform (o := .mapGetOrInsert id) (f := .ret) (by simp [Op.kind])
      fun s₂ t ht _ heq hs₂ => ends_ret.2 ?_
    have hnone : t.map id = none := (congrFun (congrArg Peers.map (ht.trans hs₁)) id).trans hid
    have hsem : Op.sem X (.mapGetOrInsert id) t = t.install id (Peer.fresh t.now) := by
      simp only [Op.sem, Server.getOrInsert, hnone]
    have hr : (Op.sem X (.mapGetOrInsert id) t).1 = s.peers.nextCell := by
      rw [hsem]
      exact congrArg Peers.nextCell (ht.trans hs₁)
    refine ⟨?_, .inr ⟨⟨hid, hrow, hr, ?_⟩, ?_⟩⟩
    · rw [writeFailed_cons, hw₁]
      exact or_iff_right fun hf => hf
    · rw [hs₂, hs₁]
      simp [Peers.act, hid]
    · rw [heq, hsem]
      simp [Server.cell, Server.install, Peer.fresh]

/-! ## The write of a registration -/

/-- What a registration writes of a peer. -/
structure Values where
  id : String
  uuid : Bytes
  pk : Bytes
  ip : String

namespace Values

/-- The values, in a cached entry. -/
def inCell (v : Values) (c : Stored) : Stored := { c with uuid := v.uuid, pk := v.pk, ip := v.ip }

/-- The values, in a new row. -/
def newRow (X : Setup) (v : Values) (guid : ℕ) : Row :=
  ⟨guid, v.id, v.uuid, v.pk, X.infoToJson v.ip, none, none, none⟩

/-- The values, in a row that exists; its uuid stays. -/
def inRow (X : Setup) (v : Values) (row : Row) : Row :=
  { row with id := v.id, pk := v.pk, info := X.infoToJson v.ip }

end Values

/-- The id belongs to a row that is not the one of this guid. -/
def Conflict (db : List Row) (guid : Option ℕ) (id : String) : Prop :=
  ∃ row ∈ db, row.id = id ∧ some row.guid ≠ guid

/-- `update_pk` on the entry `r`, which is `c`: in memory the values are written in any case; in
the database they are inserted, or take the place of the row of the guid, or are not written. -/
inductive PkWrote (X : Setup) (down : Prop) (v : Values) (P : Peers) (r : PeerRef) (c : Stored) :
    Bool → Peers → Prop
  | failed {P' : Peers} (hwhy : down ∨ Conflict P.db c.guid v.id) (hmap : P'.map = P.map) (hnext : P'.nextCell = P.nextCell)
    (hcells : P'.cells = (P.modify r v.inCell).cells) : PkWrote X down v P r c false P'
  | inserted (hguid : c.guid = none) (hnone : ∀ row ∈ P.db, row.id ≠ v.id) :
    PkWrote X down v P r c true
      { (P.modify r v.inCell).modify r fun c => { c with guid := some P.uuids } with
        uuids := P.uuids + 1, db := P.db ++ [v.newRow X P.uuids] }
  | updated {guid : ℕ} (hguid : c.guid = some guid) :
    PkWrote X down v P r c true { P.modify r v.inCell with
      db := P.db.map fun row => if row.guid = guid then v.inRow X row else row }

theorem cell_guid {t : Server} {r : PeerRef} {c : Stored} (h : t.peers.cells r = some c) :
    (t.cell r).guid = c.guid := by
  obtain ⟨p, hp, rfl⟩ := Option.map_eq_some_iff.1 h
  simp [Server.cell, hp, Peer.stored]

theorem dbInsertPeer_cases (v : Values) (t : Server) :
    (t.dbUp = false ∨ Conflict t.peers.db none v.id) ∧
      (Op.sem X (.dbInsertPeer v.id v.uuid v.pk (X.infoToJson v.ip)) t).1 = none ∧
      (Op.sem X (.dbInsertPeer v.id v.uuid v.pk (X.infoToJson v.ip)) t).2.peers =
        { t.peers with uuids := t.peers.uuids + 1 } ∨
    (∀ row ∈ t.peers.db, row.id ≠ v.id) ∧
      (Op.sem X (.dbInsertPeer v.id v.uuid v.pk (X.infoToJson v.ip)) t).1 = some t.peers.uuids ∧
      (Op.sem X (.dbInsertPeer v.id v.uuid v.pk (X.infoToJson v.ip)) t).2.peers =
        { t.peers with
          uuids := t.peers.uuids + 1, db := t.peers.db ++ [v.newRow X t.peers.uuids] } := by
  simp only [Op.sem, Server.dbInsertPeer, Server.query, Database.insertPeer]
  cases hup : t.dbUp with
  | false => exact .inl ⟨.inl rfl, rfl, rfl⟩
  | true =>
    by_cases hany : (t.db.any fun row => row.id == v.id) = true
    · simp only [if_pos hany, if_true, Option.map_none]
      refine .inl ⟨.inr ?_, trivial, rfl⟩
      obtain ⟨row, hrow, hid⟩ := List.any_eq_true.1 hany
      exact ⟨row, hrow, by simpa using hid, by simp⟩
    · simp only [if_neg hany, if_true, Option.map_some]
      exact .inr ⟨by simpa [Server.peers] using hany, rfl, rfl⟩

theorem dbUpdatePk_cases (guid : ℕ) (v : Values) (t : Server) :
    (t.dbUp = false ∨ Conflict t.peers.db (some guid) v.id) ∧
      (Op.sem X (.dbUpdatePk guid v.id v.pk (X.infoToJson v.ip)) t).1 = none ∧
      (Op.sem X (.dbUpdatePk guid v.id v.pk (X.infoToJson v.ip)) t).2.peers = t.peers ∨
    (Op.sem X (.dbUpdatePk guid v.id v.pk (X.infoToJson v.ip)) t).1 = some () ∧
      (Op.sem X (.dbUpdatePk guid v.id v.pk (X.infoToJson v.ip)) t).2.peers =
        { t.peers with
          db := t.peers.db.map fun row => if row.guid = guid then v.inRow X row else row } := by
  simp only [Op.sem, Server.query, Database.updatePk]
  cases hup : t.dbUp with
  | false => exact .inl ⟨.inl rfl, rfl, rfl⟩
  | true =>
    by_cases hany : ((t.db.any fun row => row.guid == guid) &&
        t.db.any fun row => row.id == v.id && row.guid != guid) = true
    · simp only [if_pos hany, if_true, Option.map_none]
      refine .inl ⟨.inr ?_, trivial, trivial⟩
      obtain ⟨row, hrow, hid⟩ := List.any_eq_true.1 (Bool.and_eq_true_iff.1 hany).2
      exact ⟨row, hrow, by simpa using hid⟩
    · simp only [if_neg hany, if_true, Option.map_some]
      exact .inr ⟨trivial, rfl⟩

theorem updatePk_ends {r : PeerRef} {c : Stored} (hr : s.peers.cells r = some c) (v : Values)
    (addr : SocketAddr) :
    (PeerMap.updatePk X v.id r addr v.uuid v.pk v.ip).Ends (Op.sem X) (outage u) (fun _ h' s' =>
      ∃ ok, PkWrote X (Down u) v s.peers r c ok s'.peers ∧
        (WriteFailed X h' ↔ ok = false ∨ WriteFailed X h)) h s := by
  unfold PeerMap.updatePk
  refine ends_perform (by simp [Op.kind]) fun s₁ t ht _ _ hs₁ => ?_
  have hw₁ : WriteFailed X (⟨.writePk r addr v.uuid v.pk v.ip, t⟩ :: h) ↔ WriteFailed X h := by
    rw [writeFailed_cons]
    exact or_iff_right fun hf => hf
  have hs₁' : s₁.peers = s.peers.modify r v.inCell := hs₁
  have hguid : (Op.sem X (.writePk r addr v.uuid v.pk v.ip) t).1 = c.guid := cell_guid (ht ▸ hr)
  rw [hguid]
  cases hg : c.guid with
  | none =>
    refine ends_perform (by simp [Op.kind]) fun s₂ t₂ ht₂ hup₂ heq₂ _ => ?_
    have hw₂ := writeFailed_cons (X := X)
      (x := ⟨.dbInsertPeer v.id v.uuid v.pk (X.infoToJson v.ip), t₂⟩)
      (h := ⟨.writePk r addr v.uuid v.pk v.ip, t⟩ :: h)
    rw [hw₁] at hw₂
    obtain ⟨hwhy, hres, hpeers⟩ | ⟨hnone, hres, hpeers⟩ := dbInsertPeer_cases (X := X) v t₂ <;>
      rw [hres] <;> rw [← heq₂, ht₂, hs₁'] at hpeers
    · rw [hup₂, ht₂, hs₁'] at hwhy
      refine ends_ret.2 ⟨false, .failed (hwhy.imp (fun hu => ⟨_, hu⟩) fun hc => hg ▸ hc) ?_ ?_ ?_, ?_⟩
      · rw [hpeers]; rfl
      · rw [hpeers]; rfl
      · rw [hpeers]
      · rw [hw₂]
        exact iff_of_true (.inl hres) (.inl rfl)
    · refine ends_perform (by simp [Op.kind]) fun s₃ t₃ _ _ _ hs₃ => ends_ret.2 ⟨true, ?_, ?_⟩
      · rw [hs₃, hpeers, ht₂, hs₁']
        rw [ht₂, hs₁'] at hnone
        exact .inserted hg hnone
      · rw [writeFailed_cons, hw₂]
        have hno : ¬FailedWrite X ⟨.dbInsertPeer v.id v.uuid v.pk (X.infoToJson v.ip), t₂⟩ := by
          intro hf
          cases hres.symm.trans hf
        have hno' : ∀ g t, ¬FailedWrite X ⟨.writeGuid r g, t⟩ := fun _ _ hf => hf
        simp [hno, hno']
  | some guid =>
    refine ends_perform (by simp [Op.kind]) fun s₂ t₂ ht₂ hup₂ heq₂ _ => ?_
    have hw₂ := writeFailed_cons (X := X)
      (x := ⟨.dbUpdatePk guid v.id v.pk (X.infoToJson v.ip), t₂⟩)
      (h := ⟨.writePk r addr v.uuid v.pk v.ip, t⟩ :: h)
    rw [hw₁] at hw₂
    obtain ⟨hwhy, hres, hpeers⟩ | ⟨hres, hpeers⟩ := dbUpdatePk_cases (X := X) guid v t₂ <;>
      rw [hres] <;> rw [← heq₂, ht₂, hs₁'] at hpeers
    · rw [hup₂, ht₂, hs₁'] at hwhy
      refine ends_ret.2 ⟨false, .failed (hwhy.imp (fun hu => ⟨_, hu⟩) fun hc => hg ▸ hc) ?_ ?_ ?_, ?_⟩
      · rw [hpeers]; rfl
      · rw [hpeers]; rfl
      · rw [hpeers]
      · rw [hw₂]
        exact iff_of_true (.inl hres) (.inl rfl)
    · refine ends_ret.2 ⟨true, ?_, ?_⟩
      · rw [hpeers]
        exact .updated hg
      · rw [hw₂]
        have hno : ¬FailedWrite X ⟨.dbUpdatePk guid v.id v.pk (X.infoToJson v.ip), t₂⟩ := by
          intro hf
          cases hres.symm.trans hf
        simp [hno]

/-! ## A registration -/

/-- What a registration has come to: its answer, whether its write failed, and the peers. -/
inductive Handled (X : Setup) (down : Prop) (v : Values) (P : Peers) :
    Option RegisterPkResult → Bool → Peers → Prop
  | refused {res : Option RegisterPkResult} (hres : res ≠ some .ok) : Handled X down v P res false P
  | refusedOpen {res : Option RegisterPkResult} {r : PeerRef} {P' : Peers} (hres : res ≠ some .ok)
    (hopen : Opened X P v.id r P') : Handled X down v P res false P'
  | known {r : PeerRef} {c : Stored} {P' : Peers} (hopen : Opened X P v.id r P')
    (hc : P'.cells r = some c) (huuid : c.uuid = v.uuid) (hpk : c.pk = v.pk) (hip : c.ip = v.ip) :
    Handled X down v P (some .ok) false P'
  | written {r : PeerRef} {c : Stored} {P₁ P' : Peers} {ok : Bool}
    (hopen : Opened X P v.id r P₁ ∨ OpenedFresh down P v.id r P₁)
    (hc : P₁.cells r = some c) (huuid : c.uuid = [] ∨ c.uuid = v.uuid) (hne : v.uuid ≠ [])
    (hw : PkWrote X down v P₁ r c ok P') : Handled X down v P (some .ok) (!ok) P'

theorem Opened.cell {P P' : Peers} {id : String} {r : PeerRef} (h : Opened X P id r P')
    (hP : P.Allocated) : P'.map id = some r ∧ ∃ c, P'.cells r = some c := by
  cases h with
  | cached hr => exact ⟨hr, Option.isSome_iff_exists.1 (hP id r hr).2⟩
  | loaded hnone hrow => exact ⟨by simp [Peers.install], _, Table.insert_self _ _ _⟩

theorem stored_cell {t : Server} {r : PeerRef} {c : Stored} (h : t.peers.cells r = some c) :
    (t.cell r).stored = c := by
  obtain ⟨p, hp, rfl⟩ := Option.map_eq_some_iff.1 h
  simp [Server.cell, hp]

/-- The rate limit lets a fresh entry pass. -/
theorem registerPkRate_fresh {regPk : ℕ × ℕ} (h : regPk.1 = 0) (now : ℕ) :
    registerPkRate regPk now ≠ none := by
  unfold registerPkRate
  split
  · simp
  · rw [if_neg (by omega)]
    simp

theorem registerPkChange_some {peer : Peer} {rk : RegisterPk} {ip : String} {changed : Bool}
    (h : registerPkChange peer rk ip = some changed) :
    (peer.uuid = [] ∨ peer.uuid = rk.uuid) ∧
      (changed = false → peer.uuid = rk.uuid ∧ peer.pk = rk.pk ∧ peer.ip = ip) := by
  unfold registerPkChange at h
  split at h
  · next hempty =>
    obtain rfl := Option.some.inj h
    exact ⟨.inl hempty, fun hch => by cases hch⟩
  · split at h
    · next huuid =>
      split at h
      · cases h
      · obtain rfl := Option.some.inj h
        exact ⟨.inr huuid, fun hch => by simpa [huuid] using hch⟩
    · cases h

theorem registerPkCore_ends (hP : s.peers.Allocated) (rk : RegisterPk) (addr : SocketAddr) :
    (registerPkCore X rk addr).Ends (Op.sem X) (outage u) (fun res h' s' =>
      ∃ failed, Handled X (Down u) ⟨rk.id, rk.uuid, rk.pk, addr.ip.toText⟩ s.peers res failed s'.peers ∧
        (WriteFailed X h' ↔ failed = true)) [] s := by
  have hnil : WriteFailed X [] ↔ false = true := by simp [WriteFailed]
  unfold registerPkCore
  split
  · exact ⟨false, .refused (by simp), hnil⟩
  next hne =>
  refine ends_bind.2 ((ends_look (isPeerBlocked_uses rk.id)).mono fun blocked h₁ s₁ hres => ?_)
  obtain ⟨hs₁, hw₁⟩ := hres
  rw [hnil] at hw₁
  have hrefused : ∀ {res : Option RegisterPkResult} {h' : Past} {s' : Server},
      res ≠ some .ok → s'.peers = s.peers →
      (WriteFailed X h' ↔ false = true) → ∃ failed,
        Handled X (Down u) ⟨rk.id, rk.uuid, rk.pk, addr.ip.toText⟩ s.peers res failed s'.peers ∧
          (WriteFailed X h' ↔ failed = true) :=
    fun hres hs' hw => ⟨false, hs' ▸ .refused hres, hw⟩
  split
  · refine ends_perform_look rfl fun s₂ t₂ h₂ _ hs₂ hw₂ => ?_
    refine ends_perform_look rfl fun s₃ t₃ h₃ _ hs₃ hw₃ => ends_ret.2 ?_
    exact hrefused (by simp) (hs₃.trans (hs₂.trans hs₁)) (hw₃.trans (hw₂.trans hw₁))
  split
  · exact hrefused (by simp) hs₁ hw₁
  refine ends_perform_look rfl fun s₂ t₂ h₂ _ hs₂ hw₂ => ?_
  have hs₂' : s₂.peers = s.peers := hs₂.trans hs₁
  have hw₂' : WriteFailed X h₂ ↔ false = true := hw₂.trans hw₁
  split
  · exact hrefused (by simp) hs₂' hw₂'
  refine ends_bind.2 ((getOr_ends rk.id).mono fun r h₃ s₃ hres => ?_)
  obtain ⟨hw₃, hopen⟩ := hres
  rw [hs₂'] at hopen
  have hw₃' : WriteFailed X h₃ ↔ false = true := hw₃.trans hw₂'
  obtain ⟨c, hc⟩ : ∃ c, s₃.peers.cells r = some c := by
    obtain hopen | ⟨⟨-, -, rfl, hpeers⟩, -⟩ := hopen
    · exact (hopen.cell hP).2
    · rw [hpeers]
      exact ⟨_, Table.insert_self _ _ _⟩
  have hcell : ∀ t : Server, t.cells = s₃.cells → (t.cell r).stored = c ∧
      (t.cell r).regPk = (s₃.cell r).regPk := by
    intro t ht
    obtain ⟨p, hp, rfl⟩ := Option.map_eq_some_iff.1 hc
    simp [Server.cell, ht, hp]
  -- a fresh entry is never refused
  have hcached : ∀ {res : Option RegisterPkResult} {h' : Past} {s' : Server}, res ≠ some .ok →
      s'.peers = s₃.peers → ¬(OpenedFresh (Down u) s.peers rk.id r s₃.peers ∧
        (s₃.cell r).regPk.1 = 0) → (WriteFailed X h' ↔ false = true) →
      ∃ failed, Handled X (Down u) ⟨rk.id, rk.uuid, rk.pk, addr.ip.toText⟩ s.peers res failed s'.peers ∧
        (WriteFailed X h' ↔ failed = true) := by
    intro res h' s' hres hs' hnot hw
    refine ⟨false, ?_, hw⟩
    rw [hs']
    exact .refusedOpen hres (hopen.resolve_right hnot)
  refine ends_perform_read rfl (fun _ => rfl) fun h₄ s₄ hs₄ hc₄ hw₄ => ?_
  have hold : (Op.sem X (.readPeer r) s₄).1.stored = c := (hcell s₄ hc₄).1
  generalize (Op.sem X (.readPeer r) s₄).1 = old at hold
  have hfreshOld : OpenedFresh (Down u) s.peers rk.id r s₃.peers → old.uuid = [] := by
    rintro ⟨-, -, rfl, hpeers⟩
    rw [hpeers] at hc
    obtain rfl := Option.some.inj ((Table.insert_self _ _ _).symm.trans hc)
    exact congrArg Stored.uuid hold
  split
  · next hrefuse =>
    refine hcached (by simp) hs₄ (fun hf => ?_) (hw₄.trans hw₃')
    rw [registerPkChange, if_pos (hfreshOld hf.1)] at hrefuse
    cases hrefuse
  next changed hchange =>
  obtain ⟨huuid, hsame⟩ := registerPkChange_some hchange
  refine ends_perform_read rfl (fun _ => rfl) fun h₅ s₅ hs₅ hc₅ hw₅ => ?_
  have hreg : (Op.sem X (.readRegPk r) s₅).1 = (s₃.cell r).regPk := (hcell s₅ (hc₅.trans hc₄)).2
  rw [hreg]
  refine ends_perform_read rfl (fun _ => rfl) fun h₆ s₆ hs₆ _ hw₆ => ?_
  have hw₆' : WriteFailed X h₆ ↔ false = true := hw₆.trans (hw₅.trans (hw₄.trans hw₃'))
  have hs₆' : s₆.peers = s₃.peers := hs₆.trans (hs₅.trans hs₄)
  split
  · next hrate =>
    refine hcached (by simp) hs₆' (fun hf => ?_) hw₆'
    exact registerPkRate_fresh hf.2 _ hrate
  next regPk hrate =>
  refine ends_perform (by simp [Op.kind]) fun s₇ t₇ _ _ _ hs₇ => ?_
  have hs₇' : s₇.peers = s₃.peers := hs₇.trans hs₆'
  have hw₇ : WriteFailed X (⟨.writeRegPk r regPk, t₇⟩ :: h₆) ↔ false = true := by
    rw [writeFailed_cons, hw₆']
    exact or_iff_right fun hf => hf
  split
  · next hch =>
    have hwrite := updatePk_ends (X := X) (u := u)
      (h := ⟨.writeRegPk r regPk, t₇⟩ :: h₆) (s := s₇) (hs₇' ▸ hc)
      ⟨rk.id, rk.uuid, rk.pk, addr.ip.toText⟩ addr
    refine ends_bind.2 (hwrite.mono fun _ h₈ s₈ hres => ?_)
    obtain ⟨ok, hwrote, hw₈⟩ := hres
    refine ends_perform_look rfl fun s₉ t₉ h₉ _ hs₉ hw₉ => ends_ret.2 ⟨!ok, ?_, ?_⟩
    · rw [hs₉]
      refine .written (hopen.imp_right And.left) hc ?_
        (fun h => hne (.inl h)) (hs₇' ▸ hwrote)
      rw [← hold]
      exact huuid
    · rw [hw₉, hw₈, hw₇]
      simp
  · next hch =>
    refine ends_perform_look rfl fun s₉ t₉ h₉ _ hs₉ hw₉ => ends_ret.2 ⟨false, ?_, hw₉.trans hw₇⟩
    have hch' : changed = false := by simpa using hch
    obtain ⟨hu, hpk, hip⟩ := hsame hch'
    have hnot : ¬(OpenedFresh (Down u) s.peers rk.id r s₃.peers ∧
        (s₃.cell r).regPk.1 = 0) := by
      intro hf
      rw [registerPkChange, if_pos (hfreshOld hf.1), hch'] at hchange
      cases hchange
    rw [hs₉, hs₇']
    rw [← hold] at hc
    exact .known (hopen.resolve_right hnot) hc hu hpk hip

/-! ## What becomes of the invariants -/

variable {P P' : Peers} {down : Prop} {v : Values} {res : Option RegisterPkResult} {failed : Bool}

theorem Opened.allocated {id : String} {r : PeerRef} (h : Opened X P id r P')
    (hP : P.Allocated) : P'.Allocated := by
  cases h with
  | cached hr => exact hP
  | loaded hnone hrow => exact hP.install id _

theorem PkWrote.spec {r : PeerRef} {c : Stored} {ok : Bool} (hw : PkWrote X down v P r c ok P')
    (hc : P.cells r = some c) : P'.map = P.map ∧ P'.nextCell = P.nextCell ∧
      (∀ q, (P'.cells q).isSome = (P.cells q).isSome) ∧
      ∃ c', P'.cells r = some c' ∧ c'.uuid = v.uuid ∧ c'.pk = v.pk ∧ c'.ip = v.ip := by
  have hself := Peers.modify_cells_self hc v.inCell
  cases hw with
  | failed hwhy hmap hnext hcells =>
    refine ⟨hmap, hnext, fun q => hcells ▸ modify_isSome P r q _, v.inCell c, ?_, rfl, rfl, rfl⟩
    rw [hcells]
    exact hself
  | inserted hguid hnone =>
    refine ⟨rfl, rfl, fun q => ?_, { v.inCell c with guid := some P.uuids },
      Peers.modify_cells_self hself _, rfl, rfl, rfl⟩
    exact (modify_isSome _ r q _).trans (modify_isSome P r q _)
  | updated hguid =>
    exact ⟨rfl, rfl, fun q => modify_isSome P r q _, _, hself, rfl, rfl, rfl⟩

theorem Handled.allocated (h : Handled X down v P res failed P') (hP : P.Allocated) :
    P'.Allocated := by
  cases h with
  | refused hres => exact hP
  | refusedOpen hres hopen => exact hopen.allocated hP
  | known hopen hc huuid hpk hip => exact hopen.allocated hP
  | @written r c P₁ _ ok hopen hc huuid hne hw =>
    have hP₁ : P₁.Allocated := by
      obtain hopen | ⟨-, -, rfl, rfl⟩ := hopen
      · exact hopen.allocated hP
      · exact hP.install _ _
    obtain ⟨hmap, hnext, hsome, -⟩ := hw.spec hc
    exact hP₁.mono (fun id r hr => hmap ▸ hr) hnext hsome

/-- The peer is cached with these values. -/
def Cached (P : Peers) (v : Values) : Prop :=
  ∃ r c, P.map v.id = some r ∧ P.cells r = some c ∧ c.uuid = v.uuid ∧ c.pk = v.pk ∧ c.ip = v.ip

/-- The row of the peer holds these values. -/
def Holds (X : Setup) (db : List Row) (v : Values) : Prop :=
  ∃ row, Database.getPeer db v.id = some row ∧ row.uuid = v.uuid ∧ row.pk = v.pk ∧
    Stored.readIp X row = v.ip

/-- When the write fails, the entry claims the values nevertheless. -/
theorem Handled.cached (h : Handled X down v P res failed P') (hP : P.Allocated)
    (hfailed : failed = true) : Cached P' v := by
  cases h with
  | refused hres => cases hfailed
  | refusedOpen hres hopen => cases hfailed
  | known hopen hc huuid hpk hip => cases hfailed
  | @written r c P₁ _ ok hopen hc huuid hne hw =>
    have hr : P₁.map v.id = some r := by
      obtain hopen | ⟨-, -, rfl, rfl⟩ := hopen
      · exact (hopen.cell hP).1
      · exact Table.insert_self _ _ _
    obtain ⟨hmap, -, -, c', hc', hvals⟩ := hw.spec hc
    exact ⟨r, c', hmap ▸ hr, hc', hvals⟩

theorem Opened.synced {id : String} {r : PeerRef} (h : Opened X P id r P') (hP : Synced X P) :
    Synced X P' ∧ P'.map id = some r ∧ P'.db = P.db := by
  cases h with
  | cached hr => exact ⟨hP, hr, rfl⟩
  | loaded hnone hrow => exact ⟨hP.install hrow, Table.insert_self _ _ _, rfl⟩

/-- The block status a peer is stored with. -/
def storedStatus (db : List Row) (id : String) : Option ℤ :=
  (Database.getPeer db id).bind (·.status)

/-- A registration that inserts its row. -/
theorem synced_inserted (hjson : ∀ ip, X.infoOfJson (X.infoToJson ip) = some ip)
    (hP : Synced X P) (hrow : ∀ row ∈ P.db, row.id ≠ v.id)
    (hne : v.uuid ≠ []) :
    Synced X { ((P.install v.id .fresh).modify P.nextCell v.inCell).modify P.nextCell
        fun c => { c with guid := some P.uuids } with
      uuids := P.uuids + 1, db := P.db ++ [v.newRow X P.uuids] } where
  ids := by
    rw [List.map_append, List.nodup_append]
    refine ⟨hP.ids, by simp, fun a ha b hb => ?_⟩
    obtain ⟨row, hmem, rfl⟩ := List.mem_map.1 ha
    rw [List.map_singleton, List.mem_singleton] at hb
    rw [hb]
    exact hrow row hmem
  guids := by
    rw [List.map_append, List.nodup_append]
    refine ⟨hP.guids, by simp, fun a ha b hb => ?_⟩
    obtain ⟨row, hmem, rfl⟩ := List.mem_map.1 ha
    rw [List.map_singleton, List.mem_singleton] at hb
    rw [hb]
    exact Nat.ne_of_lt (hP.guid_lt row hmem)
  guid_lt row hmem := by
    rcases List.mem_append.1 hmem with hmem | hmem
    · exact Nat.lt_succ_of_lt (hP.guid_lt row hmem)
    · rw [List.mem_singleton.1 hmem]
      exact Nat.lt_succ_self _
  uuid_ne row hmem := by
    rcases List.mem_append.1 hmem with hmem | hmem
    · exact hP.uuid_ne row hmem
    · rw [List.mem_singleton.1 hmem]
      exact hne
  cell id r hr := by
    have hrow' : v.newRow X P.uuids ∈ P.db ++ [v.newRow X P.uuids] := by simp
    obtain ⟨rfl, rfl⟩ | ⟨hid, hr⟩ := Table.insert_eq_some.1 hr
    · refine ⟨Nat.lt_succ_self _, v.newRow X P.uuids, ?_, ?_⟩
      · rw [Database.getPeer_append, Database.getPeer_none.2 hrow]
        simp [Database.getPeer, Values.newRow]
      · rw [Peers.modify_modify]
        rw [Peers.modify_cells_self (c := .fresh) (Table.insert_self _ _ _)]
        simp [Values.inCell, Stored.ofRow, Values.newRow, Stored.readIp, hjson, Stored.fresh]
    · obtain ⟨hlt, row, hget, hc⟩ := hP.cell id r hr
      refine ⟨Nat.lt_succ_of_lt hlt, row, ?_, ?_⟩
      · rw [Database.getPeer_append, hget]
        rfl
      · rw [Peers.modify_modify]
        rw [Peers.modify_cells_of_ne (Nat.ne_of_lt hlt), ← hc]
        exact Table.insert_of_ne _ _ (Nat.ne_of_lt hlt)

/-- A registration of a peer whose row exists. -/
theorem synced_updated (hjson : ∀ ip, X.infoOfJson (X.infoToJson ip) = some ip)
    (hP : Synced X P) {r : PeerRef} {row : Row} (hr : P.map v.id = some r)
    (hrow : Database.getPeer P.db v.id = some row) (hc : P.cells r = some (.ofRow X row))
    (huuid : row.uuid = v.uuid) :
    Synced X { P.modify r v.inCell with
      db := P.db.map fun row' => if row'.guid = row.guid then v.inRow X row' else row' } := by
  obtain ⟨hmem, hid⟩ := (Database.getPeer_eq_some hP.ids).1 hrow
  have hsame : ∀ row' ∈ P.db, row'.guid = row.guid → row' = row :=
    fun row' hrow' hg => List.inj_on_of_nodup_map hP.guids hrow' hmem hg
  refine hP.mapRows (fun row' hrow' => ?_) (fun row' => ?_) (fun row' => ?_) rfl rfl rfl rfl
    fun id' r' row' hr' hrow' => ?_
  · split
    · next hg => rw [hsame row' hrow' hg]; exact hid.symm
    · rfl
  · split <;> rfl
  · split <;> rfl
  · obtain ⟨hmem', hid'⟩ := (Database.getPeer_eq_some hP.ids).1 hrow'
    by_cases hq : r' = r
    · subst hq
      obtain rfl := hP.map_inj hr hr'
      obtain rfl := Option.some.inj (hrow.symm.trans hrow')
      rw [if_pos rfl]
      refine (Peers.modify_cells_self hc v.inCell).trans ?_
      simp [Values.inCell, Values.inRow, Stored.ofRow, Stored.readIp, hjson, huuid]
    · have hne : row'.guid ≠ row.guid := by
        intro hg
        rw [hsame row' hmem' hg] at hid'
        rw [← hid', hid, hr] at hr'
        exact hq (Option.some.inj hr').symm
      rw [if_neg hne]
      obtain ⟨-, row'', hrow'', hc''⟩ := hP.cell id' r' hr'
      rw [Option.some.inj (hrow'.symm.trans hrow'')]
      exact (Peers.modify_cells_of_ne hq v.inCell).trans hc''

/-- With the database up, and the entries the images of their rows, the write does not fail. -/
theorem Handled.not_failed (h : Handled X down v P res failed P') (hP : Synced X P)
    (hdown : ¬down) : failed = false := by
  cases h with
  | refused hres => rfl
  | refusedOpen hres hopen => rfl
  | known hopen hc huuid hpk hip => rfl
  | @written r c P₁ _ ok hopen hc huuid hne hw =>
    cases hw with
    | failed hwhy hmap hnext hcells =>
      obtain ⟨row, hmem, hid, hguid⟩ := hwhy.resolve_left hdown
      obtain hopen | ⟨-, hnone, rfl, rfl⟩ := hopen
      · obtain ⟨hsync, hr, -⟩ := hopen.synced hP
        obtain ⟨-, row', hrow', hc'⟩ := hsync.cell _ _ hr
        obtain rfl := Option.some.inj (hc.symm.trans hc')
        obtain ⟨hmem', hid'⟩ := (Database.getPeer_eq_some hsync.ids).1 hrow'
        obtain rfl := List.inj_on_of_nodup_map hsync.ids hmem hmem' (hid.trans hid'.symm)
        exact absurd rfl hguid
      · exact absurd hid (Database.getPeer_none.1 (hnone.resolve_left hdown) row hmem)
    | inserted hguid hnone => rfl
    | updated hguid => rfl

/-- A registration whose write did not fail keeps the entries the images of their rows, stores
what it says it stored, and touches no block status. -/
theorem Handled.synced (hjson : ∀ ip, X.infoOfJson (X.infoToJson ip) = some ip)
    (h : Handled X down v P res failed P') (hP : Synced X P) (hfailed : failed = false) :
    Synced X P' ∧ (res = some .ok → Holds X P'.db v) ∧
      ∀ id, storedStatus P'.db id = storedStatus P.db id := by
  cases h with
  | refused hres => exact ⟨hP, fun hok => absurd hok hres, fun _ => rfl⟩
  | refusedOpen hres hopen =>
    obtain ⟨hsync, -, hdb⟩ := hopen.synced hP
    exact ⟨hsync, fun hok => absurd hok hres, fun _ => by rw [hdb]⟩
  | known hopen hc huuid hpk hip =>
    obtain ⟨hsync, hr, hdb⟩ := hopen.synced hP
    obtain ⟨-, row, hrow, hc'⟩ := hsync.cell _ _ hr
    obtain rfl := Option.some.inj (hc.symm.trans hc')
    exact ⟨hsync, fun _ => ⟨row, hrow, huuid, hpk, hip⟩, fun _ => by rw [hdb]⟩
  | @written r c P₁ _ ok hopen hc huuid hne hw =>
    cases hw with
    | failed hwhy hmap hnext hcells => cases hfailed
    | inserted hguid hnone =>
      obtain hopen | ⟨-, -, rfl, rfl⟩ := hopen
      · obtain ⟨hsync, hr, -⟩ := hopen.synced hP
        obtain ⟨-, row, -, hc'⟩ := hsync.cell _ _ hr
        obtain rfl := Option.some.inj (hc.symm.trans hc')
        cases hguid
      · refine ⟨synced_inserted hjson hP hnone hne, fun _ => ⟨v.newRow X P.uuids, ?_⟩, fun id => ?_⟩
        · have hnone' : Database.getPeer P.db v.id = none := Database.getPeer_none.2 hnone
          refine ⟨?_, rfl, rfl, by simp [Stored.readIp, Values.newRow, hjson]⟩
          simp [Peers.install, Database.getPeer_append, hnone']
          simp [Database.getPeer, Values.newRow]
        · simp only [storedStatus, Peers.install, Database.getPeer_append]
          cases hget : Database.getPeer P.db id with
          | some row => rfl
          | none =>
            simp only [Option.none_or, Database.getPeer, List.find?_singleton]
            split <;> rfl
    | updated hguid =>
      obtain hopen | ⟨-, -, rfl, rfl⟩ := hopen
      · obtain ⟨hsync, hr, hdb⟩ := hopen.synced hP
        obtain ⟨-, row, hrow, hc'⟩ := hsync.cell _ _ hr
        obtain rfl := Option.some.inj (hc.symm.trans hc')
        obtain rfl := Option.some.inj hguid
        obtain ⟨hmem, hid⟩ := (Database.getPeer_eq_some hsync.ids).1 hrow
        have huuid' : row.uuid = v.uuid := huuid.resolve_left (hsync.uuid_ne row hmem)
        have hids : ∀ row' ∈ P₁.db,
            (if row'.guid = row.guid then v.inRow X row' else row').id = row'.id := by
          intro row' hrow'
          split
          · next hg => rw [List.inj_on_of_nodup_map hsync.guids hrow' hmem hg]; exact hid.symm
          · rfl
        refine ⟨synced_updated hjson hsync hr hrow hc huuid', fun _ => ?_, fun id => ?_⟩
        · refine ⟨v.inRow X row, ?_, huuid', rfl, by simp [Stored.readIp, Values.inRow, hjson]⟩
          rw [Database.getPeer_map hids, hrow]
          simp
        · rw [← hdb]
          simp only [storedStatus, Database.getPeer_map hids]
          cases Database.getPeer P₁.db id with
          | none => rfl
          | some row' =>
            simp only [Option.map_some, Option.bind_some]
            split <;> rfl
      · obtain rfl := Option.some.inj (hc.symm.trans (Table.insert_self _ _ _))
        cases hguid

end NemoServer
