import NemoServer.Server.History
import NemoServer.Server.Sample

/-!
# Asked for the key

A registration that is answered OK, from any state hbbs can reach, and the heartbeat that follows it
from the same address. The heartbeat is answered that the key is not wanted, unless the entry had
the registration already and was last heard at another address: then nothing was written, and the
key is asked for again (`registration_settles_iff`).
-/

set_option autoImplicit false

namespace NemoServer

open Prog PeerMap Rendezvous

variable {X : Setup} {u : Past → Bool} {h : Past} {s : Server}

/-! ## Entries and their cells -/

theorem sem_allocated {o : Op} (hs : s.peers.Allocated) : (Op.sem X o s).2.peers.Allocated := by
  by_cases hk : o.kind = .redeem
  · have hframe := sem_frame X o s
    rw [hk] at hframe
    have hmap : (Op.sem X o s).2.peers.map = s.peers.map := by rw [hframe]; rfl
    have hcells : (Op.sem X o s).2.peers.cells = s.peers.cells := by rw [hframe]; rfl
    have hnext : (Op.sem X o s).2.peers.nextCell = s.peers.nextCell := by rw [hframe]; rfl
    exact hs.mono (fun id r hr => hmap ▸ hr) hnext fun r => by rw [hcells]
  · rw [sem_peers hk]
    exact hs.act _ _

/-- In every run, every entry of the map has its cell. -/
theorem Run.allocated {C : List Step → Pool Op Op.Res Server Job → Choice Job Env → Prop}
    {l : List Step} {p : Pool Op Op.Res Server Job} (hr : (hbbs X).Run Server.Booted C l p) :
    p.shared.peers.Allocated := by
  induction hr using System.Run.induct with
  | hboot s hs =>
    intro id r hid
    have hnone : s.map id = none := congrFun hs.map id
    cases hnone.symm.trans hid
  | hstart l p j s hr _ hs ih =>
    have hpeers : s.peers = p.shared.peers := by
      rw [Server.beginJob_eq hs]
      rfl
    rw [hpeers]
    exact ih
  | hstep l p n j past o k hr _ hl ih => exact sem_allocated ih
  | henv l p e s hr _ hs ih =>
    rw [act_peers hs]
    exact ih
  | hcrash l p hr _ ih =>
    intro id r hid
    cases hid

/-- The entry of the peer in memory. -/
def HasEntry (s : Server) (id : String) (p : Peer) : Prop :=
  ∃ r, s.map id = some r ∧ s.cells r = some p

/-- Nothing has been done to the entries. -/
structure SameEntries (s t : Server) : Prop where
  map : t.map = s.map
  cells : t.cells = s.cells

theorem sem_sameEntries {t : Server} (hs : SameEntries s t) {o : Op} (hl : o.kind ≠ .load)
    (hr : o.kind ≠ .register) (ha : o.kind ≠ .admin) (hd : o.kind ≠ .delete) :
    SameEntries s (Op.sem X o t).2 :=
  ⟨(sem_map hl hd).trans hs.map, (sem_cells hl hr ha).trans hs.cells⟩

theorem SameEntries.hasEntry {t : Server} (hs : SameEntries s t) {id : String} {p : Peer} :
    HasEntry t id p ↔ HasEntry s id p := by
  unfold HasEntry
  rw [hs.map, hs.cells]

theorem ends_sameEntries {α : Type} {p : Handler α} (hp : p.Uses (Only [.look])) {t : Server}
    (hs : SameEntries s t) :
    p.Ends (Op.sem X) (outage u) (fun _ _ t' => SameEntries s t') h t := by
  refine hp.ends (I := fun _ t => SameEntries s t) hs fun o h' t' ho hI => ?_
  have hk : o.kind = .look := by simpa [Only] using ho
  have hout : SameEntries s (outage u h' t') := ⟨hI.map, hI.cells⟩
  exact sem_sameEntries (o := o) hout (by simp [hk]) (by simp [hk]) (by simp [hk]) (by simp [hk])

theorem setCell_self {r : PeerRef} {p : Peer} (hr : s.cells r = some p) (f : Peer → Peer) :
    (s.setCell r f).cells r = some (f p) := by
  simp [Server.setCell, hr]

/-! ## The entry of a registration -/

/-- The entry that a registration of `id` opens: the one in memory, or one never heard of. -/
def OldEntry (s : Server) (id : String) (old : Peer) : Prop :=
  HasEntry s id old ∨ s.map id = none ∧ old.socketAddr.port = 0

theorem install_entry (s : Server) (id : String) (p : Peer) :
    (s.install id p).2.map id = some (s.install id p).1 ∧
      (s.install id p).2.cells (s.install id p).1 = some p :=
  ⟨Table.insert_self _ _ _, Table.insert_self _ _ _⟩

theorem get_entry (hP : s.peers.Allocated) {t : Server} (ht : SameEntries s t) (id : String) :
    (PeerMap.get id).Ends (Op.sem X) (outage u) (fun res _ t' =>
      (∃ r old, res = some r ∧ t'.map id = some r ∧ t'.cells r = some old ∧ OldEntry s id old) ∨
        res = none ∧ SameEntries s t' ∧ s.map id = none) h t := by
  unfold PeerMap.get
  refine ends_op.2 ?_
  have hmap : (Op.sem X (.mapGet id) (outage u h t)).1 = s.map id := congrFun ht.map id
  rw [hmap]
  cases hid : s.map id with
  | some r =>
    obtain ⟨c, hc⟩ := Option.isSome_iff_exists.1 (hP id r hid).2
    obtain ⟨old, hold, -⟩ := Option.map_eq_some_iff.1 hc
    refine .inl ⟨r, old, rfl, ?_, ?_, .inl ⟨r, hid, hold⟩⟩
    · exact (congrFun ht.map id).trans hid
    · exact (congrFun ht.cells r).trans hold
  | none =>
    refine ends_op.2 ?_
    set t₁ := outage u (⟨.mapGet id, outage u h t⟩ :: h) (Op.sem X (.mapGet id) (outage u h t)).2
      with ht₁
    have hout : SameEntries s t₁ := ⟨ht.map, ht.cells⟩
    have hsame : SameEntries s (Op.sem X (.dbGetPeer id) t₁).2 :=
      sem_sameEntries (o := .dbGetPeer id) hout (by simp [Op.kind]) (by simp [Op.kind])
        (by simp [Op.kind]) (by simp [Op.kind])
    cases hrow : (Op.sem X (.dbGetPeer id) t₁).1 with
    | none => exact .inr ⟨rfl, hsame, rfl⟩
    | some found =>
      cases found with
      | none => exact .inr ⟨rfl, hsame, rfl⟩
      | some row =>
        obtain ⟨hmap', hcell⟩ := install_entry (outage u (⟨.dbGetPeer id, t₁⟩ ::
          ⟨.mapGet id, outage u h t⟩ :: h) (Op.sem X (.dbGetPeer id) t₁).2) id
          (Peer.ofRow X (Op.sem X (.dbGetPeer id) t₁).2.now row)
        exact .inl ⟨_, _, rfl, hmap', hcell, .inr ⟨hid, rfl⟩⟩

theorem getOr_entry (hP : s.peers.Allocated) {t : Server} (ht : SameEntries s t) (id : String) :
    (PeerMap.getOr id).Ends (Op.sem X) (outage u) (fun r _ t' => t'.map id = some r ∧
      ∃ old, t'.cells r = some old ∧ OldEntry s id old) h t := by
  unfold PeerMap.getOr
  refine ends_bind.2 ((get_entry hP ht id).mono fun res h₁ t₁ hres => ?_)
  obtain ⟨r, old, rfl, hmap, hcell, hopens⟩ | ⟨rfl, ht₁, hnone⟩ := hres
  · exact ⟨hmap, old, hcell, hopens⟩
  · have hsem : Op.sem X (.mapGetOrInsert id) (outage u h₁ t₁) =
        (outage u h₁ t₁).install id (Peer.fresh t₁.now) := by
      have hnone₁ : (outage u h₁ t₁).map id = none := (congrFun ht₁.map id).trans hnone
      simp only [Op.sem, Server.getOrInsert, hnone₁]
      rfl
    obtain ⟨hmap, hcell⟩ := install_entry (outage u h₁ t₁) id (Peer.fresh t₁.now)
    refine ends_op.2 ?_
    rw [hsem]
    exact ⟨hmap, _, hcell, .inr ⟨hnone, rfl⟩⟩

/-- The entry in the cell `r` has what the registration wrote. -/
structure Written (s : Server) (r : PeerRef) (addr : SocketAddr) (pk : Bytes) (ip : String)
    (t : Server) : Prop where
  map : t.map = s.map
  entry : ∃ p, t.cells r = some p ∧ p.socketAddr = addr ∧ p.pk = pk ∧ p.ip = ip

theorem Written.query {r : PeerRef} {addr : SocketAddr} {pk : Bytes} {ip : String} {t : Server}
    (ht : Written s r addr pk ip t) {α : Type} (f : List Row → Option (α × List Row)) :
    Written s r addr pk ip (t.query f).2 := by
  obtain ⟨db, hdb⟩ := t.query_snd f
  rw [hdb]
  exact ⟨ht.map, ht.entry⟩

/-- What is written is there afterwards, whatever becomes of the query. -/
theorem updatePk_entry {r : PeerRef} {old : Peer} (hr : s.cells r = some old) (id : String)
    (addr : SocketAddr) (uuid pk : Bytes) (ip : String) :
    (PeerMap.updatePk X id r addr uuid pk ip).Ends (Op.sem X) (outage u)
      (fun _ _ t => Written s r addr pk ip t) h s := by
  have hwritten : Written s r addr pk ip (Op.sem X (.writePk r addr uuid pk ip) (outage u h s)).2 :=
    ⟨rfl, _, setCell_self (s := outage u h s) hr _, rfl, rfl, rfl⟩
  unfold PeerMap.updatePk
  refine ends_op.2 ?_
  generalize (Op.sem X (.writePk r addr uuid pk ip) (outage u h s)).2 = t at hwritten ⊢
  cases (Op.sem X (.writePk r addr uuid pk ip) (outage u h s)).1 with
  | none =>
    refine ends_op.2 ?_
    set t₁ := outage u (⟨.writePk r addr uuid pk ip, outage u h s⟩ :: h) t with ht₁
    have hquery : Written s r addr pk ip
        (Op.sem X (.dbInsertPeer id uuid pk (X.infoToJson ip)) t₁).2 :=
      Written.query (t := { t₁ with uuids := t₁.uuids + 1 }) ⟨hwritten.map, hwritten.entry⟩ _
    cases (Op.sem X (.dbInsertPeer id uuid pk (X.infoToJson ip)) t₁).1 with
    | none => exact hquery
    | some guid =>
      obtain ⟨p, hp, haddr, hpk, hip⟩ := hquery.entry
      exact ⟨hquery.map, _, setCell_self (s := outage u _ _) hp _, haddr, hpk, hip⟩
  | some guid =>
    refine ends_op.2 ?_
    set t₁ := outage u (⟨.writePk r addr uuid pk ip, outage u h s⟩ :: h) t with ht₁
    have hquery : Written s r addr pk ip
        (Op.sem X (.dbUpdatePk guid id pk (X.infoToJson ip)) t₁).2 :=
      Written.query (t := t₁) ⟨hwritten.map, hwritten.entry⟩ _
    cases (Op.sem X (.dbUpdatePk guid id pk (X.infoToJson ip)) t₁).1 with
    | none => exact hquery
    | some _ => exact hquery

/-- The entry has the registration of `rk` from `addr` already. -/
def HasAlready (old : Peer) (rk : RegisterPk) (addr : SocketAddr) : Prop :=
  old.uuid = rk.uuid ∧ old.pk = rk.pk ∧ old.ip = addr.ip.toText

instance (old : Peer) (rk : RegisterPk) (addr : SocketAddr) : Decidable (HasAlready old rk addr) :=
  inferInstanceAs (Decidable (_ ∧ _ ∧ _))

/-- Something is written exactly if the entry lacks a part of the registration. -/
theorem registerPkChange_changed {old : Peer} {rk : RegisterPk} {addr : SocketAddr} {changed : Bool}
    (hne : rk.uuid ≠ []) (hc : registerPkChange old rk addr.ip.toText = some changed) :
    changed = false ↔ HasAlready old rk addr := by
  unfold registerPkChange at hc
  unfold HasAlready
  split at hc
  · next hempty =>
    obtain rfl := Option.some.inj hc
    simp [hempty, hne.symm]
  · split at hc
    · next huuid =>
      split at hc
      · cases hc
      · obtain rfl := Option.some.inj hc
        simp [huuid]
    · cases hc

/-- An accepted registration: the entry it opened is `old`, and the one it leaves has its key, its
ip and, unless nothing was to be written, its address. -/
def Accepted (s : Server) (rk : RegisterPk) (addr : SocketAddr) (t : Server) : Prop :=
  rk.pk ≠ [] ∧ ∃ old p, OldEntry s rk.id old ∧ HasEntry t rk.id p ∧ p.pk = rk.pk ∧
    p.ip = addr.ip.toText ∧
    p.socketAddr = if HasAlready old rk addr then old.socketAddr else addr

theorem Accepted.sameEntries {rk : RegisterPk} {addr : SocketAddr} {t t' : Server}
    (ha : Accepted s rk addr t) (ht : SameEntries t t') : Accepted s rk addr t' := by
  obtain ⟨hpk, old, p, hold, hp, hrest⟩ := ha
  exact ⟨hpk, old, p, hold, ht.hasEntry.2 hp, hrest⟩

theorem registerPkCore_entry (hP : s.peers.Allocated) (rk : RegisterPk) (addr : SocketAddr) :
    (registerPkCore X rk addr).Ends (Op.sem X) (outage u)
      (fun res _ t => res = some .ok → Accepted s rk addr t) h s := by
  unfold registerPkCore
  split
  · intro hok
    cases hok
  next hne =>
  have huuid : rk.uuid ≠ [] := fun heq => hne (.inl heq)
  have hpk : rk.pk ≠ [] := fun heq => hne (.inr heq)
  refine ends_bind.2 ((ends_sameEntries (isPeerBlocked_uses rk.id) ⟨rfl, rfl⟩).mono
    fun blocked h₁ s₁ hs₁ => ?_)
  split
  · intro hok
    cases hok
  split
  · intro hok
    cases hok
  refine ends_bind.2 ((ends_sameEntries (p := perform (.checkIpBlocker addr.ip.toText rk.id))
    ⟨by simp [Only, Op.kind], fun _ => trivial⟩ hs₁).mono fun free h₂ s₂ hs₂ => ?_)
  split
  · intro hok
    cases hok
  refine ends_bind.2 ((getOr_entry hP hs₂ rk.id).mono fun r h₃ s₃ hs₃ => ?_)
  obtain ⟨hmap, old, hcell, hold⟩ := hs₃
  refine ends_op.2 ?_
  have hread : (Op.sem X (.readPeer r) (outage u h₃ s₃)).1 = old := by
    show (s₃.cells r).getD _ = old
    rw [hcell]
    rfl
  rw [hread]
  split
  · intro hok
    cases hok
  next changed hchange =>
  refine ends_bind.2 ((ends_sameEntries (p := perform (.readRegPk r))
    ⟨by simp [Only, Op.kind], fun _ => trivial⟩ ⟨rfl, rfl⟩).mono fun regPk h₄ s₄ hs₄ => ?_)
  refine ends_bind.2 ((ends_sameEntries (p := perform .instantNow)
    ⟨by simp [Only, Op.kind], fun _ => trivial⟩ hs₄).mono fun now h₅ s₅ hs₅ => ?_)
  split
  · intro hok
    cases hok
  next regPk' _ =>
  refine ends_op.2 ?_
  have hcell₅ : (outage u h₅ s₅).cells r = some old := (congrFun hs₅.cells r).trans hcell
  have hmap₅ : (outage u h₅ s₅).map rk.id = some r := (congrFun hs₅.map rk.id).trans hmap
  have hcell₆ : (Op.sem X (.writeRegPk r regPk') (outage u h₅ s₅)).2.cells r =
      some { old with regPk := regPk' } := setCell_self hcell₅ _
  have hmap₆ : (Op.sem X (.writeRegPk r regPk') (outage u h₅ s₅)).2.map rk.id = some r := hmap₅
  generalize (Op.sem X (.writeRegPk r regPk') (outage u h₅ s₅)).2 = s₆ at hcell₆ hmap₆ ⊢
  have hrecord : ∀ h' t, Accepted s rk addr t →
      (perform (.record (.registerPk rk.id addr true)) >>= fun _ => pure (some .ok)).Ends
        (Op.sem X) (outage u) (fun res _ t' => res = some RegisterPkResult.ok →
          Accepted s rk addr t') h' t := by
    intro h' t ha
    exact fun _ => ha.sameEntries ⟨rfl, rfl⟩
  have hhas := registerPkChange_changed huuid hchange
  split
  · next hch =>
    refine ends_bind.2 ((updatePk_entry hcell₆ rk.id addr rk.uuid rk.pk addr.ip.toText).mono
      fun _ h₇ s₇ hs₇ => hrecord h₇ s₇ ?_)
    obtain ⟨p, hp, haddr, hpk', hip⟩ := hs₇.entry
    have hnot : ¬HasAlready old rk addr := fun ha => by
      rw [hhas.2 ha] at hch
      cases hch
    refine ⟨hpk, old, p, hold, ⟨r, ?_, hp⟩, hpk', hip, ?_⟩
    · rw [hs₇.map]
      exact hmap₆
    · rw [if_neg hnot]
      exact haddr
  · next hch =>
    have ha : HasAlready old rk addr := hhas.1 (by simpa using hch)
    refine hrecord _ _ ⟨hpk, old, _, hold, ⟨r, hmap₆, hcell₆⟩, ha.2.1, ha.2.2, ?_⟩
    rw [if_pos ha]

/-! ## The heartbeat -/

/-- A heartbeat from the state `t`: whether the key is asked for, and the state after it. -/
def heartbeat (X : Setup) (u : Past → Bool) (id : String) (addr : SocketAddr) (t : Server) :
    Bool × Server :=
  let (requestPk, _, t') := (updateAddrCore id addr).solo (Op.sem X) (outage u) [] t
  (requestPk, t')

/-- A heartbeat from `addr` is answered that the key is not wanted, and the entry has `addr`. -/
def Settles (X : Setup) (u : Past → Bool) (id : String) (addr : SocketAddr) (t : Server) : Prop :=
  (heartbeat X u id addr t).1 = false ∧
    ∃ p, HasEntry (heartbeat X u id addr t).2 id p ∧ p.socketAddr = addr

theorem settles_iff {t : Server} {id : String} {p : Peer} (hp : HasEntry t id p)
    (addr : SocketAddr) :
    Settles X u id addr t ↔ p.pk ≠ [] ∧ Server.ipChange p addr = false := by
  obtain ⟨r, hmap, hcell⟩ := hp
  have hread : ∀ up, ({ t with dbUp := up } : Server).cell r = p := by
    intro up
    show (t.cells r).getD _ = p
    rw [hcell]
    rfl
  have hbeat : heartbeat X u id addr t =
      (outage u [⟨.mapGet id, outage u [] t⟩] (outage u [] t)).writeHeartbeat r addr := by
    have hget : (Op.sem X (.mapGet id) (outage u [] t)).1 = some r := hmap
    unfold heartbeat updateAddrCore getInMemory
    simp only [perform, op, call_bind, solo_call, hget]
    rfl
  unfold Settles
  rw [hbeat]
  unfold Server.writeHeartbeat
  rw [show (outage u [⟨.mapGet id, outage u [] t⟩] (outage u [] t)).cell r = p from hread _]
  dsimp only
  by_cases hask : (p.pk.isEmpty || Server.ipChange p addr) = true
  · rw [if_pos hask]
    refine iff_of_false (fun hset => ?_) fun ⟨hpk, hchange⟩ => ?_
    · rw [hset.1] at hask
      cases hask
    · rw [hchange, Bool.or_false, List.isEmpty_iff] at hask
      exact hpk hask
  · rw [if_neg hask]
    have hask' : (p.pk.isEmpty || Server.ipChange p addr) = false := by simpa using hask
    rw [hask']
    obtain ⟨hpk, hchange⟩ := Bool.or_eq_false_iff.1 hask'
    refine iff_of_true ⟨rfl, _, ⟨r, hmap, setCell_self hcell _⟩, rfl⟩ ⟨fun hempty => ?_, hchange⟩
    rw [hempty] at hpk
    cases hpk

/-- The address has changed for an entry whose ip is that of `addr`: it was heard of at another. -/
theorem ipChange_iff {p : Peer} {addr : SocketAddr} (hip : p.ip = addr.ip.toText) :
    Server.ipChange p addr = true ↔ p.socketAddr.port ≠ 0 ∧ p.socketAddr.ip ≠ addr.ip ∧
      addr.ip.isLoopback = false := by
  unfold Server.ipChange
  rw [hip]
  by_cases hport : p.socketAddr.port ≠ 0
  · rw [if_pos hport, Bool.and_eq_true, bne_iff_ne, Bool.not_eq_true']
    constructor
    · rintro ⟨hip, hloop⟩
      exact ⟨hport, hip.symm, hloop⟩
    · rintro ⟨-, hip, hloop⟩
      exact ⟨hip.symm, hloop⟩
  · simp [hport]

/-- The entry has the registration already, and was last heard of at another address. -/
def HeardElsewhere (s : Server) (rk : RegisterPk) (addr : SocketAddr) : Prop :=
  ∃ old, HasEntry s rk.id old ∧ HasAlready old rk addr ∧ old.socketAddr.port ≠ 0 ∧
    old.socketAddr.ip ≠ addr.ip ∧ addr.ip.isLoopback = false

/-- From `s` to `t` no frame of the peer has been handled: of what such a frame writes to its entry,
nothing has changed. -/
def NoFrameOf (id : String) (s t : Server) : Prop :=
  ∀ p, HasEntry s id p → ∃ q, HasEntry t id q ∧ q.pk = p.pk ∧ q.ip = p.ip ∧
    q.socketAddr = p.socketAddr

/-- A registration is answered OK, and the next frame of the peer is a heartbeat from the same
address: the key is not asked for and the address is stored, exactly if the entry was not one that
had the registration and was heard of elsewhere. -/
theorem registration_settles_iff (X : Setup)
    {C : List Step → Pool Op Op.Res Server Job → Choice Job Env → Prop} (l : List Step)
    (p : Pool Op Op.Res Server Job) (hr : (hbbs X).Run Server.Booted C l p) (u u' : Past → Bool)
    (rk : RegisterPk) (addr : SocketAddr)
    (hok : (registration X u rk addr p.shared).1 = some .ok) (t : Server)
    (hnext : NoFrameOf rk.id (registration X u rk addr p.shared).2.2 t) :
    Settles X u' rk.id addr t ↔ ¬HeardElsewhere p.shared rk addr := by
  obtain ⟨hpk, old, e, hold, he, hepk, heip, haddr⟩ :=
    registerPkCore_entry (X := X) (u := u) (h := []) (Run.allocated hr) rk addr hok
  obtain ⟨q, hq, hqpk, hqip, hqaddr⟩ := hnext e he
  have hne : q.pk ≠ [] := by
    rw [hqpk, hepk]
    exact hpk
  rw [settles_iff hq, and_iff_right hne, ← Bool.not_eq_true, not_iff_not,
    ipChange_iff (hqip.trans heip), hqaddr, haddr]
  constructor
  · rintro ⟨hport, hip, hloop⟩
    by_cases hhas : HasAlready old rk addr
    · rw [if_pos hhas] at hport hip
      rcases hold with hentry | ⟨-, hzero⟩
      · exact ⟨old, hentry, hhas, hport, hip, hloop⟩
      · exact absurd hzero hport
    · rw [if_neg hhas] at hip
      exact absurd rfl hip
  · rintro ⟨old', ⟨r', hmap', hcell'⟩, hhas, hport, hip, hloop⟩
    have heq : old' = old := by
      rcases hold with ⟨r, hmap, hcell⟩ | ⟨hnone, -⟩
      · obtain rfl := Option.some.inj (hmap.symm.trans hmap')
        exact Option.some.inj (hcell'.symm.trans hcell)
      · cases hnone.symm.trans hmap'
    subst heq
    rw [if_pos hhas]
    exact ⟨hport, hip, hloop⟩

namespace Sample

/-- The client at `10.0.0.2`, and one on the server's own machine. -/
def remoteAddr : SocketAddr := (task 2).addr

def loopbackTask : Task := ⟨.v4 ⟨127, 0, 0, 1⟩ 1000, 0, [], ["relay"]⟩

def target : RegisterPk := ⟨"target1", [1], [1]⟩

/-- `target1` registers from `10.0.0.2`; if `onLoopback`, a heartbeat in its name then comes from
the server's own machine. -/
def heardRun (onLoopback : Bool) : List (Choice Job Env) :=
  let beat : RendezvousMessage := .registerPeer ⟨"target1", 0⟩
  register 0 0 2 "target1" ++
    (if onLoopback then play 1 (.handshake 1 loopbackTask (some (some beat))) else [])

theorem exists_heard (onLoopback : Bool) : ∃ l p,
    (hbbs (setup .offer false)).Run Server.Booted System.Free l p ∧
      (registration (setup .offer false) (fun _ => true) target remoteAddr p.shared).1 = some .ok ∧
      (heartbeat (setup .offer false) (fun _ => true) "target1" remoteAddr
        (registration (setup .offer false) (fun _ => true) target remoteAddr p.shared).2.2).1 =
          onLoopback := by
  obtain ⟨l, p, hr, ht⟩ := exists_run (setup .offer false) [] (heardRun onLoopback)
    (fun _ p => decide ((registration (setup .offer false) (fun _ => true) target remoteAddr
        p.shared).1 = some .ok) &&
      decide ((heartbeat (setup .offer false) (fun _ => true) "target1" remoteAddr
        (registration (setup .offer false) (fun _ => true) target remoteAddr p.shared).2.2).1 =
          onLoopback))
    (by cases onLoopback <;> decide +kernel)
  simp only [Bool.and_eq_true, decide_eq_true_iff] at ht
  exact ⟨l, p, hr, ht.1, ht.2⟩

theorem noFrameOf_refl (id : String) (s : Server) : NoFrameOf id s s :=
  fun p hp => ⟨p, hp, rfl, rfl, rfl⟩

theorem registration_settles_remote : ∃ l p t,
    (hbbs (setup .offer false)).Run Server.Booted System.Free l p ∧
      (registration (setup .offer false) (fun _ => true) target remoteAddr p.shared).1 = some .ok ∧
      NoFrameOf target.id
        (registration (setup .offer false) (fun _ => true) target remoteAddr p.shared).2.2 t ∧
      (Settles (setup .offer false) (fun _ => true) target.id remoteAddr t ↔
        ¬HeardElsewhere p.shared target remoteAddr) := by
  obtain ⟨l, p, hr, hok, -⟩ := exists_heard false
  have hnext := noFrameOf_refl target.id
    (registration (setup .offer false) (fun _ => true) target remoteAddr p.shared).2.2
  exact ⟨l, p, _, hr, hok, hnext, registration_settles_iff (setup .offer false) l p hr
    (fun _ => true) (fun _ => true) target remoteAddr hok _ hnext⟩

/-- After a heartbeat from the server's own machine the client registers again, is answered OK, and
its heartbeat is answered that its key is wanted. -/
theorem not_registration_settles : ∃ X l p u u' rk addr t,
    (hbbs X).Run Server.Booted System.Free l p ∧
      (registration X u rk addr p.shared).1 = some .ok ∧
      NoFrameOf rk.id (registration X u rk addr p.shared).2.2 t ∧ ¬Settles X u' rk.id addr t := by
  obtain ⟨l, p, hr, hok, hasked⟩ := exists_heard true
  refine ⟨setup .offer false, l, p, fun _ => true, fun _ => true, target, remoteAddr, _, hr, hok,
    noFrameOf_refl _ _, fun hset => ?_⟩
  have hkey := hset.1
  rw [show (heartbeat (setup .offer false) (fun _ => true) target.id remoteAddr _).1 = true from
    hasked] at hkey
  cases hkey

end Sample

end NemoServer
