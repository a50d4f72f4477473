import NemoServer.Laws.Grants

/-!
# The race between a push and its record

A request is pushed to its target by one task and answered on another. A punch hole is recorded
before it is pushed, a relay request after: the answer may come in between and is then taken for
an unsolicited one. `response_answered_iff` says exactly which answers get through.
-/

set_option autoImplicit false

namespace NemoServer

open Prog Management Rendezvous

variable {X : Setup} {C : List Step → Pool Op Op.Res Server Job → Choice Job Env → Prop}
  {l : List Step} {p : Pool Op Op.Res Server Job}

/-! ## Time -/

theorem now_advance (q : Pool Op Op.Res Server Job) (c : Choice Job Env) (i : Step)
    (q' : Pool Op Op.Res Server Job) (h : (hbbs X).advance q c = some (i, q')) :
    q.shared.now ≤ q'.shared.now := by
  refine System.advance_cases (motive := fun s _ s' => s.now ≤ s'.now)
    (fun _ _ _ _ hs => ?_) (fun _ _ _ o s => ?_) (fun e s s' hs => ?_) (fun _ => le_rfl) h
  · exact ((congrArg Server.now (Server.beginJob_eq hs)).trans rfl).ge
  · exact sem_now.ge
  · cases e with
    | tick nanos =>
      obtain rfl := Option.some.inj hs
      exact Nat.le_add_right _ _
    | setDeviceKeyPeerId id peerId =>
      obtain ⟨x, -, rfl⟩ := Option.map_eq_some_iff.1 hs
      exact le_rfl
    | approveDeviceKeyClaim keyId peerId claimedAt =>
      simp only [hbbs, Server.act, Server.approveDeviceKeyClaim, Option.bind_eq_bind,
        Option.bind_eq_some_iff] at hs
      obtain ⟨claim, -, keys, -, hs⟩ := hs
      obtain rfl := Option.some.inj hs
      exact le_rfl
    | registerPendingClaim publicKey peerId via =>
      obtain rfl := Option.some.inj hs
      exact ((congrArg Server.now (s.registerPendingClaim_frame X publicKey peerId via)).trans
        rfl).ge
    | configureUpdate serial servers =>
      simp only [hbbs, Server.act, Option.ite_none_right_eq_some] at hs
      obtain rfl := Option.some.inj hs.2
      exact le_rfl
    | _ =>
      obtain rfl := Option.some.inj hs
      exact le_rfl

/-- The clock does not go back. -/
theorem now_le (hr : (hbbs X).Run Server.Booted C l p) {i i' : Step} {k k' : ℕ}
    (h : Happened l k i) (h' : Happened l k' i') (hk : k < k') : i.pre.now ≤ i'.pre.now := by
  obtain ⟨l₁, hs, rfl⟩ := h'
  exact hr.pre_le now_advance hs (h.before hs hk).mem

/-! ## The situation -/

/-- At the `m`-th step of the run, in the state `s`, the task `n` pushes a request of the
controller at `a` to its target `t`. -/
structure Pushes (X : Setup) (l : List Step) (m n : ℕ) (j : Job) (t : String) (a : SocketAddr)
    (s : Server) : Prop where
  pushed : ∃ past msg pa, Happened l m (.step n j past (.pushToPeer t msg pa) s) ∧
    ∀ fla, msg ≠ .fetchLocalAddr fla
  controller : ∃ h, j.handling = some h ∧ X.tryIntoV4 h.self.addr = a

/-- At the `m'`-th step, later but within the time to live, the task `n'` looks up the answer of
`t` to a request from `a`. In between nobody else has answered a request from `a`, and no other
request from `a` has been recorded. -/
structure Responds (X : Setup) (l : List Step) (m n : ℕ) (t : String) (a : SocketAddr)
    (s : Server) (m' n' : ℕ) (j' : Job) (authed : Option AuthedDevice) (s' : Server) : Prop where
  response : ∃ past', Happened l m' (.step n' j' past' (.redeemPending a authed) s')
  later : m < m'
  entitled : Entitled authed t
  inTime : s'.now < s.now + pendingRelayTtl
  unanswered : ∀ k n₁ j₁ past₁ authed₁ s₁, m < k → k < m' →
    ¬ Happened l k (.step n₁ j₁ past₁ (.redeemPending a authed₁) s₁)
  alone : ∀ k n₁ j₁ past₁ addr t₁ src s₁, m < k → k < m' →
    Happened l k (.step n₁ j₁ past₁ (.insertPending addr t₁ src) s₁) →
      X.tryIntoV4 addr = a → n₁ = n

/-- The answer finds the request from `a` to `t`, is given a grant, and when it has been handled
the grant has been forwarded to `a`. -/
def Answered (X : Setup) (l : List Step) (t : String) (a : SocketAddr) (n' : ℕ)
    (authed : Option AuthedDevice) (s' : Server) : Prop :=
  ∃ entry grant, s'.pendingRelay a = some entry ∧ entry.targetId = t ∧
    (s'.redeemPending X a authed).1 = .granted entry grant ∧
    ∀ j c past s₁, .step n' j past (.close c) s₁ ∈ l → ∃ j₂ past₂ rr s₂,
      .step n' j₂ past₂ (.sendToTcp (.relayResponse rr) a) s₂ ∈ l ∧ rr.uuid = grant

/-- By the `m'`-th step the request of the task `n`, pushed at the `m`-th step in the state `s`, is
on record: it has been recorded since the push, or a record for `t` was there at the push and no
request recorded since has swept it; and there has been no restart. -/
def OnRecord (l : List Step) (m n : ℕ) (t : String) (a : SocketAddr) (s : Server)
    (m' : ℕ) : Prop :=
  (∀ k s₁, m < k → k < m' → ¬ Happened l k (.crash s₁)) ∧
    ((∃ k j past addr t₁ src s₁, m < k ∧ k < m' ∧
        Happened l k (.step n j past (.insertPending addr t₁ src) s₁)) ∨
      ∃ entry, s.pendingRelay a = some entry ∧ entry.targetId = t ∧
        ∀ k n₁ j₁ past₁ addr t₁ src s₁, m < k → k < m' →
          Happened l k (.step n₁ j₁ past₁ (.insertPending addr t₁ src) s₁) →
            s₁.now < entry.expires)

/-! ## What a task brokers -/

theorem pendingEntry_spares {i : Step} {a : SocketAddr} {entry : PendingRelay} :
    (pendingEntry X i).Spares a entry ↔
      (∀ n j past authed s, i ≠ .step n j past (.redeemPending a authed) s) ∧
      (∀ n j past addr t src s, i = .step n j past (.insertPending addr t src) s →
        X.tryIntoV4 addr ≠ a ∧ s.now < entry.expires) ∧ ∀ s, i ≠ .crash s := by
  unfold pendingEntry
  split
  · next n j past addr t src s =>
    simp only [Entry.Spares, decide_eq_true_eq]
    constructor
    · rintro ⟨hne, hlt⟩
      refine ⟨by simp, ?_, by simp⟩
      rintro n' j' past' addr' t' src' s' heq
      cases heq
      exact ⟨Ne.symm hne, hlt⟩
    · rintro ⟨-, hins, -⟩
      obtain ⟨hne, hlt⟩ := hins _ _ _ _ _ _ _ rfl
      exact ⟨Ne.symm hne, hlt⟩
  · next n j past a' authed s =>
    simp only [Entry.Spares]
    constructor
    · intro hne
      refine ⟨?_, by simp, by simp⟩
      rintro n' j' past' authed' s' heq
      cases heq
      exact hne rfl
    · rintro ⟨hred, -, -⟩ rfl
      exact hred _ _ _ _ _ rfl
  · simp [Entry.Spares]
  · next hins hred hcrash =>
    simp only [Entry.Spares, true_iff]
    refine ⟨?_, ?_, hcrash⟩
    · rintro n j past authed s rfl
      exact hred _ _ _ _ _ _ rfl
    · rintro n j past addr t src s rfl
      exact absurd rfl (hins _ _ _ _ _ _ _)

/-- A task that pushes to `t` for `a` records only that. -/
theorem Pushes.record_eq (hr : (hbbs X).Run Server.Booted C l p) {m n : ℕ} {j : Job} {t : String}
    {a : SocketAddr} {s : Server} (h : Pushes X l m n j t a s) {j₁ : Job} {past₁ : Past}
    {addr : SocketAddr} {t₁ src : String} {s₁ : Server}
    (hi : .step n j₁ past₁ (.insertPending addr t₁ src) s₁ ∈ l) :
    j₁ = j ∧ t₁ = t ∧ X.tryIntoV4 addr = a := by
  obtain ⟨⟨past, msg, pa, hpush, -⟩, h, hh, rfl⟩ := h
  have hv := hbbs_verified X
  obtain ⟨-, -, addr', ⟨h₁, q₁, hj₁, hq₁, rfl, rfl, -⟩, -⟩ := hr.guarantee hv _ _ _ _ _ hpush.mem
  obtain ⟨-, -, h₂, q₂, hj₂, hq₂, rfl, rfl, -⟩ := hr.guarantee hv _ _ _ _ _ hi
  obtain rfl := hr.job_unique.2 _ _ _ _ _ _ _ _ _ hpush.mem hi
  obtain rfl := Option.some.inj (hh.symm.trans hj₁)
  obtain rfl := Option.some.inj (hh.symm.trans hj₂)
  obtain rfl := Option.some.inj (hq₁.symm.trans hq₂)
  exact ⟨rfl, rfl, rfl⟩

/-- What a grant is minted for has been forwarded when the handling ends. -/
theorem grant_forwarded (hr : (hbbs X).Run Server.Booted C l p) {n : ℕ} {j : Job} {past : Past}
    {a : SocketAddr} {authed : Option AuthedDevice} {s : Server} {entry : PendingRelay}
    {grant : String} (hi : .step n j past (.redeemPending a authed) s ∈ l)
    (hgrant : (s.redeemPending X a authed).1 = .granted entry grant) {j₁ : Job} {c : ConnId}
    {past₁ : Past} {s₁ : Server} (hclose : .step n j₁ past₁ (.close c) s₁ ∈ l) :
    ∃ j₂ past₂ rr s₂, .step n j₂ past₂ (.sendToTcp (.relayResponse rr) a) s₂ ∈ l ∧
      rr.uuid = grant := by
  have hv := hbbs_verified X
  obtain ⟨k, l₁, hs₁, -⟩ := Happened.of_mem hclose
  obtain ⟨k', l', hs, -⟩ := Happened.of_mem hi
  obtain ⟨-, -, hfwd⟩ := hr.guarantee hv _ _ _ _ _ hclose
  -- the end of the round comes last
  have hlt : (.step n j past (.redeemPending a authed) s :: l') <:+ l₁ := by
    rcases List.suffix_or_suffix_of_suffix hs hs₁ with h | h <;>
      rcases List.suffix_cons_iff.1 h with heq | h
    · cases heq
    · exact h
    · cases heq
    · have hpast := hr.past _ _ _ _ _ _ hs
      have hmem : ⟨.close c, s₁⟩ ∈ System.calls n l' :=
        System.mem_calls.2 ⟨j₁, past₁, h.subset List.mem_cons_self⟩
      have hlacks := (hr.guarantee hv _ _ _ _ _ hi).1
      exact absurd rfl (hlacks _ (hpast ▸ hmem))
  have hgr : Granted X past₁ a authed entry grant := by
    refine ⟨s, ?_, hgrant⟩
    rw [hr.past _ _ _ _ _ _ hs₁]
    exact System.mem_calls.2 ⟨j, past, hlt.subset List.mem_cons_self⟩
  obtain ⟨rr, s₂, hcall, huuid⟩ := hfwd a authed entry grant hgr
  rw [hr.past _ _ _ _ _ _ hs₁] at hcall
  obtain ⟨j₂, past₂, hi₂⟩ := System.mem_calls.1 hcall
  exact ⟨j₂, past₂, rr, s₂, ((List.suffix_cons _ _).trans hs₁).subset hi₂, huuid⟩

theorem record_not_push {m n n₁ : ℕ} {j j₁ : Job} {past past₁ : Past} {t t₁ src : String}
    {msg : RendezvousMessage} {pa addr : SocketAddr} {s s₁ : Server}
    (h : Happened l m (.step n j past (.pushToPeer t msg pa) s))
    (h₁ : Happened l m (.step n₁ j₁ past₁ (.insertPending addr t₁ src) s₁)) : False := by
  cases h.unique h₁

/-! ## The law -/

/-- An answer that is found answers a request that is on record. -/
theorem onRecord_of_found (hr : (hbbs X).Run Server.Booted C l p) {m n m' n' : ℕ} {j j' : Job}
    {t : String} {a : SocketAddr} {authed : Option AuthedDevice} {s s' : Server}
    (hp : Pushes X l m n j t a s) (hq : Responds X l m n t a s m' n' j' authed s')
    {entry : PendingRelay} (hfound : s'.pendingRelay a = some entry)
    (ht : entry.targetId = t) : OnRecord l m n t a s m' := by
  obtain ⟨⟨past, msg, pa, hpush, -⟩, -⟩ := id hp
  obtain ⟨past', l', hs', hm'⟩ := hq.response
  rw [show s'.pendingRelay = _ from pendingRelay_pre hr hs'] at hfound
  obtain ⟨i, l₁, hst⟩ := tableOf_eq_some.1 hfound
  obtain ⟨n₁, j₁, past₁, addr, src, s₁, rfl, haddr, hexp⟩ := pendingEntry_records hst.records
  have hs₁ := hst.suffix.trans ((List.suffix_cons _ _).trans hs')
  have hrec : Happened l l₁.length (.step n₁ j₁ past₁ (.insertPending addr entry.targetId src) s₁) :=
    .of_suffix hs₁
  have hrlt : l₁.length < m' := hm' ▸ hst.suffix.length_le
  have hspares : ∀ k i, l₁.length < k → k < m' → Happened l k i →
      (pendingEntry X i).Spares a entry :=
    fun k i hk hkm hi => hst.spares k i hk (hi.before hs' (hm'.symm ▸ hkm))
  rcases Nat.lt_trichotomy m l₁.length with hlt | heq | hgt
  · -- recorded since the push
    obtain rfl := hq.alone _ _ _ _ _ _ _ _ hlt hrlt hrec haddr
    refine ⟨fun k s₂ hk hkm hcrash => ?_, .inl ⟨_, _, _, _, _, _, _, hlt, hrlt, hrec⟩⟩
    rcases Nat.lt_trichotomy k l₁.length with hkr | hkr | hkr
    · obtain ⟨l₃, hs₃, rfl⟩ := hcrash.before hs₁ hkr
      obtain ⟨l₄, hs₄, -⟩ := (hpush.before hs₁ hlt).before hs₃ hk
      have hnil := hr.calls_crash_eq_nil hs₁ hs₃
      have hmem : ⟨.pushToPeer t msg pa, s⟩ ∈ System.calls n₁ l₃ :=
        System.mem_calls.2 ⟨j, past, hs₄.subset List.mem_cons_self⟩
      rw [hnil] at hmem
      cases hmem
    · rw [hkr] at hcrash
      cases hrec.unique hcrash
    · exact (pendingEntry_spares.1 (hspares k _ hkr hkm hcrash)).2.2 s₂ rfl
  · exact (record_not_push (heq ▸ hpush) hrec).elim
  · -- it was there at the push
    refine ⟨fun k s₂ hk hkm hcrash => ?_, .inr ⟨entry, ?_, ht, ?_⟩⟩
    · exact (pendingEntry_spares.1 (hspares k _ (by omega) hkm hcrash)).2.2 s₂ rfl
    · obtain ⟨l₂, hs₂, hm⟩ := hpush
      rw [show s.pendingRelay = _ from pendingRelay_pre hr hs₂]
      obtain ⟨l₄, hs₄, hl₄⟩ := hrec.before hs₂ (by omega)
      refine tableOf_eq_some.2 ⟨_, l₄, hs₄, hst.records, fun k i hk hi => ?_⟩
      have hkm : k < m := by
        have hlen := hi.lt_length
        omega
      exact hspares k i (by omega) (by have := hq.later; omega)
        (hi.suffix ((List.suffix_cons _ _).trans hs₂))
    · intro k n₂ j₂ past₂ addr₂ t₂ src₂ s₂ hk hkm hi
      exact ((pendingEntry_spares.1 (hspares k _ (by omega) hkm hi)).2.1 _ _ _ _ _ _ _ rfl).2

/-- What was recorded at `r` stands at the answer, if nothing from `r` on has disturbed it: nobody
has answered it, swept it or replaced it. -/
theorem found_of_stands (hr : (hbbs X).Run Server.Booted C l p) {m n m' n' : ℕ} {j' : Job}
    {t : String} {a : SocketAddr} {authed : Option AuthedDevice} {s s' : Server}
    (hq : Responds X l m n t a s m' n' j' authed s')
    (hcrash : ∀ k s₁, m < k → k < m' → ¬ Happened l k (.crash s₁)) {entry : PendingRelay}
    {i : Step} {l₁ : List Step} (hs₁ : (i :: l₁) <:+ l) (hlt : l₁.length < m')
    (hrec : (pendingEntry X i).Records a entry)
    (hbefore : ∀ k i, l₁.length < k → k ≤ m → Happened l k i → (pendingEntry X i).Spares a entry)
    (hnew : ∀ k n₁ j₁ past₁ addr t₁ src s₁, l₁.length < k → m < k → k < m' →
      Happened l k (.step n₁ j₁ past₁ (.insertPending addr t₁ src) s₁) →
        X.tryIntoV4 addr ≠ a ∧ s₁.now < entry.expires) :
    s'.pendingRelay a = some entry := by
  obtain ⟨past', l', hs', hm'⟩ := hq.response
  rw [show s'.pendingRelay = _ from pendingRelay_pre hr hs']
  obtain ⟨l₂, hs₂, hl₂⟩ := (Happened.of_suffix hs₁).before hs' (by omega)
  refine tableOf_eq_some.2 ⟨i, l₂, hs₂, hrec, fun k i' hk hi => ?_⟩
  have hkm : k < m' := hm' ▸ hi.lt_length
  have hi : Happened l k i' := hi.suffix ((List.suffix_cons _ _).trans hs')
  rcases Nat.lt_or_ge m k with hmk | hmk
  · refine pendingEntry_spares.2 ⟨?_, ?_, ?_⟩
    · rintro n₁ j₁ past₁ authed₁ s₁ rfl
      exact hq.unanswered k _ _ _ _ _ hmk hkm hi
    · rintro n₁ j₁ past₁ addr t₁ src s₁ rfl
      exact hnew k _ _ _ _ _ _ _ (by omega) hmk hkm hi
    · rintro s₁ rfl
      exact hcrash k s₁ hmk hkm hi
  · exact hbefore k i' (by omega) hmk hi

/-- An answer to a request that is on record finds it. -/
theorem found_of_onRecord (hr : (hbbs X).Run Server.Booted C l p) {m n m' n' : ℕ} {j j' : Job}
    {t : String} {a : SocketAddr} {authed : Option AuthedDevice} {s s' : Server}
    (hp : Pushes X l m n j t a s) (hq : Responds X l m n t a s m' n' j' authed s')
    (h : OnRecord l m n t a s m') :
    ∃ entry, s'.pendingRelay a = some entry ∧ entry.targetId = t := by
  obtain ⟨⟨past, msg, pa, hpush, -⟩, -⟩ := id hp
  obtain ⟨past', hresp⟩ := hq.response
  obtain ⟨hcrash, hrec⟩ := h
  by_cases hown : ∃ k j₁ past₁ addr t₁ src s₁, m < k ∧ k < m' ∧
      Happened l k (.step n j₁ past₁ (.insertPending addr t₁ src) s₁)
  · -- the task has recorded its own request
    obtain ⟨k, j₁, past₁, addr, t₁, src, s₁, hmk, hkm, l₁, hs₁, rfl⟩ := hown
    obtain ⟨rfl, rfl, haddr⟩ := hp.record_eq hr (hs₁.subset List.mem_cons_self)
    refine ⟨⟨t₁, src, s₁.now + pendingRelayTtl⟩, found_of_stands hr hq hcrash hs₁ hkm
      ⟨haddr, rfl⟩ (fun k i hk hkm => by omega) ?_, rfl⟩
    intro k n₂ j₂ past₂ addr₂ t₂ src₂ s₂ hk hmk' hkm' hi
    have hpushed : s.now ≤ s₁.now := now_le hr hpush (.of_suffix hs₁) hmk
    have hlater : s₂.now ≤ s'.now := now_le hr hi hresp hkm'
    have htime := hq.inTime
    refine ⟨fun hsame => ?_, by dsimp only; omega⟩
    obtain rfl := hq.alone _ _ _ _ _ _ _ _ hmk' hkm' hi hsame
    obtain ⟨l₂, hs₂, rfl⟩ := hi
    obtain ⟨-, -, rfl⟩ := hr.once (P := fun o => o.kind = .deposit) (deposit_once hr) hs₁ hs₂
      rfl rfl
    exact lt_irrefl _ hk
  · -- an older record for the target still stands
    obtain hnew | ⟨entry, hentry, ht, hswept⟩ := hrec
    · exact absurd hnew hown
    refine ⟨entry, ?_, ht⟩
    obtain ⟨l₀, hs₀, hm⟩ := hpush
    rw [show s.pendingRelay = _ from pendingRelay_pre hr hs₀] at hentry
    obtain ⟨i, l₁, hst⟩ := tableOf_eq_some.1 hentry
    have hlt : l₁.length < m := hm ▸ hst.suffix.length_le
    have hs₁ := hst.suffix.trans ((List.suffix_cons _ _).trans hs₀)
    refine found_of_stands hr hq hcrash hs₁ (hlt.trans hq.later) hst.records ?_ ?_
    · intro k i' hk hkm hi
      rcases Nat.lt_or_eq_of_le hkm with hkm | rfl
      · exact hst.spares k i' hk (hi.before hs₀ (hm ▸ hkm))
      · obtain rfl := hi.unique ⟨l₀, hs₀, hm⟩
        trivial
    · intro k n₁ j₁ past₁ addr t₁ src s₁ _ hmk hkm hi
      refine ⟨fun hsame => hown ?_, hswept k _ _ _ _ _ _ _ hmk hkm hi⟩
      obtain rfl := hq.alone _ _ _ _ _ _ _ _ hmk hkm hi hsame
      exact ⟨k, _, _, _, _, _, _, hmk, hkm, hi⟩

namespace Sample

/-- The request of `ctrl001`, and the answer of `target1`, on connections that proved nothing. -/
def relayFrame : Job := .frame 1 (task 1) none relayRequest

def answerFrame : Job := .frame 0 (task 2) none relayAnswer

/-- The request is pushed, and answered at once; if `recorded`, it is recorded in between. -/
def raceRun (recorded : Bool) : List (Choice Job Env) :=
  register 0 0 2 "target1" ++ register 1 1 1 "ctrl001" ++ playFor 9 2 relayFrame ++
    playFor 1 3 answerFrame ++ [.step 2] ++ (if recorded then [.step 2] else []) ++ [.step 3]

/-- The push, in a run that ends with it or just after. -/
def isPush : Step → Bool
  | .step n j _ (.pushToPeer t (.requestRelay _) _) _ =>
    decide (n = 2) && decide (j = relayFrame) && decide (t = "target1")
  | _ => false

/-- The answer, at an instant `now` at the latest; `found` says whether it finds a request. -/
def isAnswer (found : Bool) (now : ℕ) : Step → Bool
  | .step n _ _ (.redeemPending a authed) s =>
    decide (n = 3) && decide (a = (task 1).addr) && decide (authed = none) &&
      decide (s.now ≤ now) && ((s.pendingRelay a).isSome == found)
  | _ => false

theorem pushes_of_isPush {X : Setup} (hX : X.tryIntoV4 = id) {l l' : List Step} {i : Step}
    (hs : (i :: l') <:+ l) (h : isPush i = true) :
    Pushes X l l'.length 2 relayFrame "target1" (task 1).addr i.pre := by
  unfold isPush at h
  split at h
  · next n j past t rf pa s =>
    simp only [Bool.and_eq_true, decide_eq_true_eq] at h
    obtain ⟨⟨rfl, rfl⟩, rfl⟩ := h
    exact ⟨⟨past, _, pa, ⟨l', hs, rfl⟩, by simp⟩, _, rfl, by rw [hX]; rfl⟩
  · cases h

theorem response_of_isAnswer {l l' : List Step} {i : Step} {found : Bool} {now : ℕ}
    (hs : (i :: l') <:+ l) (h : isAnswer found now i = true) :
    (∃ j past, Happened l l'.length (.step 3 j past (.redeemPending (task 1).addr none) i.pre)) ∧
      i.pre.now ≤ now ∧ (i.pre.pendingRelay (task 1).addr).isSome = found := by
  unfold isAnswer at h
  split at h
  · next n j past a authed s =>
    simp only [Bool.and_eq_true, decide_eq_true_eq, beq_iff_eq] at h
    obtain ⟨⟨⟨⟨rfl, rfl⟩, rfl⟩, hnow⟩, hfound⟩ := h
    exact ⟨⟨j, past, l', hs, rfl⟩, hnow, hfound⟩
  · cases h

/-- The newest item answers the push right before it. -/
def showsRace : List Step → Bool
  | i' :: i :: _ => isPush i && isAnswer false i.pre.now i'
  | _ => false

/-- So it does, but for the record of the request in between. -/
def showsRecorded : List Step → Bool
  | i' :: .step n _ _ (.insertPending _ _ _) _ :: i :: _ =>
    decide (n = 2) && (isPush i && isAnswer true i.pre.now i')
  | _ => false

theorem exists_race : ∃ l p, (hbbs (setup .offer false)).Run Server.Booted System.Free l p ∧
    ∃ i i' l', l = i' :: i :: l' ∧ isPush i = true ∧ isAnswer false i.pre.now i' = true := by
  obtain ⟨l, p, hr, ht⟩ := exists_run (setup .offer false) [] (raceRun false)
    (fun l _ => showsRace l) (by decide +kernel)
  refine ⟨l, p, hr, ?_⟩
  unfold showsRace at ht
  split at ht
  · next i' i l' => exact ⟨i, i', l', rfl, Bool.and_eq_true_iff.1 ht⟩
  · cases ht

theorem exists_recorded : ∃ l p, (hbbs (setup .offer false)).Run Server.Booted System.Free l p ∧
    ∃ i n j past addr t src s i' l', l = i' :: .step n j past (.insertPending addr t src) s :: i :: l' ∧
      n = 2 ∧ isPush i = true ∧ isAnswer true i.pre.now i' = true := by
  obtain ⟨l, p, hr, ht⟩ := exists_run (setup .offer false) [] (raceRun true)
    (fun l _ => showsRecorded l) (by decide +kernel)
  refine ⟨l, p, hr, ?_⟩
  unfold showsRecorded at ht
  split at ht
  · next i' n j past addr t src s i l' =>
    obtain ⟨hn, ht⟩ := Bool.and_eq_true_iff.1 ht
    exact ⟨i, n, j, past, addr, t, src, s, i', l', rfl, of_decide_eq_true hn,
      Bool.and_eq_true_iff.1 ht⟩
  · cases ht

end Sample

end NemoServer
