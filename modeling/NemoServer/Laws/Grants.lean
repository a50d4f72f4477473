import NemoServer.Foundations.Ledger
import NemoServer.Laws.Mediation

/-!
# Relay grants

A request that is forwarded leaves a record under the address of the controller, and a
`RelayResponse` that finds one is given a grant. The table of these records is the ledger of the
run (`pendingRelay_eq`), so each fact about a grant is a fact about the history: when its record
was made, by whom, and what has happened since.
-/

set_option autoImplicit false

namespace NemoServer

open Prog Management Rendezvous

variable {X : Setup} {C : List Step → Pool Op Op.Res Server Job → Choice Job Env → Prop}
  {l : List Step} {p : Pool Op Op.Res Server Job}

/-! ## The ledger of pending requests -/

/-- What a step does to the pending requests: a request is recorded for the time to live, after
the expired ones are swept; a `RelayResponse` takes one out; a restart loses them all. -/
def pendingEntry (X : Setup) : Step → Entry SocketAddr PendingRelay
  | .step _ _ _ (.insertPending addr targetId sourceId) s =>
    .record (X.tryIntoV4 addr) ⟨targetId, sourceId, s.now + pendingRelayTtl⟩
      fun _ e => decide (s.now < e.expires)
  | .step _ _ _ (.redeemPending a _) _ => .take a
  | .crash _ => .clear
  | _ => .idle

theorem redeemPending_pendingRelay (a : SocketAddr) (authed : Option AuthedDevice) (s : Server) :
    (s.redeemPending X a authed).2.pendingRelay = s.pendingRelay.remove a := by
  unfold Server.redeemPending
  simp only
  split
  · rfl
  · split
    · rfl
    · split <;> rfl

theorem pendingRelay_step (n : ℕ) (j : Job) (past : Past) (o : Op) (s : Server) :
    (Op.sem X o s).2.pendingRelay =
      (pendingEntry X (.step n j past o s)).apply s.pendingRelay := by
  cases o with
  | insertPending addr targetId sourceId => rfl
  | redeemPending a authed => exact redeemPending_pendingRelay a authed s
  | _ => exact sem_pendingRelay (by simp [Op.kind]) (by simp [Op.kind])

theorem pendingRelay_advance (q : Pool Op Op.Res Server Job) (c : Choice Job Env) (i : Step)
    (q' : Pool Op Op.Res Server Job) (h : (hbbs X).advance q c = some (i, q')) :
    q'.shared.pendingRelay = (pendingEntry X i).apply q.shared.pendingRelay :=
  System.advance_cases
    (motive := fun s i s' => s'.pendingRelay = (pendingEntry X i).apply s.pendingRelay)
    (fun _ _ _ _ hs => (congrArg Server.pendingRelay (Server.beginJob_eq hs)).trans rfl)
    pendingRelay_step
    (fun _ _ _ hs => (congrArg Server.pendingRelay (Server.act_eq hs)).trans rfl)
    (fun _ => rfl) h

/-- The pending requests an item of a run finds are those of the history before it. -/
theorem pendingRelay_pre (hr : (hbbs X).Run Server.Booted C l p) {i : Step} {l' : List Step}
    (hs : (i :: l') <:+ l) : i.pre.pendingRelay = tableOf (pendingEntry X) l' :=
  hr.tableOf_pre (fun _ h => h.pendingRelay) pendingRelay_advance hs

/-! ## Freshness -/

/-- A responder may take the record of a request to `t`: it proved nothing, or that it is `t`. -/
def Entitled (authed : Option AuthedDevice) (t : String) : Prop :=
  ∀ who, authed = some who → who.peerId = t

theorem redeem_granted_iff {a : SocketAddr} {authed : Option AuthedDevice} {s : Server}
    {entry : PendingRelay} {grant : String} :
    (s.redeemPending X a authed).1 = .granted entry grant ↔ s.pendingRelay a = some entry ∧
      Entitled authed entry.targetId ∧ ∃ sk, X.sk = some sk ∧
        grant = X.relayGrantMint sk Setup.relayGrantTtlSecs s.clock s.uuids := by
  have hent : ∀ e : PendingRelay, ¬(authed.any fun who => who.peerId != e.targetId) = true ↔
      Entitled authed e.targetId := by
    intro e
    cases authed <;> simp [Entitled]
  unfold Server.redeemPending
  cases hp : s.pendingRelay a with
  | none => simp
  | some e =>
    simp only [Option.some.injEq]
    by_cases he : Entitled authed e.targetId
    · rw [if_neg ((hent e).2 he)]
      cases hsk : X.sk with
      | none => simp
      | some sk =>
        simp only [Redeem.granted.injEq, Option.some.injEq, exists_eq_left']
        constructor
        · rintro ⟨rfl, rfl⟩
          exact ⟨rfl, he, rfl⟩
        · rintro ⟨rfl, -, rfl⟩
          exact ⟨rfl, rfl⟩
    · rw [if_pos (not_not.1 (mt (hent e).1 he))]
      simp only [reduceCtorEq, false_iff]
      rintro ⟨rfl, he', -⟩
      exact he he'

/-- In the history `l'`, a request to which `authed` may answer was recorded under `a` for a time
that is over at `now`, and nothing since has replaced it, swept it or taken it out. -/
def Overdue (X : Setup) (l' : List Step) (a : SocketAddr) (authed : Option AuthedDevice)
    (now : ℕ) : Prop :=
  ∃ i l₁ entry, Stands (pendingEntry X) a entry l' i l₁ ∧ entry.expires ≤ now ∧
    Entitled authed entry.targetId

namespace Sample

/-- `ctrl001` asks for a relay to `target1`. -/
def relayRequest : Option RendezvousMessage :=
  some (.requestRelay ⟨"target1", [], "", none, some ⟨"ctrl001", [1], ""⟩, []⟩)

/-- `target1` answers `ctrl001`. -/
def relayAnswer : Option RendezvousMessage :=
  some (.relayResponse { socketAddr := mangleEncode (task 1).addr })

/-- A request is forwarded and recorded; its target answers after 61 seconds, on a connection that
proved nothing. -/
def overdueRun : List (Choice Job Env) :=
  register 0 0 2 "target1" ++ register 1 1 1 "ctrl001" ++
    play 2 (.frame 1 (task 1) none relayRequest) ++ [.env (.tick (secsToNanos 61))] ++
    playFor 2 3 (.frame 0 (task 2) none relayAnswer)

/-- The newest item redeems an entry that has expired. -/
def showsOverdue : List Step → Bool
  | .step _ _ _ (.redeemPending a authed) s :: _ =>
    match (s.redeemPending (setup .offer false) a authed).1 with
    | .granted entry _ => decide (entry.expires ≤ s.now)
    | _ => false
  | _ => false

theorem exists_overdue : ∃ l p, (hbbs (setup .offer false)).Run Server.Booted System.Free l p ∧
    ∃ n j past a authed s l' entry grant, l = .step n j past (.redeemPending a authed) s :: l' ∧
      (s.redeemPending (setup .offer false) a authed).1 = .granted entry grant ∧
      entry.expires ≤ s.now := by
  obtain ⟨l, p, hr, ht⟩ := exists_run (setup .offer false) [] overdueRun
    (fun l _ => showsOverdue l) (by decide +kernel)
  refine ⟨l, p, hr, ?_⟩
  unfold showsOverdue at ht
  split at ht
  · next n j past a authed s l' =>
    split at ht
    · next entry grant hgrant =>
      exact ⟨n, j, past, a, authed, s, l', entry, grant, rfl, hgrant, of_decide_eq_true ht⟩
    · cases ht
  · cases ht

end Sample

theorem pendingEntry_records {i : Step} {a : SocketAddr} {entry : PendingRelay}
    (h : (pendingEntry X i).Records a entry) : ∃ n j past addr src s,
      i = .step n j past (.insertPending addr entry.targetId src) s ∧ X.tryIntoV4 addr = a ∧
        entry.expires = s.now + pendingRelayTtl := by
  unfold pendingEntry at h
  split at h
  · next n j past addr t src s =>
    obtain ⟨rfl, rfl⟩ := h
    exact ⟨n, j, past, addr, src, s, rfl, rfl, rfl⟩
  · exact h.elim
  · exact h.elim
  · exact h.elim

/-- A task records at most one request. -/
theorem deposit_once (hr : (hbbs X).Run Server.Booted C l p) : ∀ n j past o s,
    .step n j past o s ∈ l → o.kind = .deposit → ∀ x ∈ past, x.op.kind ≠ .deposit := by
  intro n j past o s hi ho
  have hrule := (hr.guarantee (hbbs_verified X) n j past o s hi).2
  cases o with
  | insertPending addr t src => exact hrule.1
  | _ => cases ho

/-- A task takes out at most one request. -/
theorem redeem_once (hr : (hbbs X).Run Server.Booted C l p) : ∀ n j past o s,
    .step n j past o s ∈ l → o.kind = .redeem → ∀ x ∈ past, x.op.kind ≠ .redeem := by
  intro n j past o s hi ho
  have hrule := (hr.guarantee (hbbs_verified X) n j past o s hi).2
  cases o with
  | redeemPending a authed => exact hrule.1
  | _ => cases ho

/-- The task `j` brokered a request from the address `a` to the target `t`: it has passed every
gate, and the target was found in the peer map. -/
def Decided (X : Setup) (j : Job) (past : Past) (a : SocketAddr) (t : String) : Prop :=
  ∃ h q, j.handling = some h ∧ h.msg.request = some q ∧ q.target = t ∧
    X.tryIntoV4 h.self.addr = a ∧ Mediated X past h.authed q ∧ ∃ r, Held past t r

theorem decided_of_brokers (hr : (hbbs X).Run Server.Booted C l p) {n : ℕ} {j : Job} {past : Past}
    {o : Op} {s : Server} {l' : List Step} (hs : (.step n j past o s :: l') <:+ l) {t : String}
    {addr : SocketAddr} (h : Brokers X j past t addr) :
    Decided X j past (X.tryIntoV4 addr) t := by
  obtain ⟨h, q, hj, hq, rfl, rfl, hcl⟩ := h
  refine ⟨h, q, hj, hq, rfl, rfl, hcl.mediated fun hempty => ?_, hcl.found⟩
  obtain ⟨r, hheld⟩ := hcl.found
  have hlen := held_len hr ((List.suffix_cons _ _).trans hs) (hr.past _ _ _ _ _ _ hs ▸ hheld)
  rw [hempty] at hlen
  exact absurd hlen (by decide)

/-- Where a grant goes: to the address of the request it answers, and nowhere else. -/
theorem grant_delivered (hr : (hbbs X).Run Server.Booted C l p) {n : ℕ} {j : Job} {past : Past}
    {a : SocketAddr} {authed : Option AuthedDevice} {s : Server} {l' : List Step}
    {entry : PendingRelay} {grant : String}
    (hs : (.step n j past (.redeemPending a authed) s :: l') <:+ l)
    (hgrant : (s.redeemPending X a authed).1 = .granted entry grant) {past' : Past}
    {msg : RendezvousMessage} {a' : SocketAddr} {s' : Server}
    (hi : .step n j past' (.sendToTcp msg a') s' ∈ l) :
    a' = a ∧ ∃ rr, msg = .relayResponse rr ∧ rr.uuid = grant := by
  have hv := hbbs_verified X
  obtain ⟨-, -, h, rr, hj, hm, -, ha⟩ := hr.guarantee hv _ _ _ _ _ (hs.subset List.mem_cons_self)
  obtain ⟨-, -, h', hj', hans⟩ := hr.guarantee hv _ _ _ _ _ hi
  obtain rfl : h = h' := Option.some.inj (hj.symm.trans hj')
  simp only [Answers, hm] at hans
  obtain ⟨rfl, entry', grant', rr', ⟨s'', hcall, hgrant'⟩, rfl, huuid⟩ := hans
  obtain ⟨k, l'', hs', -⟩ := Happened.of_mem hi
  rw [hr.past _ _ _ _ _ _ hs'] at hcall
  obtain ⟨j'', past'', hi'⟩ := System.mem_calls.1 hcall
  obtain ⟨k', l₃, hs'', -⟩ := Happened.of_mem (((List.suffix_cons _ _).trans hs').subset hi')
  obtain ⟨hop, rfl, -⟩ := hr.once (P := fun o => o.kind = .redeem) (redeem_once hr) hs hs'' rfl rfl
  obtain ⟨rfl, rfl⟩ := Op.redeemPending.inj hop
  exact ⟨rfl, rr', rfl, huuid.trans (Redeem.granted.inj (hgrant'.symm.trans hgrant)).2⟩

/-- A grant takes out the entry of the address it goes to. -/
theorem takes_of_granted (hr : (hbbs X).Run Server.Booted C l p) {k n : ℕ} {j : Job} {past : Past}
    {a : SocketAddr} {authed : Option AuthedDevice} {s : Server} {entry : PendingRelay}
    {grant : String} (hi : Happened l k (.step n j past (.redeemPending a authed) s))
    (hgrant : (s.redeemPending X a authed).1 = .granted entry grant) :
    Takes (pendingEntry X) l k a entry := by
  obtain ⟨l', hs, hk⟩ := hi
  refine ⟨_, l', hs, hk, rfl, ?_⟩
  rw [← pendingRelay_pre hr hs]
  exact (redeem_granted_iff.1 hgrant).1

/-- What is taken out was put in before, by a task that decided so. -/
theorem inserted_of_source {k m : ℕ} {a : SocketAddr} {entry : PendingRelay}
    (h : Source (pendingEntry X) l k m a entry) : m < k ∧ ∃ n j past addr src s,
      Happened l m (.step n j past (.insertPending addr entry.targetId src) s) ∧
        X.tryIntoV4 addr = a := by
  refine ⟨h.lt, ?_⟩
  obtain ⟨i, l', hs, -, -, i', l₁, hst, hm⟩ := h
  obtain ⟨n, j, past, addr, src, s, rfl, ha, -⟩ := pendingEntry_records hst.records
  have hsuf := hst.suffix.trans ((List.suffix_cons _ _).trans hs)
  exact ⟨n, j, past, addr, src, s, ⟨l₁, hsuf, hm⟩, ha⟩

/-- Every grant answers a decision of its own: an earlier task, found by `f`, that brokered a
request from the very address the grant goes to, and to the peer that answers if it proved who it
is. -/
theorem grants_accounted (X : Setup) (l : List Step) (p : Pool Op Op.Res Server Job)
    (hr : (hbbs X).Run Server.Booted System.Free l p) : ∃ f : ℕ → ℕ,
    (∀ k n j past a authed s entry grant,
      Happened l k (.step n j past (.redeemPending a authed) s) →
      (s.redeemPending X a authed).1 = .granted entry grant →
        (∃ m < k, ∃ j' past' addr src s',
          Happened l m (.step (f k) j' past' (.insertPending addr entry.targetId src) s') ∧
            Decided X j' past' a entry.targetId) ∧
        (∀ who, authed = some who → who.peerId = entry.targetId) ∧
        ∀ past' msg a' s', .step n j past' (.sendToTcp msg a') s' ∈ l →
          a' = a ∧ ∃ rr, msg = .relayResponse rr ∧ rr.uuid = grant) ∧
    Set.InjOn f {k | ∃ n j past a authed s entry grant,
      Happened l k (.step n j past (.redeemPending a authed) s) ∧
        (s.redeemPending X a authed).1 = .granted entry grant} := by
  classical
  obtain ⟨g, hg, hinj⟩ := exists_source (pendingEntry X) l
  -- the entry that a grant takes out comes from the recording `g` names, which is of one task
  have hex : ∀ k, ∃ n, ∀ a entry, Takes (pendingEntry X) l k a entry → ∃ j past addr src s,
      Happened l (g k) (.step n j past (.insertPending addr entry.targetId src) s) ∧
        X.tryIntoV4 addr = a := by
    intro k
    by_cases h : ∃ a entry, Takes (pendingEntry X) l k a entry
    · obtain ⟨a, entry, ht⟩ := h
      obtain ⟨-, n, j, past, addr, src, s, hi, -⟩ := inserted_of_source (hg k a entry ht)
      refine ⟨n, fun a' entry' ht' => ?_⟩
      obtain ⟨-, n', j', past', addr', src', s', hi', ha'⟩ := inserted_of_source (hg k a' entry' ht')
      obtain ⟨rfl, -⟩ := Item.step.inj (hi.unique hi')
      exact ⟨j', past', addr', src', s', hi', ha'⟩
    · exact ⟨0, fun a entry ht => absurd ⟨a, entry, ht⟩ h⟩
  choose f hf using hex
  refine ⟨f, fun k n j past a authed s entry grant hi hgrant => ⟨?_, ?_, ?_⟩, ?_⟩
  · have ht := takes_of_granted hr hi hgrant
    obtain ⟨j', past', addr, src, s', hi', rfl⟩ := hf k a entry ht
    have ⟨l₁, hs₁, _⟩ := hi'
    have hrule := hr.guarantee (hbbs_verified X) _ _ _ _ _ (hs₁.subset List.mem_cons_self)
    exact ⟨g k, (hg k _ entry ht).lt, j', past', addr, src, s', hi', decided_of_brokers hr hs₁ hrule.2.2⟩
  · exact (redeem_granted_iff.1 hgrant).2.1
  · obtain ⟨l', hs, -⟩ := hi
    exact fun past' msg a' s' hi' => grant_delivered hr hs hgrant hi'
  · rintro k ⟨n, j, past, a, authed, s, entry, grant, hi, hgrant⟩ k'
      ⟨n', j', past', a', authed', s', entry', grant', hi', hgrant'⟩ heq
    have ht := takes_of_granted hr hi hgrant
    have ht' := takes_of_granted hr hi' hgrant'
    obtain ⟨j₁, past₁, addr₁, src₁, s₁, ⟨l₁, hs₁, hm₁⟩, -⟩ := hf k a entry ht
    obtain ⟨j₂, past₂, addr₂, src₂, s₂, ⟨l₂, hs₂, hm₂⟩, -⟩ := hf k' a' entry' ht'
    rw [← heq] at hs₂
    obtain ⟨-, -, rfl⟩ := hr.once (P := fun o => o.kind = .deposit) (deposit_once hr) hs₁ hs₂
      rfl rfl
    exact hinj ⟨a, entry, ht⟩ ⟨a', entry', ht'⟩ (hm₁.symm.trans hm₂)

/-- A grant and the decision it answers, seen in a run. -/
theorem grants_accounted_overdue : ∃ l p k n j past a authed s entry grant,
    (hbbs (Sample.setup .offer false)).Run Server.Booted System.Free l p ∧
    Happened l k (.step n j past (.redeemPending a authed) s) ∧
    (s.redeemPending (Sample.setup .offer false) a authed).1 = .granted entry grant ∧
    ∃ m < k, ∃ n' j' past' addr src s',
      Happened l m (.step n' j' past' (.insertPending addr entry.targetId src) s') ∧
        Decided (Sample.setup .offer false) j' past' a entry.targetId := by
  obtain ⟨l, p, hr, n, j, past, a, authed, s, l', entry, grant, rfl, hgrant, -⟩ :=
    Sample.exists_overdue
  obtain ⟨f, hf, -⟩ := grants_accounted _ _ p hr
  have hi := Happened.of_suffix (List.suffix_rfl (l := .step n j past (.redeemPending a authed) s ::
    l'))
  obtain ⟨⟨m, hm, hdec⟩, -⟩ := hf _ n j past a authed s entry grant hi hgrant
  exact ⟨_, p, _, n, j, past, a, authed, s, entry, grant, hr, hi, hgrant, m, hm, f l'.length, hdec⟩

end NemoServer
