import NemoServer.Relay.Hbbr
import NemoServer.Server.Sample

/-!
# Pairing at the relay

The table of parked connections, over the runs of hbbr.
-/

set_option autoImplicit false

namespace NemoServer

namespace Relay

open Prog

variable {X : Setup} {init : State → Prop}
  {C : List Step → Pool Op Op.Res State Job → Choice Job Env → Prop}
  {l l' : List Step} {p : Pool Op Op.Res State Job}

/-! ## What a task has done -/

/-- The request of the task passes every check at the wall-clock time `now`. -/
def Accepts (X : Setup) (j : Job) (uuid : String) (now : ℕ) : Prop :=
  ∃ rf sk, j.frame = some rf ∧ rf.uuid = uuid ∧ (X.key = "" ∨ rf.licenceKey = X.key) ∧
    X.sk = some sk ∧ relayGrantVerify X (X.publicKey sk) uuid now = .ok () ∧ uuid ≠ ""

/-- What the task `j` has done when it performs an operation. -/
def Rule (X : Setup) (j : Job) (past : Past) : Op → Prop
  | .lookup uuid => ∃ s₀, past = [⟨.wallClock, s₀⟩] ∧ Accepts X j uuid s₀.clock
  | .park uuid c => c = j.stream ∧ ∃ s₀ s₁, past = [⟨.lookup uuid, s₁⟩, ⟨.wallClock, s₀⟩] ∧
      s₁.peers uuid = none
  | .expire uuid deadline => ∃ s₀ s₁ s₂ s₃,
      past = [⟨.instantNow, s₃⟩, ⟨.park uuid j.stream, s₂⟩, ⟨.lookup uuid, s₁⟩, ⟨.wallClock, s₀⟩] ∧
        deadline = s₃.now + parkWindow
  | .insertLabel _ label => ∃ uuid s₀ s₁ s₂ id, label = X.relaySessionLabel uuid ∧
      past = [⟨.insertUsage id, s₂⟩, ⟨.lookup uuid, s₁⟩, ⟨.wallClock, s₀⟩]
  | .relay _ c peer => c = j.stream ∧ ∃ uuid s₁, ⟨.lookup uuid, s₁⟩ ∈ past ∧
      s₁.peers uuid = some peer
  | _ => True

theorem sat_pairOrPark {j : Job} {uuid : String} {s₀ : State} (h : Accepts X j uuid s₀.clock) :
    (pairOrPark X j.stream j.addr uuid).Sat Op.sem (fun _ => True)
      (fun past o _ => Rule X j past o) (fun _ _ => True) [⟨.wallClock, s₀⟩] := by
  unfold pairOrPark
  refine sat_call.2 fun s₁ _ => ⟨⟨s₀, rfl, h⟩, ?_⟩
  simp only [bind_eq, ret_bind, Op.sem]
  cases hpeer : s₁.peers uuid with
  | some peer =>
    refine sat_call.2 fun s₂ _ => ⟨trivial, ?_⟩
    refine sat_call.2 fun s₃ _ => ⟨⟨uuid, s₀, s₁, s₂, _, rfl, rfl⟩, ?_⟩
    refine sat_call.2 fun s₄ _ => ⟨⟨rfl, uuid, s₁, by simp, hpeer⟩, ?_⟩
    exact sat_call.2 fun s₅ _ => ⟨trivial, sat_call.2 fun s₆ _ => ⟨trivial, trivial⟩⟩
  | none =>
    refine sat_call.2 fun s₂ _ => ⟨⟨rfl, s₀, s₁, rfl, hpeer⟩, ?_⟩
    refine sat_call.2 fun s₃ _ => ⟨trivial, ?_⟩
    exact sat_call.2 fun s₄ _ => ⟨⟨s₀, s₁, s₂, s₃, rfl, rfl⟩, trivial⟩

theorem sat_code (j : Job) :
    (j.code X).Sat Op.sem (fun _ => True) (fun past o _ => Rule X j past o) (fun _ _ => True) [] := by
  unfold Job.code
  split
  · trivial
  split
  swap
  · trivial
  unfold makePair_
  split
  · trivial
  next rf hframe =>
  split
  · trivial
  next hkey =>
  split
  · trivial
  next sk hsk =>
  refine sat_call.2 fun s₀ _ => ⟨trivial, ?_⟩
  simp only [bind_eq, ret_bind, Op.sem]
  split
  · trivial
  next hverify =>
  split
  · trivial
  next huuid =>
  have hlicence : X.key = "" ∨ rf.licenceKey = X.key := by
    by_contra hnot
    exact hkey (not_or.1 hnot)
  exact sat_pairOrPark ⟨rf, sk, hframe, rfl, hlicence, hsk, hverify, huuid⟩

theorem hbbr_verified (X : Setup) :
    System.Verified (hbbr X) init (fun _ => True) fun j past o _ => Rule X j past o where
  init _ _ := trivial
  code j := sat_code j
  call _ _ _ _ _ _ := trivial
  start _ _ _ _ _ := trivial
  env _ _ _ _ _ := trivial
  reboot _ _ := trivial

theorem rule_of_step (hr : (hbbr X).Run init C l p) {n : ℕ} {j : Job} {past : Past} {o : Op}
    {s : State} (hi : .step n j past o s ∈ l) : Rule X j past o :=
  hr.guarantee (hbbr_verified X) n j past o s hi

/-! ## The table of parked connections -/

/-- What an item does to `PEERS`. -/
def parked : Step → Entry String StreamId
  | .step _ _ _ (.lookup uuid) _ => .take uuid
  | .step _ _ _ (.park uuid c) _ => .record uuid c fun _ _ => true
  | .step _ _ _ (.expire uuid _) _ => .take uuid
  | .crash _ => .clear
  | _ => .idle

theorem peers_post (i : Step) : ((hbbr X).post i).peers = (parked i).apply i.pre.peers := by
  cases i with
  | start n j s =>
    simp only [System.post, hbbr, beginJob]
    split <;> rfl
  | step n j past o s =>
    cases o with
    | park uuid c =>
      have hall : s.peers.retain (fun _ _ => true) = s.peers := funext fun k => by
        cases h : s.peers k <;> simp [Table.retain, h]
      simp only [System.post, hbbr, Op.sem, parked, Entry.apply, Item.pre, hall]
    | _ => rfl
  | env e s => cases e <;> rfl
  | crash s => rfl

theorem peers_pre (hr : (hbbr X).Run Started C l p) {i : Step} (hs : (i :: l') <:+ l) :
    i.pre.peers = tableOf parked l' :=
  hr.tableOf_pre (f := fun s => s.peers) (fun _ h => h.peers)
    (fun _ _ i _ ha => by rw [System.advance_post ha, peers_post, System.advance_pre ha]) hs

theorem now_le (hr : (hbbr X).Run init C l p) {i i' : Step} (hs : (i :: l') <:+ l) (hi : i' ∈ l') :
    i'.pre.now ≤ i.pre.now := by
  refine hr.pre_le (f := fun s => s.now) (fun p c i p' ha => ?_) hs hi
  refine System.advance_cases (motive := fun s _ s' => s.now ≤ s'.now) ?_ ?_ ?_ ?_ ha
  · intro n j s s' h
    simp only [hbbr, beginJob, Option.ite_none_right_eq_some] at h
    exact Option.some.inj h.2 ▸ le_rfl
  · intro n j past o s
    cases o <;> exact le_rfl
  · intro e s s' h
    cases e <;> obtain rfl := Option.some.inj h
    · exact Nat.le_add_right _ _
    · exact le_rfl
  · exact fun s => le_rfl

/-- A task looks up once. -/
theorem lookup_unique (hr : (hbbr X).Run init C l p) {n : ℕ} {j j' : Job} {past past' : Past}
    {u u' : String} {s s' : State} {l₁ l₂ : List Step}
    (h₁ : (.step n j past (.lookup u) s :: l₁) <:+ l)
    (h₂ : (.step n j' past' (.lookup u') s' :: l₂) <:+ l) : u = u' ∧ s = s' ∧ l₁ = l₂ := by
  obtain ⟨hop, hs, hl⟩ := hr.once (P := fun o => ∃ u, o = .lookup u)
    (fun n j past o s hi ⟨u, ho⟩ x hx => by
      subst ho
      obtain ⟨s₀, rfl, -⟩ := rule_of_step hr hi
      rw [List.mem_singleton.1 hx]
      simp) h₁ h₂ ⟨u, rfl⟩ ⟨u', rfl⟩
  exact ⟨Op.lookup.inj hop, hs, hl⟩

/-- A task parks once. -/
theorem park_unique (hr : (hbbr X).Run init C l p) {n : ℕ} {j j' : Job} {past past' : Past}
    {u u' : String} {c c' : StreamId} {s s' : State} {l₁ l₂ : List Step}
    (h₁ : (.step n j past (.park u c) s :: l₁) <:+ l)
    (h₂ : (.step n j' past' (.park u' c') s' :: l₂) <:+ l) : s = s' ∧ l₁ = l₂ := by
  obtain ⟨-, hs, hl⟩ := hr.once (P := fun o => ∃ u c, o = .park u c)
    (fun n j past o s hi ⟨u, c, ho⟩ x hx => by
      subst ho
      obtain ⟨-, s₀, s₁, rfl, -⟩ := rule_of_step hr hi
      simp only [List.mem_cons, List.not_mem_nil, or_false] at hx
      rcases hx with rfl | rfl <;> simp) h₁ h₂ ⟨u, c, rfl⟩ ⟨u', c', rfl⟩
  exact ⟨hs, hl⟩

/-- A task that parks found nobody when it looked up. -/
theorem lookup_of_park (hr : (hbbr X).Run init C l p) {n : ℕ} {j : Job} {past : Past} {u : String}
    {c : StreamId} {s : State} (hs : (.step n j past (.park u c) s :: l') <:+ l) :
    ∃ past₁ s₁ l₁, (.step n j past₁ (.lookup u) s₁ :: l₁) <:+ l' ∧ s₁.peers u = none := by
  obtain ⟨-, s₀, s₁, rfl, hnone⟩ := rule_of_step hr (hs.subset List.mem_cons_self)
  obtain ⟨l₁, hs₁⟩ := hr.past_cons hs
  exact ⟨_, s₁, l₁, hs₁, hnone⟩

/-- A sleep ends 30 seconds after its task parked, or later. -/
theorem park_of_expire (hr : (hbbr X).Run init Timely l p) {n : ℕ} {j : Job} {past : Past}
    {u : String} {t : ℕ} {s : State} (hs : (.step n j past (.expire u t) s :: l') <:+ l) :
    ∃ past₂ s₂ l₂, (.step n j past₂ (.park u j.stream) s₂ :: l₂) <:+ l' ∧
      s₂.now + parkWindow ≤ s.now := by
  obtain ⟨s₀, s₁, s₂, s₃, rfl, rfl⟩ := rule_of_step hr (hs.subset List.mem_cons_self)
  obtain ⟨l₃, hs₃⟩ := hr.past_cons hs
  have hl₃ := hs₃.trans ((List.suffix_cons _ _).trans hs)
  obtain ⟨l₂, hs₂⟩ := hr.past_cons hl₃
  refine ⟨_, s₂, l₂, hs₂.trans ((List.suffix_cons _ _).trans hs₃), ?_⟩
  -- the instant was taken after the parking, and the sleep lasts until its deadline
  have hle : s₂.now ≤ s₃.now := now_le hr hl₃ (hs₂.subset List.mem_cons_self)
  have hdeadline : s₃.now + parkWindow ≤ s.now := by
    obtain ⟨q, ch, q', hr', hc, ha, -, rfl⟩ := hr.before _ _ hs
    obtain rfl := System.advance_choice ha
    obtain ⟨k, hl⟩ := System.advance_step_live ha
    exact hc _ _ _ _ _ hl
  omega

/-- What an item that touches the id `u` is. -/
theorem touches_of_not_spares {i : Step} {u : String} {c : StreamId}
    (h : ¬ (parked i).Spares u c) :
    (∃ n j past s, i = .step n j past (.lookup u) s) ∨
      (∃ n j past c s, i = .step n j past (.park u c) s) ∨
      (∃ n j past t s, i = .step n j past (.expire u t) s) ∨ ∃ s, i = .crash s := by
  unfold parked at h
  split at h
  · next n j past uuid s =>
    obtain rfl := not_not.1 h
    exact .inl ⟨n, j, past, s, rfl⟩
  · next n j past uuid c' s =>
    obtain rfl := not_not.1 fun hne => h ⟨hne, rfl⟩
    exact .inr (.inl ⟨n, j, past, c', s, rfl⟩)
  · next n j past uuid t s =>
    obtain rfl := not_not.1 h
    exact .inr (.inr (.inl ⟨n, j, past, t, s, rfl⟩))
  · next s => exact .inr (.inr (.inr ⟨s, rfl⟩))
  · exact absurd trivial h

/-- What puts a connection under an id is its parking. -/
theorem park_of_records {i : Step} {u : String} {c : StreamId} (h : (parked i).Records u c) :
    ∃ n j past s, i = .step n j past (.park u c) s := by
  unfold parked at h
  split at h
  · exact h.elim
  · next n j past u' c' s =>
    obtain ⟨rfl, rfl⟩ := h
    exact ⟨n, j, past, s, rfl⟩
  · exact h.elim
  · exact h.elim
  · exact h.elim

theorem not_crash (hr : (hbbr X).Run init Timely l p) {s : State} : .crash s ∉ l := by
  intro hi
  obtain ⟨k, l', hs, -⟩ := Happened.of_mem hi
  obtain ⟨q, ch, q', -, hc, ha, -⟩ := hr.before _ _ hs
  obtain rfl := System.advance_choice ha
  exact hc

/-! ## Connections are told apart -/

/-- A connection takes the next number. -/
theorem advance_start {q q' : Pool Op Op.Res State Job} {ch : Choice Job Env} {n : ℕ} {j : Job}
    {s : State} (h : (hbbr X).advance q ch = some (.start n j s, q')) :
    j.stream = s.nextStream ∧ s.nextStream + 1 ≤ q'.shared.nextStream := by
  refine System.advance_cases (motive := fun _ i s' => ∀ n j s, i = .start n j s →
    j.stream = s.nextStream ∧ s.nextStream + 1 ≤ s'.nextStream) ?_ (by simp) (by simp) (by simp)
    h n j s rfl
  intro n j s s' hs n' j' s₀ heq
  cases heq
  simp only [hbbr, beginJob, Option.ite_none_right_eq_some] at hs
  exact ⟨hs.1, Option.some.inj hs.2 ▸ le_rfl⟩

theorem nextStream_le {q q' : Pool Op Op.Res State Job} {ch : Choice Job Env} {i : Step}
    (h : (hbbr X).advance q ch = some (i, q')) : q.shared.nextStream ≤ q'.shared.nextStream := by
  refine System.advance_cases (motive := fun s _ s' => s.nextStream ≤ s'.nextStream) ?_ ?_ ?_ ?_ h
  · intro n j s s' hs
    simp only [hbbr, beginJob, Option.ite_none_right_eq_some] at hs
    exact Option.some.inj hs.2 ▸ Nat.le_succ _
  · intro n j past o s
    cases o <;> exact le_rfl
  · intro e s s' hs
    cases e <;> exact Option.some.inj hs ▸ le_rfl
  · exact fun s => le_rfl

/-- Two tasks serve two connections. -/
theorem stream_unique (hr : (hbbr X).Run init C l p) {n n' : ℕ} {j j' : Job} {past past' : Past}
    {o o' : Op} {s s' : State} (hi : .step n j past o s ∈ l) (hi' : .step n' j' past' o' s' ∈ l)
    (h : j.stream = j'.stream) : n = n' := by
  have hlt : ∀ {n n' j j' s s' l₁}, (.start n j s :: l₁) <:+ l → .start n' j' s' ∈ l₁ →
      j'.stream < j.stream := by
    intro n n' j j' s s' l₁ hs hmem
    obtain ⟨q, ch, q', hr', -, ha, -, rfl⟩ := hr.before _ _ hs
    obtain ⟨k, l₂, hs₂, -⟩ := Happened.of_mem (((List.suffix_cons _ _).trans hs).subset hmem)
    obtain ⟨q₂, ch₂, q₂', -, -, ha₂, -, -⟩ := hr.before _ _ hs₂
    have hle := hr.pre_add_le (f := State.nextStream) (d := 1) (fun _ _ _ _ => nextStream_le) hs
      hmem fun _ _ _ ha => (advance_start ha).2
    rw [(advance_start ha).1, (advance_start ha₂).1]
    exact hle
  obtain ⟨s₀, hstart⟩ := hr.started.2 _ _ _ _ _ hi
  obtain ⟨s₀', hstart'⟩ := hr.started.2 _ _ _ _ _ hi'
  obtain ⟨k, l₁, hs₁, -⟩ := Happened.of_mem hstart
  obtain ⟨k', l₂, hs₂, -⟩ := Happened.of_mem hstart'
  rcases List.suffix_or_suffix_of_suffix hs₁ hs₂ with hs | hs <;>
    rcases List.suffix_cons_iff.1 hs with heq | hs
  · cases heq
    rfl
  · exact absurd h (Nat.ne_of_lt (hlt hs₂ (hs.subset List.mem_cons_self)))
  · cases heq
    rfl
  · exact absurd h (Nat.ne_of_gt (hlt hs₁ (hs.subset List.mem_cons_self)))

/-! ## A small relay -/

namespace Sample

/-- A relay whose signatures repeat the first byte of the key. -/
def setup : Setup where
  toDeps := (NemoServer.Sample.setup .offer false).toDeps
  signatureFromBytes := some
  verifyDetached sig _ pk := sig == List.replicate 64 (pk.headD 0)
  publicKey := id
  key := ""
  sk := some [65]

/-- A grant of this relay. -/
def grant : String := String.ofList (List.replicate 88 'A')

/-- The relay has just started. -/
def state : State := ⟨0, 0, Table.empty, Table.empty, Table.empty, 0⟩

/-- The connection `c`, which presents the grant. -/
def connection (c : StreamId) : Job :=
  ⟨c, .v4 ⟨10, 0, 0, 1⟩ 1000, false, true, some ⟨grant, ""⟩⟩

def timely (p : Pool Op Op.Res State Job) : Choice Job Env → Bool
  | .step n =>
    match p.live n with
    | some ⟨_, _, .call (.expire _ deadline) _⟩ => decide (deadline ≤ p.shared.now)
    | _ => true
  | .crash => false
  | _ => true

theorem timely_ok (l : List Step) (p : Pool Op Op.Res State Job) (c : Choice Job Env)
    (h : timely p c = true) : Timely l p c := by
  cases c with
  | step n =>
    intro j past uuid deadline k hl
    rw [timely, hl] at h
    exact of_decide_eq_true h
  | crash => cases h
  | _ => trivial

/-- A schedule from the start exhibits a run, with the history it ends in. -/
theorem exists_run (cs : List (Choice Job Env)) (t : List Step → Bool)
    (h : t ((hbbr setup).execIf timely cs [] (System.boot state)).1 = true) :
    ∃ l p, (hbbr setup).Run Started Timely l p ∧ t l = true :=
  ⟨_, _, System.Run.execIf (fun l p c _ => timely_ok l p c) cs (.boot ⟨rfl, rfl, rfl⟩), h⟩

end Sample

/-! ## Two connections of one id -/

/-- The task `n₂`, which looked `u` up in the state `s`, is joined with the task `n₁`: it found the
connection of that task, relays between the two, and nobody else is parked. -/
structure Joined (l : List Step) (u : String) (n₁ n₂ : ℕ) (j₁ j₂ : Job) (s : State) : Prop where
  found : s.peers u = some j₁.stream
  relays : ∀ past id c peer s', .step n₂ j₂ past (.relay id c peer) s' ∈ l →
    c = j₂.stream ∧ peer = j₁.stream
  parks : ∀ n j past c s', .step n j past (.park u c) s' ∈ l → n = n₁

/-- While only the task `n₁` looks the id up, its connection stays parked for the 30 seconds. -/
theorem found_of_park (hr : (hbbr X).Run Started Timely l p) {u : String} {n₁ n₂ : ℕ}
    {j₁ j₂ : Job} {past past₂ : Past} {c : StreamId} {s s₂ : State} {l₀ l₂ : List Step}
    (h₂ : (.step n₂ j₂ past₂ (.lookup u) s₂ :: l₂) <:+ l)
    (hfirst : ∀ n j past s l₀, (.step n j past (.lookup u) s :: l₀) <:+ l₂ → n = n₁)
    (hs₀ : (.step n₁ j₁ past (.park u c) s :: l₀) <:+ l₂) (hwindow : s₂.now < s.now + parkWindow) :
    s₂.peers u = some c := by
  have hl₂ : l₂ <:+ l := (List.suffix_cons _ _).trans h₂
  obtain ⟨_, _, l₁, hs₁, -⟩ := lookup_of_park hr (hs₀.trans hl₂)
  rw [show s₂.peers = _ from peers_pre hr h₂]
  refine tableOf_eq_some.2 ⟨_, l₀, hs₀, ⟨rfl, rfl⟩, fun m i hm hi => ?_⟩
  obtain ⟨l₃, hs₃, rfl⟩ := hi
  by_contra hnot
  -- the parking is in the history of every item that touches the id later
  have hlater : ∀ {n j past c s' l₅}, (.step n j past (.park u c) s' :: l₅) <:+ l₂ →
      s' = s ∧ l₅ = l₀ := by
    intro n j past c s' l₅ hs
    obtain ⟨_, _, l₄, hs₄, -⟩ := lookup_of_park hr (hs.trans hl₂)
    obtain rfl := hfirst _ _ _ _ _ (hs₄.trans ((List.suffix_cons _ _).trans hs))
    exact park_unique hr (hs.trans hl₂) (hs₀.trans hl₂)
  rcases touches_of_not_spares hnot with ⟨n, j, past, s', rfl⟩ | ⟨n, j, past, c, s', rfl⟩ |
    ⟨n, j, past, t, s', rfl⟩ | ⟨s', rfl⟩
  · obtain rfl := hfirst _ _ _ _ _ hs₃
    obtain ⟨-, -, rfl⟩ := lookup_unique hr (hs₃.trans hl₂)
      (hs₁.trans ((List.suffix_cons _ _).trans (hs₀.trans hl₂)))
    have hlen := hs₁.length_le
    simp only [List.length_cons] at hlen
    omega
  · obtain ⟨-, rfl⟩ := hlater hs₃
    omega
  · obtain ⟨_, s'', l₅, hs₅, htime⟩ := park_of_expire hr (hs₃.trans hl₂)
    obtain ⟨rfl, -⟩ := hlater (hs₅.trans ((List.suffix_cons _ _).trans hs₃))
    have hle := now_le hr h₂ (hs₃.subset List.mem_cons_self)
    simp only [Item.pre] at hle
    omega
  · exact not_crash hr (hl₂.subset (hs₃.subset List.mem_cons_self))

/-- Two connections that present one id, the second while the first is parked or before, are
joined exactly if the first has been parked when the second is looked up. -/
theorem joined_iff (X : Setup) (l : List Step) (p : Pool Op Op.Res State Job)
    (hr : (hbbr X).Run Started Timely l p) (u : String) (n₁ n₂ : ℕ) (j₁ j₂ : Job)
    (past₁ past₂ : Past) (s₁ s₂ : State) (l₁ l₂ : List Step)
    (h₂ : (.step n₂ j₂ past₂ (.lookup u) s₂ :: l₂) <:+ l)
    (h₁ : (.step n₁ j₁ past₁ (.lookup u) s₁ :: l₁) <:+ l₂)
    (honly : ∀ n j past s, .step n j past (.lookup u) s ∈ l → n = n₁ ∨ n = n₂)
    (hwindow : ∀ past c s, .step n₁ j₁ past (.park u c) s ∈ l₂ → s₂.now < s.now + parkWindow) :
    Joined l u n₁ n₂ j₁ j₂ s₂ ↔ ∃ past c s, .step n₁ j₁ past (.park u c) s ∈ l₂ := by
  have hl₂ : l₂ <:+ l := (List.suffix_cons _ _).trans h₂
  -- before the second lookup, only the first task has looked the id up
  have hfirst : ∀ {n j past s l₀}, (.step n j past (.lookup u) s :: l₀) <:+ l₂ → n = n₁ := by
    intro n j past s l₀ hs
    rcases honly n j past s (hl₂.subset (hs.subset List.mem_cons_self)) with rfl | rfl
    · rfl
    · obtain ⟨-, -, rfl⟩ := lookup_unique hr (hs.trans hl₂) h₂
      exact absurd hs.length_le (by simp)
  constructor
  · rintro ⟨hfound, -, hparks⟩
    rw [show s₂.peers = _ from peers_pre hr h₂] at hfound
    obtain ⟨i, l₀, hst⟩ := tableOf_eq_some.1 hfound
    obtain ⟨n, j, past, s, rfl⟩ := park_of_records hst.records
    have hi := hst.suffix.subset List.mem_cons_self
    obtain rfl := hparks _ _ _ _ _ (hl₂.subset hi)
    have hj := hr.job_unique.2 _ _ _ _ _ _ _ _ _ (hl₂.subset hi)
      (hl₂.subset (h₁.subset List.mem_cons_self))
    exact ⟨past, _, s, hj ▸ hi⟩
  · rintro ⟨past, c, s, hi₀⟩
    obtain ⟨k, l₀, hs₀, -⟩ := Happened.of_mem hi₀
    obtain ⟨rfl, -⟩ := rule_of_step hr (hl₂.subset hi₀)
    have hfound := found_of_park hr h₂ (fun _ _ _ _ _ hs => hfirst hs) hs₀ (hwindow _ _ _ hi₀)
    refine ⟨hfound, fun past' id c peer s' hi' => ?_, fun n j past' c s' hi' => ?_⟩
    · obtain ⟨rfl, u', s₃, hmem, hpeer⟩ := rule_of_step hr hi'
      obtain ⟨k', l₃, hs₃, -⟩ := Happened.of_mem hi'
      rw [hr.past _ _ _ _ _ _ hs₃] at hmem
      obtain ⟨j₃, past₃, hi₃⟩ := System.mem_calls.1 hmem
      obtain ⟨k₃, l₄, hs₄, -⟩ := Happened.of_mem (((List.suffix_cons _ _).trans hs₃).subset hi₃)
      obtain ⟨rfl, rfl, -⟩ := lookup_unique hr hs₄ h₂
      exact ⟨rfl, Option.some.inj (hpeer.symm.trans hfound)⟩
    · obtain ⟨k', l₃, hs₃, -⟩ := Happened.of_mem hi'
      obtain ⟨_, s₃, l₄, hs₄, hnone⟩ := lookup_of_park hr hs₃
      have hl₄ := hs₄.trans ((List.suffix_cons _ _).trans hs₃)
      rcases honly _ _ _ _ (hl₄.subset List.mem_cons_self) with rfl | rfl
      · rfl
      · obtain ⟨-, rfl, -⟩ := lookup_unique hr hl₄ h₂
        exact absurd (hnone.symm.trans hfound) (by simp)

namespace Sample

/-- The second lookup is the last item, and the window is kept; `parked` says whether the first
connection has been parked. -/
def endsTest (parked : Bool) : List Step → Bool
  | .step 1 _ _ (.lookup u) s₂ :: l₂ =>
    l₂.any (fun i => match i with
      | .step 0 _ _ (.lookup u') _ => u' == u
      | _ => false) &&
    l₂.all (fun i => match i with
      | .step n _ _ (.lookup _) _ => n == 0
      | .step _ _ _ (.park _ _) s => decide (s₂.now < s.now + parkWindow)
      | _ => true) &&
    (l₂.any (fun i => match i with
      | .step 0 _ _ (.park u' _) _ => u' == u
      | _ => false) == parked) &&
    ((s₂.peers u).isSome == parked)
  | _ => false

/-- What the test has tested. -/
structure Ends (l : List Step) (u : String) (j₁ j₂ : Job) (past₁ past₂ : Past) (s₁ s₂ : State)
    (l₁ l₂ : List Step) (parked : Bool) : Prop where
  second : (.step 1 j₂ past₂ (.lookup u) s₂ :: l₂) <:+ l
  first : (.step 0 j₁ past₁ (.lookup u) s₁ :: l₁) <:+ l₂
  only : ∀ n j past s, .step n j past (.lookup u) s ∈ l → n = 0 ∨ n = 1
  window : ∀ past c s, .step 0 j₁ past (.park u c) s ∈ l₂ → s₂.now < s.now + parkWindow
  parks : parked = true → ∃ j past c s, .step 0 j past (.park u c) s ∈ l₂
  found : (s₂.peers u).isSome = parked

theorem ends_of_test {parked : Bool} (h : endsTest parked l = true) :
    ∃ u j₁ j₂ past₁ past₂ s₁ s₂ l₁ l₂, Ends l u j₁ j₂ past₁ past₂ s₁ s₂ l₁ l₂ parked := by
  unfold endsTest at h
  split at h
  · next j₂ past₂ u s₂ l₂ =>
    simp only [Bool.and_eq_true, List.any_eq_true, List.all_eq_true, beq_iff_eq] at h
    obtain ⟨⟨⟨⟨i, hi, hlook⟩, hall⟩, hpark⟩, hfound⟩ := h
    split at hlook
    · next j₁ past₁ u' s₁ =>
      obtain rfl := eq_of_beq hlook
      obtain ⟨k, l₁, hs₁, -⟩ := Happened.of_mem hi
      refine ⟨u', j₁, j₂, past₁, past₂, s₁, s₂, l₁, l₂, List.suffix_rfl, hs₁, ?_, ?_, ?_, hfound⟩
      · intro n j past s hm
        rcases List.mem_cons.1 hm with heq | hm
        · cases heq
          exact .inr rfl
        · exact .inl (by simpa using hall _ hm)
      · intro past c s hm
        simpa using hall _ hm
      · intro htrue
        rw [htrue, List.any_eq_true] at hpark
        obtain ⟨i', hi', htest⟩ := hpark
        split at htest
        · next j past u c s =>
          obtain rfl := eq_of_beq htest
          exact ⟨j, past, c, s, hi'⟩
        · cases htest
    · cases hlook
  · cases h

/-- Two connections look up before either of them is parked. -/
def race : List (Choice Job Env) :=
  [.start (connection 0), .start (connection 1), .step 0, .step 1, .step 0, .step 1]

/-- The second connection comes when the first is parked. -/
def pairing : List (Choice Job Env) :=
  [.start (connection 0), .step 0, .step 0, .step 0, .start (connection 1), .step 1, .step 1]

end Sample

/-- A race in which neither of two connections finds the other. -/
theorem not_joined : ¬ ∀ (X : Setup) (l : List Step) (p : Pool Op Op.Res State Job),
    (hbbr X).Run Started Timely l p → ∀ (u : String) (n₁ n₂ : ℕ) (j₁ j₂ : Job)
    (past₁ past₂ : Past) (s₁ s₂ : State) (l₁ l₂ : List Step),
    (.step n₂ j₂ past₂ (.lookup u) s₂ :: l₂) <:+ l →
    (.step n₁ j₁ past₁ (.lookup u) s₁ :: l₁) <:+ l₂ →
    (∀ n j past s, .step n j past (.lookup u) s ∈ l → n = n₁ ∨ n = n₂) →
    (∀ past c s, .step n₁ j₁ past (.park u c) s ∈ l₂ → s₂.now < s.now + parkWindow) →
    Joined l u n₁ n₂ j₁ j₂ s₂ := by
  intro hall
  obtain ⟨l, p, hr, htest⟩ := Sample.exists_run Sample.race (Sample.endsTest false)
    (by decide +kernel)
  obtain ⟨u, j₁, j₂, past₁, past₂, s₁, s₂, l₁, l₂, he⟩ := Sample.ends_of_test htest
  have hj := hall _ l p hr u 0 1 j₁ j₂ past₁ past₂ s₁ s₂ l₁ l₂ he.second
    he.first he.only he.window
  have hfound := he.found
  rw [hj.found] at hfound
  cases hfound

/-- The second connection comes when the first is parked, and is joined with it. -/
theorem joined_iff_parked : ∃ l p u j₁ j₂ s₂, (hbbr Sample.setup).Run Started Timely l p ∧
    Joined l u 0 1 j₁ j₂ s₂ := by
  obtain ⟨l, p, hr, htest⟩ := Sample.exists_run Sample.pairing (Sample.endsTest true)
    (by decide +kernel)
  obtain ⟨u, j₁, j₂, past₁, past₂, s₁, s₂, l₁, l₂, he⟩ := Sample.ends_of_test htest
  refine ⟨l, p, u, j₁, j₂, s₂, hr, (joined_iff _ _ _ hr u 0 1 j₁ j₂ past₁ past₂ s₁ s₂ l₁ l₂
    he.second he.first he.only he.window).2 ?_⟩
  obtain ⟨j, past, c, s, hi⟩ := he.parks rfl
  have hl₂ := (List.suffix_cons _ _).trans he.second
  have hj := hr.job_unique.2 _ _ _ _ _ _ _ _ _ (hl₂.subset hi)
    (hl₂.subset (he.first.subset List.mem_cons_self))
  exact ⟨past, c, s, hj ▸ hi⟩

/-! ## The 30 seconds of a parked connection -/

/-- The operation clears the id, or puts a connection in its place. -/
def Op.Clears (o : Op) (u : String) : Prop := (∃ t, o = .expire u t) ∨ ∃ c, o = .park u c

/-- The connection `c`, parked under `u` by the item `i₀`, leaves with the item `i` because another
task finds it, or 30 seconds after it was parked. -/
def LeavesWell (u : String) (i₀ i : Step) : Prop :=
  (∃ n j past s, i = .step n j past (.lookup u) s ∧ ∀ m j' past' o s', i₀ = .step m j' past' o s' →
    m ≠ n) ∨ i₀.pre.now + parkWindow ≤ i.pre.now

/-- Every parked connection of a run keeps its 30 seconds, exactly if no timer fires for an id, and
no connection is parked under it, while that of another task stands there for less. -/
theorem parked_window_iff (X : Setup) (l : List Step) (p : Pool Op Op.Res State Job)
    (hr : (hbbr X).Run Started Timely l p) :
    (∀ i l', (i :: l') <:+ l → ∀ u c i₀ l₀, Stands parked u c l' i₀ l₀ →
      ((hbbr X).post i).peers u ≠ some c → LeavesWell u i₀ i) ↔
    ∀ n j past o s l', (.step n j past o s :: l') <:+ l → ∀ u, o.Clears u →
      ∀ m j' past' c s' l₀, Stands parked u c l' (.step m j' past' (.park u c) s') l₀ → m ≠ n →
        s'.now + parkWindow ≤ s.now := by
  constructor
  · intro hall n j past o s l' hs u hclears m j' past' c s' l₀ hst hne
    have hl' := (List.suffix_cons _ _).trans hs
    have hpark := hl'.subset (hst.suffix.subset List.mem_cons_self)
    have hgone : ((hbbr X).post (.step n j past o s)).peers u ≠ some c := by
      rw [peers_post]
      obtain ⟨t, rfl⟩ | ⟨c', rfl⟩ := hclears
      · simp [parked, Entry.apply]
      · obtain ⟨rfl, -⟩ := rule_of_step hr (hs.subset List.mem_cons_self)
        obtain ⟨rfl, -⟩ := rule_of_step hr hpark
        simp only [parked, Entry.apply, Table.insert_self]
        intro heq
        exact hne (stream_unique hr hpark (hs.subset List.mem_cons_self)
          (Option.some.inj heq).symm)
    obtain ⟨n', j'', past'', s'', heq, -⟩ | htime := hall _ _ hs u c _ _ hst hgone
    · cases heq
      obtain ⟨t, ht⟩ | ⟨c', ht⟩ := hclears <;> cases ht
    · exact htime
  · intro hcond i l' hs u c i₀ l₀ hst hgone
    have hl' := (List.suffix_cons _ _).trans hs
    have hnot : ¬ (parked i).Spares u c := by
      intro hspare
      refine hgone ?_
      rw [peers_post, peers_pre hr hs, Entry.apply_eq_some]
      exact .inr ⟨hspare, tableOf_eq_some.2 ⟨i₀, l₀, hst⟩⟩
    obtain ⟨m, j', past', s', rfl⟩ := park_of_records hst.records
    rcases touches_of_not_spares hnot with ⟨n, j, past, s, rfl⟩ | ⟨n, j, past, c', s, rfl⟩ |
      ⟨n, j, past, t, s, rfl⟩ | ⟨s, rfl⟩
    · refine .inl ⟨n, j, past, s, rfl, fun m' j'' past'' o s'' heq => ?_⟩
      cases heq
      rintro rfl
      -- the task that parked has looked up before
      obtain ⟨_, _, l₁, hs₁, -⟩ := lookup_of_park hr (hst.suffix.trans hl')
      have hsub := hs₁.trans ((List.suffix_cons _ _).trans hst.suffix)
      obtain ⟨-, -, rfl⟩ := lookup_unique hr (hsub.trans hl') hs
      exact absurd hsub.length_le (by simp)
    · refine .inr ?_
      by_cases hne : m = n
      · subst hne
        obtain ⟨-, rfl⟩ := park_unique hr (hst.suffix.trans hl') hs
        exact absurd hst.suffix.length_le (by simp)
      · exact hcond n j past _ s l' hs u (.inr ⟨c', rfl⟩) m j' past' c s' l₀ hst hne
    · refine .inr ?_
      by_cases hne : m = n
      · subst hne
        obtain ⟨_, s₂, l₂, hs₂, htime⟩ := park_of_expire hr hs
        obtain ⟨rfl, -⟩ := park_unique hr (hst.suffix.trans hl') (hs₂.trans hl')
        exact htime
      · exact hcond n j past _ s l' hs u (.inl ⟨t, rfl⟩) m j' past' c s' l₀ hst hne
    · exact absurd (hs.subset List.mem_cons_self) (not_crash hr)

namespace Sample

/-- A connection is parked and joined; a third one is parked under the same id, and cleared 28
seconds later by the timer of the first. -/
def staleTimer : List (Choice Job Env) :=
  .start (connection 0) :: List.replicate 4 (.step 0) ++
    .start (connection 1) :: List.replicate 2 (.step 1) ++
    .env (.tick (secsToNanos 2)) :: .start (connection 2) :: List.replicate 3 (.step 2) ++
    [.env (.tick (secsToNanos 28)), .step 0]

/-- The newest item is a timer that clears a connection, whose own time is not yet up. -/
def showsEvicted : List (Item Op State Job Env) → Bool
  | .step _ _ _ (.expire u _) s :: l' =>
    match s.peers u with
    | some c => l'.all fun i => match i with
      | .step _ _ _ (.park _ c') s' => c' != c || decide (s.now < s'.now + parkWindow)
      | _ => true
    | none => false
  | _ => false

theorem exists_evicted : ∃ l p, (hbbr setup).Run Started Timely l p ∧
    ∃ i l' u c i₀ l₀, (i :: l') <:+ l ∧ Stands parked u c l' i₀ l₀ ∧
      ((hbbr setup).post i).peers u ≠ some c ∧ ¬ LeavesWell u i₀ i := by
  obtain ⟨l, p, hr, htest⟩ := exists_run staleTimer showsEvicted (by decide +kernel)
  refine ⟨l, p, hr, ?_⟩
  unfold showsEvicted at htest
  split at htest
  · next n j past u t s l' =>
    split at htest
    · next c hfound =>
      have hs : (.step n j past (.expire u t) s :: l') <:+ .step n j past (.expire u t) s :: l' :=
        List.suffix_rfl
      rw [show s.peers = _ from peers_pre hr hs] at hfound
      obtain ⟨i₀, l₀, hst⟩ := tableOf_eq_some.1 hfound
      refine ⟨_, l', u, c, i₀, l₀, hs, hst, by simp [System.post, hbbr, Op.sem], ?_⟩
      have hpark := List.all_eq_true.1 htest i₀ (hst.suffix.subset List.mem_cons_self)
      obtain ⟨m, j', past', s', rfl⟩ := park_of_records hst.records
      simp only [bne_self_eq_false, Bool.false_or, decide_eq_true_eq] at hpark
      rintro (⟨n, j, past, s, heq, -⟩ | htime)
      · cases heq
      · simp only [Item.pre] at htime
        omega
    · cases htest
  · cases htest

end Sample

/-- A run in which the timer of one connection clears another. -/
theorem not_parked_window : ¬ ∀ (X : Setup) (l : List Step) (p : Pool Op Op.Res State Job),
    (hbbr X).Run Started Timely l p → ∀ i l', (i :: l') <:+ l → ∀ u c i₀ l₀,
      Stands parked u c l' i₀ l₀ → ((hbbr X).post i).peers u ≠ some c → LeavesWell u i₀ i := by
  intro hall
  obtain ⟨l, p, hr, i, l', u, c, i₀, l₀, hs, hst, hgone, hnot⟩ := Sample.exists_evicted
  exact hnot (hall _ l p hr i l' hs u c i₀ l₀ hst hgone)

/-- In that run a timer fires for an id under which another connection has just been parked. -/
theorem parked_window_iff_stale : ∃ (l : List Step) (p : Pool Op Op.Res State Job),
    (hbbr Sample.setup).Run Started Timely l p ∧
    ¬ ∀ n j past o s l', (.step n j past o s :: l') <:+ l → ∀ u, o.Clears u →
      ∀ m j' past' c s' l₀, Stands parked u c l' (.step m j' past' (.park u c) s') l₀ → m ≠ n →
        s'.now + parkWindow ≤ s.now := by
  obtain ⟨l, p, hr, i, l', u, c, i₀, l₀, hs, hst, hgone, hnot⟩ := Sample.exists_evicted
  exact ⟨l, p, hr, fun hcond => hnot ((parked_window_iff _ l p hr).2 hcond i l' hs u c i₀ l₀ hst
    hgone)⟩

end Relay

end NemoServer
