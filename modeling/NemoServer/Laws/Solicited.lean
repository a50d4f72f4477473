import NemoServer.Laws.Grants

/-!
# Answers that reach a controller

Three frames are answers of a target, and each is delivered to the connection that waits under an
address the frame names. A `RelayResponse` has to find the record of a request, and takes it out; a
`PunchHoleSent` and a `LocalAddr` are delivered whoever sends them. In a run in which these two come
only from targets that were asked (`InTurn`), every answer that is delivered has a request of its
own (`OnlySolicited`).
-/

set_option autoImplicit false

namespace NemoServer

open Prog Management Rendezvous

/-! ## Deliveries -/

namespace RendezvousMessage

/-- An answer that is delivered unchecked. -/
def answersHole : RendezvousMessage → Bool
  | .punchHoleSent _ => true
  | .localAddr _ => true
  | _ => false

/-- An answer that has to find the record of a request. -/
def answersRelay : RendezvousMessage → Bool
  | .relayResponse _ => true
  | _ => false

def answers (msg : RendezvousMessage) : Bool := msg.answersHole || msg.answersRelay

end RendezvousMessage

/-- A frame that `kind` accepts is delivered to the connection that waits under `a`. -/
def Delivers (X : Setup) (kind : RendezvousMessage → Bool) (a : SocketAddr) : Step → Prop
  | .step _ j _ (.sendToTcp _ a') s => (∃ h, j.handling = some h ∧ kind h.msg = true) ∧
      X.tryIntoV4 a' = a ∧ (s.tcpPunch a).isSome = true
  | _ => False

/-- After the history `l'`, task `n` delivers the answer it handles to the connection that waits
under `a`. -/
def Delivery (X : Setup) (l l' : List Step) (n : ℕ) (h : Handling) (a : SocketAddr) : Prop :=
  ∃ j past msg a' s, (.step n j past (.sendToTcp msg a') s :: l') <:+ l ∧ j.handling = some h ∧
    h.msg.answers = true ∧ X.tryIntoV4 a' = a ∧ (s.tcpPunch a).isSome = true

/-- The operation passes a request on to `t`, or records it. -/
def PassesOn (t : String) : Op → Prop
  | .pushToPeer t' _ _ => t' = t
  | .insertPending _ t' _ => t' = t
  | _ => False

/-- In the history `l`, task `m` brokered a request from the address `a` to the target `t`. -/
def BrokeredFor (X : Setup) (l : List Step) (m : ℕ) (a : SocketAddr) (t : String) : Prop :=
  ∃ j past o s, .step m j past o s ∈ l ∧ PassesOn t o ∧ Decided X j past a t

/-- Every answer that is delivered is one to a request of its own: an earlier task, found by `f`,
that brokered a request from the address the answer goes to, and to the peer that answers if it
proved who it is. -/
def OnlySolicited (X : Setup) (l : List Step) : Prop := ∃ f : ℕ → ℕ,
  (∀ l' n h a, Delivery X l l' n h a →
    ∃ t, BrokeredFor X l' (f l'.length) a t ∧ Entitled h.authed t) ∧
  Set.InjOn f {k | ∃ l' n h a, Delivery X l l' n h a ∧ l'.length = k}

/-! ## Answers in turn -/

/-- In the history `l`, task `m` pushed a request from the address `a` to the target `t`. -/
def PushedFor (X : Setup) (l : List Step) (m : ℕ) (a : SocketAddr) (t : String) : Prop :=
  ∃ j past msg addr s h, .step m j past (.pushToPeer t msg addr) s ∈ l ∧ j.handling = some h ∧
    X.tryIntoV4 h.self.addr = a

/-- In the history `l`, task `n` took out the record that task `m` had made of a request. -/
def Redeemed (X : Setup) (l : List Step) (n m : ℕ) : Prop :=
  ∃ j past a authed s l₁ j' past' addr src s' l₂ entry,
    (.step n j past (.redeemPending a authed) s :: l₁) <:+ l ∧
      Stands (pendingEntry X) a entry l₁
        (.step m j' past' (.insertPending addr entry.targetId src) s') l₂

/-- Since the request of task `m` came in, nothing that `kind` accepts was delivered under `a`. -/
def Unanswered (X : Setup) (kind : RendezvousMessage → Bool) (l : List Step) (m : ℕ)
    (a : SocketAddr) : Prop :=
  ∃ j s l', System.Since (Delivers X kind a) l (.start m j s) l'

/-- After the history `l`, it is the turn of the answer: one that is delivered unchecked comes from
the target of a request that was pushed, and that nobody has answered; and one that took out the
record of a request comes before any that is unchecked. -/
def MayDeliver (X : Setup) (l : List Step) (n : ℕ) (h : Handling) (a : SocketAddr) : Prop :=
  (h.msg.answersHole = true → ∃ m t, PushedFor X l m a t ∧ Entitled h.authed t ∧
    Unanswered X RendezvousMessage.answers l m a) ∧
  (h.msg.answersRelay = true → ∀ m, Redeemed X l n m →
    Unanswered X RendezvousMessage.answersHole l m a)

/-- An answer to a connection that waits is delivered in its turn. -/
def InTurn (X : Setup) (l : List Step) (p : Pool Op Op.Res Server Job) : Choice Job Env → Prop
  | .step n => ∀ j past msg a k h, p.live n = some ⟨j, past, .call (.sendToTcp msg a) k⟩ →
      j.handling = some h → (p.shared.tcpPunch (X.tryIntoV4 a)).isSome = true →
        MayDeliver X l n h (X.tryIntoV4 a)
  | _ => True

variable {X : Setup} {l l' : List Step} {p : Pool Op Op.Res Server Job} {m n : ℕ} {h : Handling}
  {a : SocketAddr} {t : String}

theorem Delivery.mayDeliver (hd : Delivery X l l' n h a)
    (hr : (hbbs X).Run Server.Booted (InTurn X) l p) : MayDeliver X l' n h a := by
  obtain ⟨j, past, msg, a', s, hs, hj, -, rfl, hwaits⟩ := hd
  obtain ⟨p', c, p'', -, hc, ha, -, rfl⟩ := hr.before _ _ hs
  obtain ⟨k, hl⟩ := System.advance_step_live ha
  obtain rfl := System.advance_choice ha
  exact hc j past msg a' k h hl hj hwaits

/-! ## The request of an answer -/

variable {C : List Step → Pool Op Op.Res Server Job → Choice Job Env → Prop}

/-- A request that was pushed was brokered. -/
theorem PushedFor.brokered (hp : PushedFor X l' m a t) (hr : (hbbs X).Run Server.Booted C l p)
    (hl : l' <:+ l) : BrokeredFor X l' m a t := by
  obtain ⟨j, past, msg, addr, s, h, hmem, hj, rfl⟩ := hp
  obtain ⟨new, old, heq⟩ := List.append_of_mem hmem
  have hs : (.step m j past (.pushToPeer t msg addr) s :: old) <:+ l :=
    List.IsSuffix.trans ⟨new, heq.symm⟩ hl
  obtain ⟨-, -, addr', hbrokers, -⟩ :=
    hr.guarantee (hbbs_verified X) m j past _ s (hl.subset hmem)
  have hdec := decided_of_brokers hr hs hbrokers
  obtain ⟨h', q, hj', -, -, rfl, -⟩ := hbrokers
  obtain rfl : h = h' := Option.some.inj (hj.symm.trans hj')
  exact ⟨j, past, _, s, hmem, rfl, hdec⟩

/-- A task brokers for one address. -/
theorem BrokeredFor.addr_unique {l₁ l₂ : List Step} {a₁ a₂ : SocketAddr} {t₁ t₂ : String}
    (h₁ : BrokeredFor X l₁ m a₁ t₁) (h₂ : BrokeredFor X l₂ m a₂ t₂)
    (hr : (hbbs X).Run Server.Booted C l p) (hl₁ : l₁ <:+ l) (hl₂ : l₂ <:+ l) : a₁ = a₂ := by
  obtain ⟨j₁, past₁, o₁, s₁, hmem₁, -, h, q, hj, -, -, rfl, -⟩ := h₁
  obtain ⟨j₂, past₂, o₂, s₂, hmem₂, -, h', q', hj', -, -, rfl, -⟩ := h₂
  obtain rfl := hr.job_unique.2 m j₁ j₂ past₁ past₂ o₁ o₂ s₁ s₂ (hl₁.subset hmem₁)
    (hl₂.subset hmem₂)
  obtain rfl : h = h' := Option.some.inj (hj.symm.trans hj')
  rfl

/-- The request of task `m`, from `a` to `t`, is one that the answer may be to. -/
structure AnswersTo (X : Setup) (l : List Step) (n : ℕ) (h : Handling) (a : SocketAddr) (m : ℕ)
    (t : String) : Prop where
  brokered : BrokeredFor X l m a t
  entitled : Entitled h.authed t
  turn : (h.msg.answersHole = true ∧ Unanswered X RendezvousMessage.answers l m a) ∨
    h.msg.answersRelay = true ∧ Redeemed X l n m ∧
      Unanswered X RendezvousMessage.answersHole l m a

theorem Delivery.exists_answersTo (hd : Delivery X l l' n h a)
    (hX : ∀ a, X.tryIntoV4 (X.tryIntoV4 a) = X.tryIntoV4 a)
    (hr : (hbbs X).Run Server.Booted (InTurn X) l p) : ∃ m t, AnswersTo X l' n h a m t := by
  obtain ⟨hhole, hrelay⟩ := hd.mayDeliver hr
  obtain ⟨j, past, msg, a', s, hs, hj, hans, rfl, -⟩ := hd
  have hl' : l' <:+ l := (List.suffix_cons _ _).trans hs
  cases hk : h.msg.answersHole with
  | true =>
    obtain ⟨m, t, hpushed, hent, hopen⟩ := hhole hk
    exact ⟨m, t, hpushed.brokered hr hl', hent, .inl ⟨hk, hopen⟩⟩
  | false =>
    have hk' : h.msg.answersRelay = true := by simpa [RendezvousMessage.answers, hk] using hans
    obtain ⟨-, -, h', hj', hans'⟩ :=
      hr.guarantee (hbbs_verified X) n j past _ s (hs.subset List.mem_cons_self)
    obtain rfl : h = h' := Option.some.inj (hj.symm.trans hj')
    -- it took out the record of a request
    have hgranted : ∃ entry grant, Granted X past a' h.authed entry grant := by
      unfold Answers at hans'
      unfold RendezvousMessage.answersRelay at hk'
      split at hk'
      · next rr hrr =>
        rw [hrr] at hans'
        obtain ⟨-, entry, grant, rr', hg, -⟩ := hans'
        exact ⟨entry, grant, hg⟩
      · cases hk'
    obtain ⟨entry, grant, s₀, hcall, hgrant⟩ := hgranted
    rw [hr.past n j past _ s l' hs] at hcall
    obtain ⟨j₀, past₀, hmem⟩ := System.mem_calls.1 hcall
    obtain ⟨new, l₁, rfl⟩ := List.append_of_mem hmem
    have hs₁ : (.step n j₀ past₀ (.redeemPending a' h.authed) s₀ :: l₁) <:+ l :=
      List.IsSuffix.trans ⟨new, rfl⟩ hl'
    obtain ⟨hfound, hent, -⟩ := redeem_granted_iff.1 hgrant
    rw [show s₀.pendingRelay = _ from pendingRelay_pre hr hs₁] at hfound
    obtain ⟨i, l₂, hst⟩ := tableOf_eq_some.1 hfound
    obtain ⟨m, j₂, past₂, addr, src, s₂, rfl, ha, -⟩ := pendingEntry_records hst.records
    have hred : Redeemed X (new ++ .step n j₀ past₀ (.redeemPending a' h.authed) s₀ :: l₁) n m :=
      ⟨j₀, past₀, a', h.authed, s₀, l₁, j₂, past₂, addr, src, s₂, l₂, entry, ⟨new, rfl⟩, hst⟩
    have hs₂ := hst.suffix.trans ((List.suffix_cons _ _).trans hs₁)
    have hrule := hr.guarantee (hbbs_verified X) m j₂ past₂ _ s₂ (hs₂.subset List.mem_cons_self)
    have hdec := decided_of_brokers hr hs₂ hrule.2.2
    have haddr : X.tryIntoV4 a' = X.tryIntoV4 addr := by rw [← ha, hX]
    have hin : .step m j₂ past₂ (.insertPending addr entry.targetId src) s₂ ∈
        new ++ .step n j₀ past₀ (.redeemPending a' h.authed) s₀ :: l₁ :=
      List.mem_append_right _ (List.mem_cons_of_mem _ (hst.suffix.subset List.mem_cons_self))
    exact ⟨m, entry.targetId, ⟨j₂, past₂, _, s₂, hin, rfl, haddr ▸ hdec⟩, hent,
      .inr ⟨hk', hred, hrelay hk' m hred⟩⟩

/-! ## No request is answered twice -/

/-- What happened before the request of a task came in was not done by it. -/
theorem Unanswered.not_delivers {kind : RendezvousMessage → Bool} {x : Step} {l₁ : List Step}
    (ho : Unanswered X kind l' m a) (hr : (hbbs X).Run Server.Booted C l p) (hl : l' <:+ l)
    (hx : (x :: l₁) <:+ l') (hb : BrokeredFor X l₁ m a t) : ¬Delivers X kind a x := by
  intro hd
  obtain ⟨j, s, l₀, hsince⟩ := ho
  have hold : (x :: l₁) <:+ l₀ := hsince.older hx hd fun hstart => hstart
  have hnone := hr.calls_before_start (hsince.suffix.trans hl)
  obtain ⟨j', past, o, s', hmem, -⟩ := hb
  have hcall : ⟨o, s'⟩ ∈ System.calls m l₀ :=
    System.mem_calls.2 ⟨j', past, ((List.suffix_cons _ _).trans hold).subset hmem⟩
  rw [hnone] at hcall
  cases hcall

/-- A record is taken out once. -/
theorem Redeemed.unique {l₁ l₂ : List Step} {n₁ n₂ : ℕ} (h₁ : Redeemed X l₁ n₁ m)
    (h₂ : Redeemed X l₂ n₂ m) (hr : (hbbs X).Run Server.Booted C l p) (hl₁ : l₁ <:+ l)
    (hl₂ : l₂ <:+ l) : n₁ = n₂ := by
  obtain ⟨j₁, past₁, a₁, authed₁, s₁, k₁, i₁, ipast₁, addr₁, src₁, is₁, d₁, e₁, hs₁, hst₁⟩ := h₁
  obtain ⟨j₂, past₂, a₂, authed₂, s₂, k₂, i₂, ipast₂, addr₂, src₂, is₂, d₂, e₂, hs₂, hst₂⟩ := h₂
  have hk₁ := hs₁.trans hl₁
  have hk₂ := hs₂.trans hl₂
  obtain ⟨-, -, rfl⟩ := hr.once (P := fun o => o.kind = .deposit) (deposit_once hr)
    (hst₁.suffix.trans ((List.suffix_cons _ _).trans hk₁))
    (hst₂.suffix.trans ((List.suffix_cons _ _).trans hk₂)) rfl rfl
  have hsrc₁ : Source (pendingEntry X) l k₁.length d₁.length a₁ e₁ :=
    ⟨_, k₁, hk₁, rfl, rfl, _, d₁, hst₁, rfl⟩
  have hsrc₂ : Source (pendingEntry X) l k₂.length d₁.length a₂ e₂ :=
    ⟨_, k₂, hk₂, rfl, rfl, _, d₁, hst₂, rfl⟩
  obtain ⟨heq, -⟩ := Happened.before_unique hk₁ hk₂ (hsrc₁.injective hsrc₂)
  exact (Item.step.inj heq).1

/-- A task delivers once. -/
theorem Delivery.not_again {l₁ l₂ : List Step} {h₁ h₂ : Handling} {a₁ a₂ : SocketAddr}
    (hd₁ : Delivery X l l₁ n h₁ a₁) (hd₂ : Delivery X l l₂ n h₂ a₂)
    (hr : (hbbs X).Run Server.Booted C l p) : ¬l₁.length < l₂.length := by
  intro hlt
  obtain ⟨j₁, past₁, msg₁, a₁', s₁, hs₁, -⟩ := hd₁
  obtain ⟨j₂, past₂, msg₂, a₂', s₂, hs₂, -⟩ := hd₂
  have hin := (Happened.of_suffix hs₁).before hs₂ hlt
  have hcall : ⟨.sendToTcp msg₁ a₁', s₁⟩ ∈ System.calls n l₂ :=
    System.mem_calls.2 ⟨j₁, past₁, hin.mem⟩
  rw [← hr.past n j₂ past₂ _ s₂ l₂ hs₂] at hcall
  obtain ⟨-, hlacks, -⟩ :=
    hr.guarantee (hbbs_verified X) n j₂ past₂ _ s₂ (hs₂.subset List.mem_cons_self)
  exact hlacks _ hcall rfl

/-- Two answers are not to one request. -/
theorem AnswersTo.not_again {l₁ l₂ : List Step} {n₁ n₂ : ℕ} {h₁ h₂ : Handling} {a₁ a₂ : SocketAddr}
    {t₁ t₂ : String} (ht₁ : AnswersTo X l₁ n₁ h₁ a₁ m t₁) (ht₂ : AnswersTo X l₂ n₂ h₂ a₂ m t₂)
    (hd₁ : Delivery X l l₁ n₁ h₁ a₁) (hd₂ : Delivery X l l₂ n₂ h₂ a₂)
    (hr : (hbbs X).Run Server.Booted C l p) : ¬l₁.length < l₂.length := by
  intro hlt
  have hd₁' := hd₁
  have hd₂' := hd₂
  obtain ⟨j₁, past₁, msg₁, a₁', s₁, hs₁, hj₁, hans₁, ha₁, hwaits₁⟩ := hd₁
  obtain ⟨j₂, past₂, msg₂, a₂', s₂, hs₂, -⟩ := hd₂
  have hl₁ : l₁ <:+ l := (List.suffix_cons _ _).trans hs₁
  have hl₂ : l₂ <:+ l := (List.suffix_cons _ _).trans hs₂
  have hx : (.step n₁ j₁ past₁ (.sendToTcp msg₁ a₁') s₁ :: l₁) <:+ l₂ :=
    List.suffix_of_suffix_length_le hs₁ hl₂ hlt
  obtain rfl := ht₁.brokered.addr_unique ht₂.brokered hr hl₁ hl₂
  have hdeliv : ∀ kind : RendezvousMessage → Bool, kind h₁.msg = true →
      Delivers X kind a₁ (.step n₁ j₁ past₁ (.sendToTcp msg₁ a₁') s₁) :=
    fun kind hk => ⟨⟨h₁, hj₁, hk⟩, ha₁, hwaits₁⟩
  obtain ⟨-, hopen⟩ | ⟨-, hred₂, hopen⟩ := ht₂.turn
  · exact hopen.not_delivers hr hl₂ hx ht₁.brokered (hdeliv _ hans₁)
  · obtain ⟨hk, -⟩ | ⟨-, hred₁, -⟩ := ht₁.turn
    · exact hopen.not_delivers hr hl₂ hx ht₁.brokered (hdeliv _ hk)
    · obtain rfl := hred₁.unique hred₂ hr hl₁ hl₂
      exact hd₁'.not_again hd₂' hr hlt

/-! ## The law -/

/-- In a run in which the answers that are delivered unchecked come in their turn, every answer that
is delivered is one to a request of its own. -/
theorem answers_solicited (X : Setup) (hX : ∀ a, X.tryIntoV4 (X.tryIntoV4 a) = X.tryIntoV4 a)
    (l : List Step) (p : Pool Op Op.Res Server Job)
    (hr : (hbbs X).Run Server.Booted (InTurn X) l p) : OnlySolicited X l := by
  classical
  have hex : ∀ k, ∃ m, ∀ l' n h a, Delivery X l l' n h a → l'.length = k →
      ∃ t, AnswersTo X l' n h a m t := by
    intro k
    by_cases hk : ∃ l' n h a, Delivery X l l' n h a ∧ l'.length = k
    · obtain ⟨l', n, h, a, hd, rfl⟩ := hk
      obtain ⟨m, t, ht⟩ := hd.exists_answersTo hX hr
      refine ⟨m, fun l₁ n₁ h₁ a₁ hd₁ hlen => ⟨t, ?_⟩⟩
      obtain ⟨j, past, msg, a', s, hs, hj, -, rfl, -⟩ := hd
      obtain ⟨j₁, past₁, msg₁, a₁', s₁, hs₁, hj₁, -, rfl, -⟩ := hd₁
      obtain ⟨heq, rfl⟩ := Happened.before_unique hs hs₁ hlen.symm
      obtain ⟨rfl, rfl, -, hop, -⟩ := Item.step.inj heq
      obtain ⟨-, rfl⟩ := Op.sendToTcp.inj hop
      obtain rfl : h = h₁ := Option.some.inj (hj.symm.trans hj₁)
      exact ht
    · exact ⟨0, fun l' n h a hd hlen => absurd ⟨l', n, h, a, hd, hlen⟩ hk⟩
  choose f hf using hex
  refine ⟨f, fun l' n h a hd => ?_, ?_⟩
  · obtain ⟨t, ht⟩ := hf l'.length l' n h a hd rfl
    exact ⟨t, ht.brokered, ht.entitled⟩
  · rintro k₁ ⟨l₁, n₁, h₁, a₁, hd₁, rfl⟩ k₂ ⟨l₂, n₂, h₂, a₂, hd₂, rfl⟩ heq
    obtain ⟨t₁, ht₁⟩ := hf l₁.length l₁ n₁ h₁ a₁ hd₁ rfl
    obtain ⟨t₂, ht₂⟩ := hf l₂.length l₂ n₂ h₂ a₂ hd₂ rfl
    rw [← heq] at ht₂
    have hle₁ := ht₁.not_again ht₂ hd₁ hd₂ hr
    have hle₂ := ht₂.not_again ht₁ hd₂ hd₁ hr
    show l₁.length = l₂.length
    omega

/-! ## An answer nobody asked for -/

namespace Sample

/-- The step delivers an answer to a connection that waits. -/
def delivers : Step → Bool
  | .step _ j _ (.sendToTcp _ a) s =>
    (j.handling.any fun h => h.msg.answers) && (s.tcpPunch a).isSome
  | _ => false

/-- The step passes a request on, or records it. -/
def passesOn : Step → Bool
  | .step _ _ _ (.pushToPeer _ _ _) _ => true
  | .step _ _ _ (.insertPending _ _ _) _ => true
  | _ => false

/-- `ctrl001` asks for `target1`, on the connection `c`. -/
def punchRequest (c : ConnId) : Job := .frame c (task 1) none (some (.punchHoleRequest
  ⟨"target1", .asymmetric, "", "", 0, false, 0, [], some ⟨"ctrl001", [1], ""⟩⟩))

/-- An answer to `ctrl001`. -/
def holeSent : RendezvousMessage :=
  .punchHoleSent ⟨mangleEncode (task 1).addr, "target1", "", .asymmetric, "", [], 0⟩

/-- A controller asks, and waits for the gates; somebody else connects, and answers. -/
def injectedRun : List (Choice Job Env) :=
  register 0 0 1 "ctrl001" ++ playFor 2 1 (punchRequest 0) ++
    playFor 6 2 (.handshake 1 (task 2) (some (some holeSent)))

/-- The newest item delivers an answer, and no request was passed on. -/
def showsInjected : List Step → Bool
  | i :: l => delivers i && l.all fun i => !passesOn i
  | [] => false

theorem delivery_of_delivers {i : Step} (hs : (i :: l') <:+ l) (h : delivers i = true) :
    ∃ n h a, Delivery (setup .offer false) l l' n h a := by
  unfold delivers at h
  split at h
  · next n j past msg a s =>
    obtain ⟨hans, hwaits⟩ := Bool.and_eq_true_iff.1 h
    obtain ⟨h, hj, hans⟩ := (Option.any_eq_true _ _).1 hans
    exact ⟨n, h, a, j, past, msg, a, s, hs, hj, hans, rfl, hwaits⟩
  · cases h

theorem not_brokeredFor {X : Setup} (h : (l.all fun i => !passesOn i) = true) :
    ¬BrokeredFor X l m a t := by
  rintro ⟨j, past, o, s, hmem, hpass, -⟩
  have hno := List.all_eq_true.1 h _ hmem
  cases o with
  | pushToPeer t' msg addr => cases hno
  | insertPending addr t' src => cases hno
  | _ => cases hpass

/-- A target is asked. -/
def askedRun : List (Choice Job Env) :=
  register 0 0 2 "target1" ++ register 1 1 1 "ctrl001" ++ play 2 (punchRequest 1)

/-- It answers, but for the delivery itself. -/
def honestRun : List (Choice Job Env) :=
  askedRun ++ play 3 (.frame 0 (task 2) none (some holeSent))

/-- The choice delivers no answer. -/
def delivered (p : Pool Op Op.Res Server Job) : Choice Job Env → Bool
  | .step n => match p.live n with
    | some ⟨j, _, .call (.sendToTcp _ _) _⟩ => !j.handling.any fun h => h.msg.answers
    | _ => true
  | _ => true

theorem inTurn_of_delivered {X : Setup} (l : List Step) (p : Pool Op Op.Res Server Job)
    (c : Choice Job Env) (h : delivered p c = true) : InTurn X l p c := by
  cases c with
  | step n =>
    intro j past msg a k hd hl hj _
    simp only [delivered, hl, hj, Option.any_some, RendezvousMessage.answers, Bool.not_eq_true',
      Bool.or_eq_false_iff] at h
    refine ⟨fun hhole => ?_, fun hrelay => ?_⟩
    · cases h.1.symm.trans hhole
    · cases h.2.symm.trans hrelay
  | _ => trivial

/-- Task 2 has pushed a request of `ctrl001`, nothing was delivered, and task 3 is about to deliver
an answer to it. -/
def aboutToAnswer (l : List Step) (p : Pool Op Op.Res Server Job) : Bool :=
  (l.any fun
    | .step n j _ (.pushToPeer _ _ _) _ =>
      decide (n = 2) && j.handling.any fun h => decide (h.self.addr = (task 1).addr)
    | _ => false) &&
  (l.all fun i => !delivers i) &&
  match p.live 3 with
  | some ⟨j, _, .call (.sendToTcp _ a) _⟩ => decide (a = (task 1).addr) &&
    (p.shared.tcpPunch a).isSome && j.handling.any fun h => h.authed.isNone && h.msg.answersHole
  | _ => false

theorem not_delivers {i : Step} (h : delivers i = false) :
    ¬Delivers (setup .offer false) RendezvousMessage.answers a i := by
  cases i with
  | step n j past o s =>
    cases o with
    | sendToTcp msg a' =>
      rintro ⟨⟨h', hj, hans⟩, rfl, hwaits⟩
      have hwaits : (s.tcpPunch a').isSome = true := hwaits
      simp [delivers, hj, hans, hwaits] at h
    | _ => exact fun hf => hf
  | _ => exact fun hf => hf

/-- A run in which a target was asked, and answers. -/
theorem exists_answered : ∃ l p,
    (hbbs (setup .offer false)).Run Server.Booted (InTurn (setup .offer false)) l p ∧
      ∃ l' n h a, Delivery (setup .offer false) l l' n h a := by
  obtain ⟨l, p, hr, ht⟩ : ∃ l p,
      (hbbs (setup .offer false)).Run Server.Booted (InTurn (setup .offer false)) l p ∧
        aboutToAnswer l p = true :=
    ⟨_, _, (System.Run.boot (server_booted [])).execIf
      (fun l p c _ h => inTurn_of_delivered l p c h) honestRun, by decide +kernel⟩
  obtain ⟨hrest, hlast⟩ := Bool.and_eq_true_iff.1 ht
  obtain ⟨hasked, hquiet⟩ := Bool.and_eq_true_iff.1 hrest
  split at hlast
  · next j past msg a k hlive =>
    simp only [Bool.and_eq_true, decide_eq_true_eq] at hlast
    obtain ⟨⟨rfl, hwaits⟩, hframe⟩ := hlast
    obtain ⟨h, hj, hframe⟩ := (Option.any_eq_true _ _).1 hframe
    obtain ⟨hnone, hhole⟩ := Bool.and_eq_true_iff.1 hframe
    have hturn : InTurn (setup .offer false) l p (.step 3) := by
      intro j' past' msg' a' k' h' hl hj' _
      cases hlive.symm.trans hl
      obtain rfl : h = h' := Option.some.inj (hj.symm.trans hj')
      refine ⟨fun _ => ?_, fun hrelay => ?_⟩
      · obtain ⟨i, hmem, hpush⟩ := List.any_eq_true.1 hasked
        split at hpush
        · next n j₂ past₂ t msg₂ addr s₂ =>
          obtain ⟨hn, haddr⟩ := Bool.and_eq_true_iff.1 hpush
          obtain rfl := of_decide_eq_true hn
          obtain ⟨h₂, hj₂, haddr⟩ := (Option.any_eq_true _ _).1 haddr
          obtain ⟨s₀, hstart⟩ := hr.started.2 _ _ _ _ _ hmem
          obtain ⟨l₀, hsince⟩ := System.exists_since hstart fun x hx =>
            not_delivers (by simpa using List.all_eq_true.1 hquiet x hx)
          refine ⟨2, t, ⟨j₂, past₂, msg₂, addr, s₂, h₂, hmem, hj₂, of_decide_eq_true haddr⟩, ?_,
            j₂, s₀, l₀, hsince⟩
          intro who hwho
          rw [hwho] at hnone
          cases hnone
        · cases hpush
      · unfold RendezvousMessage.answersHole at hhole
        unfold RendezvousMessage.answersRelay at hrelay
        split at hrelay
        · next hrr =>
          rw [hrr] at hhole
          cases hhole
        · cases hrelay
    refine ⟨_, _, .next hr hturn (System.advance_step hlive), l, 3, h, (task 1).addr, j, past, msg,
      _, _, List.suffix_rfl, hj, ?_, rfl, hwaits⟩
    rw [RendezvousMessage.answers, hhole, Bool.true_or]
  · cases hlast

end Sample

/-- The answer of a target that was asked is one to a request of its own. -/
theorem answers_solicited_asked : ∃ l p, (hbbs (Sample.setup .offer false)).Run Server.Booted
    (InTurn (Sample.setup .offer false)) l p ∧
    (∃ l' n h a, Delivery (Sample.setup .offer false) l l' n h a) ∧
    OnlySolicited (Sample.setup .offer false) l := by
  obtain ⟨l, p, hr, hd⟩ := Sample.exists_answered
  exact ⟨l, p, hr, hd, answers_solicited (Sample.setup .offer false) (fun _ => rfl) l p hr⟩

/-- An answer of somebody who was not asked reaches a controller that waits. -/
theorem not_answers_solicited : ¬∀ X : Setup,
    (∀ a, X.tryIntoV4 (X.tryIntoV4 a) = X.tryIntoV4 a) → ∀ (l : List Step)
      (p : Pool Op Op.Res Server Job), (hbbs X).Run Server.Booted System.Free l p →
        OnlySolicited X l := by
  intro hall
  obtain ⟨l, p, hr, ht⟩ := Sample.exists_run (Sample.setup .offer false) [] Sample.injectedRun
    (fun l _ => Sample.showsInjected l) (by decide +kernel)
  obtain ⟨f, hf, -⟩ := hall (Sample.setup .offer false) (fun _ => rfl) l p hr
  cases l with
  | nil => cases ht
  | cons i l =>
    obtain ⟨hdel, hnone⟩ := Bool.and_eq_true_iff.1 ht
    obtain ⟨n, h, a, hd⟩ := Sample.delivery_of_delivers List.suffix_rfl hdel
    obtain ⟨t, hb, -⟩ := hf l n h a hd
    exact Sample.not_brokeredFor hnone hb

end NemoServer
