import NemoServer.Laws.Grants
import NemoServer.Server.Routing

/-!
# What a refused request leaves behind

Two handlers act before they check. A `RelayResponse` takes the request it answers out of the table
before it is known who answers, and a registration makes its connection the route to the peer
before it is known whose the id is. Each undoes something of a third party if it is then refused.

* `refused_response_keeps_iff`: a refused response leaves the pending requests alone exactly if no
  request is on record under the address it names.
* `unaccepted_keeps_route_iff`: a registration that is not accepted leaves the route to the peer
  alone exactly if it registers no handle, or the one that is registered already.
-/

set_option autoImplicit false

namespace NemoServer

open Prog Rendezvous

variable {X : Setup} {C : List Step → Pool Op Op.Res Server Job → Choice Job Env → Prop}
  {l : List Step} {p : Pool Op Op.Res Server Job}

/-! ## Responses -/

/-- A task that redeems a request does so once, and records none. -/
theorem redeem_alone (hr : (hbbs X).Run Server.Booted C l p) {n : ℕ} {a : SocketAddr}
    {authed : Option AuthedDevice} {s : Server}
    (hx : ⟨.redeemPending a authed, s⟩ ∈ System.calls n l) {y : Call Op Server}
    (hy : y ∈ System.calls n l) :
    (y.op.kind = .redeem → y = ⟨.redeemPending a authed, s⟩) ∧ y.op.kind ≠ .deposit := by
  have hv := hbbs_verified X
  obtain ⟨j, past, hi⟩ := System.mem_calls.1 hx
  obtain ⟨j', past', hi'⟩ := System.mem_calls.1 hy
  obtain ⟨-, -, h, rr, hj, hmsg, -, -⟩ := hr.guarantee hv _ _ _ _ _ hi
  constructor
  · intro hk
    obtain ⟨-, l₁, hs₁, -⟩ := Happened.of_mem hi
    obtain ⟨-, l₂, hs₂, -⟩ := Happened.of_mem hi'
    have honce : ∀ n j past o s, .step n j past o s ∈ l → o.kind = .redeem →
        ∀ x ∈ past, ¬ x.op.kind = .redeem := by
      intro n j past o s hi hk
      obtain ⟨-, hrule⟩ := hr.guarantee hv _ _ _ _ _ hi
      cases o with
      | redeemPending a authed => exact hrule.1
      | _ => cases hk
    obtain ⟨ho, hs, -⟩ := hr.once (P := fun o => o.kind = .redeem) honce hs₁ hs₂ rfl hk
    obtain ⟨o', s'⟩ := y
    dsimp only at ho hs
    rw [← ho, ← hs]
  · intro hk
    obtain ⟨o', s'⟩ := y
    obtain ⟨-, hrule⟩ := hr.guarantee hv _ _ _ _ _ hi'
    cases o' with
    | insertPending addr t src =>
      -- who records a request handles a request, not a response
      obtain ⟨-, h', q, hj', hq, -, -, -⟩ := hrule
      obtain rfl := hr.job_unique.2 _ _ _ _ _ _ _ _ _ hi hi'
      obtain rfl := Option.some.inj (hj.symm.trans hj')
      rw [hmsg] at hq
      cases hq
    | _ => cases hk

/-- The task `n` handles a response that names the address `a`, and refuses it when it looks the
request up in the state `s`: there is none, it is another peer's, or there is no key to sign with. -/
structure Refuses (X : Setup) (l : List Step) (n : ℕ) (a : SocketAddr)
    (authed : Option AuthedDevice) (s : Server) : Prop where
  call : ⟨.redeemPending a authed, s⟩ ∈ System.calls n l
  refused : ∀ entry grant, (s.redeemPending X a authed).1 ≠ .granted entry grant

/-- The response leaves the pending requests alone: each of its operations does, and who could
redeem a request before it still can. -/
structure KeepsPending (X : Setup) (l : List Step) (n : ℕ) (a : SocketAddr)
    (authed : Option AuthedDevice) (s : Server) : Prop where
  table : ∀ x ∈ System.calls n l, (Op.sem X x.op x.pre).2.pendingRelay = x.pre.pendingRelay
  redeemable : ∀ b who entry grant, (s.redeemPending X b who).1 = .granted entry grant →
    ∃ grant', ((s.redeemPending X a authed).2.redeemPending X b who).1 = .granted entry grant'

namespace Sample

/-- `target1`, `ctrl001` and a peer with a device key connect; if `asked`, the controller asks for
a relay to the target; the other peer answers before the target does. -/
def usurpedRun (asked : Bool) : List (Choice Job Env) :=
  register 0 0 2 "target1" ++ register 1 1 1 "ctrl001" ++ connect 2 2 3 2 "other01" ++
    (if asked then play 3 (.frame 1 (task 1) none relayRequest) else
      play 3 (.frame 1 (task 1) none none)) ++
    play 4 (.frame 2 (task 3) (some ⟨textOfBytes [65], "other01"⟩) relayAnswer)

/-- The task is refused when it answers the controller; `found` says whether a request is on
record. -/
def isRefused (found : Bool) : Step → Bool
  | .step n _ _ (.redeemPending a authed) s =>
    decide (n = 4) && decide (a = (task 1).addr) && ((s.pendingRelay a).isSome == found) &&
      !(((s.redeemPending (setup .offer false) a authed).1 matches .granted _ _))
  | _ => false

theorem refuses_of_isRefused {i : Step} {found : Bool} (hi : i ∈ l) (h : isRefused found i = true) :
    ∃ authed s, Refuses (setup .offer false) l 4 (task 1).addr authed s ∧
      (s.pendingRelay (task 1).addr).isSome = found := by
  unfold isRefused at h
  split at h
  · next n j past a authed s =>
    simp only [Bool.and_eq_true, decide_eq_true_eq, beq_iff_eq, Bool.not_eq_true'] at h
    obtain ⟨⟨⟨rfl, rfl⟩, hfound⟩, hrefused⟩ := h
    refine ⟨authed, s, ⟨System.mem_calls.2 ⟨j, past, hi⟩, fun entry grant hgrant => ?_⟩, hfound⟩
    rw [hgrant] at hrefused
    cases hrefused
  · cases h

theorem exists_refused (asked : Bool) : ∃ l p,
    (hbbs (setup .offer false)).Run Server.Booted System.Free l p ∧
      ∃ i ∈ l, isRefused asked i = true := by
  obtain ⟨l, p, hr, ht⟩ := exists_run (setup .offer false) [deviceKey "other01"]
    (usurpedRun asked) (fun l _ => l.any (isRefused asked))
    (by cases asked <;> decide +kernel)
  exact ⟨l, p, hr, List.any_eq_true.1 ht⟩

end Sample

/-! ## Registrations -/

theorem registerPeerPush_tcpPeers (id : String) (c : ConnId) (s : Server) :
    (s.registerPeerPush id c).tcpPeers id = s.tcpPeers id ↔ id = "" ∨ s.tcpPeers id = some c := by
  unfold Server.registerPeerPush
  by_cases hid : id = ""
  · rw [if_pos hid]
    exact iff_of_true rfl (.inl hid)
  · rw [if_neg hid]
    dsimp only
    rw [Table.insert_self, or_iff_right hid]
    exact eq_comm

/-- The heartbeat a task handles. -/
def Job.beats (j : Job) : Option RegisterPeer :=
  match j with
  | .datagram _ (some (.registerPeer rp)) => some rp
  | j =>
    match j.handling with
    | some ⟨_, _, _, .registerPeer rp⟩ => some rp
    | _ => none

/-- The operation answers the client with `msg`, on its connection or over UDP. -/
def Op.Replies (o : Op) (msg : RendezvousMessage) : Prop :=
  (∃ c, o = .sendToSink c msg) ∨ ∃ addr, o = .udpSend msg addr

/-- The task `n` handles a registration for `id` that it does not accept: it is over and has not
answered a `RegisterPk` with OK, or it has answered a `RegisterPeer` by asking for the key. -/
inductive Unaccepted (l : List Step) (p : Pool Op Op.Res Server Job) (n : ℕ) (id : String) : Prop
  | registerPk (j : Job) (past : Past) (o : Op) (s : Server) (rk : RegisterPk)
      (step : .step n j past o s ∈ l) (registers : j.registers = some rk) (id_eq : rk.id = id)
      (hover : p.live n = none)
      (answer : ∀ x ∈ System.calls n l, ¬ x.op.Replies (.registerPkResponse .ok))
  | registerPeer (j : Job) (past : Past) (o : Op) (s : Server) (rp : RegisterPeer)
      (step : .step n j past o s ∈ l) (beats : j.beats = some rp) (id_eq : rp.id = id)
      (answer : ∃ x ∈ System.calls n l, x.op.Replies (.registerPeerResponse true))

theorem enrols_of_registers {j : Job} {rk : RegisterPk} (hreg : j.registers = some rk)
    {h : Handling} (hj : j.handling = some h) : h.msg = .registerPk rk := by
  unfold Job.registers at hreg
  split at hreg
  · cases hj
  · rw [hj] at hreg
    split at hreg
    · next heq =>
      obtain rfl := Option.some.inj hreg
      rw [Option.some.inj heq]
    · cases hreg

theorem enrols_of_beats {j : Job} {rp : RegisterPeer} (hbeats : j.beats = some rp)
    {h : Handling} (hj : j.handling = some h) : h.msg = .registerPeer rp := by
  unfold Job.beats at hbeats
  split at hbeats
  · cases hj
  · rw [hj] at hbeats
    split at hbeats
    · next heq =>
      obtain rfl := Option.some.inj hbeats
      rw [Option.some.inj heq]
    · cases hbeats

/-- The frame of such a task, if it came on a connection, is a registration for the id. -/
theorem Unaccepted.enrols {n : ℕ} {id : String} (h : Unaccepted l p n id) :
    ∃ j past o s, .step n j past o s ∈ l ∧
      ∀ h, j.handling = some h → h.msg.enrols = some id ∧ h.msg.request = none := by
  cases h with
  | registerPk j past o s rk step registers id_eq hover answer =>
    refine ⟨j, past, o, s, step, fun h hj => ?_⟩
    rw [enrols_of_registers registers hj]
    exact ⟨congrArg some id_eq, rfl⟩
  | registerPeer j past o s rp step beats id_eq answer =>
    refine ⟨j, past, o, s, step, fun h hj => ?_⟩
    rw [enrols_of_beats beats hj]
    exact ⟨congrArg some id_eq, rfl⟩

/-- A registration that is not accepted leaves the route to its peer alone exactly if, when its
connection is registered as the route, the id is empty or it was the route before. -/
theorem unaccepted_keeps_route_iff (X : Setup) (l : List Step) (p : Pool Op Op.Res Server Job)
    (hr : (hbbs X).Run Server.Booted System.Free l p) (n : ℕ) (id : String)
    (hu : Unaccepted l p n id) :
    (∀ x ∈ System.calls n l, (Op.sem X x.op x.pre).2.tcpPeers id = x.pre.tcpPeers id) ↔
      ∀ c s, ⟨.registerPeerPush id c, s⟩ ∈ System.calls n l → id = "" ∨ s.tcpPeers id = some c := by
  constructor
  · intro h c s hx
    exact (registerPeerPush_tcpPeers id c s).1 (h _ hx)
  · rintro h ⟨o', s'⟩ hx
    obtain ⟨j, past, o, s, hi, henrols⟩ := hu.enrols
    obtain ⟨j', past', hi'⟩ := System.mem_calls.1 hx
    obtain rfl := hr.job_unique.2 _ _ _ _ _ _ _ _ _ hi hi'
    by_cases hroute : o'.kind = .route
    · cases o' with
      | registerPeerPush id' c =>
        obtain ⟨h', hj, rfl, hid, -⟩ := registerPeerPush_of_run hr hi' id' c rfl
        obtain rfl := Option.some.inj ((henrols h' hj).1.symm.trans hid)
        exact (registerPeerPush_tcpPeers id h'.conn s').2 (h _ _ hx)
      | _ => cases hroute
    · by_cases hpush : o'.kind = .push
      · cases o' with
        | pushToPeer t msg addr =>
          -- who pushes a message handles a request
          obtain ⟨-, -, -, ⟨h', q, hj, hq, -⟩, -⟩ := hr.guarantee (hbbs_verified X) _ _ _ _ _ hi'
          rw [(henrols h' hj).2] at hq
          cases hq
        | _ => cases hpush
      · rw [sem_tcpPeers hroute hpush]

namespace Sample

/-- A registration of `target1` by a machine with another uuid. -/
def strange : Option RendezvousMessage := some (.registerPk ⟨"target1", [2], [2]⟩)

/-- `target1` registers; then another machine does so under its id, on a connection of its own, or
on the same one. -/
def strangeRun (own : Bool) : List (Choice Job Env) :=
  register 0 0 2 "target1" ++
    (if own then play 1 (.handshake 1 (task 3) (some strange)) else
      play 1 (.frame 0 (task 2) none strange))

def isOk : Step → Bool
  | .step n _ _ (.sendToSink _ (.registerPkResponse .ok)) _ => decide (n = 1)
  | .step n _ _ (.udpSend (.registerPkResponse .ok) _) _ => decide (n = 1)
  | _ => false

/-- The second registration makes its connection the route; `held` says whether it was so. -/
def isRouted (held : Bool) : Step → Bool
  | .step n j _ (.registerPeerPush id c) s =>
    decide (n = 1) && decide (id = "target1") &&
      decide (j.registers = some ⟨"target1", [2], [2]⟩) && (decide (s.tcpPeers id = some c) == held)
  | _ => false

theorem exists_strange (own : Bool) : ∃ l p,
    (hbbs (setup .offer false)).Run Server.Booted System.Free l p ∧
      (∃ i ∈ l, isRouted (!own) i = true) ∧ (∀ i ∈ l, isOk i = false) ∧ p.live 1 = none := by
  obtain ⟨l, p, hr, ht⟩ := exists_run (setup .offer false) [] (strangeRun own)
    (fun l p => l.any (isRouted (!own)) && l.all (fun i => !isOk i) && (p.live 1).isNone)
    (by cases own <;> decide +kernel)
  simp only [Bool.and_eq_true, List.any_eq_true, List.all_eq_true, Bool.not_eq_true',
    Option.isNone_iff_eq_none] at ht
  exact ⟨l, p, hr, ht.1.1, ht.1.2, ht.2⟩

theorem unaccepted_of_strange {i : Step} {held : Bool} (hi : i ∈ l) (h : isRouted held i = true)
    (hno : ∀ i ∈ l, isOk i = false) (hover : p.live 1 = none) : Unaccepted l p 1 "target1" ∧
      ∃ c s, ⟨.registerPeerPush "target1" c, s⟩ ∈ System.calls 1 l ∧
        (s.tcpPeers "target1" = some c ↔ held = true) := by
  unfold isRouted at h
  split at h
  · next n j past id c s =>
    simp only [Bool.and_eq_true, decide_eq_true_eq, beq_iff_eq] at h
    obtain ⟨⟨⟨rfl, rfl⟩, hreg⟩, hheld⟩ := h
    refine ⟨.registerPk j past _ s _ hi hreg rfl hover fun x hx hreply => ?_, c, s,
      System.mem_calls.2 ⟨j, past, hi⟩, ?_⟩
    · obtain ⟨o, s'⟩ := x
      obtain ⟨j', past', hi'⟩ := System.mem_calls.1 hx
      obtain ⟨c', rfl⟩ | ⟨addr, rfl⟩ := hreply
      · exact absurd (hno _ hi') (by simp [isOk])
      · exact absurd (hno _ hi') (by simp [isOk])
    · rw [← hheld, decide_eq_true_iff]
  · cases h

theorem unaccepted_keeps_route_same : ∃ l p,
    (hbbs (setup .offer false)).Run Server.Booted System.Free l p ∧ Unaccepted l p 1 "target1" ∧
      ((∀ x ∈ System.calls 1 l, (Op.sem (setup .offer false) x.op x.pre).2.tcpPeers "target1" =
          x.pre.tcpPeers "target1") ↔
        ∀ c s, ⟨.registerPeerPush "target1" c, s⟩ ∈ System.calls 1 l →
          "target1" = "" ∨ s.tcpPeers "target1" = some c) := by
  obtain ⟨l, p, hr, ⟨i, hi, ht⟩, hno, hover⟩ := exists_strange false
  have hu := (unaccepted_of_strange hi ht hno hover).1
  exact ⟨l, p, hr, hu, unaccepted_keeps_route_iff (setup .offer false) l p hr 1 "target1" hu⟩

theorem not_unaccepted_keeps_route : ∃ X l p n id,
    (hbbs X).Run Server.Booted System.Free l p ∧ Unaccepted l p n id ∧
      ¬ ∀ x ∈ System.calls n l, (Op.sem X x.op x.pre).2.tcpPeers id = x.pre.tcpPeers id := by
  obtain ⟨l, p, hr, ⟨i, hi, ht⟩, hno, hover⟩ := exists_strange true
  obtain ⟨hu, c, s, hx, hheld⟩ := unaccepted_of_strange hi ht hno hover
  refine ⟨setup .offer false, l, p, 1, "target1", hr, hu, fun h => ?_⟩
  have hroute := (registerPeerPush_tcpPeers "target1" c s).1 (h _ hx)
  rcases hroute with hempty | hroute
  · exact absurd hempty (by decide)
  · exact absurd (hheld.1 hroute) (by decide)

end Sample

end NemoServer
