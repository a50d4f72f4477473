import NemoServer.Rendezvous.Online
import NemoServer.Server.Brokering

/-!
# The bits of an answer about peers

The answer to a client that asks which peers are online has a bit for each of them, set exactly if
the look at the peer found its entry with a recent heartbeat, and no other bit. While the server
changes nothing, that is what the peer map says; if other tasks come between, each bit tells what
its own look has found.

* `online_bitmap`: the bytes are as many as the bits need, the bits of the peers are what was
  found, the rest are zero, and no index is out of bounds.
-/

set_option autoImplicit false

namespace NemoServer

open Prog

/-- The peer has an entry in memory, with a heartbeat younger than `REG_TIMEOUT`. -/
def Server.Online (s : Server) (id : String) : Prop :=
  ∃ r, s.map id = some r ∧ asMillis (s.now - (s.cell r).lastRegTime) < Rendezvous.regTimeout

namespace Rendezvous

variable {X : Setup}

/-- The calls of one look at a peer, the newest first, and whether it was found online. -/
inductive Look (id : String) : List (Call Op Server) → Bool → Prop
  | missing {s : Server} (h : s.map id = none) : Look id [⟨.mapGet id, s⟩] false
  | found {s t u : Server} {r : PeerRef} (h : s.map id = some r) :
    Look id [⟨.instantNow, u⟩, ⟨.readPeer r, t⟩, ⟨.mapGet id, s⟩]
      (decide (asMillis (u.now - (t.cell r).lastRegTime) < regTimeout))

/-- The calls of looks at peers in turn, and what was found of each. -/
inductive Looks : List String → List (Call Op Server) → List Bool → Prop
  | nil : Looks [] [] []
  | cons {id : String} {ids : List String} {first rest : List (Call Op Server)} {b : Bool}
    {bs : List Bool} (hlook : Look id first b) (hrest : Looks ids rest bs) :
    Looks (id :: ids) (rest ++ first) (b :: bs)

theorem Looks.length {ids : List String} {calls : List (Call Op Server)} {bs : List Bool}
    (h : Looks ids calls bs) : bs.length = ids.length := by
  induction h with
  | nil => rfl
  | cons hlook hrest ih => rw [List.length_cons, List.length_cons, ih]

/-- As many bytes as `n` bits need. -/
def Sized (states : Bytes) (n : ℕ) : Prop := n ≤ 8 * states.length ∧ 8 * states.length < n + 8

/-! ## The loop -/

/-- A round sets the bit of its peer, if it was found online. -/
theorem lookAtPeer_exec {i : ℕ} {id : String} {states : Bytes} {h h' : List (Call Op Server)}
    {res : Option Bytes} (hi : i < 8 * states.length)
    (he : (lookAtPeer i id states).Exec (Op.sem X) h h' res) :
    ∃ new b states', h' = new ++ h ∧ Look id new b ∧ res = some states' ∧
      states'.length = states.length ∧
      ∀ j, stateBit states' j = (stateBit states j || (b && decide (j = i))) := by
  obtain ⟨h₁, found, ⟨s, hh₁, hfound⟩, he⟩ := exec_bind.1 he
  subst hh₁
  have hfound : found = s.map id := hfound
  subst hfound
  cases hmap : s.map id with
  | none =>
    rw [hmap] at he
    obtain ⟨rfl, rfl⟩ := he
    exact ⟨_, false, states, rfl, .missing hmap, rfl, rfl, by simp⟩
  | some r =>
    rw [hmap] at he
    obtain ⟨t, u, he⟩ := he
    have he : (if asMillis (u.now - (t.cell r).lastRegTime) < regTimeout then
        pure (setState states i) else pure (some states) : Handler (Option Bytes)).Exec (Op.sem X)
        (⟨.instantNow, u⟩ :: ⟨.readPeer r, t⟩ :: ⟨.mapGet id, s⟩ :: h) h' res := he
    by_cases hrecent : asMillis (u.now - (t.cell r).lastRegTime) < regTimeout
    · rw [if_pos hrecent] at he
      obtain ⟨rfl, rfl⟩ := he
      obtain ⟨states', hset, hlen, hbits⟩ := setState_some hi
      refine ⟨_, _, states', rfl, .found hmap, hset, hlen, fun j => ?_⟩
      rw [hbits, decide_eq_true hrecent, Bool.true_and]
    · rw [if_neg hrecent] at he
      obtain ⟨rfl, rfl⟩ := he
      refine ⟨_, _, states, rfl, .found hmap, rfl, rfl, fun j => ?_⟩
      rw [decide_eq_false hrecent, Bool.false_and, Bool.or_false]

/-- The rounds from the index `i` on set the bits of the peers that were found online. -/
theorem lookAtPeers_exec {i : ℕ} {ids : List String} {states : Bytes}
    {h h' : List (Call Op Server)} {res : Option Bytes} (hi : i + ids.length ≤ 8 * states.length)
    (he : (lookAtPeers i ids states).Exec (Op.sem X) h h' res) :
    ∃ new bs states', h' = new ++ h ∧ Looks ids new bs ∧ res = some states' ∧
      states'.length = states.length ∧
      ∀ j, stateBit states' j =
        (stateBit states j || (decide (i ≤ j) && decide (bs[j - i]? = some true))) := by
  induction ids generalizing i states h with
  | nil =>
    obtain ⟨rfl, rfl⟩ := he
    exact ⟨[], [], states, rfl, .nil, rfl, rfl, by simp⟩
  | cons id ids ih =>
    rw [List.length_cons] at hi
    obtain ⟨h₁, res₁, hround, he⟩ := exec_bind.1 he
    obtain ⟨first, b, states₁, rfl, hlook, rfl, hlen₁, hbits₁⟩ :=
      lookAtPeer_exec (by omega) hround
    obtain ⟨rest, bs, states', rfl, hlooks, rfl, hlen, hbits⟩ := ih (by omega) he
    refine ⟨rest ++ first, b :: bs, states', (List.append_assoc ..).symm, .cons hlook hlooks, rfl,
      hlen.trans hlen₁, fun j => ?_⟩
    rw [hbits, hbits₁, Bool.or_assoc]
    congr 1
    obtain hlt | rfl | hgt := Nat.lt_trichotomy j i
    · have hnot : ¬i ≤ j := by omega
      have hnot' : ¬i + 1 ≤ j := by omega
      have hne : j ≠ i := by omega
      simp [hnot, hnot', hne]
    · have hnot : ¬j + 1 ≤ j := by omega
      simp [hnot]
    · obtain ⟨k, rfl⟩ : ∃ k, j = i + 1 + k := ⟨j - (i + 1), by omega⟩
      have hsub : i + 1 + k - i = k + 1 := by omega
      have hne : i + 1 + k ≠ i := by omega
      have hle : i ≤ i + 1 + k := by omega
      simp [hsub, hne, hle]

/-- The answer, whatever other tasks do between the looks. -/
theorem handleOnlineRequest_exec {peers : List String} {h h' : List (Call Op Server)}
    {res : Option Bytes} (he : (handleOnlineRequest peers).Exec (Op.sem X) h h' res) :
    ∃ states new bs, res = some states ∧ Sized states peers.length ∧ h' = new ++ h ∧
      Looks peers new bs ∧ ∀ i, stateBit states i = true ↔ bs[i]? = some true := by
  have hlen : ((List.replicate ((peers.length + 7) / 8) 0 : Bytes)).length =
      (peers.length + 7) / 8 := List.length_replicate
  obtain ⟨new, bs, states, rfl, hlooks, rfl, hlen', hbits⟩ :=
    lookAtPeers_exec (i := 0) (by omega) he
  refine ⟨states, new, bs, rfl, ⟨by omega, by omega⟩, rfl, hlooks, fun i => ?_⟩
  rw [hbits, stateBit_replicate]
  simp

/-! ## The law -/

/-- Looks in one state find the peers that are online in it. -/
theorem Looks.getElem? {s : Server} {ids : List String} {calls : List (Call Op Server)}
    {bs : List Bool} (h : Looks ids calls bs) (hs : ∀ x ∈ calls, x.pre = s) (i : ℕ) :
    bs[i]? = some true ↔ ∃ id, ids[i]? = some id ∧ s.Online id := by
  induction h generalizing i with
  | nil => simp
  | @cons id ids first rest b bs hlook hrest ih =>
    cases i with
    | zero =>
      have hfirst : ∀ x ∈ first, x.pre = s := fun x hx => hs x (List.mem_append_right _ hx)
      have hfound : b = true ↔ s.Online id := by
        cases hlook with
        | @missing s₁ hnone =>
          have hs₁ : s₁ = s := hfirst ⟨.mapGet id, s₁⟩ (by simp)
          subst hs₁
          simp [Server.Online, hnone]
        | @found s₁ t u r hsome =>
          have hs₁ : s₁ = s := hfirst ⟨.mapGet id, s₁⟩ (by simp)
          have ht : t = s := hfirst ⟨.readPeer r, t⟩ (by simp)
          have hu : u = s := hfirst ⟨.instantNow, u⟩ (by simp)
          subst hs₁ ht hu
          simp [Server.Online, hsome]
      simp [hfound]
    | succ i =>
      rw [List.getElem?_cons_succ, List.getElem?_cons_succ]
      exact ih (fun x hx => hs x (List.mem_append_left _ hx)) i

/-- No call of the handler changes the state. -/
theorem handleOnlineRequest_uses (peers : List String) :
    (handleOnlineRequest peers).Uses fun o => ∀ t, (Op.sem X o t).2 = t := by
  have hround : ∀ i id states,
      (lookAtPeer i id states).Uses fun o => ∀ t, (Op.sem X o t).2 = t := by
    intro i id states
    refine uses_bind ⟨fun t => rfl, fun _ => trivial⟩ fun found => ?_
    cases found with
    | none => trivial
    | some r =>
      refine ⟨fun t => rfl, fun peer => ⟨fun t => rfl, fun now => ?_⟩⟩
      change Uses _ (ite _ _ _)
      split <;> trivial
  unfold handleOnlineRequest
  generalize List.replicate ((peers.length + 7) / 8) (0 : UInt8) = states
  generalize 0 = i
  induction peers generalizing i states with
  | nil => trivial
  | cons id ids ih =>
    refine uses_bind (hround i id states) fun res => ?_
    cases res with
    | none => trivial
    | some states => exact ih states (i + 1)

theorem handleOnlineRequest_still (peers : List String) (past : Past) (s : Server) :
    ∃ new, ((handleOnlineRequest peers).solo (Op.sem X) still past s).2.1 = new ++ past ∧
      ∀ x ∈ new, x.pre = s := by
  refine (handleOnlineRequest_uses (X := X) peers).calls (I := (· = s)) rfl (fun _ _ ht => ht) ?_
  rintro o t ho rfl
  exact ho t

/-- The bytes are as many as the bits need; the bit of a peer is set exactly if the peer is online,
or, if others come between, if it was found online; the other bits are zero, and no index is out of
bounds. -/
theorem online_bitmap (X : Setup) (peers : List String) (past : Past) (s : Server) :
    (∃ states, ((handleOnlineRequest peers).solo (Op.sem X) still past s).1 = some states ∧
      Sized states peers.length ∧
      ∀ i, stateBit states i = true ↔ ∃ id, peers[i]? = some id ∧ s.Online id) ∧
    ∀ adj : Past → Server → Server,
      ∃ states new bs, ((handleOnlineRequest peers).solo (Op.sem X) adj past s).1 = some states ∧
        Sized states peers.length ∧
        ((handleOnlineRequest peers).solo (Op.sem X) adj past s).2.1 = new ++ past ∧
        Looks peers new bs ∧ ∀ i, stateBit states i = true ↔ bs[i]? = some true := by
  have hall : ∀ adj : Past → Server → Server,
      ∃ states new bs, ((handleOnlineRequest peers).solo (Op.sem X) adj past s).1 = some states ∧
        Sized states peers.length ∧
        ((handleOnlineRequest peers).solo (Op.sem X) adj past s).2.1 = new ++ past ∧
        Looks peers new bs ∧ ∀ i, stateBit states i = true ↔ bs[i]? = some true := by
    intro adj
    obtain ⟨calls, hcalls, hexec, -⟩ := exec_solo (Op.sem X) adj (handleOnlineRequest peers) past s
    obtain ⟨states, new, bs, hres, hsized, hnew, hlooks, hbits⟩ := handleOnlineRequest_exec hexec
    exact ⟨states, new, bs, hres, hsized, hcalls.trans hnew, hlooks, hbits⟩
  refine ⟨?_, hall⟩
  obtain ⟨states, new, bs, hres, hsized, hnew, hlooks, hbits⟩ := hall still
  obtain ⟨new', hnew', hpre⟩ := handleOnlineRequest_still (X := X) peers past s
  have hsame : new = new' := List.append_cancel_right (hnew.symm.trans hnew')
  subst hsame
  refine ⟨states, hres, hsized, fun i => ?_⟩
  rw [hbits, hlooks.getElem? hpre]

end Rendezvous

end NemoServer
