import NemoServer.Rendezvous.PunchHole

/-!
# Which peers are online

`handle_online_request`: a client lists peers, and the answer has one bit for each, the bits of a
byte from left to right.
-/

set_option autoImplicit false

namespace NemoServer

namespace Rendezvous

/-- `states[i / 8] |= 0x01 << (7 - i % 8)`; `none` if there is no such byte. -/
def setState (states : Bytes) (i : ℕ) : Option Bytes :=
  (states[i / 8]?).map fun b => states.set (i / 8) (b ||| 0x01 <<< UInt8.ofNat (7 - i % 8))

/-- One round of the loop. -/
def lookAtPeer (i : ℕ) (id : String) (states : Bytes) : Handler (Option Bytes) := do
  match ← PeerMap.getInMemory id with
  | none => pure (some states)
  | some peer =>
    let r ← perform (.readPeer peer)
    let now ← perform .instantNow
    if asMillis (now - r.lastRegTime) < regTimeout then pure (setState states i)
    else pure (some states)

/-- The loop, from the peer with the index `i` on. -/
def lookAtPeers : ℕ → List String → Bytes → Handler (Option Bytes)
  | _, [], states => pure (some states)
  | i, id :: ids, states => do
    match ← lookAtPeer i id states with
    | none => pure none
    | some states => lookAtPeers (i + 1) ids states

/-- The bytes of the answer; `none` if an index is out of bounds. -/
def handleOnlineRequest (peers : List String) : Handler (Option Bytes) :=
  lookAtPeers 0 peers (List.replicate ((peers.length + 7) / 8) 0)

/-- The bit at an index, counted from the most significant bit of each byte. -/
def stateBit (states : Bytes) (i : ℕ) : Bool :=
  ((states[i / 8]?).getD 0).toNat.testBit (7 - i % 8)

/-! ## Bits -/

theorem testBit_or_shiftLeft (b : UInt8) {k m : ℕ} (hk : k < 8) :
    (b ||| 0x01 <<< UInt8.ofNat k).toNat.testBit m = (b.toNat.testBit m || decide (k = m)) := by
  have hshift : ((0x01 : UInt8) <<< UInt8.ofNat k).toNat = 2 ^ k := by
    have hall : ∀ k < 8, ((0x01 : UInt8) <<< UInt8.ofNat k).toNat = 2 ^ k := by decide
    exact hall k hk
  rw [UInt8.toNat_or, Nat.testBit_or, hshift, Nat.testBit_two_pow]

/-- Within the bytes the bit is set, and no other. -/
theorem setState_some {states : Bytes} {i : ℕ} (h : i < 8 * states.length) :
    ∃ states', setState states i = some states' ∧ states'.length = states.length ∧
      ∀ j, stateBit states' j = (stateBit states j || decide (j = i)) := by
  have hbyte : i / 8 < states.length := by omega
  have hget : states[i / 8]? = some states[i / 8] := List.getElem?_eq_getElem hbyte
  refine ⟨_, by rw [setState, hget]; rfl, List.length_set .., fun j => ?_⟩
  unfold stateBit
  by_cases hsame : j / 8 = i / 8
  · rw [hsame, List.getElem?_set_self hbyte, hget, Option.getD_some, Option.getD_some,
      testBit_or_shiftLeft _ (by omega)]
    congr 1
    rw [decide_eq_decide]
    omega
  · rw [List.getElem?_set_ne (Ne.symm hsame)]
    have hne : j ≠ i := fun heq => hsame (by rw [heq])
    simp [hne]

theorem stateBit_replicate (n i : ℕ) : stateBit (List.replicate n 0) i = false := by
  unfold stateBit
  rw [List.getElem?_replicate]
  split <;> simp

end Rendezvous

end NemoServer
