import NemoServer.Management.Gates

/-!
# Registration

The core of `RegisterPk` and of the heartbeat `RegisterPeer`, shared by the TCP and the UDP path.
-/

set_option autoImplicit false

namespace NemoServer

namespace Rendezvous

variable (X : Setup)

/-- What `register_pk_core` makes of the stored entry: `none` to refuse the request, else whether
anything is to be written. -/
def registerPkChange (peer : Peer) (rk : RegisterPk) (ip : String) : Option Bool :=
  if peer.uuid = [] then some true
  else if peer.uuid = rk.uuid then
    if peer.ip ≠ ip ∧ peer.pk ≠ rk.pk then none
    else some (decide (peer.pk ≠ rk.pk) || decide (peer.ip ≠ ip))
  else none

/-- The counter of requests in a row; `none` above the limit. -/
def registerPkRate (regPk : ℕ × ℕ) (now : ℕ) : Option (ℕ × ℕ) :=
  if 6 < asSecs (now - regPk.2) then some (1, now)
  else if 2 < regPk.1 then none
  else some (regPk.1 + 1, now)

/-- `none` is a malformed request that deserves no reply. -/
def registerPkCore (rk : RegisterPk) (addr : SocketAddr) : Handler (Option RegisterPkResult) := do
  if rk.uuid = [] ∨ rk.pk = [] then pure none
  else
    let id := rk.id
    let ip := addr.ip.toText
    if ← PeerMap.isPeerBlocked id then
      perform (.record (.registerPk id addr false))
      perform (.record (.policyRejection id addr "peer is blocked"))
      pure (some .tooFrequent)
    else if id.utf8ByteSize < 6 then pure (some .uuidMismatch)
    else if !(← perform (.checkIpBlocker ip id)) then pure (some .tooFrequent)
    else
      let peer ← PeerMap.getOr id
      let old ← perform (.readPeer peer)
      match registerPkChange old rk ip with
      | none => pure (some .uuidMismatch)
      | some changed =>
        let regPk ← perform (.readRegPk peer)
        let now ← perform .instantNow
        match registerPkRate regPk now with
        | none => pure (some .tooFrequent)
        | some regPk =>
          perform (.writeRegPk peer regPk)
          if changed then
            -- the result of `update_pk` is not looked at
            let _ ← PeerMap.updatePk X id peer addr rk.uuid rk.pk ip
          perform (.record (.registerPk id addr true))
          pure (some .ok)

/-- Whether the server still wants the public key of the peer. -/
def updateAddrCore (id : String) (socketAddr : SocketAddr) : Handler Bool := do
  match ← PeerMap.getInMemory id with
  | some r => perform (.writeHeartbeat r socketAddr)
  | none => pure true

end Rendezvous

end NemoServer
