import NemoServer.Server.Sem

/-!
# The peer map

`PeerMap` (`peer.rs`): an in-memory map of cells in front of the database. Every method is a
program of operations; another task may run between any two of them.
-/

set_option autoImplicit false

namespace NemoServer

namespace PeerMap

/-- The cell of a peer, loaded from the database if it is not in memory. An error of the database
is taken for a peer it does not know. -/
def get (id : String) : Handler (Option PeerRef) := do
  match ← perform (.mapGet id) with
  | some r => pure (some r)
  | none =>
    match ← perform (.dbGetPeer id) with
    | some (some row) =>
      let r ← perform (.mapInstall id row)
      pure (some r)
    | _ => pure none

def getOr (id : String) : Handler PeerRef := do
  match ← get id with
  | some r => pure r
  | none => perform (.mapGetOrInsert id)

def getInMemory (id : String) : Handler (Option PeerRef) := perform (.mapGet id)

/-- Its result is the answer the caller ought to send. -/
def updatePk (X : Setup) (id : String) (peer : PeerRef) (addr : SocketAddr) (uuid pk : Bytes)
    (ip : String) : Handler RegisterPkResult := do
  let guid ← perform (.writePk peer addr uuid pk ip)
  let info := X.infoToJson ip
  match guid with
  | none =>
    match ← perform (.dbInsertPeer id uuid pk info) with
    | none => pure .serverError
    | some guid =>
      perform (.writeGuid peer guid)
      pure .ok
  | some guid =>
    match ← perform (.dbUpdatePk guid id pk info) with
    | none => pure .serverError
    | some () => pure .ok

/-- The block status; `none` is an error of the database. -/
def peerStatus (id : String) : Handler (Option (Option ℤ)) := do
  match ← getInMemory id with
  | some r =>
    let peer ← perform (.readPeer r)
    pure (some peer.status)
  | none =>
    match ← perform (.dbGetPeer id) with
    | some row => pure (some (row.bind (·.status)))
    | none => pure none

def isPeerBlocked (id : String) : Handler Bool := do
  return (← peerStatus id) == some (some 0)

def isPeerAllowedForControl (id : String) (companyOnly : Bool) : Handler Bool := do
  match ← peerStatus id with
  | some (some 0) => pure false
  | some (some 1) => pure true
  | _ => pure !companyOnly

def setPeerStatus (id : String) (status : Option ℤ) (note : Option String) : Handler Unit := do
  match ← perform (.dbSetPeerStatus id status note) with
  | some true =>
    match ← perform (.mapGet id) with
    | some r => perform (.writeStatus r status)
    | none => pure ()
  | _ => pure ()

def setPeerManagementPolicy (id : String) (policy : Option String) : Handler Unit := do
  let _ ← perform (.dbSetManagementPolicy id policy)

def deleteRegistered (id : String) : Handler Unit := do
  match ← perform (.dbDeletePeer id) with
  | some true => perform (.mapRemove id)
  | _ => pure ()

end PeerMap

end NemoServer
