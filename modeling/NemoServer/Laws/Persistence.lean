import NemoServer.Server.History
import NemoServer.Server.Sample

/-!
# OK means persisted

Over every history of requests, with the database failing wherever it likes: a registration that is
answered OK has its values in the database, and one whose write fails leaves nothing cached of it,
exactly as long as no write of a registration fails.
-/

set_option autoImplicit false

namespace NemoServer

open Prog Rendezvous

/-- What a registration asks to be stored. -/
def registered (rk : RegisterPk) (addr : SocketAddr) : Values :=
  ⟨rk.id, rk.uuid, rk.pk, addr.ip.toText⟩

/-- Some call writes a registration to the database. -/
def WriteAttempted (calls : Past) : Prop :=
  ∃ x ∈ calls, match x.op with
    | .dbInsertPeer _ _ _ _ => True
    | .dbUpdatePk _ _ _ _ => True
    | _ => False

/-- OK means persisted; after a failed write the peer is not cached with the values, and an
identical retry that is answered OK attempts the write again. -/
def Persists (X : Setup) (up : Past → Bool) (s : Server) : Turn → Prop
  | .registerPk rk addr =>
    let (answer, calls, s') := registration X up rk addr s
    (answer = some .ok → Holds X s'.db (registered rk addr)) ∧
      (WriteFailed X calls → ¬Cached s'.peers (registered rk addr) ∧
        ∀ up', (registration X up' rk addr s').1 = some .ok →
          WriteAttempted (registration X up' rk addr s').2.1)
  | _ => True

variable {X : Setup} {up : Past → Bool} {s : Server}

theorem persists_iff_clean (hjson : ∀ ip, X.infoOfJson (X.infoToJson ip) = some ip)
    (hP : Synced X s.peers) (q : Turn) : Persists X up s q ↔ q.Clean X up s := by
  cases q with
  | registerPk rk addr =>
    obtain ⟨failed, hres, hw⟩ := registerPkCore_ends (u := up) hP.allocated rk addr
    constructor
    · intro hpers hfail
      exact (hpers.2 hfail).1 (hres.cached hP.allocated (hw.1 hfail))
    · intro hclean
      have hok := hres.synced hjson hP (by simpa using (not_congr hw).1 hclean)
      exact ⟨hok.2.1, fun hfail => absurd hfail hclean⟩
  | _ => exact Iff.rfl

namespace Sample

/-- A client at `10.0.0.1` registers. -/
def newcomer : RegisterPk := ⟨"target1", [1], [1]⟩

def newcomerAddr : SocketAddr := .v4 ⟨10, 0, 0, 1⟩ 1000

/-- The database is gone when the entry has just been written. -/
def lostInsert : Past → Bool
  | ⟨.writePk _ _ _ _ _, _⟩ :: _ => false
  | _ => true

/-- Where the registration leaves the server. -/
def afterLostInsert : Server :=
  (registration (setup .offer false) lostInsert newcomer newcomerAddr (server [])).2.2

end Sample

end NemoServer
