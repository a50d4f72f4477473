import NemoServer.Setup

/-!
# The peer table of the database

The queries of `database.rs` on the list of rows of the table `peer`: `guid` is its primary key
and `id` is unique. A guid is the number of the version 4 uuid it was made from. A query that
fails is the caller's business: here are the effects of those that succeed, with `none` for a
violated constraint.
-/

set_option autoImplicit false

namespace NemoServer

/-- A row of the table `peer`. -/
structure Row where
  guid : ℕ
  id : String
  uuid : Bytes
  pk : Bytes
  info : String
  status : Option ℤ
  note : Option String
  managementPolicy : Option String
  deriving DecidableEq

/-- The fields of `RegisteredPeer` that the gates and the client policy read. -/
structure RegisteredPeer where
  id : String
  uuid : Bytes
  pk : Bytes
  status : Option ℤ
  managementPolicy : Option String
  deriving DecidableEq

namespace Database

def getPeer (db : List Row) (id : String) : Option Row := db.find? fun r => r.id == id

def insertPeer (db : List Row) (guid : ℕ) (id : String) (uuid pk : Bytes) (info : String) :
    Option (List Row) :=
  if db.any fun r => r.id == id then none
  else some (db ++ [⟨guid, id, uuid, pk, info, none, none, none⟩])

def updatePk (db : List Row) (guid : ℕ) (id : String) (pk : Bytes) (info : String) :
    Option (List Row) :=
  if (db.any fun r => r.guid == guid) && db.any fun r => r.id == id && r.guid != guid then none
  else some (db.map fun r =>
    if r.guid = guid then { r with id := id, pk := pk, info := info } else r)

/-- `registered_peer_from_row`: unlike `get_peer`, it takes what the driver makes of a NULL. -/
def registeredPeerFromRow (X : Setup) (r : Row) : RegisteredPeer :=
  ⟨r.id, r.uuid, r.pk, r.status <|> X.nullInt, r.managementPolicy <|> X.nullText⟩

def getRegisteredPeer (X : Setup) (db : List Row) (id : String) : Option RegisteredPeer :=
  (getPeer db id).map (registeredPeerFromRow X)

/-- `order by created_at desc, id asc`; a row was created when its guid was made. -/
def listedBefore (createdAt : ℕ → String) (r r' : Row) : Bool :=
  decide (createdAt r'.guid < createdAt r.guid) ||
    createdAt r.guid == createdAt r'.guid && decide (r.id ≤ r'.id)

def listRegisteredPeers (X : Setup) (createdAt : ℕ → String) (db : List Row)
    (limit offset : ℕ) : List RegisteredPeer :=
  (((db.mergeSort (listedBefore createdAt)).drop offset).take limit).map (registeredPeerFromRow X)

def setPeerStatus (db : List Row) (id : String) (status : Option ℤ) (note : Option String) :
    Bool × List Row :=
  (db.any fun r => r.id == id, db.map fun r =>
    if r.id = id then { r with status := status, note := note <|> r.note } else r)

def setPeerManagementPolicy (db : List Row) (id : String) (policy : Option String) :
    Bool × List Row :=
  (db.any fun r => r.id == id, db.map fun r =>
    if r.id = id then { r with managementPolicy := policy } else r)

def deleteRegisteredPeer (db : List Row) (id : String) : Bool × List Row :=
  (db.any fun r => r.id == id, db.filter fun r => r.id != id)

end Database

end NemoServer
