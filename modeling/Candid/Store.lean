/-
  Candid formalization — `store.Store`, the identity store kept in MongoDB.

  The identities collection is a list of documents and the indexes installed
  on it.  The driver is not part of this repository; it is modelled as the
  spec describes it (§4.1, §6): `Collection.upsert` is `Upsert(selector,
  doc)` as one atomic conditional write, `Collection.ensureIndex` is
  `EnsureIndex`, and `Collection.findOne` is `Find(query).One`.
  `uuid.NewSHA1` is the parameter `newSHA1`.

  * `Store.ensureIndexes` installs the unique indexes on `username` and on
    `external_id` (`identityIndexes`), and `Store.new` fails if it cannot;
  * `Store.upsertIdentity` stamps the document with the UUID derived from its
    user name and upserts it by user name and external id, turning a
    duplicate key error into `AlreadyExists`.
-/
import Candid.Basic

namespace Candid

variable {δ : Type}

/-- A `mongodoc.Identity`: the fields the store reads or writes (`UUID`,
    `UserName`, `ExternalID`), and the rest (`δ`). -/
structure Identity (δ : Type) where
  uuid : String
  userName : String
  externalID : String
  info : δ
  deriving DecidableEq, Repr

/-- The key of a document. -/
def Identity.key (d : Identity δ) : Key := ⟨d.userName, d.externalID⟩

/-- A document's value for a field, by its stored name, as a query or an
    index reads it: `none` for a field the document does not have. -/
def Identity.field (d : Identity δ) : String → Option String
  | "username" => some d.userName
  | "external_id" => some d.externalID
  | _ => none

/-- The document has every field of the selector at its value (a query
    `bson.M{field: value, ...}`). -/
def Identity.Matches (sel : List (String × String)) (d : Identity δ) : Bool :=
  sel.all fun p => d.field p.1 == some p.2

/-- An `mgo.Index`: the fields it is on, and whether it is unique. -/
structure Index where
  key : List String
  unique : Bool
  deriving DecidableEq, Repr

/-- The values a document has on an index's fields. -/
def Index.values (idx : Index) (d : Identity δ) : List (Option String) := idx.key.map d.field

/-- A collection: its documents, in insertion order, and its indexes. -/
structure Collection (δ : Type) where
  docs : List (Identity δ)
  indexes : List Index

/-- No two of the documents `docs` have the same values on a unique index of
    `idxs`. -/
def IndexesHold (idxs : List Index) (docs : List (Identity δ)) : Prop :=
  ∀ idx ∈ idxs, idx.unique → (docs.map idx.values).Nodup

instance (idxs : List Index) (docs : List (Identity δ)) : Decidable (IndexesHold idxs docs) :=
  inferInstanceAs (Decidable (∀ idx ∈ idxs, idx.unique → _))

/-- A driver error: a duplicate key error, `mgo.ErrNotFound`, or another. -/
inductive DriverError where
  | dupKey
  | notFound
  | other (msg : String)
  deriving DecidableEq, Repr

/-- `mgo.IsDup`. -/
def DriverError.isDup : DriverError → Bool
  | .dupKey => true
  | .notFound => false
  | .other _ => false

/-- The first document satisfying `p` replaced by `d`, or `d` appended when
    none does. -/
def replaceOrAppend (p : Identity δ → Bool) (d : Identity δ) : List (Identity δ) → List (Identity δ)
  | [] => [d]
  | d' :: ds => if p d' then d :: ds else d' :: replaceOrAppend p d ds

/-- Modelled from the spec: the driver's `Collection.Upsert(selector, doc)`,
    "a single conditional write" (§4.1): the first document matching the
    selector is replaced by `doc`, or `doc` is inserted when none matches;
    when the result would violate a unique index the write fails with a
    duplicate key error and changes nothing. -/
def Collection.upsert (c : Collection δ) (sel : List (String × String)) (doc : Identity δ) :
    Except DriverError (Collection δ) :=
  if IndexesHold c.indexes (replaceOrAppend (Identity.Matches sel) doc c.docs) then
    .ok { c with docs := replaceOrAppend (Identity.Matches sel) doc c.docs }
  else .error .dupKey

/-- Modelled from the spec: the driver's `Collection.EnsureIndex(index)`
    (§4.1, "Indexes"): an index already installed is kept; a new unique
    index that the documents violate cannot be built. -/
def Collection.ensureIndex (c : Collection δ) (idx : Index) : Except DriverError (Collection δ) :=
  if idx ∈ c.indexes then .ok c
  else if IndexesHold [idx] c.docs then .ok { c with indexes := c.indexes ++ [idx] }
  else .error .dupKey

/-- Modelled from the driver: `Collection.Find(query).One(&doc)`, the first
    document matching the query, or `mgo.ErrNotFound` when none does. -/
def Collection.findOne (c : Collection δ) (sel : List (String × String)) : Except DriverError (Identity δ) :=
  match c.docs.find? (Identity.Matches sel) with
  | some d => .ok d
  | none => .error .notFound

/-- A `store.Store`: the identities collection of its database
    (`s.DB.Identities()`). -/
structure Store (δ : Type) where
  identities : Collection δ

/-- The indexes `ensureIndexes` installs on the identities collection. -/
def identityIndexes : List Index := [⟨["username"], true⟩, ⟨["external_id"], true⟩]

namespace Store

/-- `ensureIndexes`: each index in turn, returning the first error, masked. -/
def ensureIndexes (s : Store δ) : Except (Error DriverError) (Store δ) :=
  identityIndexes.foldlM (fun s idx =>
    match s.identities.ensureIndex idx with
    | .ok c => .ok ⟨c⟩
    | .error e => .error (.other e)) s

/-- `New`: a store on the identities collection `c`, once its indexes are
    ensured. -/
def new (c : Collection δ) : Except (Error DriverError) (Store δ) :=
  match ensureIndexes ⟨c⟩ with
  | .ok s => .ok s
  | .error e => .error (.note "cannot ensure indexes" e)

section
variable (newSHA1 : String → ByteArray → String)

/-- `IdentityNamespace`, the name space of the identities' UUIDs. -/
def identityNamespace : String := "685c2eaa-9721-11e4-b717-a7bf1a250a86"

/-- The UUID of the identity with user name `userName`:
    `uuid.NewSHA1(IdentityNamespace, []byte(userName)).String()`. -/
def identityUUID (userName : String) : String := newSHA1 identityNamespace userName.toUTF8

/-- The document `UpsertIdentity` writes, and leaves in the caller's `doc`:
    `doc` with its `UUID` derived from its user name. -/
def withUUID (doc : Identity δ) : Identity δ := { doc with uuid := identityUUID newSHA1 doc.userName }

/-- `UpsertIdentity`: the store after the call and the error returned. -/
def upsertIdentity (s : Store δ) (doc : Identity δ) : Store δ × Option (Error DriverError) :=
  match s.identities.upsert [("username", doc.userName), ("external_id", doc.externalID)]
      (withUUID newSHA1 doc) with
  | .ok c => (⟨c⟩, none)
  | .error e =>
    (s, some (if e.isDup then .withCause .alreadyExists "cannot add user: duplicate username or external_id" []
      else .other e))

end

end Store

end Candid
