/-
  Candid formalization — `v1.idpHandler`, the `idp.Context` the server gives
  an identity provider, as far as it talks to the identity store.

  `FindUserByExternalId` queries the identities collection for the external
  id and turns the driver's `mgo.ErrNotFound` into a `NotFound` error.
  `FindUserByName` and `UpdateUser` call the store's `GetIdentity`,
  `UpsertUser` and `UpsertAgent` and mask their errors, keeping the causes the
  identity provider may see.  The functions they call that are not part of
  the sources are parameters: `userFromIdentity`, `getIdentity`,
  `identityFromUser`, `upsertUser`, `upsertAgent`, and `owner`, the `Owner`
  field of an identity.  (`GetIdentity`, `UpsertUser` and `UpsertAgent` belong
  to a version of the store package that is not among the sources: the
  `store.Store` modelled in `Candid.Store` has none of them.)

  `LoginSuccess` and `LoginFailure` report the identity provider's outcome:
  to the client waiting on the rendezvous named by the request's `waitid`
  (`place.Done`), to the store (the last login), and on the HTTP response.
  What the services they call return is given by `LoginEnv`; the calls they
  make are returned as a list of `LoginEffect`s.
-/
import Candid.Store

namespace Candid

variable {δ U P : Type}

/-- An `idpHandler`: the field its modelled methods read, `store`. -/
structure IdpHandler (δ : Type) where
  store : Store δ

/-- `FindUserByExternalId`: the user made from the document with external id
    `id`; a `NotFound` error, wrapping the driver's, when there is none; any
    other driver error, masked. -/
def IdpHandler.findUserByExternalId (userFromIdentity : Store δ → Identity δ → Except (Error DriverError) U)
    (c : IdpHandler δ) (id : String) : Except (Error DriverError) U :=
  match c.store.identities.findOne [("external_id", id)] with
  | .ok identity => userFromIdentity c.store identity
  | .error e => if e = .notFound then .error (.withCause .notFound "" []) else .error (.other e)

/-- `FindUserByName`: the user made from the identity `GetIdentity` returns;
    its error masked, but for a `NotFound` cause. -/
def IdpHandler.findUserByName (getIdentity : Store δ → String → Except (Error DriverError) (Identity δ))
    (userFromIdentity : Store δ → Identity δ → Except (Error DriverError) U) (c : IdpHandler δ) (name : String) :
    Except (Error DriverError) U :=
  match getIdentity c.store name with
  | .ok id => userFromIdentity c.store id
  | .error err => .error (.mask [.notFound] err)

/-- `UpdateUser`: the identity made from the user is an agent's when it has
    an owner, upserted by `UpsertAgent` with its error masked; any other is
    upserted by `UpsertUser`, with its error masked but for an
    `AlreadyExists` cause. -/
def IdpHandler.updateUser (identityFromUser : P → Identity δ) (owner : Identity δ → String)
    (upsertAgent upsertUser : Store δ → Identity δ → Store δ × Option (Error DriverError)) (c : IdpHandler δ)
    (u : P) : IdpHandler δ × Option (Error DriverError) :=
  let id := identityFromUser u
  if owner id ≠ "" then
    (⟨(upsertAgent c.store id).1⟩, (upsertAgent c.store id).2.map (.mask []))
  else
    (⟨(upsertUser c.store id).1⟩, (upsertUser c.store id).2.map (.mask [.alreadyExists]))

/-- A `loginInfo`, what a rendezvous is completed with: the identity
    macaroons, or the error. -/
structure LoginInfo (M B : Type) where
  identityMacaroon : List M
  error : Option B
  deriving DecidableEq, Repr

/-- A call `LoginSuccess` or `LoginFailure` makes outside the handler:
    `place.Done`, the store's `UpdateIdentity` setting the last login, or
    `identity.WriteError` on the response. -/
inductive LoginEffect (M B X : Type) where
  | done (waitId : String) (info : LoginInfo M B)
  | updateIdentity (username : String)
  | writeError (err : Error X)
  deriving DecidableEq, Repr

/-- What `LoginSuccess` and `LoginFailure` read of the request and get from
    the services they call: the request's form value `waitid`, the macaroon
    the store's bakery service mints with the caveats (or its error), the
    error `place.Done` returns, and the error `httpbakery.ErrorToResponse`
    makes of an error. -/
structure LoginEnv (C M B X : Type) where
  waitId : String
  newMacaroon : List C → Except (Error X) M
  placeDone : String → LoginInfo M B → Option (Error X)
  errorToResponse : Error X → B

namespace IdpHandler

variable {C M B X : Type} (env : LoginEnv C M B X)

/-- `LoginFailure`: the waiting client, if any, is sent the error, and the
    error is written on the response. -/
def loginFailure (err : Error X) : List (LoginEffect M B X) :=
  (if env.waitId ≠ "" then [.done env.waitId ⟨[], some (env.errorToResponse err)⟩] else []) ++ [.writeError err]

/-- `LoginSuccess`: the calls made and the result.  A macaroon is minted with
    the caveats and the waiting client, if any, is sent it; then the last
    login is set, and the login succeeds.  If minting or the rendezvous fails,
    the login fails through `LoginFailure`. -/
def loginSuccess (username : String) (cavs : List C) : List (LoginEffect M B X) × Bool :=
  match env.newMacaroon cavs with
  | .error err => (loginFailure env (.note "cannot mint identity macaroon" err), false)
  | .ok m =>
    if env.waitId ≠ "" then
      match env.placeDone env.waitId ⟨[m], none⟩ with
      | some err => (.done env.waitId ⟨[m], none⟩ :: loginFailure env (.note "cannot complete rendezvous" err), false)
      | none => ([.done env.waitId ⟨[m], none⟩, .updateIdentity username], true)
    else ([.updateIdentity username], true)

end IdpHandler

end Candid
