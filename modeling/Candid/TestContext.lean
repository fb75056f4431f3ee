/-
  Candid formalization — `idptest.TestContext`, the `idp.Context` that the
  tests of identity providers use in place of the server.

  A `TestContext` holds the fields a test sets and the fields `mu` guards:
  the request parameters, the known users, and the arguments of the last
  `LoginSuccess` and `LoginFailure`.  Every method that touches the guarded
  fields holds `mu` for its whole body, so each call is one atomic step:
  `step c x` is the state after the call `x`, and `run` makes calls in turn.

  * `updateUsers` is the loop of `UpdateUser`, which stops at the first user
    sharing the new user's name or external id;
  * `findUser` is the search of `FindUserByName` and `FindUserByExternalId`,
    which differ only in the field compared and the message of the error.
-/
import Candid.Basic

namespace Candid

variable {ι E R T : Type}

/-- A `params.User`: the fields `TestContext` compares (`Username`,
    `ExternalID`) and the rest (`ι`), which it stores and returns whole. -/
structure User (ι : Type) where
  username : String
  externalID : String
  info : ι
  deriving DecidableEq, Repr

/-- The key a user is stored under. -/
def User.key (u : User ι) : Key := ⟨u.username, u.externalID⟩

/-- `httprequest.Params` as `Params` builds it: the copy of the request it
    holds. -/
structure Params (R : Type) where
  request : R
  deriving DecidableEq, Repr

/-- The fields of a `TestContext` that a test sets: `URLPrefix`, `Request`
    (`none` for nil), `FailOnLoginSuccess`, and the errors that the store
    methods return in place of their work (`none` for nil). -/
structure Config (E R : Type) where
  urlPrefix : String
  request : Option R
  failOnLoginSuccess : Bool
  updateUserError : Option E
  findUserByNameError : Option E
  findUserByExternalIdError : Option E

/-- An `idptest.TestContext`: its configuration and the fields `mu` guards
    (`params_` is the `params` field, `none` while its `Request` is nil). -/
structure TestContext (ι E R T : Type) extends Config E R where
  params_ : Option (Params R)
  users : List (User ι)
  username : String
  expiry : T
  usernameSet : Bool
  err : Option E
  errSet : Bool

/-- The loop of `UpdateUser`: the first user that has `user`'s name is
    replaced by `user` if it also has its external id, and is a clash
    otherwise; a user before it that has only the external id is a clash;
    when no user has either, `user` is appended. -/
def updateUsers (user : User ι) : List (User ι) → Except (Error E) (List (User ι))
  | [] => .ok [user]
  | u :: us =>
    if u.username = user.username then
      if u.externalID = user.externalID then .ok (user :: us)
      else .error (.withCause .alreadyExists "username %q already used" [user.username])
    else if u.externalID = user.externalID then
      .error (.withCause .alreadyExists "external id %q already used" [user.externalID])
    else (updateUsers user us).map (u :: ·)

/-- The search of `FindUserByName` and `FindUserByExternalId`: the error `inj`
    set by the test, or else the first user whose field `f` is `s`, or else a
    `NotFound` error with the message `format`. -/
def findUser (inj : Option E) (f : User ι → String) (format s : String) (users : List (User ι)) :
    Except (Error E) (User ι) :=
  match inj with
  | some e => .error (.other e)
  | none =>
    match users.find? (f · = s) with
    | some u => .ok u
    | none => .error (.withCause .notFound format [s])

namespace TestContext

/-- A `TestContext` as a test builds it: the configuration set, the guarded
    fields zero. -/
def new [Inhabited T] (cfg : Config E R) : TestContext ι E R T :=
  { cfg with params_ := none, users := [], username := "", expiry := default, usernameSet := false,
             err := none, errSet := false }

/-- `URL`. -/
def url (c : TestContext ι E R T) (path : String) : String := c.urlPrefix ++ path

/-- `Params`: the first call builds the parameters from a copy of `Request`
    (the zero request when it is nil) and keeps them. -/
def params [Inhabited R] (c : TestContext ι E R T) : TestContext ι E R T × Params R :=
  match c.params_ with
  | some p => (c, p)
  | none => ({ c with params_ := some ⟨c.request.getD default⟩ }, ⟨c.request.getD default⟩)

/-- `UpdateUser`: the state after the call and the error returned. -/
def updateUser (c : TestContext ι E R T) (user : User ι) : TestContext ι E R T × Option (Error E) :=
  match c.updateUserError with
  | some e => (c, some (.other e))
  | none =>
    match updateUsers user c.users with
    | .ok users => ({ c with users }, none)
    | .error e => (c, some e)

/-- `FindUserByName`. -/
def findUserByName (c : TestContext ι E R T) (name : String) : Except (Error E) (User ι) :=
  findUser c.findUserByNameError User.username "cannot find user %q" name c.users

/-- `FindUserByExternalId`. -/
def findUserByExternalId (c : TestContext ι E R T) (id : String) : Except (Error E) (User ι) :=
  findUser c.findUserByExternalIdError User.externalID "cannot find external id %q" id c.users

/-- `LoginSuccess`: records its arguments, and reports success unless
    `FailOnLoginSuccess`. -/
def loginSuccess (c : TestContext ι E R T) (username : String) (expiry : T) :
    TestContext ι E R T × Bool :=
  ({ c with username, expiry, usernameSet := true }, !c.failOnLoginSuccess)

/-- `LoginFailure`: records its argument. -/
def loginFailure (c : TestContext ι E R T) (err : Option E) : TestContext ι E R T :=
  { c with err, errSet := true }

/-- `LoginSuccessCall`. -/
def loginSuccessCall (c : TestContext ι E R T) : String × T × Bool :=
  (c.username, c.expiry, c.usernameSet)

/-- `LoginFailureCall`. -/
def loginFailureCall (c : TestContext ι E R T) : Option E × Bool := (c.err, c.errSet)

/-- `AssertUser`: `FindUserByName` of the user's name returns no error and a
    user deeply equal to it. -/
def assertUser [DecidableEq ι] (c : TestContext ι E R T) (u : User ι) : Bool :=
  match c.findUserByName u.username with
  | .ok w => decide (w = u)
  | .error _ => false

variable [Inhabited R]

/-- A call of a method that holds `mu` (`RequestURL` and `Response` hold it
    in the `Params` call they make). -/
inductive Call (ι E T : Type) where
  | updateUser (user : User ι)
  | findUserByName (name : String)
  | findUserByExternalId (id : String)
  | loginSuccess (username : String) (expiry : T)
  | loginFailure (err : Option E)
  | params
  | requestURL
  | response
  | loginSuccessCall
  | loginFailureCall

/-- The state after a call. -/
def step (c : TestContext ι E R T) : Call ι E T → TestContext ι E R T
  | .updateUser u => (c.updateUser u).1
  | .findUserByName _ => c
  | .findUserByExternalId _ => c
  | .loginSuccess n t => (c.loginSuccess n t).1
  | .loginFailure e => c.loginFailure e
  | .params => c.params.1
  | .requestURL => c.params.1
  | .response => c.params.1
  | .loginSuccessCall => c
  | .loginFailureCall => c

/-- The calls `cs` made in turn from `c`. -/
def run (c : TestContext ι E R T) (cs : List (Call ι E T)) : TestContext ι E R T :=
  cs.foldl step c

/-! ## What each call changes -/

variable {c : TestContext ι E R T}

section
omit [Inhabited R]
variable {u : User ι} {l : List (User ι)} {e : Error E}

/-- `UpdateUser` changes only the users. -/
theorem updateUser_fst : (c.updateUser u).1 = { c with users := (c.updateUser u).1.users } := by
  unfold updateUser
  split
  · rfl
  · split <;> rfl

theorem updateUser_of_some {e : E} (h : c.updateUserError = some e) :
    c.updateUser u = (c, some (.other e)) := by
  simp [updateUser, h]

theorem updateUser_of_ok (h : c.updateUserError = none)
    (hl : (updateUsers u c.users : Except (Error E) _) = .ok l) :
    c.updateUser u = ({ c with users := l }, none) := by
  simp [updateUser, h, hl]

theorem updateUser_of_error (h : c.updateUserError = none) (hl : updateUsers u c.users = .error e) :
    c.updateUser u = (c, some e) := by
  simp [updateUser, h, hl]

end

/-- `Params` changes only the stored parameters, to those it returns. -/
theorem params_fst : c.params.1 = { c with params_ := some c.params.2 } := by
  unfold params
  split
  · next p hp => cases c; simp only at hp; rw [hp]
  · rfl

@[simp] theorem users_params : c.params.1.users = c.users := by rw [params_fst]

@[simp] theorem toConfig_params : c.params.1.toConfig = c.toConfig := by rw [params_fst]

/-- Only `UpdateUser` changes the users. -/
theorem users_step_of_ne {x : Call ι E T} (hx : ∀ u, x ≠ .updateUser u) : (c.step x).users = c.users := by
  cases x with
  | updateUser u => exact absurd rfl (hx u)
  | params | requestURL | response => exact users_params
  | _ => rfl

/-- No call changes the configuration. -/
@[simp] theorem toConfig_step (x : Call ι E T) : (c.step x).toConfig = c.toConfig := by
  cases x with
  | updateUser u => rw [step, updateUser_fst]
  | params | requestURL | response => exact toConfig_params
  | _ => rfl

@[simp] theorem toConfig_run (cs : List (Call ι E T)) : (c.run cs).toConfig = c.toConfig := by
  induction cs generalizing c with
  | nil => rfl
  | cons x cs ih => exact ih.trans (toConfig_step x)

end TestContext

/-- Every error of the loop of `UpdateUser` is an `AlreadyExists`. -/
theorem cause_of_updateUsers {u : User ι} {e : Error E} :
    ∀ {l : List (User ι)}, updateUsers u l = .error e → e.cause? = some .alreadyExists
  | [], h => by simp [updateUsers] at h
  | w :: l, h => by
    unfold updateUsers at h
    split_ifs at h
    · cases h; rfl
    · cases h; rfl
    · cases hl : updateUsers u l with
      | error e' => rw [hl] at h; cases h; exact cause_of_updateUsers hl
      | ok l' => rw [hl] at h; cases h

end Candid
