/-
  Candid formalization — the in-memory double implements the identity store's
  contract.

  `UpdateUser` decides by the first user its loop meets that shares the new
  user's name or external id; the contract decides by membership.  Under the
  store invariant the two agree (`updateUsers_toOption`), so a call of
  `UpdateUser` is a call of the contract's upsert (`updateUser_refines`).
  Hence:

  * `keysUnique_run`: every run of calls keeps the invariant; by
    `Sched.Reachable.obj_eq_foldl` so does every interleaving of callers
    (`users_unique_of_reachable`);
  * `testContext_contract`: on users that keep the invariant, `UpdateUser`,
    `FindUserByName` and `FindUserByExternalId` meet the contract, and a
    successful `UpdateUser` is read back by both finds over any run, until a
    successful `UpdateUser` of a user sharing the name or the external id;
  * `finds_of_reachable`: in every interleaving of callers, both finds answer
    as a search of the users written by the `UpdateUser` calls that returned
    no error, the latest first, and so `AssertUser` passes exactly when the
    last user written with the name is the one asserted.
-/
import Candid.Registry
import Candid.TestContext
import Candid.Sched

namespace Candid

variable {ι E R T : Type}

@[simp] theorem User.key_username (u : User ι) : u.key.username = u.username := rfl

@[simp] theorem User.key_externalID (u : User ι) : u.key.externalID = u.externalID := rfl

theorem Except.toOption_map {ε α β : Type} (f : α → β) (x : Except ε α) :
    (x.map f).toOption = x.toOption.map f := by
  cases x <;> rfl

theorem Except.toOption_eq_some {ε α : Type} {x : Except ε α} {a : α} :
    x.toOption = some a ↔ x = .ok a := by
  cases x <;> simp [Except.toOption]

theorem Except.toOption_eq_none {ε α : Type} {x : Except ε α} :
    x.toOption = none ↔ ∃ e, x = .error e := by
  cases x <;> simp [Except.toOption]

/-! ## `UpdateUser` refines the contract's upsert -/

/-- **The loop of `UpdateUser` meets the contract**: under the invariant, the
    first user it meets decides as membership does. -/
theorem updateUsers_toOption {u : User ι} : ∀ {l : List (User ι)}, KeysUnique (l.map User.key) →
    (updateUsers u l : Except (Error E) _).toOption = upsertRecs User.key l u
  | [], _ => by simp [updateUsers, upsertRecs, Except.toOption]
  | w :: l, h => by
    obtain ⟨ha, hl⟩ := keysUnique_cons.1 h
    have hw : ∀ w' ∈ l, Apart w'.key w.key := fun w' hw' => ha _ (List.mem_map_of_mem _ hw')
    unfold updateUsers
    split_ifs with h₁ h₂ h₃
    · rw [upsertRecs_cons_of_key_eq (by simp [User.key, h₁, h₂])
        fun w' hw' he => (hw w' hw').1 (by simpa [h₁] using congrArg Key.username he)]
      rfl
    · rw [upsertRecs_cons_of_clash (fun he => h₂ (congrArg Key.externalID he)) (fun ha => ha.1 h₁)
        fun w' hw' he => (hw w' hw').1 (by simpa [h₁] using congrArg Key.username he)]
      rfl
    · rw [upsertRecs_cons_of_clash (fun he => h₁ (congrArg Key.username he)) (fun ha => ha.2 h₃)
        fun w' hw' he => (hw w' hw').2 (by simpa [h₃] using congrArg Key.externalID he)]
      rfl
    · rw [upsertRecs_cons_of_apart ⟨h₁, h₃⟩, Except.toOption_map, updateUsers_toOption hl]

/-! ## The finds -/

/-- The search of the finds, on the field `g` of the key, is the contract's
    `find`. -/
theorem findUser_toOption {users : List (User ι)} (h : KeysUnique (users.map User.key))
    (g : Key → String) (format s : String) :
    (findUser (none : Option E) (fun u => g u.key) format s users).toOption =
      (⟨users, h⟩ : Registry (@User.key ι)).find g s := by
  unfold findUser Registry.find
  cases hf : users.find? (fun w => g w.key = s) <;> simp [hf, Except.toOption]

theorem findUser_eq_ok_iff {users : List (User ι)} (h : KeysUnique (users.map User.key))
    {g : Key → String} (hg : ((users.map User.key).map g).Nodup) {format s : String} {w : User ι} :
    findUser (none : Option E) (fun u => g u.key) format s users = .ok w ↔ w ∈ users ∧ g w.key = s := by
  rw [← Except.toOption_eq_some, findUser_toOption h]
  exact Registry.find_eq_some_iff _ hg

theorem findUser_notFound_iff {users : List (User ι)} (h : KeysUnique (users.map User.key))
    (g : Key → String) {format s : String} :
    (∃ e, findUser (none : Option E) (fun u => g u.key) format s users = .error e ∧
      e.cause? = some .notFound) ↔ ∀ w ∈ users, g w.key ≠ s := by
  rw [← Registry.find_eq_none_iff (⟨users, h⟩ : Registry (@User.key ι)), ← findUser_toOption h g format s,
    Except.toOption_eq_none]
  refine exists_congr fun e => and_iff_left_of_imp fun hx => ?_
  unfold findUser at hx
  cases hf : users.find? (fun w => g w.key = s) <;> simp [hf] at hx
  rw [← hx]; rfl

namespace TestContext

variable {c : TestContext ι E R T} {u : User ι}

/-- The users of `c` as a registry of the contract. -/
def registry (c : TestContext ι E R T) (h : KeysUnique (c.users.map User.key)) : Registry (@User.key ι) :=
  ⟨c.users, h⟩

theorem updateUser_of_upsertRecs_some {l : List (User ι)} (h : KeysUnique (c.users.map User.key))
    (he : c.updateUserError = none) (hl : upsertRecs User.key c.users u = some l) :
    c.updateUser u = ({ c with users := l }, none) :=
  updateUser_of_ok he (Except.toOption_eq_some.1 ((updateUsers_toOption h).trans hl))

theorem updateUser_of_upsertRecs_none (h : KeysUnique (c.users.map User.key))
    (he : c.updateUserError = none) (hl : upsertRecs User.key c.users u = none) :
    (c.updateUser u).1 = c ∧ ∃ e, (c.updateUser u).2 = some e ∧ e.cause? = some .alreadyExists := by
  have hr : (updateUsers u c.users : Except (Error E) _).toOption = none := (updateUsers_toOption h).trans hl
  obtain ⟨e, he'⟩ := Except.toOption_eq_none.1 hr
  rw [updateUser_of_error he he']
  exact ⟨rfl, e, rfl, cause_of_updateUsers he'⟩

/-- **`UpdateUser` is the contract's upsert**: with no error set and users
    that keep the invariant, it leaves the users the contract's call leaves,
    and fails exactly when that call does, with its cause. -/
theorem updateUser_refines (h : KeysUnique (c.users.map User.key)) (he : c.updateUserError = none)
    (u : User ι) :
    (c.updateUser u).1 = { c with users := ((c.registry h).call u).1.recs } ∧
      (c.updateUser u).2.map Error.cause? = ((c.registry h).call u).2.map some := by
  rcases (c.registry h).call_cases u with ⟨h₁, h₂⟩ | ⟨h₁, h₂, h₃⟩
  · rw [updateUser_of_upsertRecs_some h he h₂, h₁]
    exact ⟨rfl, rfl⟩
  · obtain ⟨hc, e, he', hce⟩ := updateUser_of_upsertRecs_none h he h₂
    rw [h₁, h₃, he', hc]
    exact ⟨rfl, by simp [hce]⟩

/-! ## The contract, call by call -/

theorem updateUser_of_key_eq (h : KeysUnique (c.users.map User.key)) (he : c.updateUserError = none)
    {i : ℕ} {w : User ι} (hi : c.users[i]? = some w) (hw : w.key = u.key) :
    c.updateUser u = ({ c with users := c.users.set i u }, none) := by
  refine updateUser_of_upsertRecs_some h he ?_
  rw [upsertRecs, if_pos ⟨w, List.getElem?_mem hi, hw⟩, replaceKey_eq_set hw h hi]

theorem updateUser_of_clash (h : KeysUnique (c.users.map User.key)) (he : c.updateUserError = none)
    (hk : ∀ w ∈ c.users, w.key ≠ u.key)
    (hs : ∃ w ∈ c.users, w.username = u.username ∨ w.externalID = u.externalID) :
    (c.updateUser u).1 = c ∧ ∃ e, (c.updateUser u).2 = some e ∧ e.cause? = some .alreadyExists := by
  refine updateUser_of_upsertRecs_none h he ?_
  obtain ⟨w, hw, hs⟩ := hs
  rw [upsertRecs, if_neg fun ⟨w, hw, he⟩ => hk w hw he,
    if_neg fun ha => hs.elim (ha w hw).1 (ha w hw).2]

theorem updateUser_of_apart (h : KeysUnique (c.users.map User.key)) (he : c.updateUserError = none)
    (ha : ∀ w ∈ c.users, w.username ≠ u.username ∧ w.externalID ≠ u.externalID) :
    c.updateUser u = ({ c with users := c.users ++ [u] }, none) :=
  updateUser_of_upsertRecs_some h he (upsertRecs_of_forall_apart ha)

/-- An `UpdateUser` of a user with key `k` succeeds while every user has key
    `k`, so afterwards `k` is held. -/
theorem mem_keys_updateUser {k : Key} (h : KeysUnique (c.users.map User.key)) (he : c.updateUserError = none)
    (hall : ∀ w ∈ c.users, w.key = k) (hu : u.key = k) : k ∈ (c.updateUser u).1.users.map User.key := by
  have : (upsertRecs User.key c.users u).isSome := by
    rw [isSome_upsertRecs]
    cases hc : c.users with
    | nil => simp
    | cons w l =>
      exact Or.inl (List.mem_map.2 ⟨w, List.mem_cons_self w l, (hall w (by simp [hc])).trans hu.symm⟩)
  obtain ⟨l, hl⟩ := Option.isSome_iff_exists.1 this
  rw [updateUser_of_upsertRecs_some h he hl]
  exact (keys_upsertRecs hl k).2 (Or.inr hu.symm)

theorem mem_updateUser (h : KeysUnique (c.users.map User.key)) (he : c.updateUserError = none)
    (hok : (c.updateUser u).2 = none) : u ∈ (c.updateUser u).1.users := by
  cases hl : upsertRecs User.key c.users u with
  | some l => rw [updateUser_of_upsertRecs_some h he hl]; exact mem_upsertRecs_self hl
  | none =>
    obtain ⟨-, e, he', -⟩ := updateUser_of_upsertRecs_none h he hl
    rw [he'] at hok; cases hok

/-- **Runs of `UpdateUser` are runs of the contract's upsert.** -/
theorem exec_updateUser (h : KeysUnique (c.users.map User.key)) (he : c.updateUserError = none)
    (us : List (User ι)) :
    (exec updateUser c us).1 = { c with users := (exec Registry.call (c.registry h) us).1.recs } ∧
      (exec updateUser c us).2.map (Option.map Error.cause?) =
        (exec Registry.call (c.registry h) us).2.map (Option.map some) := by
  induction us generalizing c with
  | nil => exact ⟨rfl, rfl⟩
  | cons u us ih =>
    obtain ⟨h₁, h₂⟩ := updateUser_refines h he u
    have hu : (c.updateUser u).1.users = ((c.registry h).call u).1.recs := by rw [h₁]
    have h' : KeysUnique ((c.updateUser u).1.users.map User.key) := hu ▸ ((c.registry h).call u).1.unique
    obtain ⟨ih₁, ih₂⟩ := ih h' (by rw [h₁]; exact he)
    rw [show (c.updateUser u).1.registry h' = ((c.registry h).call u).1 from Registry.ext hu] at ih₁ ih₂
    constructor
    · show (exec updateUser (c.updateUser u).1 us).1 = _
      rw [ih₁, h₁]; rfl
    · simp only [exec, List.map_cons, h₂, ih₂]

/-! ## The invariant over runs and interleavings -/

section
variable [Inhabited R] {k : Key}

/-- **What a call does to the users**: it leaves them, or it is a successful
    `UpdateUser` that leaves those the contract's upsert gives. -/
theorem users_step_cases (h : KeysUnique (c.users.map User.key)) (x : Call ι E T) :
    (c.step x).users = c.users ∨ ∃ v, x = .updateUser v ∧
      upsertRecs User.key c.users v = some (c.step x).users ∧ (c.updateUser v).2 = none := by
  cases x with
  | updateUser v =>
    cases he : c.updateUserError with
    | some e => exact Or.inl (by simp [step, updateUser_of_some he])
    | none =>
      cases hl : upsertRecs User.key c.users v with
      | some l =>
        have hu := updateUser_of_upsertRecs_some h he hl
        exact Or.inr ⟨v, rfl, by simp [step, hu, hl], by simp [hu]⟩
      | none => exact Or.inl (by simp [step, (updateUser_of_upsertRecs_none h he hl).1])
  | _ => exact Or.inl (users_step_of_ne (by simp))

/-- Every call keeps the store invariant. -/
theorem keysUnique_step (h : KeysUnique (c.users.map User.key)) (x : Call ι E T) :
    KeysUnique ((c.step x).users.map User.key) := by
  rcases users_step_cases h x with hx | ⟨v, -, hl, -⟩
  · rw [hx]; exact h
  · exact keysUnique_upsertRecs h hl

theorem keysUnique_run (h : KeysUnique (c.users.map User.key)) (cs : List (Call ι E T)) :
    KeysUnique ((c.run cs).users.map User.key) := by
  induction cs generalizing c with
  | nil => exact h
  | cons x cs ih => exact ih (keysUnique_step h x)

/-- A key once held stays held. -/
theorem mem_keys_step (h : KeysUnique (c.users.map User.key)) (hk : k ∈ c.users.map User.key)
    (x : Call ι E T) : k ∈ (c.step x).users.map User.key := by
  rcases users_step_cases h x with hx | ⟨v, -, hl, -⟩
  · rw [hx]; exact hk
  · exact (keys_upsertRecs hl k).2 (Or.inl hk)

/-- While every `UpdateUser` is of a user with key `k`, every user has key `k`. -/
theorem key_eq_step (h : KeysUnique (c.users.map User.key)) (hall : ∀ w ∈ c.users, w.key = k)
    {x : Call ι E T} (hx : ∀ u, x = .updateUser u → u.key = k) : ∀ w ∈ (c.step x).users, w.key = k := by
  rcases users_step_cases h x with hx' | ⟨v, rfl, hl, -⟩
  · rw [hx']; exact hall
  · intro w hw
    rcases (keys_upsertRecs hl _).1 (List.mem_map_of_mem User.key hw) with hw' | hw'
    · obtain ⟨w', hw', he'⟩ := List.mem_map.1 hw'
      rw [← he', hall w' hw']
    · rw [hw', hx v rfl]

theorem mem_keys_run (h : KeysUnique (c.users.map User.key)) (hk : k ∈ c.users.map User.key)
    (cs : List (Call ι E T)) : k ∈ (c.run cs).users.map User.key := by
  induction cs generalizing c with
  | nil => exact hk
  | cons x cs ih => exact ih (keysUnique_step h x) (mem_keys_step h hk x)

/-- While every `UpdateUser` is of a user with key `k`, `k` is held once one
    is made. -/
theorem mem_keys_run_of_updateUser (h : KeysUnique (c.users.map User.key))
    (he : c.updateUserError = none) (hall : ∀ w ∈ c.users, w.key = k) {cs : List (Call ι E T)}
    (hcs : ∀ u, .updateUser u ∈ cs → u.key = k) (hd : ∃ u, .updateUser u ∈ cs) :
    k ∈ (c.run cs).users.map User.key := by
  induction cs generalizing c with
  | nil => obtain ⟨_, hu⟩ := hd; exact absurd hu (List.not_mem_nil _)
  | cons x cs ih =>
    have hx : ∀ v, x = .updateUser v → v.key = k := fun v hv => hcs v (hv ▸ List.mem_cons_self _ _)
    by_cases hxu : ∃ v, x = .updateUser v
    · obtain ⟨v, rfl⟩ := hxu
      exact mem_keys_run (keysUnique_step h _) (mem_keys_updateUser h he hall (hx v rfl)) cs
    · obtain ⟨u, hu⟩ := hd
      rcases List.mem_cons.1 hu with rfl | hu
      · exact absurd ⟨u, rfl⟩ hxu
      · exact ih (keysUnique_step h x) ((congrArg Config.updateUserError (toConfig_step x)).trans he)
          (key_eq_step h hall hx) (fun v hv => hcs v (List.mem_cons_of_mem _ hv)) ⟨u, hu⟩

/-- **No two users ever share a name or an external id**, in every
    interleaving of the callers of a `TestContext` as a test builds it; and,
    with no `UpdateUserError`, once `UpdateUser` calls have been made, all of
    users with key `k`, exactly one user has `k`'s name. -/
theorem users_unique_of_reachable [Inhabited T] {cfg : Config E R}
    {progs : List (List (Call ι E T))} {s : Sched (TestContext ι E R T) (Call ι E T)}
    (h : Sched.Reachable step (TestContext.new cfg) progs s) :
    KeysUnique (s.obj.users.map User.key) ∧
      (cfg.updateUserError = none → ∀ k : Key, (∀ u, .updateUser u ∈ s.done → u.key = k) →
        (∃ u, .updateUser u ∈ s.done) → (s.obj.users.map User.username).count k.username = 1) := by
  have hrun : s.obj = (TestContext.new cfg).run s.done := h.obj_eq_foldl
  have h₀ : KeysUnique ((TestContext.new cfg : TestContext ι E R T).users.map User.key) := keysUnique_nil
  have hu := keysUnique_run h₀ s.done
  rw [hrun]
  refine ⟨hu, fun he k hk hd => ?_⟩
  obtain ⟨w, hw, rfl⟩ := List.mem_map.1 (mem_keys_run_of_updateUser h₀ he (by simp [new]) hk hd)
  have hn : (((TestContext.new cfg).run s.done).users.map User.username).Nodup := by
    simpa [List.map_map] using hu.usernames
  exact List.count_eq_one_of_mem hn (List.mem_map_of_mem _ hw)

theorem users_unique_of_two_callers :
    ∃ s : Sched (TestContext ℕ Unit Unit Unit) (Call ℕ Unit Unit),
      s.done = [.updateUser ⟨"alice", "ext", 2⟩, .updateUser ⟨"alice", "ext", 1⟩] ∧
      Sched.Reachable step (TestContext.new ⟨"", none, false, none, none, none⟩)
        [[.updateUser ⟨"alice", "ext", 1⟩], [.updateUser ⟨"alice", "ext", 2⟩]] s ∧
      KeysUnique (s.obj.users.map User.key) ∧
      ((⟨"", none, false, none, none, none⟩ : Config Unit Unit).updateUserError = none →
        ∀ k : Key, (∀ u, .updateUser u ∈ s.done → u.key = k) →
          (∃ u, .updateUser u ∈ s.done) → (s.obj.users.map User.username).count k.username = 1) := by
  have h := (Relation.ReflTransGen.single (@Sched.Step.call (TestContext ℕ Unit Unit Unit) (Call ℕ Unit Unit) step
    ⟨TestContext.new ⟨"", none, false, none, none, none⟩,
      [[.updateUser ⟨"alice", "ext", 1⟩], [.updateUser ⟨"alice", "ext", 2⟩]], []⟩
      1 (.updateUser ⟨"alice", "ext", 2⟩) [] rfl)).tail
    (@Sched.Step.call _ _ _ _ 0 (.updateUser ⟨"alice", "ext", 1⟩) [] (by rfl))
  exact ⟨_, rfl, h, users_unique_of_reachable h⟩

/-! ## Reading back what `UpdateUser` wrote -/

/-- The call `x`, made on `c`, is a successful `UpdateUser` of a user that
    shares `u`'s name or external id. -/
def Overwrites (u : User ι) (c : TestContext ι E R T) : Call ι E T → Prop
  | .updateUser v => (v.username = u.username ∨ v.externalID = u.externalID) ∧ (c.updateUser v).2 = none
  | _ => False

theorem mem_step (h : KeysUnique (c.users.map User.key)) (hu : u ∈ c.users) {x : Call ι E T}
    (hx : ¬Overwrites u c x) : u ∈ (c.step x).users := by
  rcases users_step_cases h x with hx' | ⟨v, rfl, hl, hok⟩
  · rw [hx']; exact hu
  · exact mem_upsertRecs hl hu fun hk => hx ⟨Or.inl (congrArg Key.username hk).symm, hok⟩

/-- A user stays until a successful `UpdateUser` of a user sharing its name or
    external id. -/
theorem mem_run (h : KeysUnique (c.users.map User.key)) (hu : u ∈ c.users) {cs : List (Call ι E T)}
    (hcs : ∀ i (hi : i < cs.length), ¬Overwrites u (c.run (cs.take i)) cs[i]) : u ∈ (c.run cs).users := by
  induction cs generalizing c with
  | nil => exact hu
  | cons x cs ih =>
    exact ih (keysUnique_step h x) (mem_step h hu (hcs 0 (by simp))) fun i hi =>
      hcs (i + 1) (by simpa using hi)

/-- The identity store's contract, as `c` meets it: `UpdateUser` replaces
    the user with the same key at its position, refuses a user that shares
    only the name or only the external id with another (`AlreadyExists`,
    nothing changed), and appends any other; each find returns the unique
    user with the field, or `NotFound` exactly when there is none; and what a
    successful `UpdateUser` wrote is what both finds return over any run,
    until a successful `UpdateUser` of a user sharing its name or external
    id. -/
structure MeetsContract (c : TestContext ι E R T) : Prop where
  updateSame : ∀ (u : User ι) i w, c.users[i]? = some w → w.key = u.key →
    c.updateUser u = ({ c with users := c.users.set i u }, none)
  updateClash : ∀ u : User ι, (∀ w ∈ c.users, w.key ≠ u.key) →
    (∃ w ∈ c.users, w.username = u.username ∨ w.externalID = u.externalID) →
    (c.updateUser u).1 = c ∧ ∃ e, (c.updateUser u).2 = some e ∧ e.cause? = some .alreadyExists
  updateNew : ∀ u : User ι, (∀ w ∈ c.users, w.username ≠ u.username ∧ w.externalID ≠ u.externalID) →
    c.updateUser u = ({ c with users := c.users ++ [u] }, none)
  findByName : ∀ n w, c.findUserByName n = .ok w ↔ w ∈ c.users ∧ w.username = n
  findByNameNotFound : ∀ n, (∃ e, c.findUserByName n = .error e ∧ e.cause? = some .notFound) ↔
    ∀ w ∈ c.users, w.username ≠ n
  findByExternalId : ∀ id w, c.findUserByExternalId id = .ok w ↔ w ∈ c.users ∧ w.externalID = id
  findByExternalIdNotFound : ∀ id,
    (∃ e, c.findUserByExternalId id = .error e ∧ e.cause? = some .notFound) ↔
      ∀ w ∈ c.users, w.externalID ≠ id
  readBack : ∀ u, (c.updateUser u).2 = none → ∀ cs : List (Call ι E T),
    (∀ i (hi : i < cs.length), ¬Overwrites u ((c.updateUser u).1.run (cs.take i)) cs[i]) →
    ((c.updateUser u).1.run cs).findUserByName u.username = .ok u ∧
      ((c.updateUser u).1.run cs).findUserByExternalId u.externalID = .ok u

/-- **`TestContext` implements the identity store's contract** on every list
    of users that keeps the invariant, with no error set. -/
theorem testContext_contract (c : TestContext ι E R T) (hc : KeysUnique (c.users.map User.key))
    (h₁ : c.updateUserError = none) (h₂ : c.findUserByNameError = none)
    (h₃ : c.findUserByExternalIdError = none) : c.MeetsContract where
  updateSame _ _ _ hi hw := updateUser_of_key_eq hc h₁ hi hw
  updateClash _ := updateUser_of_clash hc h₁
  updateNew _ := updateUser_of_apart hc h₁
  findByName n w := by rw [findUserByName, h₂]; exact findUser_eq_ok_iff hc hc.usernames
  findByNameNotFound n := by rw [findUserByName, h₂]; exact findUser_notFound_iff hc Key.username
  findByExternalId id w := by rw [findUserByExternalId, h₃]; exact findUser_eq_ok_iff hc hc.externalIDs
  findByExternalIdNotFound id := by
    rw [findUserByExternalId, h₃]; exact findUser_notFound_iff hc Key.externalID
  readBack u hok cs hcs := by
    have h' := keysUnique_step hc (.updateUser u)
    have hf := keysUnique_run h' cs
    have hm := mem_run h' (mem_updateUser hc h₁ hok) hcs
    have hcfg : ((c.updateUser u).1.run cs).toConfig = c.toConfig :=
      (toConfig_run cs).trans (toConfig_step (.updateUser u))
    constructor
    · rw [findUserByName, show _ = c.findUserByNameError from congrArg Config.findUserByNameError hcfg, h₂]
      exact (findUser_eq_ok_iff hf hf.usernames).2 ⟨hm, rfl⟩
    · rw [findUserByExternalId, show _ = c.findUserByExternalIdError from
        congrArg Config.findUserByExternalIdError hcfg, h₃]
      exact (findUser_eq_ok_iff hf hf.externalIDs).2 ⟨hm, rfl⟩

/-- A context as a test builds it, holding alice and bob. -/
def aliceBob : TestContext Unit Unit Unit Unit :=
  ⟨⟨"", none, false, none, none, none⟩, none, [⟨"alice", "a1", ()⟩, ⟨"bob", "b1", ()⟩], "", (), false, none, false⟩

theorem testContext_contract_aliceBob :
    KeysUnique (aliceBob.users.map User.key) ∧ aliceBob.updateUserError = none ∧
      aliceBob.findUserByNameError = none ∧ aliceBob.findUserByExternalIdError = none ∧ aliceBob.MeetsContract := by
  have hk : KeysUnique (aliceBob.users.map User.key) := by decide
  exact ⟨hk, rfl, rfl, rfl, testContext_contract _ hk rfl rfl rfl⟩

/-! ## What the finds see -/

/-- The user the call `x`, made on `c`, writes: that of an `UpdateUser` that
    returns no error. -/
def writes (c : TestContext ι E R T) : Call ι E T → Option (User ι)
  | .updateUser v => if (c.updateUser v).2.isNone then some v else none
  | _ => none

/-- The users the calls `cs`, made in turn from `c`, write, in order. -/
def written (c : TestContext ι E R T) : List (Call ι E T) → List (User ι)
  | [] => []
  | x :: cs => (c.writes x).toList ++ written (c.step x) cs

/-- An `UpdateUser` that clashes writes nothing. -/
example : (written (new ⟨"", none, false, none, none, none⟩ : TestContext Unit Unit Unit Unit)
    [.updateUser ⟨"bob", "ext1", ()⟩, .updateUser ⟨"bob", "ext2", ()⟩, .loginFailure none]) =
      [⟨"bob", "ext1", ()⟩] := by
  decide

theorem findUser_of_find?_eq {inj : Option E} {f : User ι → String} {format s : String} {users users' : List (User ι)}
    (h : users.find? (f · = s) = users'.find? (f · = s)) :
    findUser inj f format s users = findUser inj f format s users' := by
  simp only [findUser, h]

theorem findUser_none_eq_ok {f : User ι → String} {format s : String} {users : List (User ι)} {w : User ι} :
    (findUser none f format s users : Except (Error E) (User ι)) = .ok w ↔ users.find? (f · = s) = some w := by
  simp only [findUser]; cases users.find? (f · = s) <;> simp

omit [Inhabited R] in
theorem assertUser_iff [DecidableEq ι] {u : User ι} : c.assertUser u = true ↔ c.findUserByName u.username = .ok u := by
  unfold assertUser; split <;> simp_all

section
variable {fk : Key → String} (hfk : ∀ ks, KeysUnique ks → (ks.map fk).Nodup) (s : String)
include hfk

/-- The first user with a field after a call: the user the call writes, if it
    has the field, or else the one before. -/
theorem find?_users_step (h : KeysUnique (c.users.map User.key)) (x : Call ι E T) :
    (c.step x).users.find? (fun w => fk w.key = s) =
      ((c.writes x).filter fun w => fk w.key = s).or (c.users.find? fun w => fk w.key = s) := by
  cases x with
  | updateUser v =>
    cases he : c.updateUserError with
    | some e => simp [step, writes, updateUser_of_some he]
    | none =>
      cases hl : upsertRecs User.key c.users v with
      | some l =>
        have hu := updateUser_of_upsertRecs_some h he hl
        have hw : c.writes (.updateUser v) = some v := by simp [writes, hu]
        rw [hw, show (c.step (.updateUser v)).users = l by simp [step, hu],
          find?_upsertRecs hl (hfk _ h) (hfk _ (keysUnique_upsertRecs h hl))]
        by_cases hv : fk v.key = s <;> simp [Option.filter, hv]
      | none =>
        obtain ⟨h₁, e, h₂, -⟩ := updateUser_of_upsertRecs_none h he hl
        simp [step, writes, h₁, h₂]
  | _ => rw [users_step_of_ne (by simp)]; rfl

/-- The first user with a field after a run: the last user written with the
    field, or else the first one before. -/
theorem find?_users_run (h : KeysUnique (c.users.map User.key)) (cs : List (Call ι E T)) :
    (c.run cs).users.find? (fun w => fk w.key = s) =
      ((c.written cs).reverse.find? fun w => fk w.key = s).or (c.users.find? fun w => fk w.key = s) := by
  induction cs generalizing c with
  | nil => rfl
  | cons x cs ih =>
    rw [show c.run (x :: cs) = (c.step x).run cs from rfl, ih (keysUnique_step h x), find?_users_step hfk s h x,
      written, List.reverse_append, List.find?_append, Option.or_assoc]
    cases c.writes x <;> simp [Option.filter]

end

/-- **What the finds and `AssertUser` see**: in every interleaving of the
    callers of a `TestContext` as a test builds it, `FindUserByName` and
    `FindUserByExternalId` answer as if they searched the users of the
    `UpdateUser` calls that returned no error, the latest first; so
    `AssertUser` passes exactly when no `FindUserByNameError` is set and the
    last user written with the user's name is that user. -/
theorem finds_of_reachable [Inhabited T] [DecidableEq ι] {cfg : Config E R} {progs : List (List (Call ι E T))}
    {st : Sched (TestContext ι E R T) (Call ι E T)} (h : Sched.Reachable step (TestContext.new cfg) progs st)
    (n id : String) (u : User ι) :
    st.obj.findUserByName n =
        findUser cfg.findUserByNameError User.username "cannot find user %q" n (written (new cfg) st.done).reverse ∧
      st.obj.findUserByExternalId id = findUser cfg.findUserByExternalIdError User.externalID
        "cannot find external id %q" id (written (new cfg) st.done).reverse ∧
      (st.obj.assertUser u = true ↔ cfg.findUserByNameError = none ∧
        (written (new cfg) st.done).reverse.find? (·.username = u.username) = some u) := by
  have hrun : st.obj = (TestContext.new cfg).run st.done := h.obj_eq_foldl
  have hcfg : st.obj.toConfig = cfg := by rw [hrun, toConfig_run]; rfl
  have h₀ : KeysUnique ((TestContext.new cfg : TestContext ι E R T).users.map User.key) := keysUnique_nil
  have hn : ∀ n, st.obj.users.find? (fun w => w.username = n) =
      (written (new cfg) st.done).reverse.find? (fun w => w.username = n) := fun n => by
    rw [hrun]; exact (find?_users_run (fun _ hk => hk.usernames) n h₀ st.done).trans Option.or_none
  have he : st.obj.users.find? (fun w => w.externalID = id) =
      (written (new cfg) st.done).reverse.find? (fun w => w.externalID = id) := by
    rw [hrun]; exact (find?_users_run (fun _ hk => hk.externalIDs) id h₀ st.done).trans Option.or_none
  have h₁ : ∀ n, st.obj.findUserByName n = findUser cfg.findUserByNameError User.username "cannot find user %q" n
      (written (new cfg) st.done).reverse := fun n => by
    rw [findUserByName, congrArg Config.findUserByNameError hcfg]; exact findUser_of_find?_eq (hn n)
  refine ⟨h₁ n, ?_, ?_⟩
  · rw [findUserByExternalId, congrArg Config.findUserByExternalIdError hcfg]; exact findUser_of_find?_eq he
  · rw [assertUser_iff, h₁]
    cases cfg.findUserByNameError with
    | some e => simp [findUser]
    | none => simpa using findUser_none_eq_ok

theorem finds_of_two_callers :
    ∃ st : Sched (TestContext Unit Unit Unit Unit) (Call Unit Unit Unit),
      st.done = [.updateUser ⟨"bob", "ext1", ()⟩, .updateUser ⟨"bob", "ext2", ()⟩] ∧
      Sched.Reachable step (TestContext.new ⟨"", none, false, none, none, none⟩)
        [[.updateUser ⟨"bob", "ext2", ()⟩], [.updateUser ⟨"bob", "ext1", ()⟩]] st ∧
      st.obj.findUserByName "bob" = findUser none User.username "cannot find user %q" "bob"
        (written (new ⟨"", none, false, none, none, none⟩ : TestContext Unit Unit Unit Unit) st.done).reverse ∧
      st.obj.findUserByExternalId "ext1" = findUser none User.externalID "cannot find external id %q" "ext1"
        (written (new ⟨"", none, false, none, none, none⟩ : TestContext Unit Unit Unit Unit) st.done).reverse ∧
      (st.obj.assertUser ⟨"bob", "ext1", ()⟩ = true ↔ (none : Option Unit) = none ∧
        (written (new ⟨"", none, false, none, none, none⟩ : TestContext Unit Unit Unit Unit) st.done).reverse.find? (·.username = "bob") =
          some ⟨"bob", "ext1", ()⟩) := by
  have h := (Relation.ReflTransGen.single (@Sched.Step.call (TestContext Unit Unit Unit Unit) (Call Unit Unit Unit) step
    ⟨TestContext.new ⟨"", none, false, none, none, none⟩,
      [[.updateUser ⟨"bob", "ext2", ()⟩], [.updateUser ⟨"bob", "ext1", ()⟩]], []⟩
      1 (.updateUser ⟨"bob", "ext1", ()⟩) [] rfl)).tail
    (@Sched.Step.call _ _ _ _ 0 (.updateUser ⟨"bob", "ext2", ()⟩) [] (by rfl))
  exact ⟨_, rfl, h, finds_of_reachable h "bob" "ext1" ⟨"bob", "ext1", ()⟩⟩

end

end TestContext

end Candid
