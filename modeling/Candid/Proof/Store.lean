/-
  Candid formalization — the Mongo store implements the identity store's
  contract, and agrees with its in-memory double.

  The driver's `Upsert` replaces the first document matching the selector,
  and `UpsertIdentity` selects by user name and external id; the two unique
  indexes are the store invariant (`indexesHold_identityIndexes`).  So an
  `UpsertIdentity` is a call of the contract's upsert on the document with its
  UUID (`upsertIdentity_eq_call`), just as an `UpdateUser` of `TestContext`
  is (`TestContext.updateUser_refines`).  Hence:

  * `upsertIdentity_last_wins_of_reachable`: concurrent upserts of one key
    leave what the last alone leaves, the driver's write being atomic;
  * `upsertIdentity_agrees_updateUser`: the same calls on the same keys
    succeed on both, fail on both with `AlreadyExists`, and leave both holding
    the same keys, each with its last upserted record; every document carries
    the UUID derived from its user name, so an update in place keeps it.
-/
import Candid.Store
import Candid.Proof.TestContext

namespace Candid

variable {δ : Type}

@[simp] theorem Identity.key_userName (d : Identity δ) : d.key.username = d.userName := rfl

@[simp] theorem Identity.key_externalID (d : Identity δ) : d.key.externalID = d.externalID := rfl

/-- Selecting by user name and external id is selecting by key. -/
theorem Identity.matches_key (d d' : Identity δ) :
    Identity.Matches [("username", d.userName), ("external_id", d.externalID)] d' = decide (d'.key = d.key) := by
  simp [Identity.Matches, Identity.field, Identity.key, beq_eq_decide]

/-- The unique indexes `ensureIndexes` installs are the store invariant. -/
theorem indexesHold_identityIndexes {docs : List (Identity δ)} :
    IndexesHold identityIndexes docs ↔ KeysUnique (docs.map Identity.key) := by
  have hw : Function.Injective fun x : String => [some x] := fun x y h => by simpa using h
  have hu : (docs.map (⟨["username"], true⟩ : Index).values).Nodup ↔ (docs.map Identity.userName).Nodup := by
    rw [← List.nodup_map_iff hw, List.map_map]; rfl
  have he : (docs.map (⟨["external_id"], true⟩ : Index).values).Nodup ↔
      (docs.map Identity.externalID).Nodup := by
    rw [← List.nodup_map_iff hw, List.map_map]; rfl
  simp only [IndexesHold, identityIndexes, List.mem_cons, List.mem_singleton, forall_eq_or_imp,
    forall_eq, forall_const, List.not_mem_nil, or_false, hu, he, keysUnique_iff, List.map_map]
  rfl

/-- Under the invariant, replacing the first document with a key is
    replacing the one with that key. -/
theorem replaceOrAppend_key {v : Identity δ} :
    ∀ {l : List (Identity δ)}, KeysUnique (l.map Identity.key) →
      replaceOrAppend (fun d => decide (d.key = v.key)) v l =
        if ∃ w ∈ l, w.key = v.key then replaceKey Identity.key v l else l ++ [v]
  | [], _ => by simp [replaceOrAppend]
  | w :: l, h => by
    obtain ⟨ha, hl⟩ := keysUnique_cons.1 h
    by_cases hw : w.key = v.key
    · rw [replaceOrAppend, if_pos (decide_eq_true hw), if_pos ⟨w, List.mem_cons_self _ _, hw⟩,
        replaceKey, List.map_cons, if_pos hw, ← replaceKey, replaceKey_of_forall_ne fun w' hw' he =>
          (ha _ (List.mem_map_of_mem _ hw')).1 (by rw [he, hw])]
    · rw [replaceOrAppend, if_neg (by simpa using hw), replaceOrAppend_key hl]
      simp only [List.mem_cons, exists_eq_or_imp, hw, false_or]
      split_ifs <;> simp [replaceKey, hw]

namespace Store

variable {s : Store δ}

/-- A store as `New` leaves it: every unique index of its identities
    collection is one that `ensureIndexes` installs, both are installed, and
    the documents respect them. -/
structure WF (s : Store δ) : Prop where
  unique : ∀ idx ∈ s.identities.indexes, idx.unique → idx ∈ identityIndexes
  installed : ∀ idx ∈ identityIndexes, idx ∈ s.identities.indexes
  hold : IndexesHold s.identities.indexes s.identities.docs

theorem WF.indexesHold_iff (hs : s.WF) {docs : List (Identity δ)} :
    IndexesHold s.identities.indexes docs ↔ KeysUnique (docs.map Identity.key) := by
  rw [← indexesHold_identityIndexes]
  exact ⟨fun h idx hi hu => h idx (hs.installed idx hi) hu, fun h idx hi hu => h idx (hs.unique idx hi hu) hu⟩

theorem WF.keysUnique (hs : s.WF) : KeysUnique (s.identities.docs.map Identity.key) :=
  hs.indexesHold_iff.1 hs.hold

/-- A store on an empty collection with the two indexes installed, as `New`
    leaves it. -/
theorem wf_empty : (⟨⟨[], identityIndexes⟩⟩ : Store δ).WF :=
  ⟨fun _ h _ => h, fun _ h => h, by simp [IndexesHold]⟩

/-- The documents of a store as a registry of the contract. -/
def registry (s : Store δ) (hs : s.WF) : Registry (@Identity.key δ) := ⟨s.identities.docs, hs.keysUnique⟩

/-- **The driver's upsert by key is the contract's upsert**, on a store as
    `New` leaves it: it writes what the contract writes, and fails with a
    duplicate key error exactly when the contract refuses. -/
theorem upsert_key (hs : s.WF) (v : Identity δ) :
    s.identities.upsert [("username", v.userName), ("external_id", v.externalID)] v =
      match upsertRecs Identity.key s.identities.docs v with
      | some l => .ok { s.identities with docs := l }
      | none => .error .dupKey := by
  have hm : Identity.Matches [("username", v.userName), ("external_id", v.externalID)] =
      fun d => decide (d.key = v.key) := funext (Identity.matches_key v)
  unfold Collection.upsert
  rw [hm, replaceOrAppend_key hs.keysUnique]
  by_cases h₁ : ∃ w ∈ s.identities.docs, w.key = v.key
  · rw [if_pos h₁, if_pos (hs.indexesHold_iff.2 (by rw [map_replaceKey]; exact hs.keysUnique)),
      upsertRecs, if_pos h₁]
  · have hh : IndexesHold s.identities.indexes (s.identities.docs ++ [v]) ↔
        ∀ w ∈ s.identities.docs, Apart w.key v.key := by
      rw [hs.indexesHold_iff, List.map_append, List.map_singleton, keysUnique_append_singleton,
        List.forall_mem_map]
      exact and_iff_right hs.keysUnique
    rw [if_neg h₁, upsertRecs, if_neg h₁]
    by_cases h₂ : ∀ w ∈ s.identities.docs, Apart w.key v.key
    · rw [if_pos (hh.2 h₂), if_pos h₂]
    · rw [if_neg (mt hh.1 h₂), if_neg h₂]

section
variable (newSHA1 : String → ByteArray → String)

theorem upsertIdentity_eq (hs : s.WF) (d : Identity δ) :
    s.upsertIdentity newSHA1 d =
      match upsertRecs Identity.key s.identities.docs (withUUID newSHA1 d) with
      | some l => (⟨{ s.identities with docs := l }⟩, none)
      | none => (s, some (.withCause .alreadyExists "cannot add user: duplicate username or external_id" [])) := by
  have hu : s.identities.upsert [("username", d.userName), ("external_id", d.externalID)]
      (withUUID newSHA1 d) = _ := upsert_key hs (withUUID newSHA1 d)
  rw [upsertIdentity, hu]
  cases upsertRecs Identity.key s.identities.docs (withUUID newSHA1 d) <;> rfl

/-- The store `s` with the documents `docs` in its identities collection. -/
def setDocs (s : Store δ) (docs : List (Identity δ)) : Store δ := ⟨{ s.identities with docs }⟩

@[simp] theorem setDocs_docs (docs : List (Identity δ)) : (s.setDocs docs).identities.docs = docs := rfl

@[simp] theorem setDocs_indexes (docs : List (Identity δ)) :
    (s.setDocs docs).identities.indexes = s.identities.indexes := rfl

@[simp] theorem setDocs_self : s.setDocs s.identities.docs = s := rfl

theorem WF.setDocs (hs : s.WF) {docs : List (Identity δ)} (h : KeysUnique (docs.map Identity.key)) :
    (s.setDocs docs).WF :=
  ⟨hs.unique, hs.installed, hs.indexesHold_iff.2 h⟩

/-- **`UpsertIdentity` is the contract's upsert** of the document with its
    UUID: it leaves the documents the contract's call leaves, and fails
    exactly when that call does, with its one duplicate key error. -/
theorem upsertIdentity_eq_call (hs : s.WF) (d : Identity δ) :
    s.upsertIdentity newSHA1 d =
      (s.setDocs ((s.registry hs).call (withUUID newSHA1 d)).1.recs,
        ((s.registry hs).call (withUUID newSHA1 d)).2.map fun _ =>
          .withCause .alreadyExists "cannot add user: duplicate username or external_id" []) := by
  rw [upsertIdentity_eq newSHA1 hs]
  rcases (s.registry hs).call_cases (withUUID newSHA1 d) with ⟨h₁, h₂⟩ | ⟨h₁, h₂, h₃⟩ <;>
    simp only [registry] at h₂ <;> rw [h₂, h₁]
  · rfl
  · rw [h₃]; rfl

/-- **Runs of `UpsertIdentity` are runs of the contract's upsert** of the
    documents with their UUIDs. -/
theorem exec_upsertIdentity_eq (hs : s.WF) (ds : List (Identity δ)) :
    exec (upsertIdentity newSHA1) s ds =
      (s.setDocs (exec Registry.call (s.registry hs) (ds.map (withUUID newSHA1))).1.recs,
        (exec Registry.call (s.registry hs) (ds.map (withUUID newSHA1))).2.map (Option.map fun _ =>
          .withCause .alreadyExists "cannot add user: duplicate username or external_id" [])) := by
  have hsim : ∀ (t : Registry (@Identity.key δ)) d, (s.setDocs t.recs).upsertIdentity newSHA1 d =
      (s.setDocs (t.call (withUUID newSHA1 d)).1.recs, (t.call (withUUID newSHA1 d)).2.map fun _ =>
        .withCause .alreadyExists "cannot add user: duplicate username or external_id" []) := fun t d =>
    upsertIdentity_eq_call newSHA1 (hs.setDocs t.unique) d
  simpa using exec_of_sim hsim (s.registry hs) ds

/-- Scenario C of the spec (§8): upserting bob with `ext1` twice keeps one
    document, and then bob with `ext2` fails with `AlreadyExists`. -/
example : (exec (upsertIdentity (fun _ _ => "")) (⟨⟨[], identityIndexes⟩⟩ : Store Unit)
      [⟨"", "bob", "ext1", ()⟩, ⟨"", "bob", "ext1", ()⟩, ⟨"", "bob", "ext2", ()⟩]).1.identities.docs =
      [⟨"", "bob", "ext1", ()⟩] ∧
    (exec (upsertIdentity (fun _ _ => "")) (⟨⟨[], identityIndexes⟩⟩ : Store Unit)
      [⟨"", "bob", "ext1", ()⟩, ⟨"", "bob", "ext1", ()⟩, ⟨"", "bob", "ext2", ()⟩]).2.map (Option.map Error.cause?) =
      [none, none, some (some .alreadyExists)] := by
  decide

theorem exec_upsertIdentity (hs : s.WF) (ds : List (Identity δ)) :
    (exec (upsertIdentity newSHA1) s ds).1 =
        ⟨{ s.identities with docs := (exec Registry.call (s.registry hs) (ds.map (withUUID newSHA1))).1.recs }⟩ ∧
      (exec (upsertIdentity newSHA1) s ds).2.map (Option.map Error.cause?) =
        (exec Registry.call (s.registry hs) (ds.map (withUUID newSHA1))).2.map (Option.map some) := by
  rw [exec_upsertIdentity_eq newSHA1 hs]
  refine ⟨rfl, ?_⟩
  simp only [List.map_map]
  exact List.map_congr_left fun r hr => by rcases Registry.exec_call_results _ _ r hr with rfl | rfl <;> rfl

@[simp] theorem key_withUUID (d : Identity δ) : (withUUID newSHA1 d).key = d.key := rfl

/-- **`UpsertIdentity`s of one key: the last wins.** A run of them leaves
    what the last alone leaves, and each call answers as the last does. -/
theorem exec_upsertIdentity_same_key (hs : s.WF) {d : Identity δ} {ds : List (Identity δ)}
    (h : ∀ d' ∈ ds, d'.key = d.key) :
    exec (upsertIdentity newSHA1) s (ds ++ [d]) =
      ((s.upsertIdentity newSHA1 d).1, (ds ++ [d]).map fun _ => (s.upsertIdentity newSHA1 d).2) := by
  have hv : ∀ w ∈ ds.map (withUUID newSHA1), w.key = (withUUID newSHA1 d).key := by simpa using h
  rw [exec_upsertIdentity_eq newSHA1 hs, List.map_append, List.map_singleton, Registry.exec_call_same_key _ hv,
    upsertIdentity_eq_call newSHA1 hs]
  simp [List.map_map, Function.comp_def]

/-- Every document carries the UUID derived from its user name:
    `uuid.NewSHA1(IdentityNamespace, []byte(UserName))`. -/
def UUIDsDerived (s : Store δ) : Prop :=
  ∀ d ∈ s.identities.docs, d.uuid = newSHA1 identityNamespace d.userName.toUTF8

theorem uuidsDerived_exec (hs : s.WF) (hu : UUIDsDerived newSHA1 s) (ds : List (Identity δ)) :
    UUIDsDerived newSHA1 (exec (upsertIdentity newSHA1) s ds).1 := by
  intro d hd
  rw [(exec_upsertIdentity newSHA1 hs ds).1] at hd
  rcases Registry.mem_exec_call _ _ hd with hd | hd
  · exact hu d hd
  · obtain ⟨d₀, -, rfl⟩ := List.mem_map.1 hd; rfl

/-! ## Concurrent callers -/

variable {s₀ : Store δ} {progs : List (List (Identity δ))} {st : Sched (Store δ) (Identity δ)}

theorem obj_eq_exec_of_reachable (h : Sched.Reachable (fun s d => (s.upsertIdentity newSHA1 d).1) s₀ progs st) :
    st.obj = (exec (upsertIdentity newSHA1) s₀ st.done).1 :=
  h.obj_eq_foldl.trans (exec_fst _ _ _).symm

/-- What concurrent `UpsertIdentity`s of documents with the key `k`, made from
    `s₀` in the order `done`, leave in the store `s`: the store the last call
    alone leaves, and each call's answer the last call's; and, when no
    document shared `k`'s user name or external id, all calls succeed and
    exactly one document is added, the last call's. -/
structure LastWins (s₀ s : Store δ) (k : Key) (done : List (Identity δ)) (hne : done ≠ []) : Prop where
  state : s = (s₀.upsertIdentity newSHA1 (done.getLast hne)).1
  answers : (exec (upsertIdentity newSHA1) s₀ done).2 =
    done.map fun _ => (s₀.upsertIdentity newSHA1 (done.getLast hne)).2
  insertsOne : (∀ d ∈ s₀.identities.docs, Apart d.key k) →
    s.identities.docs = s₀.identities.docs ++ [withUUID newSHA1 (done.getLast hne)] ∧
      ∀ r ∈ (exec (upsertIdentity newSHA1) s₀ done).2, r = none

/-- **Concurrent `UpsertIdentity`s of one key: the last wins**, in every
    interleaving of callers that all upsert documents with the key `k`.  This
    rests on the driver's `Upsert` being one atomic conditional write
    (spec §4.1, §5; `Collection.upsert`): each call, in lock order, replaces
    the document with the key, so a later racer updates the record and does
    not fail with `AlreadyExists`. -/
theorem upsertIdentity_last_wins_of_reachable (hs : s₀.WF) {k : Key} (hp : ∀ p ∈ progs, ∀ d ∈ p, d.key = k)
    (h : Sched.Reachable (fun s d => (s.upsertIdentity newSHA1 d).1) s₀ progs st) (hne : st.done ≠ []) :
    LastWins newSHA1 s₀ st.obj k st.done hne := by
  have hk : ∀ d ∈ st.done, d.key = k := fun d hd => by
    obtain ⟨p, hp', hd'⟩ := h.mem_done hd
    exact hp p hp' d hd'
  have hl := hk _ (List.getLast_mem hne)
  have he := exec_upsertIdentity_same_key newSHA1 hs fun d (hd : d ∈ st.done.dropLast) =>
    (hk d (List.dropLast_subset _ hd)).trans hl.symm
  rw [List.dropLast_append_getLast hne] at he
  rw [obj_eq_exec_of_reachable newSHA1 h]
  refine ⟨by rw [he], by rw [he], fun ha => ?_⟩
  have hu : upsertRecs Identity.key s₀.identities.docs (withUUID newSHA1 (st.done.getLast hne)) =
      some (s₀.identities.docs ++ [withUUID newSHA1 (st.done.getLast hne)]) :=
    upsertRecs_of_forall_apart fun d hd => by simpa [hl] using ha d hd
  rw [he, upsertIdentity_eq newSHA1 hs, hu]
  exact ⟨rfl, by simp⟩

theorem upsertIdentity_last_wins_two_callers :
    ∃ (st : Sched (Store ℕ) (Identity ℕ)) (hne : st.done ≠ []),
      st.done = [⟨"", "bob", "ext1", 2⟩, ⟨"", "bob", "ext1", 1⟩] ∧
      (⟨⟨[], identityIndexes⟩⟩ : Store ℕ).WF ∧
      (∀ p ∈ ([[⟨"", "bob", "ext1", 1⟩], [⟨"", "bob", "ext1", 2⟩]] : List (List (Identity ℕ))), ∀ d ∈ p,
        d.key = ⟨"bob", "ext1"⟩) ∧
      Sched.Reachable (fun s d => (s.upsertIdentity (fun _ _ => "") d).1) ⟨⟨[], identityIndexes⟩⟩
        [[⟨"", "bob", "ext1", 1⟩], [⟨"", "bob", "ext1", 2⟩]] st ∧
      LastWins (fun _ _ => "") ⟨⟨[], identityIndexes⟩⟩ st.obj ⟨"bob", "ext1"⟩ st.done hne := by
  have hp : ∀ p ∈ ([[⟨"", "bob", "ext1", 1⟩], [⟨"", "bob", "ext1", 2⟩]] : List (List (Identity ℕ))), ∀ d ∈ p,
      d.key = ⟨"bob", "ext1"⟩ := by decide
  have h := (Relation.ReflTransGen.single (@Sched.Step.call (Store ℕ) (Identity ℕ)
    (fun s d => (s.upsertIdentity (fun _ _ => "") d).1)
    ⟨⟨⟨[], identityIndexes⟩⟩, [[⟨"", "bob", "ext1", 1⟩], [⟨"", "bob", "ext1", 2⟩]], []⟩ 1
      ⟨"", "bob", "ext1", 2⟩ [] rfl)).tail (@Sched.Step.call _ _ _ _ 0 ⟨"", "bob", "ext1", 1⟩ [] (by rfl))
  exact ⟨_, List.cons_ne_nil _ _, rfl, wf_empty, hp, h,
    upsertIdentity_last_wins_of_reachable _ wf_empty hp h (List.cons_ne_nil _ _)⟩

end

end Store

section
variable (newSHA1 : String → ByteArray → String) {ι E R T : Type}

open Store in
/-- What the same calls, on the same keys, do to the Mongo store `s` (upserts
    of the documents `ds`) and to the in-memory double `t` (updates of the
    users `us`): the same calls succeed on both and every failure is an
    `AlreadyExists`; both end holding the same keys, each with the last record
    successfully upserted at it (or the one it held); and every document keeps
    the UUID derived from its user name, so an update in place keeps a
    document's UUID. -/
structure Agree (s : Store δ) (t : TestContext ι E R T) (ds : List (Identity δ)) (us : List (User ι)) :
    Prop where
  succeed : (exec (upsertIdentity newSHA1) s ds).2.map Option.isNone =
    (exec TestContext.updateUser t us).2.map Option.isNone
  storeFails : ∀ e ∈ (exec (upsertIdentity newSHA1) s ds).2.reduceOption, e.cause? = some .alreadyExists
  contextFails : ∀ e ∈ (exec TestContext.updateUser t us).2.reduceOption, e.cause? = some .alreadyExists
  sameKeys : ∀ k, k ∈ (exec (upsertIdentity newSHA1) s ds).1.identities.docs.map Identity.key ↔
    k ∈ (exec TestContext.updateUser t us).1.users.map User.key
  storeLast : ∀ k, lookup Identity.key (exec (upsertIdentity newSHA1) s ds).1.identities.docs k =
    (lastUpserted Identity.key k (ds.map (withUUID newSHA1)) (exec (upsertIdentity newSHA1) s ds).2).or
      (lookup Identity.key s.identities.docs k)
  contextLast : ∀ k, lookup User.key (exec TestContext.updateUser t us).1.users k =
    (lastUpserted User.key k us (exec TestContext.updateUser t us).2).or (lookup User.key t.users k)
  uuids : UUIDsDerived newSHA1 s → UUIDsDerived newSHA1 (exec (upsertIdentity newSHA1) s ds).1
  uuidKept : UUIDsDerived newSHA1 s → ∀ d ∈ s.identities.docs,
    ∀ d' ∈ (exec (upsertIdentity newSHA1) s ds).1.identities.docs, d'.key = d.key → d'.uuid = d.uuid

open Store in
/-- **The Mongo store and its in-memory double agree**: from a store as `New`
    leaves it and a double with no `UpdateUserError`, holding the same keys,
    any sequence of `UpsertIdentity` calls and the sequence of `UpdateUser`
    calls on the same keys `Agree`. -/
theorem upsertIdentity_agrees_updateUser {s : Store δ} {t : TestContext ι E R T} (hs : s.WF)
    (ht : KeysUnique (t.users.map User.key)) (he : t.updateUserError = none)
    (hk : ∀ k, k ∈ s.identities.docs.map Identity.key ↔ k ∈ t.users.map User.key)
    {ds : List (Identity δ)} {us : List (User ι)} (hdu : ds.map Identity.key = us.map User.key) :
    Agree newSHA1 s t ds us := by
  obtain ⟨hs₁, hs₂⟩ := exec_upsertIdentity newSHA1 hs ds
  obtain ⟨ht₁, ht₂⟩ := TestContext.exec_updateUser ht he us
  have hv : (ds.map (withUUID newSHA1)).map Identity.key = us.map User.key := by
    rw [List.map_map]; exact hdu
  have hk' : ∀ k, k ∈ (s.registry hs).recs.map Identity.key ↔ k ∈ (t.registry ht).recs.map User.key := hk
  obtain ⟨ha₁, ha₂⟩ := Registry.exec_call_agree hk' hv
  have hn₁ := isNone_of_map_eq hs₂
  have hn₂ := isNone_of_map_eq ht₂
  have hU := fun hu => uuidsDerived_exec newSHA1 hs hu ds
  refine ⟨by rw [hn₁, hn₂, ha₁], Registry.cause_of_map_eq hs₂, Registry.cause_of_map_eq ht₂,
    fun k => by rw [hs₁, ht₁]; exact ha₂ k, fun k => ?_, fun k => ?_, hU, ?_⟩
  · rw [hs₁, lastUpserted_congr k _ hn₁]; exact Registry.lookup_exec_call k _ _
  · rw [ht₁, lastUpserted_congr k _ hn₂]; exact Registry.lookup_exec_call k _ _
  · intro hu d hd d' hd' hkd
    rw [hU hu d' hd', hu d hd, show d'.userName = d.userName from congrArg Key.username hkd]

theorem upsertIdentity_agrees_updateUser_new :
    Store.new (⟨[], []⟩ : Collection Unit) = .ok ⟨⟨[], identityIndexes⟩⟩ ∧
      (⟨⟨[], identityIndexes⟩⟩ : Store Unit).WF ∧
      KeysUnique ((TestContext.new ⟨"", none, false, none, none, none⟩ :
        TestContext Unit Unit Unit Unit).users.map User.key) ∧
      (TestContext.new ⟨"", none, false, none, none, none⟩ :
        TestContext Unit Unit Unit Unit).updateUserError = none ∧
      (∀ k, k ∈ (⟨⟨[], identityIndexes⟩⟩ : Store Unit).identities.docs.map Identity.key ↔
        k ∈ (TestContext.new ⟨"", none, false, none, none, none⟩ :
          TestContext Unit Unit Unit Unit).users.map User.key) ∧
      ([⟨"", "bob", "ext1", ()⟩, ⟨"", "bob", "ext2", ()⟩] : List (Identity Unit)).map Identity.key =
        ([⟨"bob", "ext1", ()⟩, ⟨"bob", "ext2", ()⟩] : List (User Unit)).map User.key ∧
      Agree (fun _ _ => "") ⟨⟨[], identityIndexes⟩⟩
        (TestContext.new ⟨"", none, false, none, none, none⟩ : TestContext Unit Unit Unit Unit)
        [⟨"", "bob", "ext1", ()⟩, ⟨"", "bob", "ext2", ()⟩] [⟨"bob", "ext1", ()⟩, ⟨"bob", "ext2", ()⟩] := by
  exact ⟨rfl, Store.wf_empty, keysUnique_nil, rfl, fun _ => Iff.rfl, rfl,
    upsertIdentity_agrees_updateUser _ Store.wf_empty (by exact keysUnique_nil) rfl (fun _ => by exact Iff.rfl) rfl⟩

end

end Candid
