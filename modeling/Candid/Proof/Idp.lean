/-
  Candid formalization — the `idp.Context` the server gives an identity
  provider (`v1.idpHandler`), against the in-memory double that tests of
  identity providers use in its place.

  * `IdpHandler.findUserByExternalId_agrees`: on a store and a
    `TestContext` holding the same keys, `FindUserByExternalId` of each finds
    the records with the same key, or both fail with `NotFound`.
-/
import Candid.Idp
import Candid.Proof.Store

namespace Candid

variable {δ : Type}

/-- Selecting by external id. -/
theorem Identity.matches_externalID (id : String) :
    Identity.Matches [("external_id", id)] = fun d : Identity δ => decide (d.externalID = id) := by
  funext d; simp [Identity.Matches, Identity.field, beq_eq_decide]

namespace IdpHandler

variable {U : Type} (userFromIdentity : Store δ → Identity δ → Except (Error DriverError) U) {c : IdpHandler δ}

theorem findUserByExternalId_eq (hs : c.store.WF) (id : String) :
    c.findUserByExternalId userFromIdentity id =
      match (c.store.registry hs).find Key.externalID id with
      | some d => userFromIdentity c.store d
      | none => .error (.withCause .notFound "" []) := by
  have hf : c.store.identities.docs.find? (fun d => decide (d.externalID = id)) =
      (c.store.registry hs).find Key.externalID id := rfl
  unfold findUserByExternalId Collection.findOne
  rw [Identity.matches_externalID, hf]
  cases (c.store.registry hs).find Key.externalID id <;> simp

theorem findUserByExternalId_of_mem (hs : c.store.WF) {id : String} {d : Identity δ}
    (hd : d ∈ c.store.identities.docs) (he : d.externalID = id) :
    c.findUserByExternalId userFromIdentity id = userFromIdentity c.store d := by
  rw [findUserByExternalId_eq userFromIdentity hs,
    ((c.store.registry hs).find_eq_some_iff hs.keysUnique.externalIDs).2 ⟨hd, he⟩]

theorem findUserByExternalId_of_forall_ne (hs : c.store.WF) {id : String}
    (hn : ∀ d ∈ c.store.identities.docs, d.externalID ≠ id) :
    c.findUserByExternalId userFromIdentity id = .error (.withCause .notFound "" []) := by
  rw [findUserByExternalId_eq userFromIdentity hs,
    show (c.store.registry hs).find Key.externalID id = none from (Registry.find_eq_none_iff _).2 hn]

/-- **The server and the double find alike**: on a store as `New` leaves it
    and a `TestContext` with no `FindUserByExternalIdError`, holding the same
    keys, `FindUserByExternalId` of each finds, for every external id, the
    record with the same key, or both fail with `NotFound`. -/
theorem findUserByExternalId_agrees {ι E R T : Type} {t : TestContext ι E R T} (hs : c.store.WF)
    (ht : KeysUnique (t.users.map User.key)) (he : t.findUserByExternalIdError = none)
    (hk : ∀ k, k ∈ c.store.identities.docs.map Identity.key ↔ k ∈ t.users.map User.key) (id : String) :
    (∃ d ∈ c.store.identities.docs, ∃ u ∈ t.users, d.key = u.key ∧ d.externalID = id ∧
        c.findUserByExternalId userFromIdentity id = userFromIdentity c.store d ∧
        t.findUserByExternalId id = .ok u) ∨
      (c.findUserByExternalId userFromIdentity id = .error (.withCause .notFound "" []) ∧
        ∃ e, t.findUserByExternalId id = .error e ∧ e.cause? = some .notFound) := by
  rw [TestContext.findUserByExternalId, he]
  by_cases h : ∃ d ∈ c.store.identities.docs, d.externalID = id
  · obtain ⟨d, hd, hid⟩ := h
    obtain ⟨u, hu, hdu⟩ := List.mem_map.1 ((hk d.key).1 (List.mem_map_of_mem _ hd))
    refine Or.inl ⟨d, hd, u, hu, hdu.symm, hid, findUserByExternalId_of_mem userFromIdentity hs hd hid, ?_⟩
    exact (findUser_eq_ok_iff ht ht.externalIDs).2 ⟨hu, by rw [hdu]; exact hid⟩
  · push_neg at h
    refine Or.inr ⟨findUserByExternalId_of_forall_ne userFromIdentity hs h,
      (findUser_notFound_iff ht Key.externalID).2 fun u hu hid => ?_⟩
    obtain ⟨d, hd, hdu⟩ := List.mem_map.1 ((hk u.key).2 (List.mem_map_of_mem _ hu))
    exact h d hd (by rw [← hid, ← hdu]; rfl)

/-- A store as `New` leaves it, holding alice's and bob's identities. -/
def aliceBobStore : IdpHandler Unit := ⟨⟨⟨[⟨"", "alice", "a1", ()⟩, ⟨"", "bob", "b1", ()⟩], identityIndexes⟩⟩⟩

theorem findUserByExternalId_agrees_aliceBob :
    aliceBobStore.store.WF ∧ KeysUnique (TestContext.aliceBob.users.map User.key) ∧
    TestContext.aliceBob.findUserByExternalIdError = none ∧
    (∀ k, k ∈ aliceBobStore.store.identities.docs.map Identity.key ↔ k ∈ TestContext.aliceBob.users.map User.key) ∧
    ((∃ d ∈ aliceBobStore.store.identities.docs, ∃ u ∈ TestContext.aliceBob.users, d.key = u.key ∧
        d.externalID = "b1" ∧ aliceBobStore.findUserByExternalId (fun _ d => .ok d.userName) "b1" = .ok d.userName ∧
        TestContext.aliceBob.findUserByExternalId "b1" = .ok u) ∨
      (aliceBobStore.findUserByExternalId (fun _ d => .ok d.userName) "b1" = .error (.withCause .notFound "" []) ∧
        ∃ e, TestContext.aliceBob.findUserByExternalId "b1" = .error e ∧ e.cause? = some .notFound)) := by
  have hs : aliceBobStore.store.WF := ⟨fun _ h _ => h, fun _ h => h, by decide⟩
  have ht : KeysUnique (TestContext.aliceBob.users.map User.key) := by decide
  exact ⟨hs, ht, rfl, fun _ => Iff.rfl,
    findUserByExternalId_agrees (fun _ d => .ok d.userName) hs ht rfl (fun _ => Iff.rfl) "b1"⟩

end IdpHandler

end Candid
