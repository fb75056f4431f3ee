/-
  Candid formalization — what the identity store's implementations share: Go
  errors as `errgo` builds them, the key of an identity record, and the store
  invariant (spec §3: no two identity records share a `UserName` or an
  `ExternalID`).

  * `Error` and `Error.cause?`: the errors the modelled code returns, and
    `errgo.Cause` on them;
  * `KeysUnique ks`: the invariant, on the keys of a list of records; the
    lemmas below say how it behaves under the two writes the store makes
    (appending a record, and replacing records by ones with the same key);
  * `exec`: calls made one after another on an object whose calls are atomic;
    `exec_of_sim`: a run of calls that each do what another object's call
    does is a run of that object.
-/
import Mathlib.Data.List.Nodup

namespace Candid

/-! ## Errors -/

/-- The `params` error codes the store classifies its errors by:
    `params.ErrAlreadyExists` and `params.ErrNotFound`. -/
inductive ErrorCode where
  | alreadyExists
  | notFound
  deriving DecidableEq, Repr

/-- A Go `error` as the modelled code returns it: one made by
    `errgo.WithCausef(nil, cause, format, args...)`, one made by
    `errgo.Notef(err, msg)`, one made by `errgo.Mask(err, errgo.Is(c), ...)`
    for the codes `c` of `pass`, or an error `e` made elsewhere (set by a
    test, or a driver error passed on through `errgo.Mask`). -/
inductive Error (E : Type) where
  | withCause (cause : ErrorCode) (format : String) (args : List String)
  | note (msg : String) (err : Error E)
  | mask (pass : List ErrorCode) (err : Error E)
  | other (e : E)
  deriving DecidableEq, Repr

/-- `errgo.Cause`, where it is one of the `params` codes: `WithCausef` records
    its cause, `Notef` hides the cause of the error it wraps, and `Mask` keeps
    it only when it is one of `pass`. -/
def Error.cause? {E : Type} : Error E → Option ErrorCode
  | .withCause c _ _ => some c
  | .note _ _ => none
  | .mask pass err => err.cause?.filter (· ∈ pass)
  | .other _ => none

/-! ## Keys and the store invariant -/

/-- The key of an identity record: its `username` and `external_id`, the two
    fields the store indexes uniquely. -/
structure Key where
  username : String
  externalID : String
  deriving DecidableEq, Repr

/-- **The store invariant** (spec §3): no two of the keys `ks` share a user
    name or an external id. -/
structure KeysUnique (ks : List Key) : Prop where
  usernames : (ks.map Key.username).Nodup
  externalIDs : (ks.map Key.externalID).Nodup

instance : DecidablePred KeysUnique := fun ks =>
  decidable_of_iff ((ks.map Key.username).Nodup ∧ (ks.map Key.externalID).Nodup)
    ⟨fun h => ⟨h.1, h.2⟩, fun h => ⟨h.1, h.2⟩⟩

/-- `k` shares neither its user name nor its external id with `k'`. -/
def Apart (k' k : Key) : Prop := k'.username ≠ k.username ∧ k'.externalID ≠ k.externalID

instance (k' k : Key) : Decidable (Apart k' k) := inferInstanceAs (Decidable (_ ∧ _))

theorem keysUnique_iff {ks : List Key} :
    KeysUnique ks ↔ (ks.map Key.username).Nodup ∧ (ks.map Key.externalID).Nodup :=
  ⟨fun h => ⟨h.1, h.2⟩, fun h => ⟨h.1, h.2⟩⟩

theorem keysUnique_nil : KeysUnique [] := ⟨List.nodup_nil, List.nodup_nil⟩

theorem keysUnique_cons {k : Key} {ks : List Key} :
    KeysUnique (k :: ks) ↔ (∀ k' ∈ ks, Apart k' k) ∧ KeysUnique ks := by
  simp only [keysUnique_iff, List.map_cons, List.nodup_cons, List.mem_map, not_exists, not_and]
  exact ⟨fun ⟨⟨hu, hu'⟩, he, he'⟩ => ⟨fun k' hk' => ⟨hu k' hk', he k' hk'⟩, hu', he'⟩,
    fun ⟨ha, hu, he⟩ => ⟨⟨fun k' hk' => (ha k' hk').1, hu⟩, fun k' hk' => (ha k' hk').2, he⟩⟩

theorem keysUnique_append_singleton {k : Key} {ks : List Key} :
    KeysUnique (ks ++ [k]) ↔ KeysUnique ks ∧ ∀ k' ∈ ks, Apart k' k := by
  simp only [keysUnique_iff, List.map_append, List.map_cons, List.map_nil, List.nodup_append,
    List.nodup_singleton, List.disjoint_singleton, List.mem_map, not_exists, not_and, true_and]
  exact ⟨fun ⟨⟨hu, hu'⟩, he, he'⟩ => ⟨⟨hu, he⟩, fun k' hk' => ⟨hu' k' hk', he' k' hk'⟩⟩,
    fun ⟨⟨hu, he⟩, ha⟩ => ⟨⟨hu, fun k' hk' => (ha k' hk').1⟩, he, fun k' hk' => (ha k' hk').2⟩⟩

/-! ## Runs -/

/-- The calls `xs` made one after another from `s`, on an object whose call
    `f` returns the new state and a result: the last state and the results. -/
def exec {σ κ ρ : Type} (f : σ → κ → σ × ρ) : σ → List κ → σ × List ρ
  | s, [] => (s, [])
  | s, x :: xs => ((exec f (f s x).1 xs).1, (f s x).2 :: (exec f (f s x).1 xs).2)

section
variable {σ τ κ κ' ρ ρ' : Type}

/-- The state after a run is the state after the calls folded in turn. -/
theorem exec_fst (f : σ → κ → σ × ρ) :
    ∀ (s : σ) (xs : List κ), (exec f s xs).1 = xs.foldl (fun s x => (f s x).1) s
  | _, [] => rfl
  | s, x :: xs => exec_fst f (f s x).1 xs

/-- **Simulation**: if each call `f` on the image `γ t` of a state `t` does
    what the call `g` does on `t`, with the argument read by `conv` and the
    result by `out`, then so does every run. -/
theorem exec_of_sim {f : σ → κ → σ × ρ} {g : τ → κ' → τ × ρ'} {γ : τ → σ} {conv : κ → κ'} {out : ρ' → ρ}
    (h : ∀ t x, f (γ t) x = (γ (g t (conv x)).1, out (g t (conv x)).2)) :
    ∀ (t : τ) (xs : List κ), exec f (γ t) xs = (γ (exec g t (xs.map conv)).1, (exec g t (xs.map conv)).2.map out)
  | _, [] => rfl
  | t, x :: xs => by simp only [exec, h, List.map_cons, exec_of_sim h _ xs]

end

end Candid
