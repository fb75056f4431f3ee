/-
  Candid formalization — the identity store's contract (spec §4.1), which both
  the Mongo store (`Store.UpsertIdentity`) and its in-memory double
  (`idptest.TestContext`) implement.

  A `Registry` is a collection of records that carries the store invariant.
  `upsert` replaces the record with the same key, refuses a record that shares
  only its user name or only its external id with another (`AlreadyExists`),
  and otherwise adds the record; `find` returns the record with a given user
  name or external id.  Each decision is made by membership, not by position:

  * `isSome_upsertRecs` and `keys_upsertRecs`: whether an upsert succeeds, and
    the keys after it, depend only on the keys before;
  * `lookup_upsertRecs`: after an upsert the record at its key is the new
    one, and every other key keeps its record;
  * `Registry.find_eq_some_iff`: `find` returns the unique record with the field;
  * `exec_call_agree` and `lookup_exec_call`: over a run of upserts, two
    registries with the same keys answer alike, and each key holds the last
    record upserted at it;
  * `exec_call_same_key`: a run of upserts at one key does what its last
    upsert alone does.
-/
import Candid.Basic
import Mathlib.Data.List.ReduceOption

namespace Candid

variable {V : Type}

/-! ## Upsert on records -/

/-- The records `l` with `v` in place of the one with its key. -/
def replaceKey (key : V → Key) (v : V) (l : List V) : List V :=
  l.map fun w => if key w = key v then v else w

/-- The contract's upsert on the records `l`: the record with `v`'s key is
    replaced; failing that, `v` is added if it is apart from every record;
    `none` is the `AlreadyExists` conflict. -/
def upsertRecs (key : V → Key) (l : List V) (v : V) : Option (List V) :=
  if ∃ w ∈ l, key w = key v then some (replaceKey key v l)
  else if ∀ w ∈ l, Apart (key w) (key v) then some (l ++ [v])
  else none

variable {key : V → Key} {l l' : List V} {v : V}

@[simp] theorem map_replaceKey : (replaceKey key v l).map key = l.map key := by
  simp only [replaceKey, List.map_map]
  exact List.map_congr_left fun w _ => by by_cases h : key w = key v <;> simp [h]

theorem keysUnique_upsertRecs (h : KeysUnique (l.map key)) (hu : upsertRecs key l v = some l') :
    KeysUnique (l'.map key) := by
  unfold upsertRecs at hu
  split_ifs at hu with h₁ h₂ <;> cases hu
  · rwa [map_replaceKey]
  · rw [List.map_append, List.map_singleton]
    exact keysUnique_append_singleton.2 ⟨h, by simpa using h₂⟩

theorem isSome_upsertRecs :
    (upsertRecs key l v).isSome ↔ key v ∈ l.map key ∨ ∀ k ∈ l.map key, Apart k (key v) := by
  simp only [List.mem_map, List.forall_mem_map]
  unfold upsertRecs
  split_ifs with h₁ h₂ <;> simp_all

theorem keys_upsertRecs (hu : upsertRecs key l v = some l') (k : Key) :
    k ∈ l'.map key ↔ k ∈ l.map key ∨ k = key v := by
  unfold upsertRecs at hu
  split_ifs at hu with h₁ h₂ <;> cases hu
  · obtain ⟨w, hw, he⟩ := h₁
    simp only [map_replaceKey, iff_self_or]
    rintro rfl; exact List.mem_map.2 ⟨w, hw, he⟩
  · simp

theorem replaceKey_of_forall_ne (hl : ∀ w ∈ l, key w ≠ key v) : replaceKey key v l = l := by
  rw [replaceKey]; conv_rhs => rw [← List.map_id l]
  exact List.map_congr_left fun w h => if_neg (hl w h)

theorem replaceKey_replaceKey {w : V} (hk : key w = key v) :
    replaceKey key v (replaceKey key w l) = replaceKey key v l := by
  simp only [replaceKey, List.map_map]
  exact List.map_congr_left fun x _ => by by_cases h : key x = key v <;> simp [h, hk]

/-! ### Upsert record by record -/

theorem upsertRecs_cons_of_key_eq {w : V} (hw : key w = key v) (hl : ∀ w' ∈ l, key w' ≠ key v) :
    upsertRecs key (w :: l) v = some (v :: l) := by
  rw [upsertRecs, if_pos ⟨w, List.mem_cons_self _ _, hw⟩, replaceKey, List.map_cons, if_pos hw,
    ← replaceKey, replaceKey_of_forall_ne hl]

theorem upsertRecs_cons_of_clash {w : V} (hw : key w ≠ key v) (hs : ¬Apart (key w) (key v))
    (hl : ∀ w' ∈ l, key w' ≠ key v) : upsertRecs key (w :: l) v = none := by
  have h₁ : ¬∃ w' ∈ w :: l, key w' = key v := by
    rintro ⟨w', hw', he⟩
    rcases List.mem_cons.1 hw' with rfl | hw'
    exacts [hw he, hl w' hw' he]
  rw [upsertRecs, if_neg h₁, if_neg fun h => hs (h w (List.mem_cons_self _ _))]

theorem upsertRecs_cons_of_apart {w : V} (hw : Apart (key w) (key v)) :
    upsertRecs key (w :: l) v = (upsertRecs key l v).map (w :: ·) := by
  have hne : key w ≠ key v := fun h => hw.1 (by rw [h])
  unfold upsertRecs
  simp only [List.mem_cons, exists_eq_or_imp, hne, false_or, forall_eq_or_imp, hw, true_and]
  split_ifs <;> simp [replaceKey, hne]

theorem upsertRecs_of_forall_apart (h : ∀ w ∈ l, Apart (key w) (key v)) : upsertRecs key l v = some (l ++ [v]) := by
  rw [upsertRecs, if_neg fun ⟨w, hw, he⟩ => (h w hw).1 (by rw [he]), if_pos h]

/-- Under the invariant, replacing the record with `v`'s key is writing `v` at
    its position. -/
theorem replaceKey_eq_set {w : V} (hw : key w = key v) :
    ∀ {l : List V} {i : ℕ}, KeysUnique (l.map key) → l[i]? = some w → replaceKey key v l = l.set i v
  | w' :: l, 0, h, hi => by
    obtain ⟨ha, -⟩ := keysUnique_cons.1 h
    obtain rfl : w' = w := by simpa using hi
    simp only [replaceKey, List.map_cons, hw, ↓reduceIte, List.set_cons_zero, List.cons.injEq, true_and]
    exact replaceKey_of_forall_ne fun w'' h'' he => (ha _ (List.mem_map_of_mem key h'')).1 (by rw [he, hw])
  | w' :: l, i + 1, h, hi => by
    obtain ⟨ha, h⟩ := keysUnique_cons.1 h
    rw [List.getElem?_cons_succ] at hi
    have hne : key w' ≠ key v := fun he =>
      (ha _ (List.mem_map_of_mem key (List.getElem?_mem hi))).1 (by rw [hw, he])
    simp only [replaceKey, List.map_cons, hne, ↓reduceIte, List.set_cons_succ, List.cons.injEq, true_and]
    exact replaceKey_eq_set hw h hi

theorem mem_upsertRecs_self (hu : upsertRecs key l v = some l') : v ∈ l' := by
  unfold upsertRecs at hu
  split_ifs at hu with h₁ <;> cases hu
  · obtain ⟨w, hw, he⟩ := h₁
    exact List.mem_map.2 ⟨w, hw, if_pos he⟩
  · simp

/-- An upsert followed by an upsert at the same key is the second alone. -/
theorem upsertRecs_of_key_eq {w : V} (hk : key w = key v) (hu : upsertRecs key l w = some l') :
    upsertRecs key l' v = upsertRecs key l v := by
  have hs : ∃ x ∈ l', key x = key v := ⟨w, mem_upsertRecs_self hu, hk⟩
  rw [upsertRecs, if_pos hs]
  unfold upsertRecs at hu
  rw [hk] at hu
  split_ifs at hu with h₁ h₂ <;> cases hu
  · rw [upsertRecs, if_pos h₁, replaceKey_replaceKey hk]
  · rw [upsertRecs, if_neg h₁, if_pos h₂, replaceKey, List.map_append, ← replaceKey,
      replaceKey_of_forall_ne fun x hx he => h₁ ⟨x, hx, he⟩]
    simp [hk]

/-- An upsert keeps every record with another key. -/
theorem mem_upsertRecs {w : V} (hu : upsertRecs key l v = some l') (hw : w ∈ l) (hk : key w ≠ key v) :
    w ∈ l' := by
  unfold upsertRecs at hu
  split_ifs at hu <;> cases hu
  · exact List.mem_map.2 ⟨w, hw, if_neg hk⟩
  · exact List.mem_append_left _ hw

/-- After an upsert every record was there before or is the new one. -/
theorem mem_of_mem_upsertRecs {w : V} (hu : upsertRecs key l v = some l') (hw : w ∈ l') :
    w ∈ l ∨ w = v := by
  unfold upsertRecs at hu
  split_ifs at hu <;> cases hu
  · obtain ⟨w', hw', rfl⟩ := List.mem_map.1 hw
    by_cases h : key w' = key v <;> simp [h, hw']
  · simpa using hw

/-- The record with key `k` among `l`. -/
def lookup (key : V → Key) (l : List V) (k : Key) : Option V := l.find? (key · = k)

theorem lookup_replaceKey (k : Key) :
    lookup key (replaceKey key v l) k = (lookup key l k).map fun w => if key w = key v then v else w := by
  simp only [lookup, replaceKey, List.find?_map]
  congr 2; funext w; by_cases h : key w = key v <;> simp [h]

theorem key_of_lookup {k : Key} {w : V} (h : lookup key l k = some w) : key w = k := by
  simpa using List.find?_some h

theorem lookup_eq_none {k : Key} : lookup key l k = none ↔ ∀ w ∈ l, key w ≠ k := by
  simp [lookup, List.find?_eq_none]

/-- **The record at each key after an upsert.** -/
theorem lookup_upsertRecs (hu : upsertRecs key l v = some l') (k : Key) :
    lookup key l' k = if key v = k then some v else lookup key l k := by
  unfold upsertRecs at hu
  split_ifs at hu with h₁ h₂ <;> cases hu
  · rw [lookup_replaceKey]
    cases hw : lookup key l k with
    | none =>
      obtain ⟨w, hw', he⟩ := h₁
      rw [if_neg fun hk => lookup_eq_none.1 hw w hw' (he.trans hk)]; rfl
    | some w =>
      by_cases h : key v = k
      · simp [h, key_of_lookup hw]
      · simp [h, Ne.symm h, key_of_lookup hw]
  · have hl : lookup key (l ++ [v]) k = (lookup key l k).or (if key v = k then some v else none) := by
      simp [lookup, List.find?_append, List.find?_singleton]
    rw [hl]
    by_cases hk : key v = k
    · have : lookup key l k = none := lookup_eq_none.2 fun w hw he => (h₂ w hw).1 (by rw [he, hk])
      simp [this, hk]
    · simp [hk]

theorem find?_eq_some_iff_of_inj {p : V → Bool} {w : V}
    (hp : ∀ a ∈ l, ∀ b ∈ l, p a → p b → a = b) : l.find? p = some w ↔ w ∈ l ∧ p w := by
  refine ⟨fun h => ⟨List.mem_of_find?_eq_some h, List.find?_some h⟩, fun ⟨hw, hpw⟩ => ?_⟩
  obtain ⟨w', hw'⟩ := Option.isSome_iff_exists.1 (List.find?_isSome.2 ⟨w, hw, hpw⟩)
  rw [hw', hp _ (List.mem_of_find?_eq_some hw') _ hw (List.find?_some hw') hpw]

/-- The last of the records `vs` with key `k` whose call succeeded, by the
    calls' errors `rs` (`none` for a success). -/
def lastUpserted {ε : Type} (key : V → Key) (k : Key) : List V → List (Option ε) → Option V
  | v :: vs, r :: rs => (lastUpserted key k vs rs).or (if r.isNone ∧ key v = k then some v else none)
  | _, _ => none

theorem isNone_of_map_eq {α β γ : Type} {f : α → γ} {g : β → γ} {rs : List (Option α)}
    {rs' : List (Option β)} (h : rs.map (Option.map f) = rs'.map (Option.map g)) :
    rs.map Option.isNone = rs'.map Option.isNone := by
  simpa [List.map_map, Function.comp_def] using congrArg (List.map Option.isNone) h

theorem lastUpserted_congr {ε ε' : Type} (k : Key) :
    ∀ (vs : List V) {rs : List (Option ε)} {rs' : List (Option ε')},
      rs.map Option.isNone = rs'.map Option.isNone → lastUpserted key k vs rs = lastUpserted key k vs rs'
  | [], _, _, _ => by simp [lastUpserted]
  | _ :: _, [], [], _ => rfl
  | v :: vs, r :: rs, r' :: rs', h => by
    simp only [List.map_cons, List.cons.injEq] at h
    simp only [lastUpserted, h.1, lastUpserted_congr k vs h.2]
  | _ :: _, [], _ :: _, h => by simp at h
  | _ :: _, _ :: _, [], h => by simp at h

/-- The first record whose key has field `fk` equal to `s`, after an upsert,
    when no two records share that field before or after: the new record if
    it has the field, or else the one found before. -/
theorem find?_upsertRecs {fk : Key → String} {s : String} (hu : upsertRecs key l v = some l')
    (hn : ((l.map key).map fk).Nodup) (hn' : ((l'.map key).map fk).Nodup) :
    l'.find? (fun w => fk (key w) = s) = if fk (key v) = s then some v else l.find? fun w => fk (key w) = s := by
  have inj : ∀ {m : List V}, ((m.map key).map fk).Nodup →
      ∀ a ∈ m, ∀ b ∈ m, decide (fk (key a) = s) → decide (fk (key b) = s) → a = b := fun hm a ha b hb pa pb =>
    List.inj_on_of_nodup_map (by rwa [List.map_map] at hm) ha hb (by simp_all)
  split_ifs with hv
  · exact (find?_eq_some_iff_of_inj (inj hn')).2 ⟨mem_upsertRecs_self hu, by simpa using hv⟩
  · cases hf : l.find? fun w => fk (key w) = s with
    | some w =>
      obtain ⟨hw, hpw⟩ := (find?_eq_some_iff_of_inj (inj hn)).1 hf
      have hk : key w ≠ key v := fun hk => hv (by rw [← hk]; simpa using hpw)
      exact (find?_eq_some_iff_of_inj (inj hn')).2 ⟨mem_upsertRecs hu hw hk, hpw⟩
    | none =>
      rw [List.find?_eq_none] at hf ⊢
      intro w hw
      rcases mem_of_mem_upsertRecs hu hw with hw | rfl
      · exact hf w hw
      · simpa using hv

/-! ## The contract -/

/-- The identity store as its contract sees it: records no two of which share
    a user name or an external id. -/
@[ext] structure Registry (key : V → Key) where
  recs : List V
  unique : KeysUnique (recs.map key)

namespace Registry

/-- `UpsertIdentity`'s contract (§4.1); `none` is the `AlreadyExists`
    conflict. -/
def upsert (r : Registry key) (v : V) : Option (Registry key) :=
  (upsertRecs key r.recs v).pmap (fun l h => ⟨l, keysUnique_upsertRecs r.unique h⟩) fun _ h => h

@[simp] theorem map_recs_upsert (r : Registry key) (v : V) :
    (r.upsert v).map recs = upsertRecs key r.recs v := by
  simp [upsert, Option.map_pmap, Option.pmap_eq_map]

/-- The record whose key has field `f` equal to `s`: `FindByUserName` for
    `Key.username`, `FindByExternalID` for `Key.externalID`. -/
def find (r : Registry key) (f : Key → String) (s : String) : Option V :=
  r.recs.find? fun w => f (key w) = s

/-- **`find` returns the unique record with the field**, for a field no two
    records share (the user name and the external id, by `r.unique`). -/
theorem find_eq_some_iff (r : Registry key) {f : Key → String} (hf : ((r.recs.map key).map f).Nodup)
    {s : String} {w : V} : r.find f s = some w ↔ w ∈ r.recs ∧ f (key w) = s := by
  rw [List.map_map] at hf
  have hp : ∀ a ∈ r.recs, ∀ b ∈ r.recs, decide (f (key a) = s) → decide (f (key b) = s) → a = b :=
    fun a ha b hb pa pb => List.inj_on_of_nodup_map hf ha hb (by simp_all)
  simpa [find] using find?_eq_some_iff_of_inj hp

theorem find_eq_none_iff (r : Registry key) {f : Key → String} {s : String} :
    r.find f s = none ↔ ∀ w ∈ r.recs, f (key w) ≠ s := by
  simp [find, List.find?_eq_none]

/-! ## Runs of upserts -/

/-- An upsert as a call: the registry after it, and its error code. -/
def call (r : Registry key) (v : V) : Registry key × Option ErrorCode :=
  match r.upsert v with
  | some r' => (r', none)
  | none => (r, some .alreadyExists)

/-- What a call does: it succeeds with the records `upsertRecs` gives, or
    fails with `AlreadyExists` and changes nothing. -/
theorem call_cases (r : Registry key) (v : V) :
    ((r.call v).2 = none ∧ upsertRecs key r.recs v = some (r.call v).1.recs) ∨
      ((r.call v).2 = some .alreadyExists ∧ upsertRecs key r.recs v = none ∧ (r.call v).1 = r) := by
  rw [← map_recs_upsert]
  unfold call
  cases r.upsert v <;> simp

/-- An upsert fails only with `AlreadyExists`. -/
theorem exec_call_results : ∀ (r : Registry key) (vs : List V),
    ∀ c ∈ (exec call r vs).2, c = none ∨ c = some .alreadyExists
  | _, [] => by simp [exec]
  | r, v :: vs => by
    simp only [exec, List.mem_cons, forall_eq_or_imp]
    refine ⟨?_, exec_call_results _ vs⟩
    rcases r.call_cases v with ⟨h, -⟩ | ⟨h, -⟩
    exacts [Or.inl h, Or.inr h]

/-- Over a run every record was there at the start or is one upserted. -/
theorem mem_exec_call {w : V} : ∀ (r : Registry key) (vs : List V),
    w ∈ (exec call r vs).1.recs → w ∈ r.recs ∨ w ∈ vs
  | _, [], hw => Or.inl hw
  | r, v :: vs, hw => by
    rcases mem_exec_call (r.call v).1 vs hw with hw | hw
    · rcases r.call_cases v with ⟨-, h⟩ | ⟨-, -, h⟩
      · rcases mem_of_mem_upsertRecs h hw with hw | rfl
        exacts [Or.inl hw, Or.inr (List.mem_cons_self _ _)]
      · rw [h] at hw; exact Or.inl hw
    · exact Or.inr (List.mem_cons_of_mem _ hw)

/-- Results that map onto those of a run of upserts fail only with
    `AlreadyExists`. -/
theorem cause_of_map_eq {ε : Type} {rs : List (Option (Error ε))} {r : Registry key} {vs : List V}
    (h : rs.map (Option.map Error.cause?) = (exec call r vs).2.map (Option.map some)) :
    ∀ e ∈ rs.reduceOption, e.cause? = some .alreadyExists := by
  intro e he
  have hm := List.mem_map_of_mem (Option.map Error.cause?) (List.reduceOption_mem_iff.1 he)
  rw [h] at hm
  obtain ⟨c, hc, hce⟩ := List.mem_map.1 hm
  rcases exec_call_results r vs c hc with rfl | rfl <;> simp_all

/-- **Upserts decide by keys alone**: on registries with the same keys, upserts
    at the same key give the same answer and leave the same keys. -/
theorem call_agree {V₂ : Type} {key₂ : V₂ → Key} {r : Registry key} {r₂ : Registry key₂}
    (hk : ∀ k, k ∈ r.recs.map key ↔ k ∈ r₂.recs.map key₂) {v : V} {v₂ : V₂} (hv : key v = key₂ v₂) :
    (r.call v).2 = (r₂.call v₂).2 ∧
      ∀ k, k ∈ (r.call v).1.recs.map key ↔ k ∈ (r₂.call v₂).1.recs.map key₂ := by
  have hs : (upsertRecs key r.recs v).isSome = (upsertRecs key₂ r₂.recs v₂).isSome := by
    rw [Bool.eq_iff_iff, isSome_upsertRecs, isSome_upsertRecs, hv, hk]
    exact or_congr_right (forall_congr' fun k => imp_congr_left (hk k))
  rcases r.call_cases v with ⟨h₁, h₂⟩ | ⟨h₁, h₂, h₃⟩ <;>
    rcases r₂.call_cases v₂ with ⟨h₁', h₂'⟩ | ⟨h₁', h₂', h₃'⟩
  · refine ⟨h₁.trans h₁'.symm, fun k => ?_⟩
    rw [keys_upsertRecs h₂, keys_upsertRecs h₂', hk, hv]
  · simp [h₂, h₂'] at hs
  · simp [h₂, h₂'] at hs
  · exact ⟨h₁.trans h₁'.symm, by rw [h₃, h₃']; exact hk⟩

theorem exec_call_agree {V₂ : Type} {key₂ : V₂ → Key} :
    ∀ {r : Registry key} {r₂ : Registry key₂} {vs : List V} {vs₂ : List V₂},
      (∀ k, k ∈ r.recs.map key ↔ k ∈ r₂.recs.map key₂) → vs.map key = vs₂.map key₂ →
      (exec call r vs).2 = (exec call r₂ vs₂).2 ∧
        ∀ k, k ∈ (exec call r vs).1.recs.map key ↔ k ∈ (exec call r₂ vs₂).1.recs.map key₂
  | _, _, [], [], hk, _ => ⟨rfl, hk⟩
  | _, _, v :: vs, v₂ :: vs₂, hk, hv => by
    simp only [List.map_cons, List.cons.injEq] at hv
    obtain ⟨h₁, h₂⟩ := call_agree hk hv.1
    obtain ⟨ih₁, ih₂⟩ := exec_call_agree h₂ hv.2
    exact ⟨by simp only [exec, h₁, ih₁], ih₂⟩
  | _, _, [], _ :: _, _, hv => by simp at hv
  | _, _, _ :: _, [], _, hv => by simp at hv

theorem upsert_eq_of_upsertRecs_eq {r r' : Registry key} (h : upsertRecs key r'.recs v = upsertRecs key r.recs v) :
    r'.upsert v = r.upsert v :=
  Option.map_injective (fun _ _ => Registry.ext) (by rw [map_recs_upsert, map_recs_upsert, h])

/-- An upsert followed by an upsert at the same key is the second alone. -/
theorem call_call_of_key_eq (r : Registry key) {w : V} (hk : key w = key v) : (r.call w).1.call v = r.call v := by
  rcases r.call_cases w with ⟨-, h⟩ | ⟨-, -, h⟩
  · have hs : (upsertRecs key r.recs v).isSome := isSome_upsertRecs.2 (hk ▸ isSome_upsertRecs.1 (by rw [h]; rfl))
    obtain ⟨r₀, hr₀⟩ := Option.isSome_iff_exists.1 (by simpa only [← map_recs_upsert, Option.isSome_map'] using hs)
    generalize (r.call w).1 = r' at h
    simp only [call, upsert_eq_of_upsertRecs_eq (upsertRecs_of_key_eq hk h), hr₀]
  · rw [h]

/-- **Upserts at one key: the last wins.** A run of upserts all at `v`'s key
    and ending with `v` leaves what the upsert of `v` alone leaves, and every
    call of it answers as that upsert does. -/
theorem exec_call_same_key : ∀ (r : Registry key) {vs : List V}, (∀ w ∈ vs, key w = key v) →
    exec call r (vs ++ [v]) = ((r.call v).1, (vs ++ [v]).map fun _ => (r.call v).2)
  | _, [], _ => rfl
  | r, w :: vs, h => by
    have hw := h w (List.mem_cons_self w vs)
    have ih := exec_call_same_key (r.call w).1 fun x hx => h x (List.mem_cons_of_mem w hx)
    rw [call_call_of_key_eq r hw] at ih
    show ((exec call (r.call w).1 (vs ++ [v])).1, (r.call w).2 :: (exec call (r.call w).1 (vs ++ [v])).2) = _
    rw [ih, (call_agree (fun _ => Iff.rfl) hw).1]; rfl

/-- **Each key holds the last record upserted at it**, or the one it held. -/
theorem lookup_exec_call (k : Key) : ∀ (r : Registry key) (vs : List V),
    lookup key (exec call r vs).1.recs k =
      (lastUpserted key k vs (exec call r vs).2).or (lookup key r.recs k)
  | r, [] => by simp [exec, lastUpserted]
  | r, v :: vs => by
    simp only [exec, lastUpserted, Option.or_assoc]
    rw [lookup_exec_call k _ vs]
    congr 1
    rcases r.call_cases v with ⟨h₁, h₂⟩ | ⟨h₁, -, h₃⟩
    · rw [lookup_upsertRecs h₂, h₁]
      by_cases h : key v = k <;> simp [h]
    · rw [h₃, h₁]; simp

end Registry

end Candid
