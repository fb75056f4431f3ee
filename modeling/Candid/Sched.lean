/-
  Candid formalization — callers running concurrently against one object whose
  calls are atomic: each call holds the object's mutex for its whole body, as
  the methods of `idptest.TestContext` hold `mu`.

  A schedule holds the object's state, the calls each caller has still to
  make, and the calls made so far, in the order they took the mutex.  At each
  step any caller with a call left makes it (`Sched.Step`), so the reachable
  schedules cover every interleaving of the callers.

  * `Sched.Reachable.obj_eq_foldl`: in every reachable schedule the object is
    in the state that the calls made so far leave it in when made one after
    another, so a property of every sequential run holds of every
    interleaving;
  * `Sched.Reachable.perm`: no call is lost or made twice: the calls made and
    the calls left are, together, the callers' calls.
-/
import Mathlib.Logic.Relation

namespace Candid

variable {σ κ : Type}

/-- A schedule: the object's state, the calls each caller has left, and the
    calls made so far, in the order they took the mutex. -/
structure Sched (σ κ : Type) where
  obj : σ
  pending : List (List κ)
  done : List κ

namespace Sched

/-- One step: caller `i` makes its next call `x`, atomically. -/
inductive Step (step : σ → κ → σ) : Sched σ κ → Sched σ κ → Prop
  | call {s : Sched σ κ} {i : ℕ} {x : κ} {xs : List κ} (hi : s.pending[i]? = some (x :: xs)) :
      Step step s ⟨step s.obj x, s.pending.set i xs, s.done ++ [x]⟩

/-- The schedules reachable when the callers `progs` start on the object `o`. -/
def Reachable (step : σ → κ → σ) (o : σ) (progs : List (List κ)) : Sched σ κ → Prop :=
  Relation.ReflTransGen (Step step) ⟨o, progs, []⟩

/-- **Interleavings are sequential runs.** -/
theorem Reachable.obj_eq_foldl {step : σ → κ → σ} {o : σ} {progs : List (List κ)} {s : Sched σ κ}
    (h : Reachable step o progs s) : s.obj = s.done.foldl step o := by
  induction h with
  | refl => rfl
  | tail _ hs ih => cases hs with | call => simp [List.foldl_append, ih]

theorem perm_flatten_set {x : κ} {xs : List κ} :
    ∀ {l : List (List κ)} {i : ℕ}, l[i]? = some (x :: xs) → (x :: (l.set i xs).flatten).Perm l.flatten
  | _ :: _, 0, h => by simp only [List.getElem?_cons_zero, Option.some.injEq] at h; simp [h]
  | p :: _, _ + 1, h => by
    rw [List.getElem?_cons_succ] at h
    simpa using List.perm_middle.symm.trans ((perm_flatten_set h).append_left p)

/-- **No call is lost or made twice.** -/
theorem Reachable.perm {step : σ → κ → σ} {o : σ} {progs : List (List κ)} {s : Sched σ κ}
    (h : Reachable step o progs s) : (s.done ++ s.pending.flatten).Perm progs.flatten := by
  induction h with
  | refl => rfl
  | tail _ hs ih =>
    cases hs with
    | call hi => simpa using ((perm_flatten_set hi).append_left _).trans ih

/-- Every call made is a call of one of the callers. -/
theorem Reachable.mem_done {step : σ → κ → σ} {o : σ} {progs : List (List κ)} {s : Sched σ κ}
    (h : Reachable step o progs s) {x : κ} (hx : x ∈ s.done) : ∃ p ∈ progs, x ∈ p :=
  List.mem_flatten.1 (h.perm.subset (List.mem_append_left _ hx))

end Sched

end Candid
