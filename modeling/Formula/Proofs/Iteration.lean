import Formula.Proofs.BuiltinFaults
import Formula.Sample

/-!
A loop as its condition and its body in turn. How often the body runs is decided by the condition, up to a
limit.
-/

namespace Formula.Engine

variable {H : Host}

section

variable (e : Engine H) (uid condition body : String)

/-- The last result of the condition is the bool `b`. -/
def Decides (b : Bool) (s s' : Session H) : Prop :=
  ∃ ev, e.evaluate uid condition s = .ok ev s' ∧ ev.results.getLast? = some (.bool b)

/-- The condition is evaluated, but its last result is no bool: it is of the type `found`, or there is
none. -/
def IsUndecided (found : String) (s s' : Session H) : Prop :=
  ∃ ev, e.evaluate uid condition s = .ok ev s' ∧ (∀ b, ev.results.getLast? ≠ some (.bool b)) ∧
    found = (ev.results.getLast?.map (·.typeName)).getD "nothing"

def undecided (condition found : String) : EvalError :=
  (EvalError.of (.conditionNotBool found)).inStatement condition

/-- The condition holds and the body is evaluated after that, `n` times in turn. -/
inductive Rounds : Nat → Session H → Session H → Prop
  | zero {s} : Rounds 0 s s
  | succ {n s t u v ev} : e.Decides uid condition true s t → e.evaluate uid body t = .ok ev u →
      Rounds n u v → Rounds (n + 1) s v

/-- A round that does not end in another one, after `n` rounds of at most `limit`. -/
inductive Stops (limit n : Nat) (s : Session H) : EStateM.Result EvalError (Session H) Nat → Prop
  | done {s'} : e.Decides uid condition false s s' → Stops limit n s (.ok n s')
  | limit {s'} : n = limit → e.Decides uid condition true s s' →
      Stops limit n s (.error (.of (.loopLimit limit)) s')
  | undecided {found s'} : e.IsUndecided uid condition found s s' →
      Stops limit n s (.error (undecided condition found) s')
  | condition {err s'} : e.evaluate uid condition s = .error err s' → Stops limit n s (.error err s')
  | body {t err s'} : n < limit → e.Decides uid condition true s t →
      e.evaluate uid body t = .error err s' → Stops limit n s (.error err s')

end

variable {e : Engine H} {uid condition body : String} {s s' t : Session H} {err : EvalError} {b : Bool}

theorem Decides.test (h : e.Decides uid condition b s s') : e.test uid condition s = .ok b s' := by
  obtain ⟨ev, heval, hlast⟩ := h
  rw [Engine.test, run_bind_of_ok heval, hlast]
  rfl

theorem IsUndecided.test {found : String} (h : e.IsUndecided uid condition found s s') :
    e.test uid condition s = .error (undecided condition found) s' := by
  obtain ⟨ev, heval, hne, rfl⟩ := h
  rw [Engine.test, run_bind_of_ok heval]
  generalize ev.results.getLast? = last? at hne
  cases last? with
  | none => rfl
  | some v =>
      cases v with
      | bool b => exact absurd rfl (hne b)
      | null | int | float | string | enum | object | typeRoot => rfl

theorem test_of_evaluate_error (h : e.evaluate uid condition s = .error err s') :
    e.test uid condition s = .error err s' := by
  rw [test, run_bind_of_error h]

/-- A condition is decided or not, or fails. -/
theorem test_cases (e : Engine H) (uid condition : String) (s : Session H) :
    (∃ b s', e.Decides uid condition b s s') ∨ (∃ found s', e.IsUndecided uid condition found s s') ∨
      ∃ err s', e.evaluate uid condition s = .error err s' := by
  cases heval : e.evaluate uid condition s with
  | error err s' => exact .inr (.inr ⟨err, s', rfl⟩)
  | ok ev s' =>
      by_cases hlast : ∃ b, ev.results.getLast? = some (.bool b)
      · obtain ⟨b, hb⟩ := hlast
        exact .inl ⟨b, s', ev, heval, hb⟩
      · exact .inr (.inl ⟨_, s', ev, heval, not_exists.mp hlast, rfl⟩)

/-! One round of the loop, by what becomes of its condition. -/

section

variable {g : Guard}

theorem runWhileFrom_eq (e : Engine H) (uid condition body : String) (g : Guard) :
    e.runWhileFrom uid condition body g = (do
      if ← e.test uid condition then
        match g.tick? with
        | none => throw (.of (.loopLimit g.limit))
        | some g' =>
          let _ ← e.evaluate uid body
          e.runWhileFrom uid condition body g'
      else return g.count) := by
  rw [runWhileFrom]
  refine congrArg (e.test uid condition >>= ·) (funext fun b => ?_)
  cases b with
  | false => rfl
  | true =>
      simp only [if_true]
      split
      · next hnone => rw [hnone]
      · next g' hsome => rw [hsome]

theorem runWhileFrom_of_test_error (h : e.test uid condition s = .error err s') :
    e.runWhileFrom uid condition body g s = .error err s' := by
  rw [runWhileFrom, run_bind_of_error h]

theorem runWhileFrom_of_false (h : e.Decides uid condition false s s') :
    e.runWhileFrom uid condition body g s = .ok g.count s' := by
  rw [runWhileFrom, run_bind_of_ok h.test]
  rfl

theorem runWhileFrom_of_refused (h : e.Decides uid condition true s s') (hg : g.limit ≤ g.count) :
    e.runWhileFrom uid condition body g s = .error (.of (.loopLimit g.limit)) s' := by
  rw [runWhileFrom_eq, run_bind_of_ok h.test, g.tick?_eq_none_iff.mpr hg]
  rfl

theorem runWhileFrom_of_true (h : e.Decides uid condition true s t) (hg : g.count < g.limit) :
    e.runWhileFrom uid condition body g s = (do
      let _ ← e.evaluate uid body
      e.runWhileFrom uid condition body ⟨g.limit, g.count + 1⟩) t := by
  rw [runWhileFrom_eq, run_bind_of_ok h.test, Guard.tick?_eq_some_iff.mpr ⟨hg, rfl⟩]
  rfl

end

variable {limit n : Nat} {x : EStateM.Result EvalError (Session H) Nat}

/-- The rounds of a loop bring it from one guard to another. -/
theorem Rounds.runWhileFrom (h : e.Rounds uid condition body n s t) {count : Nat}
    (hcount : count + n ≤ limit) :
    e.runWhileFrom uid condition body ⟨limit, count⟩ s =
      e.runWhileFrom uid condition body ⟨limit, count + n⟩ t := by
  induction h generalizing count with
  | zero => rfl
  | @succ n s t u v ev hcond hbody _ ih =>
      have hlt : count < limit := by omega
      have hnext := @ih (count + 1) (by omega)
      rw [runWhileFrom_of_true (g := ⟨limit, count⟩) hcond hlt, run_bind_of_ok hbody, hnext,
        Nat.add_right_comm, Nat.add_assoc]

theorem Stops.runWhileFrom (h : e.Stops uid condition body limit n s x) :
    e.runWhileFrom uid condition body ⟨limit, n⟩ s = x := by
  cases h with
  | done h => exact runWhileFrom_of_false h
  | limit hn h => exact runWhileFrom_of_refused h hn.ge
  | undecided h => exact runWhileFrom_of_test_error h.test
  | condition h => exact runWhileFrom_of_test_error (test_of_evaluate_error h)
  | body hn hcond hbody => rw [runWhileFrom_of_true hcond hn, run_bind_of_error hbody]

/-- A loop that may go on for `left` rounds stops after at most as many. -/
theorem exists_stops (e : Engine H) (uid condition body : String) (left n : Nat) (s : Session H) :
    ∃ k t x, k ≤ left ∧ e.Rounds uid condition body k s t ∧
      e.Stops uid condition body (n + left) (n + k) t x := by
  induction left generalizing n s with
  | zero =>
      rcases test_cases e uid condition s with ⟨b, s', h⟩ | ⟨found, s', h⟩ | ⟨err, s', h⟩
      · cases b with
        | false => exact ⟨0, s, _, le_rfl, .zero, .done h⟩
        | true => exact ⟨0, s, _, le_rfl, .zero, .limit rfl h⟩
      · exact ⟨0, s, _, le_rfl, .zero, .undecided h⟩
      · exact ⟨0, s, _, le_rfl, .zero, .condition h⟩
  | succ left ih =>
      rcases test_cases e uid condition s with ⟨b, s', h⟩ | ⟨found, s', h⟩ | ⟨err, s', h⟩
      · cases b with
        | false => exact ⟨0, s, _, Nat.zero_le _, .zero, .done h⟩
        | true =>
            cases hbody : e.evaluate uid body s' with
            | error err s'' => exact ⟨0, s, _, Nat.zero_le _, .zero, .body (by omega) h hbody⟩
            | ok ev s'' =>
                obtain ⟨k, t, x, hk, hrounds, hstops⟩ := ih (n + 1) s''
                rw [Nat.add_right_comm n 1, Nat.add_right_comm n 1] at hstops
                exact ⟨k + 1, t, x, by omega, .succ h hbody hrounds, hstops⟩
      · exact ⟨0, s, _, Nat.zero_le _, .zero, .undecided h⟩
      · exact ⟨0, s, _, Nat.zero_le _, .zero, .condition h⟩

/-- A loop is its rounds and the one in which it stops. -/
theorem runWhile_eq_iff :
    e.runWhile uid condition body s = x ↔ ∃ n t, n ≤ e.config.maxIterations ∧
      e.Rounds uid condition body n s t ∧
        e.Stops uid condition body e.config.maxIterations n t x := by
  have run {n : Nat} {t : Session H} {y : EStateM.Result EvalError (Session H) Nat}
      (hn : n ≤ e.config.maxIterations) (hrounds : e.Rounds uid condition body n s t)
      (hstops : e.Stops uid condition body e.config.maxIterations n t y) :
      e.runWhile uid condition body s = y := by
    rw [runWhile, Guard.new, hrounds.runWhileFrom (by omega), Nat.zero_add, hstops.runWhileFrom]
  constructor
  · rintro rfl
    obtain ⟨n, t, x, hn, hrounds, hstops⟩ :=
      exists_stops e uid condition body e.config.maxIterations 0 s
    rw [Nat.zero_add, Nat.zero_add] at hstops
    exact ⟨n, t, hn, hrounds, run hn hrounds hstops ▸ hstops⟩
  · rintro ⟨n, t, hn, hrounds, hstops⟩
    exact run hn hrounds hstops

theorem own_of_limit (f : Fault) (hcode : f.code.text = "E6007") : f.code ∉ Code.ofRuns := by
  have hown : ∀ c ∈ Code.ofRuns, c.text ≠ "E6007" := by decide
  exact fun hmem => hown f.code hmem hcode

/-- That a loop has reached its limit is something that only loops say, unless a host does. -/
theorem runWhile_limit_iff (htypes : ∀ t ∈ e.registry.types, t.Avoids (·.code.text = "E6007")) :
    (∃ err, e.runWhile uid condition body s = .error err s' ∧ err.fault.code.text = "E6007") ↔
      ∃ t, e.Rounds uid condition body e.config.maxIterations s t ∧
        e.Decides uid condition true t s' := by
  have havoids : e.registry.Avoids (·.code.text = "E6007") := ⟨own_of_limit, htypes⟩
  constructor
  · rintro ⟨err, hrun, hcode⟩
    obtain ⟨n, t, -, hrounds, hstops⟩ := runWhile_eq_iff.mp hrun
    cases hstops with
    | limit heq h => exact ⟨t, heq ▸ hrounds, h⟩
    | undecided h =>
        have hne : Code.conditionNotBool.text ≠ "E6007" := by decide
        exact absurd hcode hne
    | condition h => exact absurd hcode (evaluate_avoids havoids h)
    | body _ _ h => exact absurd hcode (evaluate_avoids havoids h)
  · rintro ⟨t, hrounds, h⟩
    exact ⟨_, runWhile_eq_iff.mpr ⟨_, t, le_rfl, hrounds, .limit rfl h⟩, rfl⟩

/-- The loop is its condition and its body in turn, and fails once the condition has held more often than
the body may run. Where a formula of its own fails, so does the loop, with the same error. Whatever ends it,
the session is left as it is then. -/
structure IsIteration (e : Engine H) (uid condition body : String) (s : Session H) : Prop where
  run_iff (x : EStateM.Result EvalError (Session H) Nat) : e.runWhile uid condition body s = x ↔
    ∃ n t, n ≤ e.config.maxIterations ∧ e.Rounds uid condition body n s t ∧
      e.Stops uid condition body e.config.maxIterations n t x
  ok_iff (n : Nat) (s' : Session H) : e.runWhile uid condition body s = .ok n s' ↔
    n ≤ e.config.maxIterations ∧
      ∃ t, e.Rounds uid condition body n s t ∧ e.Decides uid condition false t s'
  /-- That a loop has reached its limit is something that only loops say, unless a host does. -/
  limit_iff (s' : Session H) : (∀ t ∈ e.registry.types, t.Avoids (·.code.text = "E6007")) →
    ((∃ err, e.runWhile uid condition body s = .error err s' ∧ err.fault.code.text = "E6007") ↔
      ∃ t, e.Rounds uid condition body e.config.maxIterations s t ∧ e.Decides uid condition true t s')
  /-- Neither builtin types nor enumerations say it. -/
  limit_own : e.registry.IsOwn → ∀ t ∈ e.registry.types, t.Avoids (·.code.text = "E6007")
  code_limit (limit : Nat) : (EvalError.of (.loopLimit limit)).fault.code.text = "E6007"
  code_undecided (found : String) : (undecided condition found).fault.code.text = "E3001"

theorem isIteration (e : Engine H) (uid condition body : String) (s : Session H) :
    e.IsIteration uid condition body s where
  run_iff x := runWhile_eq_iff
  ok_iff n s' := by
    rw [runWhile_eq_iff]
    constructor
    · rintro ⟨n, t, hn, hrounds, hstops⟩
      cases hstops with
      | done h => exact ⟨hn, t, hrounds, h⟩
    · rintro ⟨hn, t, hrounds, h⟩
      exact ⟨n, t, hn, hrounds, .done h⟩
  limit_iff _ htypes := runWhile_limit_iff htypes
  limit_own h := h.avoids own_of_limit
  code_limit _ := rfl
  code_undecided _ := rfl

end Formula.Engine
