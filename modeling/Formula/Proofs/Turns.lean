import Formula.Proofs.Occurrence
import Formula.Proofs.Session

/-!
The statements that an engine runs for a sequence of formulas, one after the other.
-/

namespace Formula

variable {H : Host}

/-- A statement that is run, and the world that it finds. -/
structure Turn (H : Host) where
  program : Program
  before : World H

namespace Turn

variable (r : Registry H) (t : Turn H)

def after : World H := (t.program.run r).after t.before

def Occurs (task : Task) (w : World H) : Prop := (Task.run [] t.program).Occurs r t.before task w

def Executes (place : Place) : Prop := (Task.run [] t.program).Executes r t.before place

/-- The task occurs, and no value has been stored in the place before. -/
def OccursBefore (place : Place) (task : Task) (w : World H) : Prop :=
  (Task.run [] t.program).Reaches r (fun t w => ¬t.Executes r w place) t.before task w

variable {r t} in
theorem Occurs.before {place : Place} {task : Task} {w : World H} (h : t.Occurs r task w)
    (hplace : ¬t.Executes r place) : t.OccursBefore r place task w := Task.Occurs.reaches h hplace

theorem after_eq : t.after r = (Task.run [] t.program).after r t.before := by
  refine Eval.after_bind_of_forall (fun stack w => ?_) t.before
  cases Program.result stack <;> rfl

/-- Each turn begins where the one before ended. -/
inductive Path : World H → List (Turn H) → World H → Prop
  | nil (w : World H) : Path w [] w
  | cons {t : Turn H} {ts w} : Path (t.after r) ts w → Path t.before (t :: ts) w

variable {r} {w w' w'' : World H} {ts ts' : List (Turn H)}

theorem Path.append (h : Path r w ts w') (h' : Path r w' ts' w'') : Path r w (ts ++ ts') w'' := by
  induction h with
  | nil => exact h'
  | cons _ ih => exact .cons (ih h')

/-- What every turn preserves holds before all of them. -/
theorem Path.forall_before {P : World H → Prop} (h : Path r w ts w') (hw : P w)
    (hstep : ∀ t ∈ ts, P t.before → P (t.after r)) : ∀ t ∈ ts, P t.before := by
  induction h with
  | nil => exact nofun
  | @cons t ts _ _ ih =>
      obtain ⟨ht, hts⟩ := List.forall_mem_cons.mp hstep
      exact List.forall_mem_cons.mpr ⟨hw, ih (ht hw) hts⟩

end Turn

namespace CompiledStatement

/-- A statement that does not compile is not run. One that fails for good ends the formula. -/
def turns (r : Registry H) : List CompiledStatement → World H → List (Turn H)
  | [], _ => []
  | s :: ss, w =>
    match s.outcome with
    | .error _ => turns r ss w
    | .ok program =>
      ⟨program, w⟩ ::
        match s.run r w with
        | .ok _ w' => turns r ss w'
        | .error _ _ => []

variable (r : Registry H)

theorem after_run {s : CompiledStatement} {p : Program} (h : s.outcome = .ok p) (w : World H) :
    (s.run r).after w = (p.run r).after w := by
  rw [Eval.after, Eval.after, run, h]
  cases hp : p.run r w with
  | ok v w' => simp only [hp]
  | error e w' =>
      simp only [hp]
      split
      · next h =>
        split at h <;> cases h
        rfl
      · next h =>
        split at h <;> cases h
        rfl

theorem run_of_error {s : CompiledStatement} {d : Diagnostic} (h : s.outcome = .error d) :
    s.run r = pure (.null, some d) := by
  rw [run, h]

theorem after_runAll_cons (s : CompiledStatement) (ss : List CompiledStatement) (w : World H) :
    (runAll r (s :: ss)).after w =
      match s.run r w with
      | .ok _ w' => (runAll r ss).after w'
      | .error _ w' => w' := by
  rw [runAll]
  cases hs : s.run r w with
  | ok a w' =>
      obtain ⟨v, d?⟩ := a
      rw [Eval.after_bind_of_ok hs]
      exact Eval.after_bind_of_forall (fun _ _ => rfl) w'
  | error e w' => rw [Eval.after_bind_of_error hs]

theorem path_turns (ss : List CompiledStatement) (w : World H) :
    Turn.Path r w (turns r ss w) ((runAll r ss).after w) := by
  induction ss generalizing w with
  | nil => exact .nil w
  | cons s ss ih =>
      rw [turns, after_runAll_cons]
      cases ho : s.outcome with
      | error d =>
          rw [run_of_error r ho]
          exact ih w
      | ok p =>
          have hafter := after_run r ho w
          refine .cons (t := ⟨p, w⟩) ?_
          rw [Turn.after, ← hafter]
          cases hs : s.run r w with
          | ok a w' =>
              rw [Eval.after_of_ok hs]
              exact ih w'
          | error e w' =>
              rw [Eval.after_of_error hs]
              exact .nil w'

end CompiledStatement

namespace Engine

/-- The session after an evaluation, however it ends. -/
def afterEvaluate (e : Engine H) (uid formula : String) (s : Session H) : Session H :=
  match e.evaluate uid formula s with
  | .ok _ s' => s'
  | .error _ s' => s'

/-- The statements that are run when formulas are evaluated one after the other. -/
def turns (e : Engine H) : List (String × String) → Session H → List (Turn H)
  | [], _ => []
  | (uid, formula) :: fs, s =>
    match e.compile uid formula s with
    | .ok f _ =>
      CompiledStatement.turns e.registry f.compiled.statements s.world ++
        e.turns fs (e.afterEvaluate uid formula s)
    | .error _ _ => e.turns fs (e.afterEvaluate uid formula s)

variable (e : Engine H) (uid formula : String) (s : Session H)

theorem compile_ok : ∃ f c, e.compile uid formula s = .ok f { s with cache := c } := by
  rw [compile]
  cases e.config.isCached <;> exact ⟨_, _, rfl⟩

theorem world_afterEvaluate {f : SharedFormula} {c : Cache}
    (h : e.compile uid formula s = .ok f { s with cache := c }) :
    (e.afterEvaluate uid formula s).world = (f.compiled.run e.registry).after s.world := by
  have hrun : e.evaluate uid formula s =
      SessionM.ofEval (f.compiled.run e.registry) { s with cache := c } := by
    rw [evaluate, run_bind_of_ok h]
    rfl
  rw [afterEvaluate, hrun, SessionM.ofEval, Eval.after]
  cases f.compiled.run e.registry s.world <;> rfl

theorem serveAll_cons_evaluate (qs : List Request) :
    (e.serveAll (.evaluate uid formula :: qs) s).2 =
      (e.serveAll qs (e.afterEvaluate uid formula s)).2 := by
  rw [serveAll, serve, afterEvaluate]
  cases h : e.evaluate uid formula s with
  | ok ev s' => rw [run_bind_of_ok h]; rfl
  | error err s' => rw [run_bind_of_error h]

/-- The turns lead to the world that is left after the formulas. -/
theorem path_turns (fs : List (String × String)) (s : Session H) :
    Turn.Path e.registry s.world (e.turns fs s)
      (e.serveAll (fs.map fun (uid, formula) => .evaluate uid formula) s).2.world := by
  induction fs generalizing s with
  | nil => exact .nil s.world
  | cons f fs ih =>
      obtain ⟨uid, formula⟩ := f
      obtain ⟨f, c, hf⟩ := e.compile_ok uid formula s
      rw [turns, hf, List.map_cons, serveAll_cons_evaluate]
      refine .append ?_ (ih _)
      rw [world_afterEvaluate e uid formula s hf]
      exact CompiledStatement.path_turns e.registry f.compiled.statements s.world

end Engine

end Formula
