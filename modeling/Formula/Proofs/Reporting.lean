import Formula.Proofs.Blame
import Mathlib.Data.List.Forall2

/-!
What a formula reports is about places in the statement that reports it.
-/

namespace Formula

variable {H : Host} {α β : Type}

namespace Diagnostic

variable {P Q : Span → Prop} {d : Diagnostic}

theorem Points.mono (h : d.Points P) (hpq : ∀ s, P s → Q s) : d.Points Q :=
  ⟨h.primary, fun l hl => hpq _ (h.labels l hl)⟩

theorem Points.inStatement (h : d.Points P) (text : String) : (d.inStatement text).Points P :=
  ⟨h.primary, h.labels⟩

end Diagnostic

namespace Eval

/-- A contract on errors alone. -/
def failing (E : EvalError → Prop) : Contract Unit EvalError (World H) where
  state _ _ := True
  error := E

/-- Errors of the computation satisfy `E`. -/
def Fails (E : EvalError → Prop) (x : Eval H α) : Prop := (failing E).Keeps () x fun _ _ => True

namespace Fails

open Contract

variable {E E' : EvalError → Prop} {x : Eval H α}

theorem of_error (h : Fails E x) {w w' : World H} {e : EvalError} (he : x w = .error e w') : E e := by
  have hx := h () le_rfl w trivial
  rw [he] at hx
  exact hx.1

theorem of_forall (h : ∀ w e w', x w = .error e w' → E e) : Fails E x := by
  intro _ _ w _
  cases hx : x w with
  | ok a w' => exact ⟨(), le_rfl, trivial, trivial⟩
  | error e w' => exact ⟨h w e w' hx, (), le_rfl, trivial⟩

theorem imp (h : Fails E x) (hE : ∀ e, E e → E' e) : Fails E' x :=
  of_forall fun _ _ _ he => hE _ (h.of_error he)

theorem bind {f : α → Eval H β} (hx : Fails E x) (hf : ∀ a, Fails E (f a)) : Fails E (x >>= f) :=
  Keeps.bind hx fun _ a _ _ => hf a

theorem ofExcept (hE : ∀ f, E (.of f)) (y : Except Fault α) : Fails E (liftM y : Eval H α) :=
  Keeps.ofExcept (fun _ _ _ _ => trivial) fun f _ => hE f

theorem ofAction (hE : ∀ f, E (.of f)) (y : Action H α) : Fails E (liftM y : Eval H α) :=
  Keeps.ofHost (fun _ _ _ _ h => h) (fun _ _ _ _ _ _ => trivial) fun _ f _ _ => hE f

theorem lookup (hE : ∀ f, E (.of f)) (name : String) :
    Fails E (Eval.lookup name : Eval H Variable) := by
  rw [← bind_pure (Eval.lookup name)]
  exact Keeps.lookup (fun f _ => hE f) fun _ _ _ _ _ _ => ⟨(), le_rfl, trivial, trivial⟩

variable {P : Span → Prop}

/-- An error gets the place of the innermost expression that is at fault. -/
theorem located {span : Span} (hspan : P span) (hx : Fails (fun e => ∀ s, e.span? = some s → P s) x) :
    Fails (fun e => ∃ s, e.span? = some s ∧ P s) (x.located span) := by
  refine of_forall fun w e w' h => ?_
  rw [Eval.located] at h
  cases hr : x w with
  | ok a v => simp [hr] at h
  | error e' v =>
      rw [hr] at h
      cases h
      cases hs : e'.span? with
      | none => exact ⟨span, by simp [EvalError.orSpan, hs], hspan⟩
      | some s => exact ⟨s, by simp [EvalError.orSpan, hs], hx.of_error hr s hs⟩

end Fails

/-- Errors of evaluation have a place, and `P` is true of it if it is of all places in the
expression. -/
def locating (P : Span → Prop) : Conduct H (fun _ => True) P where
  holds := Fails fun e => ∀ s, e.span? = some s → P s
  placed := Fails fun e => ∃ s, e.span? = some s ∧ P s
  holds_of_placed h := h.imp fun _ ⟨_, hs, hP⟩ _ hs' => Option.some.inj (hs.symm.trans hs') ▸ hP
  holds_bind := .bind
  placed_bind := .bind
  placed_pure _ := .pure fun _ _ => trivial
  located := .located
  ofExcept := .ofExcept fun _ _ h => by cases h
  ofAction := .ofAction fun _ _ h => by cases h
  memory := .of_forall fun _ _ _ h => by cases h
  lookup _ := .lookup (fun _ _ h => by cases h) _
  store _ _ := .of_forall fun _ _ _ h => by cases h

end Eval

namespace CompiledStatement

/-- Whatever the statement reports, when it is compiled or when it runs, has places of which `P` is
true. -/
structure Reports (r : Registry H) (P : Span → Prop) (c : CompiledStatement) : Prop where
  compiling : ∀ d, c.outcome = .error d → d.Points P
  running : ∀ p, c.outcome = .ok p → (p.run r).Fails fun e => ∃ s, e.span? = some s ∧ P s

variable {r : Registry H} {P : Span → Prop} {c : CompiledStatement}

theorem Reports.mono {Q : Span → Prop} (h : c.Reports r P) (hpq : ∀ s, P s → Q s) : c.Reports r Q where
  compiling d hd := (h.compiling d hd).mono hpq
  running p hp := (h.running p hp).imp fun _ ⟨s, hs, hP⟩ => ⟨s, hs, hpq s hP⟩

theorem Reports.of_failsSoftly (h : c.Reports r P) {w w' : World H} {d : Diagnostic}
    (hd : c.FailsSoftly r w d w') : d.Points P := by
  rcases hd with ⟨hout, -⟩ | ⟨p, e, hout, hrun, -, rfl⟩
  · exact h.compiling d hout
  · obtain ⟨s, hs, hP⟩ := (h.running p hout).of_error hrun
    exact EvalError.points (e := e.inStatement c.text) hs hP

theorem Reports.of_run (h : c.Reports r P) {w w' : World H} {err : EvalError}
    (hrun : c.run r w = .error err w') : ∃ s, err.span? = some s ∧ P s := by
  rw [run] at hrun
  cases hout : c.outcome with
  | error d =>
      rw [hout] at hrun
      cases hrun
  | ok p =>
      simp only [hout] at hrun
      cases hp : p.run r w with
      | ok v w₁ => simp [hp] at hrun
      | error e w₁ =>
          simp only [hp] at hrun
          split at hrun
          · cases hrun
          · cases hrun
            obtain ⟨s, hs, hP⟩ := (h.running p hout).of_error hp
            exact ⟨s, hs, hP⟩

/-- The error that ends a run is that of the first statement that fails hard. -/
theorem exists_of_runAll_error {ss : List CompiledStatement} {w w' : World H} {err : EvalError}
    (h : runAll r ss w = .error err w') :
    ∃ done c rest ev v, ss = done ++ c :: rest ∧ runAll r done w = .ok ev v ∧
      c.run r v = .error err w' := by
  induction ss generalizing w with
  | nil => cases h
  | cons c ss ih =>
      cases hc : c.run r w with
      | error e v =>
          rw [runAll, run_bind_of_error hc] at h
          cases h
          exact ⟨[], c, ss, .empty, w, rfl, rfl, hc⟩
      | ok x v =>
          rw [runAll, run_bind_of_ok hc] at h
          have htail : (runAll r ss >>= fun ev => pure (ev.cons x.1 x.2)) v = .error err w' := h
          have hrest : runAll r ss v = .error err w' := by
            cases hss : runAll r ss v with
            | ok ev v' =>
                rw [run_bind_of_ok hss] at htail
                cases htail
            | error e v' => rwa [run_bind_of_error hss] at htail
          obtain ⟨done, c', rest, ev, v', rfl, hdone, hc'⟩ := ih hrest
          refine ⟨c :: done, c', rest, ev.cons x.1 x.2, v', rfl, ?_, hc'⟩
          rw [runAll, run_bind_of_ok hc]
          exact run_bind_of_ok hdone

/-- There is one diagnostic to each statement that fails softly, in the order of the statements, and it
is about places of that statement. -/
theorem Ran.reported {P : CompiledStatement → Span → Prop} {ss : List CompiledStatement}
    {w w' : World H} {ev : Evaluation} (h : Ran r ss w ev w') (hss : ∀ c ∈ ss, c.Reports r (P c)) :
    List.SublistForall₂ (fun d c => (∃ v v', c.FailsSoftly r v d v') ∧ d.Points (P c))
      ev.diagnostics ss := by
  induction h with
  | done => exact .nil
  | value _ _ _ ih => exact .cons_right (ih fun c hc => hss c (List.mem_cons_of_mem _ hc))
  | failure hsoft _ ih =>
      obtain ⟨hc, hss⟩ := List.forall_mem_cons.mp hss
      exact .cons ⟨⟨_, _, hsoft⟩, hc.of_failsSoftly hsoft⟩ (ih hss)

end CompiledStatement

/-- From one place in the statement at `t` to another. -/
def Span.StandsIn (source : String) (t s : Span) : Prop :=
  ∃ before body, before ++ body <+: source.toList ∧ Statement.IsWhole body ∧ t = behind before body ∧
    s.Stands before body

theorem Span.StandsIn.inside {source : String} {t s : Span} (h : StandsIn source t s) : s.Inside t := by
  obtain ⟨before, body, -, -, rfl, hs⟩ := h
  exact hs.inside

theorem CompiledStatement.compile_reports (r : Registry H) (maxHops : Nat) (scope : Scope)
    {source : String} {span : Span} (h : span ∈ Statement.split source) :
    (compile maxHops scope source span).Reports r (Span.StandsIn source span) := by
  obtain ⟨before, body, hprefix, hwhole, rfl⟩ := Statement.exists_of_mem_split h
  have hstands {s : Span} (hs : s.Stands before body) :
      Span.StandsIn source (.behind before body) s := ⟨before, body, hprefix, hwhole, rfl, hs⟩
  constructor
  · intro d hd
    rw [compile] at hd
    cases hp : Program.ofSource maxHops scope source (.behind before body) with
    | ok p =>
        rw [hp] at hd
        cases hd
    | error d' =>
        rw [hp] at hd
        obtain rfl := Except.error.inj hd
        exact ((Program.points_of_ofSource hprefix hp).inStatement _).mono fun _ => hstands
  · intro p hp
    obtain ⟨e, he, hof⟩ := Program.exists_of_ofSource (ofSource_of_outcome hp)
    have hspans := (Expr.stands_of_ofSource hprefix he).1
    rw [Program.run_ofExpr r scope hof]
    exact (Eval.locating _).eval_placed r scope e (fun _ _ => trivial) fun s hs => hstands (hspans s hs)

theorem CompiledFormula.reports (r : Registry H) (maxHops : Nat) (scope : Scope) (source : String) :
    ∀ c ∈ (compile maxHops scope source).statements, c.Reports r (Span.StandsIn source c.span) := by
  intro c hc
  obtain ⟨span, hspan, rfl⟩ := List.mem_map.mp hc
  exact CompiledStatement.compile_reports r maxHops scope hspan

namespace Engine

/-- What an evaluation reports, softly or as the error that ends it, is about places of which `P` is true
for the statement that reports it. -/
def Reported (e : Engine H) (s : Session H) (ss : List CompiledStatement)
    (P : CompiledStatement → Span → Prop) : Except EvalError Evaluation → Prop
  | .ok ev => List.SublistForall₂
      (fun d c => (∃ w w', c.FailsSoftly e.registry w d w') ∧ d.Points (P c)) ev.diagnostics ss
  | .error err => ∃ done c rest ev w w', ss = done ++ c :: rest ∧
      CompiledStatement.runAll e.registry done s.world = .ok ev w ∧
      c.run e.registry w = .error err w' ∧ err.diagnostic.Points (P c)

variable {e : Engine H} {s : Session H}

theorem reported_of_reports (hs : s.cache.Coherent e) {formula : String}
    {P : CompiledStatement → Span → Prop}
    (hreports : ∀ c ∈ (e.compileFor s.world.bindings formula).statements, c.Reports e.registry (P c))
    (uid : String) :
    e.Reported s (e.compileFor s.world.bindings formula).statements P (e.effect uid formula s).1 := by
  rw [effect_of_coherent hs]
  cases hrun : (e.compileFor s.world.bindings formula).run e.registry s.world with
  | ok ev w => exact (CompiledStatement.ran_of_runAll hrun).reported hreports
  | error err w =>
      obtain ⟨done, c, rest, ev, v, hstatements, hdone, hc⟩ :=
        CompiledStatement.exists_of_runAll_error hrun
      obtain ⟨span, hspan, hP⟩ := (hreports c (by simp [hstatements])).of_run hc
      exact ⟨done, c, rest, ev, v, w, hstatements, hdone, hc, EvalError.points hspan hP⟩

theorem Reported.points_of_mem {ss : List CompiledStatement} {P : CompiledStatement → Span → Prop}
    {ev : Evaluation} {d : Diagnostic} (h : e.Reported s ss P (.ok ev)) (hd : d ∈ ev.diagnostics) :
    ∃ c, d.Points (P c) := by
  rw [Reported] at h
  generalize ev.diagnostics = ds at h hd
  induction h with
  | nil => cases hd
  | cons hc _ ih =>
      rcases List.mem_cons.mp hd with rfl | hd
      · exact ⟨_, hc.2⟩
      · exact ih hd
  | cons_right _ ih => exact ih hd

end Engine

end Formula
