import Formula.Proofs.Coherence
import Formula.Proofs.Isolation
import Formula.Proofs.RelocatedRun

/-!
A formula with a separator in it is evaluated like its two parts, one after the other.
-/

namespace Formula

variable {H : Host}

namespace Declarations

/-- Variables of the given names and types, whatever their values. -/
def contract (shape : List (String × TypeTag)) : Contract Unit EvalError (World H) where
  state _ w := w.bindings.shape = shape
  error _ := True

variable {shape : List (String × TypeTag)}

theorem state_store {w : World H} (h : (contract shape).state () w) (name : String) (v : Value) :
    (contract shape).state () { w with bindings := w.bindings.store name v } :=
  (w.bindings.shape_store name v).trans h

theorem keeps {α : Type} {x : Action H α} {Q : Unit → α → Prop} (hQ : ∀ j a, Q j a) :
    (contract shape).Keeps () (liftM x : Eval H α) Q :=
  .ofHost (fun _ _ _ _ hs => hs) (fun _ a _ _ j _ => hQ j a) fun _ _ _ _ => trivial

/-- Nothing is asked of values, so that any registry will do. -/
def discipline (r : Registry H) (shape : List (String × TypeTag)) : Discipline r Unit where
  toContract := contract shape
  sound _ _ := True
  value _ _ := True
  held _ _ _ := True
  sound_mono _ h := h
  value_mono _ h := h
  held_mono _ h := h
  error_of_plain _ := trivial
  error_congr _ _ := trivial
  sound_of_value h := h
  value_of_sound h _ := h
  value_of_scalar _ := trivial
  value_of_declares _ := trivial
  load _ _ := .load (fun _ _ => trivial) fun _ _ _ _ _ _ _ => keeps fun _ _ => ⟨trivial, trivial⟩
  update name _ := .updateVariable (fun _ _ => trivial) fun _ _ _ _ _ hw _ _ =>
    ⟨state_store hw name _, trivial⟩
  store _ _ := .store (fun _ _ => trivial) fun _ _ _ _ hw _ => state_store hw _ _
  getter _ _ _ := keeps fun _ _ => trivial
  setter _ _ _ _ := keeps fun _ _ => trivial
  body _ _ _ _ _ _ := keeps fun _ _ => trivial

end Declarations

/-- Programs do not declare variables, and do not change what is declared. -/
theorem CompiledFormula.shape_of_run {f : CompiledFormula} (hf : f.IsCompiled) (e : Engine H)
    {w w' : World H} {ev : Evaluation} (h : f.run e.registry w = .ok ev w') :
    w'.bindings.shape = w.bindings.shape := by
  let D := Declarations.discipline e.registry w.bindings.shape
  have hw : D.state () w := rfl
  have hk := D.statements_keeps hf (fun _ hop => .inl hop) f.statements (fun _ hs => hs) () ()
    le_rfl w hw
  rw [CompiledFormula.run] at h
  rw [h] at hk
  obtain ⟨_, -, hshape, -⟩ := hk
  exact hshape

namespace Evaluation

def append (ev ev' : Evaluation) : Evaluation :=
  ⟨ev.results ++ ev'.results, ev.diagnostics ++ ev'.diagnostics⟩

theorem empty_append (ev : Evaluation) : empty.append ev = ev := rfl

theorem cons_append (v : Value) (d? : Option Diagnostic) (ev ev' : Evaluation) :
    (ev.cons v d?).append ev' = (ev.append ev').cons v d? := by
  simp [cons, append]

end Evaluation

namespace CompiledStatement

variable (r : Registry H)

theorem runAll_append (ss ts : List CompiledStatement) :
    runAll r (ss ++ ts) = do
      let ev ← runAll r ss
      let ev' ← runAll r ts
      return ev.append ev' := by
  induction ss with
  | nil => simp only [runAll, List.nil_append, pure_bind, Evaluation.empty_append, bind_pure]
  | cons s ss ih =>
      simp only [List.cons_append, runAll, ih, bind_assoc, pure_bind, Evaluation.cons_append]

/-- The statement does not compile, or its program ends in a soft error. -/
def FailsSoftly (s : CompiledStatement) (w : World H) (d : Diagnostic) (w' : World H) : Prop :=
  s.outcome = .error d ∧ w' = w ∨
    ∃ p e, s.outcome = .ok p ∧ p.run r w = .error e w' ∧ e.fault.isSoft = true ∧
      d = (e.inStatement s.text).diagnostic

/-- Statements that run one after the other. Each has one result: its value, or null and a
diagnostic. -/
inductive Ran : List CompiledStatement → World H → Evaluation → World H → Prop
  | done {w} : Ran [] w .empty w
  | value {s ss p w v w' ev w''} :
      s.outcome = .ok p → p.run r w = .ok v w' → Ran ss w' ev w'' →
      Ran (s :: ss) w ⟨v :: ev.results, ev.diagnostics⟩ w''
  | failure {s ss w d w' ev w''} :
      s.FailsSoftly r w d w' → Ran ss w' ev w'' →
      Ran (s :: ss) w ⟨.null :: ev.results, d :: ev.diagnostics⟩ w''

variable {r}

theorem Ran.length_results {ss : List CompiledStatement} {w w' : World H} {ev : Evaluation}
    (h : Ran r ss w ev w') : ev.results.length = ss.length := by
  induction h with
  | done => rfl
  | value _ _ _ ih | failure _ _ ih => simp [ih]

theorem ran_of_runAll {ss : List CompiledStatement} {w w' : World H} {ev : Evaluation}
    (h : runAll r ss w = .ok ev w') : Ran r ss w ev w' := by
  induction ss generalizing w ev with
  | nil =>
      obtain ⟨rfl, rfl⟩ := EStateM.Result.ok.inj h
      exact .done
  | cons s ss ih =>
      obtain ⟨⟨v, d?⟩, w₁, hs, h⟩ := ok_of_run_bind h
      obtain ⟨ev', w₂, hss, h⟩ := ok_of_run_bind h
      obtain ⟨rfl, rfl⟩ := EStateM.Result.ok.inj h
      have hran := ih hss
      cases ho : s.outcome with
      | error d =>
          rw [run, ho] at hs
          obtain ⟨⟨rfl, rfl⟩, rfl⟩ := EStateM.Result.ok.inj hs
          exact .failure (.inl ⟨ho, rfl⟩) hran
      | ok p =>
          rw [run, ho] at hs
          cases hp : p.run r w with
          | ok v' w₃ =>
              simp only [hp] at hs
              obtain ⟨⟨rfl, rfl⟩, rfl⟩ := EStateM.Result.ok.inj hs
              exact .value ho hp hran
          | error e w₃ =>
              simp only [hp] at hs
              split at hs
              · next hsoft =>
                obtain ⟨⟨rfl, rfl⟩, rfl⟩ := EStateM.Result.ok.inj hs
                exact .failure (.inr ⟨p, e, ho, hp, hsoft, rfl⟩) hran
              · cases hs

end CompiledStatement

/-- Behind a text and a separator. -/
def Relocation.after (f : String) : Relocation := .shift (Text.bytes f.toList + 1)

theorem CompiledFormula.compile_append (maxHops : Nat) (scope : Scope) {f g : String}
    (h : Statement.openQuote none f.toList = none) :
    (compile maxHops scope (f ++ ";" ++ g)).statements =
      (compile maxHops scope f).statements ++
        (compile maxHops scope g).statements.map (·.relocate (.after f)) := by
  have hlist : (f ++ ";" ++ g).toList = f.toList ++ ';' :: g.toList := by simp
  simp only [compile, Statement.split_append h, List.map_append, List.map_map]
  congr 1
  · refine List.map_congr_left fun span hspan => ?_
    obtain ⟨before, body, hprefix, -, rfl⟩ := Statement.exists_of_mem_split hspan
    have hprefix' : before ++ body <+: (f ++ ";" ++ g).toList :=
      hprefix.trans (hlist ▸ List.prefix_append _ _)
    rw [CompiledStatement.compile_alone maxHops scope hprefix,
      CompiledStatement.compile_alone maxHops scope hprefix']
  · refine List.map_congr_left fun span hspan => ?_
    obtain ⟨before, body, hprefix, -, rfl⟩ := Statement.exists_of_mem_split hspan
    have hbytes : Text.bytes (f.toList ++ ';' :: before) =
        Text.bytes before + (Text.bytes f.toList + 1) := by
      have hsize : (';' : Char).utf8Size = 1 := rfl
      simp only [Text.bytes_append, Text.bytes_cons, hsize]
      omega
    have hprefix' : f.toList ++ ';' :: before ++ body <+: (f ++ ";" ++ g).toList := by
      simpa [hlist] using hprefix
    simp only [Function.comp_apply]
    rw [← Span.behind_shift hbytes, CompiledStatement.compile_moved hprefix hprefix' hbytes]
    rfl

namespace Engine

variable (e : Engine H)

/-- What an evaluation yields and the world that it leaves, apart from the cache. -/
def effect (uid formula : String) (s : Session H) : Except EvalError Evaluation × World H :=
  match e.evaluate uid formula s with
  | .ok ev s' => (.ok ev, s'.world)
  | .error err s' => (.error err, s'.world)

/-- What the formula `f` and then, unless it fails, `g` yield and leave. The places in `g` are as they
are behind `f` and a separator. -/
def effectInTurn (uid₁ f uid₂ g : String) (s : Session H) : Except EvalError Evaluation × World H :=
  match e.evaluate uid₁ f s with
  | .error err s₁ => (.error err, s₁.world)
  | .ok ev s₁ =>
    match e.effect uid₂ g s₁ with
    | (.error err, w) => (.error (err.relocate (.after f)), w)
    | (.ok ev', w) => (.ok (ev.append (ev'.relocate (.after f))), w)

variable {e} {s : Session H}

theorem effect_of_coherent (h : s.cache.Coherent e) (uid formula : String) :
    e.effect uid formula s =
      match (e.compileFor s.world.bindings formula).run e.registry s.world with
      | .ok ev w => (.ok ev, w)
      | .error err w => (.error err, w) := by
  obtain ⟨c, -, heval⟩ := evaluate_of_coherent h uid formula
  rw [effect, heval, SessionM.ofEval]
  cases (e.compileFor s.world.bindings formula).run e.registry s.world <;> rfl

section

variable {formula : String} {span : Span} {ts : TokenList} {x : Expr} {p : Program} {w : World H}

/-- A formula of one statement yields the value of its tree. -/
theorem effect_single_of_ok (hs : s.cache.Coherent e) (hsplit : Statement.split formula = [span])
    (hscan : TokenList.scan formula span = .ok ts) (hparse : Expr.ofTokens e.config.maxHops ts = .ok x)
    (hcompile : Program.ofExpr (.of e.registry.directory s.world.bindings) x = .ok p) {v : Value}
    (hrun : x.eval e.registry (.of e.registry.directory s.world.bindings) s.world = .ok v w)
    (uid : String) : e.effect uid formula s = (.ok ⟨[v], []⟩, w) := by
  rw [← Program.run_ofExpr _ _ hcompile] at hrun
  rw [effect_of_coherent hs, e.compileFor_single _ formula span p hsplit hscan hparse hcompile,
    CompiledFormula.run, CompiledStatement.runAll]
  have hstatement : CompiledStatement.run e.registry ⟨span, span.slice formula, .ok p⟩ s.world =
      .ok (v, none) w := by
    simp only [CompiledStatement.run, hrun]
  rw [run_bind_of_ok hstatement]
  rfl

/-- A formula of one statement ends in the error of its tree unless that is a soft one. -/
theorem effect_single_of_error (hs : s.cache.Coherent e) (hsplit : Statement.split formula = [span])
    (hscan : TokenList.scan formula span = .ok ts) (hparse : Expr.ofTokens e.config.maxHops ts = .ok x)
    (hcompile : Program.ofExpr (.of e.registry.directory s.world.bindings) x = .ok p) {err : EvalError}
    (hrun : x.eval e.registry (.of e.registry.directory s.world.bindings) s.world = .error err w)
    (hsoft : err.fault.isSoft = false) (uid : String) :
    e.effect uid formula s = (.error (err.inStatement (span.slice formula)), w) := by
  rw [← Program.run_ofExpr _ _ hcompile] at hrun
  rw [effect_of_coherent hs, e.compileFor_single _ formula span p hsplit hscan hparse hcompile,
    CompiledFormula.run, CompiledStatement.runAll]
  have hstatement : CompiledStatement.run e.registry ⟨span, span.slice formula, .ok p⟩ s.world =
      .error (err.inStatement (span.slice formula)) w := by
    simp only [CompiledStatement.run, hrun]
    exact if_neg (by simp [EvalError.inStatement, hsoft])
  rw [run_bind_of_error hstatement]

/-- A formula of one statement that is not scanned yields a null and the diagnostic of this. -/
theorem effect_single_of_scanError (hs : s.cache.Coherent e) (hsplit : Statement.split formula = [span])
    {err : ScanError} (hscan : TokenList.scan formula span = .error err) (uid : String) :
    e.effect uid formula s =
      (.ok ⟨[.null], [err.diagnostic.inStatement (span.slice formula)]⟩, s.world) := by
  have hcompile : e.compileFor s.world.bindings formula =
      ⟨formula, [⟨span, span.slice formula,
        .error (err.diagnostic.inStatement (span.slice formula))⟩]⟩ := by
    rw [compileFor, CompiledFormula.compile, hsplit, List.map_singleton, CompiledStatement.compile,
      Program.ofSource, Expr.ofSource, hscan]
    rfl
  rw [effect_of_coherent hs, hcompile]
  rfl

end

/-- The second part sees the names that the first part began with. -/
theorem compileFor_after {f : String} {w w' : World H} {ev : Evaluation}
    (h : (e.compileFor w.bindings f).run e.registry w = .ok ev w') (g : String) :
    e.compileFor w'.bindings g = e.compileFor w.bindings g :=
  e.compileFor_congr (Bindings.signature_eq_of_shape_eq
    (CompiledFormula.shape_of_run ⟨_, _, _, rfl⟩ e h)) g

theorem run_append (e : Engine H) (b : Bindings) {f : String}
    (hf : Statement.openQuote none f.toList = none) (g : String) :
    (e.compileFor b (f ++ ";" ++ g)).run e.registry = do
      let ev ← (e.compileFor b f).run e.registry
      let ev' ← Eval.relocate (.after f) ((e.compileFor b g).run e.registry)
      return ev.append (ev'.relocate (.after f)) := by
  rw [CompiledFormula.run, compileFor, CompiledFormula.compile_append _ _ hf,
    CompiledStatement.runAll_append, CompiledStatement.runAll_relocate]
  simp only [map_eq_pure_bind, bind_assoc, pure_bind]
  rfl

end Engine

end Formula
