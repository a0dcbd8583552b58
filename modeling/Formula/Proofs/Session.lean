import Formula.Engine
import Formula.Proofs.Compilation
import Formula.Proofs.Discipline

/-!
Requests to an engine, one after the other. Whatever evaluation keeps, they keep as well.
-/

namespace Formula

variable {H : Host}

inductive Request where
  | evaluate (uid formula : String)
  | check (uid formula : String)
  | runWhile (uid condition body : String)

inductive Reply where
  | evaluation (e : Evaluation)
  | checked
  | iterations (n : Nat)

namespace Engine

def serve (e : Engine H) : Request → SessionM H Reply
  | .evaluate uid formula => return .evaluation (← e.evaluate uid formula)
  | .check uid formula => do
    e.check uid formula
    return .checked
  | .runWhile uid condition body => return .iterations (← e.runWhile uid condition body)

/-- The replies to requests, which go on after an error. -/
def serveAll (e : Engine H) : List Request → Session H → List (Except EvalError Reply) × Session H
  | [], s => ([], s)
  | q :: qs, s =>
    let (reply, s) : Except EvalError Reply × Session H :=
      match e.serve q s with
      | .ok reply s => (.ok reply, s)
      | .error err s => (.error err, s)
    let (replies, s) := e.serveAll qs s
    (reply :: replies, s)

end Engine

/-- A formula as it comes from its source. -/
def CompiledFormula.IsCompiled (f : CompiledFormula) : Prop :=
  ∃ maxHops scope source, f = .compile maxHops scope source

/-- Only compiled formulas are kept. -/
def Cache.Sound (c : Cache) : Prop := ∀ key f, (key, f) ∈ c.entries → f.compiled.IsCompiled

theorem Cache.sound_empty : Cache.empty.Sound := fun _ _ h => by simp [Cache.empty] at h

namespace Cache

theorem Sound.issue {c : Cache} (h : c.Sound) (f : CompiledFormula) : (c.issue f).2.Sound := h

theorem Sound.getOrCompile {c : Cache} (h : c.Sound) (key : CacheKey)
    (compile : Unit → CompiledFormula) (hc : (compile ()).IsCompiled) :
    (c.getOrCompile key compile).1.compiled.IsCompiled ∧ (c.getOrCompile key compile).2.Sound := by
  rw [Cache.getOrCompile]
  split
  · next f hf =>
    obtain ⟨⟨key', f'⟩, hmem, rfl⟩ := Option.map_eq_some_iff.mp hf
    exact ⟨h key' f' (List.mem_of_find?_eq_some hmem), h⟩
  · refine ⟨hc, ?_⟩
    intro key' f' hmem
    rcases List.mem_cons.mp hmem with heq | hmem
    · obtain ⟨-, rfl⟩ := Prod.mk.inj heq
      exact hc
    · exact h key' f' hmem

end Cache

theorem ScanError.code_diagnostic (e : ScanError) : e.diagnostic.code = e.fault.code := by
  rw [ScanError.diagnostic]
  cases e.fault <;> rfl

theorem ParseError.code_diagnostic (e : ParseError) : e.diagnostic.code = e.fault.code := by
  rw [ParseError.diagnostic]
  cases e.fault <;> rfl

/-- No diagnostic of a compiler is about an internal error. -/
theorem Program.ofSource_error {maxHops : Nat} {scope : Scope} {source : String} {span : Span}
    {d : Diagnostic} (h : Program.ofSource maxHops scope source span = .error d) :
    d.code ≠ .malformedProgram := by
  have hparse (e : ParseError) : e.diagnostic.code ≠ .malformedProgram := by
    rw [e.code_diagnostic]
    cases e.fault <;> simp [ParseFault.code]
  rw [Program.ofSource] at h
  split at h
  · next d' hd =>
    obtain rfl := Except.error.inj h
    rw [Expr.ofSource] at hd
    split at hd
    · next e he =>
      obtain rfl := Except.error.inj hd
      rw [e.code_diagnostic]
      cases e.fault <;> simp [ScanFault.code]
    · split at hd
      · obtain rfl := Except.error.inj hd
        exact hparse _
      · simp at hd
  · split at h
    · obtain rfl := Except.error.inj h
      exact hparse _
    · simp at h

theorem Program.ofSource_ok {maxHops : Nat} {scope : Scope} {source : String} {span : Span}
    {p : Program} (h : Program.ofSource maxHops scope source span = .ok p) :
    ∃ e : Expr, e.Proper ∧ Program.ofExpr scope e = .ok p := by
  rw [Program.ofSource] at h
  split at h
  · simp at h
  · next e he =>
    rw [Expr.ofSource] at he
    split at he
    · simp at he
    · split at he
      · simp at he
      · next e' hp =>
        obtain rfl := Except.ok.inj he
        refine ⟨_, Expr.proper_of_ofTokens hp, ?_⟩
        split at h
        · simp at h
        · next p' hp' => rw [hp', Except.ok.inj h]

/-- A compiled statement has a program that comes from a proper tree, or a diagnostic. -/
theorem CompiledFormula.IsCompiled.outcome {f : CompiledFormula} (h : f.IsCompiled)
    {s : CompiledStatement} (hs : s ∈ f.statements) :
    (∃ d, s.outcome = .error d ∧ d.code ≠ .malformedProgram) ∨
      ∃ scope e p, s.outcome = .ok p ∧ e.Proper ∧ Program.ofExpr scope e = .ok p := by
  obtain ⟨maxHops, scope, source, rfl⟩ := h
  obtain ⟨span, -, rfl⟩ := List.mem_map.mp hs
  rw [CompiledStatement.compile]
  cases hp : Program.ofSource maxHops scope source span with
  | error d =>
      have hd := Program.ofSource_error hp
      exact .inl ⟨_, rfl, hd⟩
  | ok p =>
      obtain ⟨e, he, hp⟩ := Program.ofSource_ok hp
      exact .inr ⟨scope, e, p, rfl, he, hp⟩

namespace Discipline

open Contract

variable {ι : Type} [Preorder ι] {e : Engine H} (D : Discipline e.registry ι) {i : ι}

/-- What a discipline asks of sessions. -/
def session : Contract ι EvalError (Session H) where
  state i s := D.state i s.world ∧ s.cache.Sound
  error := D.error

theorem Keeps.ofEval {α : Type} {x : Eval H α} {Q : ι → α → Prop} (h : D.Keeps i x Q) :
    D.session.Keeps i (liftM x : SessionM H α) Q := by
  intro j hij s hs
  have hx := h j hij s.world hs.1
  change D.session.Meets Q j (SessionM.ofEval x s)
  rw [SessionM.ofEval]
  cases hr : x s.world with
  | ok a w =>
      rw [hr] at hx
      obtain ⟨k, hk, hw, ha⟩ := hx
      exact ⟨k, hk, ⟨hw, hs.2⟩, ha⟩
  | error err w =>
      rw [hr] at hx
      obtain ⟨herr, k, hk, hw⟩ := hx
      exact ⟨herr, k, hk, hw, hs.2⟩

theorem compile_keeps (uid formula : String) :
    D.session.Keeps i (e.compile uid formula) fun _ f => f.compiled.IsCompiled := by
  intro j _ s hs
  have hc : (e.compileFor s.world.bindings formula).IsCompiled := ⟨_, _, _, rfl⟩
  rw [Engine.compile]
  cases e.config.isCached with
  | true =>
      have h := hs.2.getOrCompile ⟨uid, formula, s.world.bindings.signature⟩
        (fun _ => e.compileFor s.world.bindings formula) hc
      exact ⟨j, le_rfl, ⟨hs.1, h.2⟩, h.1⟩
  | false => exact ⟨j, le_rfl, ⟨hs.1, hs.2⟩, hc⟩

/-- What an evaluation yields: values, and diagnostics that are not about internal errors. -/
def Results (i : ι) (ev : Evaluation) : Prop :=
  (∀ v ∈ ev.results, D.value i v) ∧ ∀ d ∈ ev.diagnostics, d.code ≠ .malformedProgram

theorem code_of_isSoft {err : EvalError} (h : err.fault.isSoft = true) :
    err.diagnostic.code ≠ .malformedProgram := by
  have hcode : err.diagnostic.code = err.fault.code := by
    cases err with
    | mk fault span? statement? => cases span? <;> cases statement? <;> rfl
  rw [hcode]
  intro hm
  rw [Fault.isSoft, hm] at h
  exact absurd h (by decide)

variable {f : CompiledFormula}

theorem statement_keeps (hf : f.IsCompiled) (hD : ∀ op, op.isBinary = true → D.Applies op)
    {s : CompiledStatement} (hs : s ∈ f.statements) :
    D.Keeps i (s.run e.registry) fun j (v, d?) =>
      D.value j v ∧ ∀ d ∈ d?, d.code ≠ .malformedProgram := by
  rw [CompiledStatement.run]
  rcases hf.outcome hs with ⟨d, hd, hcode⟩ | ⟨scope, tree, p, hp, htree, hof⟩
  · rw [hd]
    exact .pure fun _ _ => ⟨D.value_of_scalar trivial, by simpa using hcode⟩
  · rw [hp]
    intro j hij w hw
    have hk := D.eval_keeps scope tree i (fun op hop => hD op (htree.isBinary op hop)) j hij w hw
    rw [← Program.run_ofExpr e.registry scope hof] at hk
    simp only
    cases hr : p.run e.registry w with
    | ok v w' =>
        rw [hr] at hk
        obtain ⟨k, hjk, hw', hv⟩ := hk
        exact ⟨k, hjk, hw', hv, by simp⟩
    | error err w' =>
        rw [hr] at hk
        obtain ⟨herr, k, hjk, hw'⟩ := hk
        simp only
        split
        · next hsoft =>
          refine ⟨k, hjk, hw', D.value_of_scalar trivial, ?_⟩
          simpa using code_of_isSoft hsoft
        · exact ⟨D.error_congr (e := err) rfl herr, k, hjk, hw'⟩

theorem statements_keeps (hf : f.IsCompiled) (hD : ∀ op, op.isBinary = true → D.Applies op)
    (ss : List CompiledStatement) (hss : ∀ s ∈ ss, s ∈ f.statements) (i : ι) :
    D.Keeps i (CompiledStatement.runAll e.registry ss) D.Results := by
  induction ss generalizing i with
  | nil => exact .pure fun _ _ => ⟨by simp [Evaluation.empty], by simp [Evaluation.empty]⟩
  | cons s ss ih =>
      rw [CompiledStatement.runAll]
      refine (D.statement_keeps hf hD (hss s (List.mem_cons_self ..))).bind fun j (v, d?) _ hv => ?_
      refine (ih (fun s hs => hss s (List.mem_cons_of_mem _ hs)) j).bind fun k ev hjk hev => ?_
      refine .pure fun l hkl => ⟨List.forall_mem_cons.mpr ⟨?_, fun u hu => ?_⟩, fun d hd => ?_⟩
      · exact D.value_mono (hjk.trans hkl) hv.1
      · exact D.value_mono hkl (hev.1 u hu)
      · rcases List.mem_append.mp hd with hd | hd
        · exact hv.2 d (by simpa using hd)
        · exact hev.2 d hd

theorem formula_keeps (hf : f.IsCompiled) (hD : ∀ op, op.isBinary = true → D.Applies op) :
    D.session.Keeps i (liftM (f.run e.registry) : SessionM H Evaluation) D.Results :=
  Keeps.ofEval D (D.statements_keeps hf hD f.statements (fun _ h => h) i)

variable (hD : ∀ op, op.isBinary = true → D.Applies op)

include hD

theorem evaluate_keeps (uid formula : String) :
    D.session.Keeps i (e.evaluate uid formula) D.Results :=
  (D.compile_keeps uid formula).bind fun _ _ _ hf => D.formula_keeps hf hD

theorem check_keeps (uid formula : String) :
    D.session.Keeps i (e.check uid formula) fun _ _ => True := by
  refine (D.compile_keeps uid formula).bind fun j f _ hf => ?_
  refine (D.formula_keeps hf hD).bind fun k ev _ _ => ?_
  dsimp only
  split
  · exact .pure fun _ _ => trivial
  · refine Keeps.get.bind fun l s _ _ => ?_
    exact .throw (D.error_of_plain (by simp [Fault.IsInternal, Fault.code, EvalError.inStatement,
      EvalError.of]))

theorem test_keeps (uid condition : String) :
    D.session.Keeps i (e.test uid condition) fun _ _ => True := by
  refine (D.evaluate_keeps hD uid condition).bind fun j ev _ _ => ?_
  dsimp only
  split
  · exact .pure fun _ _ => trivial
  · exact .throw (D.error_of_plain (by simp [Fault.IsInternal, Fault.code, EvalError.inStatement,
      EvalError.of]))

theorem runWhileFrom_keeps (uid condition body : String) (g : Guard) (i : ι) :
    D.session.Keeps i (e.runWhileFrom uid condition body g) fun _ _ => True := by
  induction hn : g.limit - g.count using Nat.strongRecOn generalizing g i with
  | ind n ih =>
      rw [Engine.runWhileFrom]
      refine (D.test_keeps hD uid condition).bind fun j b _ _ => ?_
      cases b with
      | false => exact .pure fun _ _ => trivial
      | true =>
          simp only [if_true]
          split
          · exact .throw (D.error_of_plain (by simp [Fault.IsInternal, Fault.code, EvalError.of]))
          · next g' hg =>
            refine (D.evaluate_keeps hD uid body).bind fun k ev _ _ => ?_
            exact ih _ (hn ▸ Guard.remaining_lt hg) g' k rfl

def Answers (i : ι) : Reply → Prop
  | .evaluation ev => D.Results i ev
  | .checked | .iterations _ => True

theorem serve_keeps (q : Request) : D.session.Keeps i (e.serve q) D.Answers := by
  cases q with
  | evaluate uid formula =>
      exact (D.evaluate_keeps hD uid formula).bind fun j ev _ hev => .pure fun k hjk =>
        ⟨fun v hv => D.value_mono hjk (hev.1 v hv), hev.2⟩
  | check uid formula =>
      exact (D.check_keeps hD uid formula).bind fun _ _ _ _ => .pure fun _ _ => trivial
  | runWhile uid condition body =>
      exact (D.runWhileFrom_keeps hD uid condition body _ i).bind fun _ _ _ _ =>
        .pure fun _ _ => trivial

/-- However requests end, what a discipline asks of sessions still holds after them all. -/
theorem serveAll_keeps (qs : List Request) (s : Session H) (hs : D.session.state i s) :
    ∃ j, i ≤ j ∧ D.session.state j (e.serveAll qs s).2 ∧
      (∀ reply, .ok reply ∈ (e.serveAll qs s).1 → ∃ k, k ≤ j ∧ D.Answers k reply) ∧
      ∀ err, .error err ∈ (e.serveAll qs s).1 → D.error err := by
  induction qs generalizing i s with
  | nil => exact ⟨i, le_rfl, hs, by simp [Engine.serveAll], by simp [Engine.serveAll]⟩
  | cons q qs ih =>
      have hq := D.serve_keeps hD q i le_rfl s hs
      rw [Engine.serveAll]
      cases hr : e.serve q s with
      | ok reply s' =>
          rw [hr] at hq
          obtain ⟨j, hij, hs', hreply⟩ := hq
          obtain ⟨k, hjk, hs'', hok, herr⟩ := ih s' hs'
          refine ⟨k, hij.trans hjk, hs'', ?_, ?_⟩
          · intro reply' hmem
            rcases List.mem_cons.mp hmem with heq | hmem
            · exact ⟨j, hjk, Except.ok.inj heq ▸ hreply⟩
            · exact hok reply' hmem
          · intro err hmem
            exact herr err ((List.mem_cons.mp hmem).resolve_left (by simp))
      | error err s' =>
          rw [hr] at hq
          obtain ⟨herr, j, hij, hs'⟩ := hq
          obtain ⟨k, hjk, hs'', hok, herr'⟩ := ih s' hs'
          refine ⟨k, hij.trans hjk, hs'', ?_, ?_⟩
          · intro reply hmem
            exact hok reply ((List.mem_cons.mp hmem).resolve_left (by simp))
          · intro err' hmem
            rcases List.mem_cons.mp hmem with heq | hmem
            · exact Except.error.inj heq ▸ herr
            · exact herr' err' hmem

end Discipline

end Formula
