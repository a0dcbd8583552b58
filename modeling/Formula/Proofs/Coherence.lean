import Formula.Proofs.Session
import Formula.Proofs.WellTyped

/-!
A cache holds what compiling anew would yield, as what a formula compiles to depends on no more than
the signature of the variables.
-/

namespace Formula

variable {H : Host}

theorem Bindings.contains_iff_mem_signature {b : Bindings} {name : String} :
    b.contains name = true ↔ ∃ type, (name, type) ∈ b.signature.entries := by
  simp only [contains, find?, List.find?_isSome, beq_iff_eq, signature, List.mem_mergeSort, List.mem_map,
    Prod.mk.injEq]
  constructor
  · rintro ⟨x, hx, rfl⟩
    exact ⟨x.type, x, hx, rfl, rfl⟩
  · rintro ⟨type, x, hx, rfl, -⟩
    exact ⟨x, hx, rfl⟩

theorem Scope.of_congr (types : Directory) {b b' : Bindings} (h : b.signature = b'.signature) :
    Scope.of types b = Scope.of types b' := by
  have hcontains : b.contains = b'.contains := by
    funext name
    rw [Bool.eq_iff_iff, Bindings.contains_iff_mem_signature, h, Bindings.contains_iff_mem_signature]
  rw [Scope.of, Scope.of, hcontains]

theorem Engine.compileFor_congr (e : Engine H) {b b' : Bindings} (h : b.signature = b'.signature)
    (formula : String) : e.compileFor b formula = e.compileFor b' formula := by
  rw [compileFor, compileFor, Scope.of_congr e.registry.directory h]

/-- A formula of one statement, from one stage of compilation to the next. -/
theorem Engine.compileFor_single (e : Engine H) (b : Bindings) (formula : String) (span : Span)
    (p : Program) {ts : TokenList} {x : Expr} (hsplit : Statement.split formula = [span])
    (hscan : TokenList.scan formula span = .ok ts) (hparse : Expr.ofTokens e.config.maxHops ts = .ok x)
    (hcompile : Program.ofExpr (.of e.registry.directory b) x = .ok p) :
    e.compileFor b formula = ⟨formula, [⟨span, span.slice formula, .ok p⟩]⟩ := by
  rw [compileFor, CompiledFormula.compile, hsplit, List.map_singleton, CompiledStatement.compile,
    Program.ofSource, Expr.ofSource, hscan]
  simp only [hparse, hcompile]
  rfl

/-- What is kept for a key is what its formula compiles to for any variables of its signature. -/
def Cache.Coherent (e : Engine H) (c : Cache) : Prop :=
  ∀ key f, (key, f) ∈ c.entries →
    ∀ b : Bindings, b.signature = key.signature → f.compiled = e.compileFor b key.formula

namespace Cache

variable {e : Engine H} {c : Cache}

theorem coherent_of_entries_eq_nil (h : c.entries = []) : c.Coherent e := fun key f hmem => by
  simp [h] at hmem

theorem coherent_empty : empty.Coherent e := coherent_of_entries_eq_nil rfl

theorem coherent_clear : c.clear.Coherent e := coherent_of_entries_eq_nil rfl

theorem mem_of_get? {key : CacheKey} {f : SharedFormula} (h : c.get? key = some f) :
    (key, f) ∈ c.entries := by
  obtain ⟨⟨key', f'⟩, hfind, rfl⟩ := Option.map_eq_some_iff.mp h
  obtain rfl : key' = key := by simpa using List.find?_some hfind
  exact List.mem_of_find?_eq_some hfind

theorem Coherent.issue (h : c.Coherent e) (f : CompiledFormula) : (c.issue f).2.Coherent e := h

theorem Coherent.getOrCompile (h : c.Coherent e) (uid formula : String) (b : Bindings) :
    (c.getOrCompile ⟨uid, formula, b.signature⟩ fun _ => e.compileFor b formula).1.compiled =
        e.compileFor b formula ∧
      (c.getOrCompile ⟨uid, formula, b.signature⟩ fun _ => e.compileFor b formula).2.Coherent e := by
  rw [Cache.getOrCompile]
  cases hf : c.get? ⟨uid, formula, b.signature⟩ with
  | some f => exact ⟨h _ f (mem_of_get? hf) b rfl, h⟩
  | none =>
      refine ⟨rfl, ?_⟩
      intro key f hmem b' hb'
      rcases List.mem_cons.mp hmem with heq | hmem
      · obtain ⟨rfl, rfl⟩ := Prod.mk.inj heq
        exact e.compileFor_congr hb'.symm formula
      · exact h key f hmem b' hb'

end Cache

namespace Engine

variable {e : Engine H} {s : Session H}

theorem compile_of_coherent (h : s.cache.Coherent e) (uid formula : String) :
    ∃ f c, e.compile uid formula s = .ok f { s with cache := c } ∧
      f.compiled = e.compileFor s.world.bindings formula ∧ c.Coherent e := by
  have hkept := h.getOrCompile uid formula s.world.bindings
  cases hc : e.config.isCached with
  | true => exact ⟨_, _, by rw [compile, hc]; rfl, hkept⟩
  | false => exact ⟨_, _, by rw [compile, hc]; rfl, rfl,
      h.issue (e.compileFor s.world.bindings formula)⟩

/-- An evaluation runs what the formula compiles to for the variables at hand. -/
theorem evaluate_of_coherent (h : s.cache.Coherent e) (uid formula : String) :
    ∃ c, c.Coherent e ∧ e.evaluate uid formula s =
      SessionM.ofEval ((e.compileFor s.world.bindings formula).run e.registry) ⟨s.world, c⟩ := by
  obtain ⟨f, c, hcompile, hf, hc⟩ := compile_of_coherent h uid formula
  refine ⟨c, hc, ?_⟩
  rw [evaluate, run_bind_of_ok hcompile, hf]
  rfl

end Engine

/-! No request makes a cache incoherent. -/

namespace Coherence

open Contract

def contract (e : Engine H) : Contract Unit EvalError (Session H) where
  state _ s := s.cache.Coherent e
  error _ := True

variable {e : Engine H}

theorem ofEval_keeps {α : Type} (x : Eval H α) :
    (contract e).Keeps () (liftM x : SessionM H α) fun _ _ => True := by
  intro _ _ s hs
  change (contract e).Meets _ _ (SessionM.ofEval x s)
  rw [SessionM.ofEval]
  cases x s.world with
  | ok a w => exact ⟨(), trivial, hs, trivial⟩
  | error err w => exact ⟨trivial, (), trivial, hs⟩

theorem compile_keeps (uid formula : String) :
    (contract e).Keeps () (e.compile uid formula) fun _ _ => True := by
  intro _ _ s hs
  obtain ⟨f, c, hcompile, -, hc⟩ := Engine.compile_of_coherent hs uid formula
  rw [hcompile]
  exact ⟨(), trivial, hc, trivial⟩

theorem evaluate_keeps (uid formula : String) :
    (contract e).Keeps () (e.evaluate uid formula) fun _ _ => True :=
  (compile_keeps uid formula).bind fun _ f _ _ => ofEval_keeps (f.compiled.run e.registry)

theorem check_keeps (uid formula : String) :
    (contract e).Keeps () (e.check uid formula) fun _ _ => True := by
  refine (compile_keeps uid formula).bind fun _ f _ _ => ?_
  refine (ofEval_keeps (f.compiled.run e.registry)).bind fun _ ev _ _ => ?_
  dsimp only
  split
  · exact .pure fun _ _ => trivial
  · exact Keeps.get.bind fun _ _ _ _ => .throw trivial

theorem test_keeps (uid condition : String) :
    (contract e).Keeps () (e.test uid condition) fun _ _ => True := by
  refine (evaluate_keeps uid condition).bind fun _ ev _ _ => ?_
  dsimp only
  split
  · exact .pure fun _ _ => trivial
  · exact .throw trivial

theorem runWhileFrom_keeps (uid condition body : String) (g : Guard) :
    (contract e).Keeps () (e.runWhileFrom uid condition body g) fun _ _ => True := by
  induction hn : g.limit - g.count using Nat.strongRecOn generalizing g with
  | ind n ih =>
      rw [Engine.runWhileFrom]
      refine (test_keeps uid condition).bind fun _ b _ _ => ?_
      cases b with
      | false => exact .pure fun _ _ => trivial
      | true =>
          simp only [if_true]
          split
          · exact .throw trivial
          · next g' hg =>
            exact (evaluate_keeps uid body).bind fun _ _ _ _ =>
              ih _ (hn ▸ Guard.remaining_lt hg) g' rfl

theorem serve_keeps (q : Request) : (contract e).Keeps () (e.serve q) fun _ _ => True := by
  cases q with
  | evaluate uid formula => exact (evaluate_keeps uid formula).bind fun _ _ _ _ => .pure fun _ _ => trivial
  | check uid formula => exact (check_keeps uid formula).bind fun _ _ _ _ => .pure fun _ _ => trivial
  | runWhile uid condition body =>
      exact (runWhileFrom_keeps uid condition body _).bind fun _ _ _ _ => .pure fun _ _ => trivial

end Coherence

theorem Engine.serveAll_coherent (e : Engine H) (qs : List Request) (s : Session H)
    (hs : s.cache.Coherent e) : (e.serveAll qs s).2.cache.Coherent e := by
  induction qs generalizing s with
  | nil => exact hs
  | cons q qs ih =>
      have hq := Coherence.serve_keeps q () le_rfl s hs
      rw [serveAll]
      cases hr : e.serve q s with
      | ok reply s' =>
          rw [hr] at hq
          obtain ⟨_, -, hs', -⟩ := hq
          exact ih s' hs'
      | error err s' =>
          rw [hr] at hq
          obtain ⟨-, _, -, hs'⟩ := hq
          exact ih s' hs'

end Formula
