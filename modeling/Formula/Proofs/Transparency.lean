import Formula.Proofs.Coherence
import Mathlib.Logic.Function.Basic

/-!
An engine that keeps what it has compiled cannot be told from one that compiles every time: they answer
alike, and leave the same variables and objects.
-/

namespace Formula

variable {H : Host}

/-- What can be done with an engine. -/
inductive Operation where
  | compile (uid formula : String)
  | request (q : Request)
  | insert (x : Variable)
  | clearCache

inductive Answer where
  | compiled (f : CompiledFormula)
  | reply (r : Reply)
  | done

/-- An engine's cache, and what is around it: any number of lists of variables, with the objects that
they have in common. -/
structure Workspace (H : Host) where
  memory : Memory H
  bindings : Nat → Bindings
  cache : Cache

namespace Workspace

def session (k : Nat) (w : Workspace H) : Session H := ⟨⟨w.memory, w.bindings k⟩, w.cache⟩

/-- What a session on the `k`th list of variables leaves. -/
def leave (k : Nat) (w : Workspace H) (s : Session H) : Workspace H :=
  ⟨s.world.memory, Function.update w.bindings k s.world.bindings, s.cache⟩

end Workspace

namespace Engine

def answer (e : Engine H) : Operation → SessionM H Answer
  | .compile uid formula => return .compiled (← e.compile uid formula).compiled
  | .request q => return .reply (← e.serve q)
  | .insert x => do
    SessionM.insert x
    return .done
  | .clearCache => do
    SessionM.clearCache
    return .done

def perform (e : Engine H) (k : Nat) (o : Operation) (w : Workspace H) :
    Except EvalError Answer × Workspace H :=
  match e.answer o (w.session k) with
  | .ok a s => (.ok a, w.leave k s)
  | .error err s => (.error err, w.leave k s)

/-- The answers to operations, each on one of the lists of variables. They go on after an error. -/
def performAll (e : Engine H) : List (Nat × Operation) → Workspace H →
    List (Except EvalError Answer) × Workspace H
  | [], w => ([], w)
  | (k, o) :: os, w =>
    let answered := e.perform k o w
    let rest := e.performAll os answered.2
    (answered.1 :: rest.1, rest.2)

def uncached (e : Engine H) : Engine H := { e with config := { e.config with isCached := false } }

end Engine

/-- Two sessions that differ in their caches only, the first of which is coherent. -/
structure Session.Twin (e : Engine H) (s t : Session H) : Prop where
  world : s.world = t.world
  coherent : s.cache.Coherent e

namespace SessionM

variable {α β γ δ : Type}

/-- The same error, or results that are related, in sessions that are twins. -/
def Matches (e : Engine H) (R : α → β → Prop) :
    EStateM.Result EvalError (Session H) α → EStateM.Result EvalError (Session H) β → Prop
  | .ok a s, .ok b t => R a b ∧ s.Twin e t
  | .error err s, .error err' t => err = err' ∧ s.Twin e t
  | _, _ => False

/-- Computations that cannot be told apart by who does not look into the cache. -/
def Alike (e : Engine H) (R : α → β → Prop) (x : SessionM H α) (y : SessionM H β) : Prop :=
  ∀ s t : Session H, s.Twin e t → Matches e R (x s) (y t)

variable {e : Engine H} {R : α → β → Prop} {x : SessionM H α} {y : SessionM H β}

theorem Alike.pure {a : α} {b : β} (h : R a b) : Alike e R (pure a) (pure b) := fun _ _ hst => ⟨h, hst⟩

theorem Alike.throw (err : EvalError) :
    Alike e R (throw err : SessionM H α) (throw err : SessionM H β) := fun _ _ hst => ⟨rfl, hst⟩

theorem Alike.get :
    Alike e (fun s t => s.world = t.world) (get : SessionM H (Session H)) (get : SessionM H (Session H)) :=
  fun _ _ hst => ⟨hst.world, hst⟩

theorem Alike.bind {S : γ → δ → Prop} {f : α → SessionM H γ} {g : β → SessionM H δ}
    (h : Alike e R x y) (hfg : ∀ a b, R a b → Alike e S (f a) (g b)) :
    Alike e S (x >>= f) (y >>= g) := by
  intro s t hst
  have hxy := h s t hst
  cases hx : x s with
  | ok a s' =>
      cases hy : y t with
      | ok b t' =>
          rw [hx, hy] at hxy
          rw [run_bind_of_ok hx, run_bind_of_ok hy]
          exact hfg a b hxy.1 s' t' hxy.2
      | error err' t' => rw [hx, hy] at hxy; exact hxy.elim
  | error err s' =>
      cases hy : y t with
      | ok b t' => rw [hx, hy] at hxy; exact hxy.elim
      | error err' t' =>
          rw [hx, hy] at hxy
          rw [run_bind_of_error hx, run_bind_of_error hy]
          exact hxy

/-- A run does not look into the cache. -/
theorem Alike.ofEval (z : Eval H α) :
    Alike e Eq (liftM z : SessionM H α) (liftM z : SessionM H α) := by
  intro s t hst
  change Matches e Eq (SessionM.ofEval z s) (SessionM.ofEval z t)
  rw [SessionM.ofEval, SessionM.ofEval, ← hst.world]
  cases z s.world with
  | ok a w => exact ⟨rfl, rfl, hst.coherent⟩
  | error err w => exact ⟨rfl, rfl, hst.coherent⟩

end SessionM

namespace Engine

open SessionM

variable (e : Engine H)

theorem compile_alike (uid formula : String) :
    Alike e (fun f g : SharedFormula => f.compiled = g.compiled) (e.compile uid formula)
      (e.uncached.compile uid formula) := by
  intro s t hst
  obtain ⟨f, c, hf, hcompiled, hc⟩ := compile_of_coherent hst.coherent uid formula
  rw [hf]
  refine ⟨?_, hst.world, hc⟩
  change f.compiled = e.compileFor t.world.bindings formula
  rw [hcompiled, hst.world]

theorem evaluate_alike (uid formula : String) :
    Alike e Eq (e.evaluate uid formula) (e.uncached.evaluate uid formula) :=
  (e.compile_alike uid formula).bind fun f g hfg => by
    rw [hfg]
    exact .ofEval (g.compiled.run e.registry)

theorem check_alike (uid formula : String) :
    Alike e Eq (e.check uid formula) (e.uncached.check uid formula) := by
  refine (e.compile_alike uid formula).bind fun f g hfg => ?_
  rw [hfg]
  refine (Alike.ofEval (g.compiled.run e.registry)).bind fun ev _ hev => ?_
  subst hev
  dsimp only
  split
  · exact .pure rfl
  · refine Alike.get.bind fun s t hst => ?_
    rw [hst]
    exact .throw _

theorem test_alike (uid condition : String) :
    Alike e Eq (e.test uid condition) (e.uncached.test uid condition) := by
  refine (e.evaluate_alike uid condition).bind fun ev _ hev => ?_
  subst hev
  dsimp only
  split
  · exact .pure rfl
  · exact .throw _

theorem runWhileFrom_alike (uid condition body : String) (g : Guard) :
    Alike e Eq (e.runWhileFrom uid condition body g) (e.uncached.runWhileFrom uid condition body g) := by
  induction hn : g.limit - g.count using Nat.strongRecOn generalizing g with
  | ind n ih =>
      rw [runWhileFrom, runWhileFrom]
      refine (e.test_alike uid condition).bind fun b _ hb => ?_
      subst hb
      cases b with
      | false => exact .pure rfl
      | true =>
          simp only [if_true]
          split
          · exact .throw _
          · next g' hg =>
            exact (e.evaluate_alike uid body).bind fun _ _ _ =>
              ih _ (hn ▸ Guard.remaining_lt hg) g' rfl

theorem serve_alike (q : Request) : Alike e Eq (e.serve q) (e.uncached.serve q) := by
  cases q with
  | evaluate uid formula =>
      exact (e.evaluate_alike uid formula).bind fun _ _ h => .pure (congrArg _ h)
  | check uid formula => exact (e.check_alike uid formula).bind fun _ _ _ => .pure rfl
  | runWhile uid condition body =>
      exact (e.runWhileFrom_alike uid condition body _).bind fun _ _ h => .pure (congrArg _ h)

theorem answer_alike (o : Operation) : Alike e Eq (e.answer o) (e.uncached.answer o) := by
  cases o with
  | compile uid formula =>
      exact (e.compile_alike uid formula).bind fun _ _ h => .pure (congrArg _ h)
  | request q => exact (e.serve_alike q).bind fun _ _ h => .pure (congrArg _ h)
  | insert x =>
      intro s t hst
      exact ⟨rfl, congrArg (fun w : World H => { w with bindings := w.bindings.insert x }) hst.world,
        hst.coherent⟩
  | clearCache =>
      intro s t hst
      exact ⟨rfl, hst.world, Cache.coherent_clear⟩

end Engine

/-- Two workspaces that differ in their caches only, the first of which is coherent. -/
structure Workspace.Twin (e : Engine H) (w u : Workspace H) : Prop where
  memory : w.memory = u.memory
  bindings : w.bindings = u.bindings
  coherent : w.cache.Coherent e

namespace Engine

variable {e : Engine H} {w u : Workspace H}

/-- One operation keeps twins twins. -/
theorem perform_twin (h : w.Twin e u) (k : Nat) (o : Operation) :
    (e.perform k o w).1 = (e.uncached.perform k o u).1 ∧
      (e.perform k o w).2.Twin e (e.uncached.perform k o u).2 := by
  have hsession : (w.session k).Twin e (u.session k) :=
    ⟨by simp only [Workspace.session, h.memory, h.bindings], h.coherent⟩
  have hanswer := e.answer_alike o _ _ hsession
  have hleave {s t : Session H} (hst : s.Twin e t) : (w.leave k s).Twin e (u.leave k t) :=
    ⟨by simp only [Workspace.leave, hst.world],
      by simp only [Workspace.leave, hst.world, h.bindings], hst.coherent⟩
  rw [perform, perform]
  cases hx : e.answer o (w.session k) with
  | ok a s =>
      cases hy : e.uncached.answer o (u.session k) with
      | ok b t =>
          rw [hx, hy] at hanswer
          exact ⟨congrArg Except.ok hanswer.1, hleave hanswer.2⟩
      | error err' t => rw [hx, hy] at hanswer; exact hanswer.elim
  | error err s =>
      cases hy : e.uncached.answer o (u.session k) with
      | ok b t => rw [hx, hy] at hanswer; exact hanswer.elim
      | error err' t =>
          rw [hx, hy] at hanswer
          exact ⟨congrArg Except.error hanswer.1, hleave hanswer.2⟩

theorem performAll_twin (h : w.Twin e u) (os : List (Nat × Operation)) :
    (e.performAll os w).1 = (e.uncached.performAll os u).1 ∧
      (e.performAll os w).2.Twin e (e.uncached.performAll os u).2 := by
  induction os generalizing w u with
  | nil => exact ⟨rfl, h⟩
  | cons ko os ih =>
      obtain ⟨k, o⟩ := ko
      obtain ⟨hanswer, htwin⟩ := perform_twin h k o
      obtain ⟨hanswers, htwins⟩ := ih htwin
      exact ⟨congrArg₂ List.cons hanswer hanswers, htwins⟩

/-- Whatever is done with them, on however many lists of variables, an engine with a cache and one
without give the same answers and leave the same objects and variables. -/
theorem performAll_cached (r : Registry H) (maxHops maxIterations : Nat)
    (os : List (Nat × Operation)) (m : Memory H) (b : Nat → Bindings) :
    let cached := (⟨r, ⟨maxHops, maxIterations, true⟩⟩ : Engine H).performAll os ⟨m, b, .empty⟩
    let uncached := (⟨r, ⟨maxHops, maxIterations, false⟩⟩ : Engine H).performAll os ⟨m, b, .empty⟩
    cached.1 = uncached.1 ∧ cached.2.memory = uncached.2.memory ∧
      cached.2.bindings = uncached.2.bindings := by
  obtain ⟨hanswers, htwin⟩ := performAll_twin (e := ⟨r, ⟨maxHops, maxIterations, true⟩⟩)
    (w := ⟨m, b, .empty⟩) (u := ⟨m, b, .empty⟩) ⟨rfl, rfl, Cache.coherent_empty⟩ os
  exact ⟨hanswers, htwin.memory, htwin.bindings⟩

end Engine

end Formula
