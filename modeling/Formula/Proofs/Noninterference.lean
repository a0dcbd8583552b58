import Formula.Proofs.Composition
import Formula.Proofs.Conduct
import Formula.Proofs.Vocabulary
import Mathlib

/-!
Variables that a formula does not mention do not interfere: it is evaluated as without them, and leaves
them alone.
-/

namespace Formula

variable {H : Host}

/-- Worlds that cannot be told apart by the variables of which `N` is true. -/
structure World.AgreeOn (N : String → Prop) (w w' : World H) : Prop where
  memory : w.memory = w'.memory
  find? : ∀ name, N name → w.bindings.find? name = w'.bindings.find? name

/-- The variables of which `N` is not true are in `v` what they were in `w`. -/
def World.Spares (N : String → Prop) (w v : World H) : Prop :=
  ∀ name, ¬N name → v.bindings.find? name = w.bindings.find? name

namespace Eval

variable {N : String → Prop} {α β : Type}

/-- Outcomes of two runs, from `w` and from `w'`, that cannot be told apart. -/
inductive Alike (N : String → Prop) (w w' : World H) {α : Type} :
    EStateM.Result EvalError (World H) α → EStateM.Result EvalError (World H) α → Prop
  | ok {v v' : World H} (a : α) (h : v.AgreeOn N v') (hw : w.Spares N v) (hw' : w'.Spares N v') :
      Alike N w w' (.ok a v) (.ok a v')
  | error {v v' : World H} (e : EvalError) (h : v.AgreeOn N v') (hw : w.Spares N v)
      (hw' : w'.Spares N v') : Alike N w w' (.error e v) (.error e v')

/-- Whatever is known of the other variables does not show. -/
def Blind (N : String → Prop) (x : Eval H α) : Prop :=
  ∀ w w' : World H, w.AgreeOn N w' → Alike N w w' (x w) (x w')

theorem Blind.pure (a : α) : Blind N (pure a : Eval H α) :=
  fun _ _ h => .ok a h (fun _ _ => rfl) fun _ _ => rfl

theorem Blind.throw (e : EvalError) : Blind N (throw e : Eval H α) :=
  fun _ _ h => .error e h (fun _ _ => rfl) fun _ _ => rfl

theorem Alike.trans {w w' v v' : World H} {r r' : EStateM.Result EvalError (World H) α}
    (h : Alike N v v' r r') (hw : w.Spares N v) (hw' : w'.Spares N v') : Alike N w w' r r' := by
  cases h with
  | ok a h hv hv' =>
      exact .ok a h (fun name hn => (hv name hn).trans (hw name hn)) fun name hn =>
        (hv' name hn).trans (hw' name hn)
  | error e h hv hv' =>
      exact .error e h (fun name hn => (hv name hn).trans (hw name hn)) fun name hn =>
        (hv' name hn).trans (hw' name hn)

theorem Blind.bind {x : Eval H α} {f : α → Eval H β} (hx : Blind N x) (hf : ∀ a, Blind N (f a)) :
    Blind N (x >>= f) := by
  intro w w' hww'
  have h := hx w w' hww'
  generalize hr : x w = r at h
  generalize hr' : x w' = r' at h
  cases h with
  | ok a h hw hw' =>
      rw [run_bind_of_ok hr, run_bind_of_ok hr']
      exact (hf a _ _ h).trans hw hw'
  | error e h hw hw' =>
      rw [run_bind_of_error hr, run_bind_of_error hr']
      exact .error e h hw hw'

theorem Blind.located {x : Eval H α} (span : Span) (hx : Blind N x) : Blind N (x.located span) := by
  intro w w' hww'
  have h := hx w w' hww'
  rw [Eval.located, Eval.located]
  generalize x w = r at h
  generalize x w' = r' at h
  cases h with
  | ok a h hw hw' => exact .ok a h hw hw'
  | error e h hw hw' => exact .error _ h hw hw'

theorem Blind.ofExcept (x : Except Fault α) : Blind N (liftM x : Eval H α) := by
  cases x with
  | ok a => exact .pure a
  | error f => exact .throw (.of f)

/-- What a host does depends on the objects only. -/
theorem Blind.ofAction (x : Action H α) : Blind N (liftM x : Eval H α) := by
  intro w w' h
  change Alike N w w' (Eval.ofAction x w) (Eval.ofAction x w')
  rw [Eval.ofAction, Eval.ofAction, ← h.memory]
  cases x w.memory with
  | ok a m => exact .ok a ⟨rfl, h.find?⟩ (fun _ _ => rfl) fun _ _ => rfl
  | error f m => exact .error (.of f) ⟨rfl, h.find?⟩ (fun _ _ => rfl) fun _ _ => rfl

theorem Blind.memory : Blind N (Eval.memory : Eval H (Memory H)) := by
  intro w w' h
  change Alike N w w' (.ok w.memory w) (.ok w'.memory w')
  rw [← h.memory]
  exact .ok w.memory h (fun _ _ => rfl) fun _ _ => rfl

theorem Blind.lookup {name : String} (hname : N name) :
    Blind N (Eval.lookup name : Eval H Variable) := by
  intro w w' h
  have hfind := h.find? name hname
  cases hx : w.bindings.find? name with
  | some x =>
      rw [lookup_of_find? hx, lookup_of_find? (hfind ▸ hx)]
      exact .ok x h (fun _ _ => rfl) fun _ _ => rfl
  | none =>
      rw [lookup_of_find?_none hx, lookup_of_find?_none (hfind ▸ hx)]
      exact .error _ h (fun _ _ => rfl) fun _ _ => rfl

theorem Blind.store {name : String} (hname : N name) (v : Value) :
    Blind N (Eval.store name v : Eval H Unit) := by
  have spared (b : Bindings) (other : String) (hother : ¬N other) :
      (b.store name v).find? other = b.find? other := by
    refine b.find?_store_of_ne v ?_
    rintro rfl
    exact hother hname
  intro w w' h
  refine .ok () ⟨h.memory, fun other hother => ?_⟩ (spared w.bindings) (spared w'.bindings)
  by_cases hn : name = other
  · subst hn
    exact (w.bindings.find?_store_self name v).trans
      ((congrArg _ (h.find? name hname)).trans (w'.bindings.find?_store_self name v).symm)
  · exact (w.bindings.find?_store_of_ne v hn).trans
      ((h.find? other hother).trans (w'.bindings.find?_store_of_ne v hn).symm)

/-- The property as one of all that evaluation does. -/
def blindness (N : String → Prop) : Conduct H N fun _ => True where
  holds := Blind N
  placed := Blind N
  holds_of_placed h := h
  holds_bind := .bind
  placed_bind := .bind
  placed_pure := .pure
  located _ h := h.located _
  ofExcept := .ofExcept
  ofAction := .ofAction
  memory := .memory
  lookup := .lookup
  store v h := .store h v

end Eval

open Eval

variable {N : String → Prop}

theorem CompiledStatement.run_blind {r : Registry H} {s : CompiledStatement}
    (h : ∀ p, s.outcome = .ok p → Blind N (p.run r)) : Blind N (s.run r) := by
  intro w w' hww'
  rw [run]
  cases ho : s.outcome with
  | error d => exact Blind.pure _ w w' hww'
  | ok p =>
      have hp := h p ho w w' hww'
      simp only
      generalize p.run r w = x at hp
      generalize p.run r w' = x' at hp
      cases hp with
      | ok v hv hw hw' => exact .ok _ hv hw hw'
      | error e hv hw hw' =>
          dsimp only
          split
          · exact .ok _ hv hw hw'
          · exact .error _ hv hw hw'

theorem CompiledStatement.runAll_blind {r : Registry H} {ss : List CompiledStatement}
    (h : ∀ s ∈ ss, ∀ p, s.outcome = .ok p → Blind N (p.run r)) : Blind N (runAll r ss) := by
  induction ss with
  | nil => exact .pure _
  | cons s ss ih =>
      obtain ⟨hs, hss⟩ := List.forall_mem_cons.mp h
      exact (run_blind hs).bind fun _ => (ih hss).bind fun _ => .pure _

/-- A formula does not tell variables that it does not mention. -/
theorem CompiledFormula.run_blind (r : Registry H) (maxHops : Nat) (scope : Scope) (formula : String) :
    Blind (Mentions formula) ((compile maxHops scope formula).run r) := by
  refine CompiledStatement.runAll_blind fun s hs p hp => ?_
  obtain ⟨span, hspan, rfl⟩ := List.mem_map.mp hs
  obtain ⟨e, he, hof⟩ := Program.exists_of_ofSource (CompiledStatement.ofSource_of_outcome hp)
  rw [Program.run_ofExpr r scope hof]
  exact (blindness _).eval_placed r scope e (Expr.mentions_of_ofSource he hspan) fun _ _ => trivial

/-- A name stands for the same where it is no variable, or one of the same type. -/
theorem Scope.agree_of_find?_eq (types : Directory) {b b' : Bindings} {name : String}
    (h : b.find? name = b'.find? name) : Agree (.of types b) (.of types b') name := by
  refine ⟨?_, rfl⟩
  change (b.find? name).isSome = (b'.find? name).isSome
  rw [h]

namespace Engine

/-- Two sessions with the same objects agree on the variables that a formula mentions, each of which is
in neither or the same in both. Then the formula yields the same in both and leaves the same objects and
the same variables of those, and no other variable is touched. -/
theorem effect_noninterference (e : Engine H) (uid uid' formula : String) (s s' : Session H)
    (hs : s.cache.Coherent e) (hs' : s'.cache.Coherent e) (hmemory : s.world.memory = s'.world.memory)
    (hagree : ∀ name, Mentions formula name →
      s.world.bindings.find? name = s'.world.bindings.find? name) :
    (e.effect uid formula s).1 = (e.effect uid' formula s').1 ∧
      (e.effect uid formula s).2.memory = (e.effect uid' formula s').2.memory ∧
      (∀ name, Mentions formula name →
        (e.effect uid formula s).2.bindings.find? name =
          (e.effect uid' formula s').2.bindings.find? name) ∧
      ∀ name, ¬Mentions formula name →
        (e.effect uid formula s).2.bindings.find? name = s.world.bindings.find? name ∧
          (e.effect uid' formula s').2.bindings.find? name = s'.world.bindings.find? name := by
  have hcompiled : e.compileFor s'.world.bindings formula = e.compileFor s.world.bindings formula :=
    CompiledFormula.compile_congr fun name hname =>
      Scope.agree_of_find?_eq _ (hagree name hname).symm
  have halike := CompiledFormula.run_blind e.registry e.config.maxHops
    (.of e.registry.directory s.world.bindings) formula s.world s'.world ⟨hmemory, hagree⟩
  rw [effect_of_coherent hs, effect_of_coherent hs', hcompiled, compileFor]
  generalize CompiledFormula.run e.registry _ s.world = x at halike ⊢
  generalize CompiledFormula.run e.registry _ s'.world = x' at halike ⊢
  cases halike with
  | ok ev h hw hw' => exact ⟨rfl, h.memory, h.find?, fun name hn => ⟨hw name hn, hw' name hn⟩⟩
  | error err h hw hw' => exact ⟨rfl, h.memory, h.find?, fun name hn => ⟨hw name hn, hw' name hn⟩⟩

/-- With the variables in another order, one of them missing and another one more, which has the name of
a type. -/
theorem effect_noninterference_reordered :
    let e : Engine Sample.host := ⟨Sample.registry, .default⟩
    let s := WellTyped.session
    let b : Bindings := ⟨[.infer "Math" (.bool true), ⟨"any", .null, .owned (.string "x")⟩,
      .infer "n" (.int 1)]⟩
    let s' : Session Sample.host := ⟨⟨Sample.memory, b⟩, .empty⟩
    (e.effect "f" "any = n += 1" s).1 = (e.effect "g" "any = n += 1" s').1 ∧
      (e.effect "f" "any = n += 1" s).2.bindings.find? "n" =
        (e.effect "g" "any = n += 1" s').2.bindings.find? "n" ∧
      (e.effect "f" "any = n += 1" s).2.bindings.find? "mode" = s.world.bindings.find? "mode" ∧
      (e.effect "g" "any = n += 1" s').2.bindings.find? "Math" = s'.world.bindings.find? "Math" := by
  intro e s b s'
  have hsplit : Statement.split "any = n += 1" = [⟨0, 12⟩] := by decide +kernel
  have hscan : TokenList.scan "any = n += 1" ⟨0, 12⟩ =
      .ok ⟨[⟨.ident "any", ⟨0, 3⟩⟩, ⟨.op .assign, ⟨4, 5⟩⟩, ⟨.ident "n", ⟨6, 7⟩⟩,
        ⟨.op .addAssign, ⟨8, 10⟩⟩, ⟨.int 1, ⟨11, 12⟩⟩], 12⟩ := by cbv
  have hmentions (name : String) : Mentions "any = n += 1" name ↔ name = "any" ∨ name = "n" := by
    simp [Mentions, hsplit, hscan, eq_comm]
  have hagree (name : String) (h : Mentions "any = n += 1" name) :
      s.world.bindings.find? name = s'.world.bindings.find? name := by
    rcases (hmentions name).mp h with rfl | rfl <;> rfl
  obtain ⟨hresult, -, hsame, hspared⟩ := effect_noninterference e "f" "g" "any = n += 1" s s'
    Cache.coherent_empty Cache.coherent_empty rfl hagree
  refine ⟨hresult, hsame "n" ((hmentions "n").mpr (.inr rfl)), ?_, ?_⟩
  · exact (hspared "mode" (by simp [hmentions])).1
  · exact (hspared "Math" (by simp [hmentions])).2

end Engine

end Formula
