import Formula.Proofs.Contract

/-!
What is done in the course of a run: the instructions, the reads and the stores that it comes to, each
with the world in which it begins.
-/

namespace Formula

variable {H : Host} {α : Type}

/-- The world after a computation, however it ends. -/
def Eval.after (x : Eval H α) (w : World H) : World H :=
  match x w with
  | .ok _ w' => w'
  | .error _ w' => w'

namespace Eval

variable {β : Type} {x : Eval H α} {f : α → Eval H β} {w w' : World H}

theorem after_of_ok {a : α} (h : x w = .ok a w') : x.after w = w' := by rw [after, h]

theorem after_of_error {e : EvalError} (h : x w = .error e w') : x.after w = w' := by rw [after, h]

theorem after_bind_of_ok {a : α} (h : x w = .ok a w') : (x >>= f).after w = (f a).after w' := by
  rw [after, run_bind_of_ok h, after]

theorem after_bind_of_error {e : EvalError} (h : x w = .error e w') : (x >>= f).after w = w' :=
  after_of_error (run_bind_of_error h)

/-- What goes on without touching the world. -/
theorem after_bind_of_forall (h : ∀ a w, (f a).after w = w) (w : World H) :
    (x >>= f).after w = x.after w := by
  cases hx : x w with
  | ok a w' => rw [after_bind_of_ok hx, h, after_of_ok hx]
  | error e w' => rw [after_bind_of_error hx, after_of_error hx]

end Eval

/-! Instructions by what the programs in them yield. -/

namespace Instr

variable (r : Registry H) (span : Span) (stack : List Value)

theorem step_ternary (cond yes no : Program) :
    (Instr.ternary span cond yes no).step r stack = (do
      let c ← cond.run r
      let v ← Eval.choose c (Program.run r yes) (Program.run r no)
      return v :: stack : Eval H (List Value)) := by
  simp only [Instr.step, Program.run, bind_assoc]

theorem step_assign (place : Place) (value : Program) :
    (Instr.assign span place value).step r stack = (do
      let v ← value.run r
      return (← place.assign r v) :: stack : Eval H (List Value)) := by
  simp only [Instr.step, Program.run, bind_assoc]

theorem step_call {o : Value} {t : HostType H} (hnull : o.isNull = false) (ht : r.typeOf o = .ok t)
    (name : String) (typeArgs : List TypeTag) (args : List Program) :
    (Instr.call span name typeArgs args).step r (o :: stack) = (do
      let args ← Program.runAll r args
      return (← Eval.invoke r o name typeArgs args) :: stack : Eval H (List Value)) := by
  have hreceiver : (Eval.checkReceiver o name : Eval H Unit) = pure () := by
    simp [Eval.checkReceiver, hnull]
  rw [Instr.step, hreceiver, pure_bind, ht]
  rfl

theorem step_call_error {o : Value} (h : o.isNull = true ∨ ∃ f, r.typeOf o = .error f) (name : String)
    (typeArgs : List TypeTag) (args : List Program) (w : World H) :
    ∃ e, (Instr.call span name typeArgs args).step r (o :: stack) w = .error e w := by
  rw [Instr.step, Eval.checkReceiver]
  cases hnull : o.isNull with
  | true =>
      simp only [if_true]
      exact ⟨_, run_bind_of_error rfl⟩
  | false =>
      obtain ⟨f, hf⟩ := h.resolve_left (by simp [hnull])
      simp only [Bool.false_eq_true, if_false, pure_bind, hf]
      exact ⟨_, run_bind_of_error rfl⟩

end Instr

theorem Program.runAll_cons (r : Registry H) (p : Program) (ps : List Program) :
    Program.runAll r (p :: ps) = (do
      let v ← p.run r
      r.directory.checkAllowed v
      return v :: (← Program.runAll r ps) : Eval H (List Value)) := by
  simp only [Program.runAll, Program.run, bind_assoc]

inductive Task where
  | step (i : Instr) (stack : List Value)
  | run (stack : List Value) (p : Program)
  | runAll (ps : List Program)
  | read (place : Place)
  | writeBack (place : Place) (v : Value)
  | assign (place : Place) (v : Value)

namespace Task

def after (r : Registry H) : Task → World H → World H
  | step i stack => (i.step r stack).after
  | run stack p => (Program.runFrom r stack p).after
  | runAll ps => (Program.runAll r ps).after
  | read place => (place.read r).after
  | writeBack place v => (place.writeBack r v).after
  | assign place v => (place.assign r v).after

/-- What a task comes to at once: after the tasks `past`, which begin in the same world and go well. -/
inductive Calls (r : Registry H) : Task → World H → List Task → Task → World H → Prop
  | head {stack i is w} : Calls r (run stack (i :: is)) w [] (step i stack) w
  | tail {stack stack' i is w w'} : i.step r stack w = .ok stack' w' →
      Calls r (run stack (i :: is)) w [step i stack] (run stack' is) w'
  | arguments {span name typeArgs args o stack w t} : o.isNull = false → r.typeOf o = .ok t →
      Calls r (step (.call span name typeArgs args) (o :: stack)) w [] (runAll args) w
  | condition {span cond yes no stack w} :
      Calls r (step (.ternary span cond yes no) stack) w [] (run [] cond) w
  | yes {span cond yes no stack w w'} : Program.run r cond w = .ok (.bool true) w' →
      Calls r (step (.ternary span cond yes no) stack) w [run [] cond] (run [] yes) w'
  | no {span cond yes no stack w w'} : Program.run r cond w = .ok (.bool false) w' →
      Calls r (step (.ternary span cond yes no) stack) w [run [] cond] (run [] no) w'
  | value {span place value stack w} :
      Calls r (step (.assign span place value) stack) w [] (run [] value) w
  | store {span place value stack v w w'} : Program.run r value w = .ok v w' →
      Calls r (step (.assign span place value) stack) w [run [] value] (assign place v) w'
  | argument {p ps w} : Calls r (runAll (p :: ps)) w [] (run [] p) w
  | nextArguments {p ps v w w'} : Program.run r p w = .ok v w' →
      r.directory.checkAllowed v = .ok () →
      Calls r (runAll (p :: ps)) w [run [] p] (runAll ps) w'
  | readOwner {owner name span w} : Calls r (read (.member owner name span)) w [] (read owner) w
  | compute {p w} : Calls r (read (.computed p)) w [] (run [] p) w
  | readAgain {owner name span v w} : r.directory.holdsValueType v = true →
      Calls r (writeBack (.member owner name span) v) w [] (read owner) w
  | writeOwner {owner name span v o w w₁ w₂} : r.directory.holdsValueType v = true →
      owner.read r w = .ok o w₁ → Eval.writeMember r o name v w₁ = .ok () w₂ →
      Calls r (writeBack (.member owner name span) v) w [read owner] (writeBack owner o) w₂
  | assignOwner {owner name span v w} :
      Calls r (assign (.member owner name span) v) w [] (read owner) w
  | updateOwner {owner name span v o new w w₁ w₂} : owner.read r w = .ok o w₁ →
      Eval.updateMember r o name v w₁ = .ok new w₂ →
      Calls r (assign (.member owner name span) v) w [read owner] (writeBack owner o) w₂

/-- What a task comes to in the end, itself or whatever else is done for it, when all that is done before
meets `P`. -/
inductive Reaches (r : Registry H) (P : Task → World H → Prop) :
    Task → World H → Task → World H → Prop
  | here {t w} : Reaches r P t w t w
  | call {t past t' t'' w w' w''} : Calls r t w past t' w' → (∀ t₀ ∈ past, P t₀ w) →
      Reaches r P t' w' t'' w'' → Reaches r P t w t'' w''

/-- All that a task comes to. -/
abbrev Occurs (r : Registry H) : Task → World H → Task → World H → Prop := Reaches r fun _ _ => True

variable {r : Registry H} {P P' : Task → World H → Prop} {t t' t'' : Task} {past : List Task}
  {w w' w'' : World H} {place : Place}

theorem Reaches.mono (h : t.Reaches r P w t' w') (hP : ∀ t w, P t w → P' t w) :
    t.Reaches r P' w t' w' := by
  induction h with
  | here => exact .here
  | call hcall hpast _ ih => exact .call hcall (fun t ht => hP t _ (hpast t ht)) ih

theorem Occurs.trans (h : t.Occurs r w t' w') (h' : t'.Occurs r w' t'' w'') :
    t.Occurs r w t'' w'' := by
  induction h with
  | here => exact h'
  | call hcall hpast _ ih => exact .call hcall hpast (ih h')

theorem Calls.occurs (h : t.Calls r w past t' w') : t.Occurs r w t' w' :=
  .call h (fun _ _ => trivial) .here

/-- What is done before is itself come to. -/
theorem Calls.of_mem_past (h : t.Calls r w past t' w') : ∀ t₀ ∈ past, t.Calls r w [] t₀ w := by
  cases h <;> grind [Calls]

/-- A value is stored in the place in the course of the task. -/
def Executes (r : Registry H) (t : Task) (w : World H) (place : Place) : Prop :=
  ∃ v w', t.Occurs r w (assign place v) w'

theorem Executes.of_occurs (h : t.Occurs r w t' w') (ht : t'.Executes r w' place) :
    t.Executes r w place := by
  obtain ⟨v, w'', h'⟩ := ht
  exact ⟨v, w'', h.trans h'⟩

theorem executes_assign (place : Place) (v : Value) (w : World H) :
    (assign place v).Executes r w place := ⟨v, w, .here⟩

/-- If no value is ever stored in the place, then none is before something else is done. -/
theorem Occurs.reaches (h : t.Occurs r w t' w') (hplace : ¬t.Executes r w place) :
    t.Reaches r (fun t w => ¬t.Executes r w place) w t' w' := by
  induction h with
  | here => exact .here
  | call hcall _ _ ih =>
      refine .call hcall (fun t₀ ht₀ h₀ => hplace ?_) (ih fun h => hplace (h.of_occurs hcall.occurs))
      exact h₀.of_occurs (hcall.of_mem_past t₀ ht₀).occurs

end Task

mutual

/-- The places of the assignments in an instruction. -/
def Instr.targets : Instr → List Place
  | .push _ _ | .load _ _ | .loadType _ _ | .binary _ _ | .get _ _ => []
  | .call _ _ _ args => Program.allTargets args
  | .ternary _ cond yes no => Program.targets cond ++ Program.targets yes ++ Program.targets no
  | .assign _ place value => place :: place.targets ++ Program.targets value

def Program.targets : List Instr → List Place
  | [] => []
  | i :: is => i.targets ++ Program.targets is

def Program.allTargets : List (List Instr) → List Place
  | [] => []
  | p :: ps => Program.targets p ++ Program.allTargets ps

/-- The places of the assignments in what computes an owner. -/
def Place.targets : Place → List Place
  | .var _ | .static _ => []
  | .member owner _ _ => owner.targets
  | .computed p => Program.targets p

end

namespace Task

/-- The places of the assignments that stand in a task. -/
def targets : Task → List Place
  | step i _ => i.targets
  | run _ p => Program.targets p
  | runAll ps => Program.allTargets ps
  | read place | writeBack place _ => place.targets
  | assign place _ => place :: place.targets

variable {r : Registry H} {t t' : Task} {past : List Task} {w w' : World H} {place : Place}

theorem Calls.targets_subset (h : t.Calls r w past t' w') : t'.targets ⊆ t.targets := by
  intro place hplace
  cases h <;>
    simp only [targets, Instr.targets, Program.targets, Program.allTargets, Place.targets,
      List.mem_append, List.mem_cons] at hplace ⊢ <;>
    grind

/-- No value is stored but in the places that the assignments name. -/
theorem Executes.mem_targets (h : t.Executes r w place) : place ∈ t.targets := by
  obtain ⟨v, w', h⟩ := h
  generalize ht : assign place v = t' at h
  induction h with
  | here =>
      subst ht
      exact List.mem_cons_self ..
  | call hcall _ _ ih => exact hcall.targets_subset (ih ht)

end Task

end Formula
