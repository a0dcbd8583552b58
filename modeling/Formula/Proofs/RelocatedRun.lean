import Formula.Engine
import Formula.Proofs.Contract
import Formula.Proofs.Relocation

/-!
Programs at other places do the same, and their errors are at the other places.
-/

namespace Formula

variable {H : Host} (m : Relocation)

theorem EvalError.relocate_orSpan (e : EvalError) (span : Span) :
    (e.orSpan span).relocate m = (e.relocate m).orSpan (m.apply span) := by
  cases e with
  | mk fault span? statement? => cases span? <;> rfl

theorem EvalError.fault_relocate (e : EvalError) : (e.relocate m).fault = e.fault := rfl

theorem EvalError.relocate_inStatement (e : EvalError) (text : String) :
    (e.inStatement text).relocate m = (e.relocate m).inStatement text := rfl

namespace Eval

variable {α β : Type}

/-- The same computation, with its errors at other places. -/
def relocate (x : Eval H α) : Eval H α := fun w =>
  match x w with
  | .ok a w' => .ok a w'
  | .error e w' => .error (e.relocate m) w'

@[simp]
theorem relocate_pure (a : α) : relocate m (pure a : Eval H α) = pure a := rfl

@[simp]
theorem relocate_bind (x : Eval H α) (f : α → Eval H β) :
    relocate m (x >>= f) = relocate m x >>= fun a => relocate m (f a) := by
  funext w
  cases hx : x w with
  | ok a w' =>
      have hx' : relocate m x w = .ok a w' := by rw [relocate, hx]
      rw [relocate, run_bind_of_ok hx, run_bind_of_ok hx', relocate]
  | error e w' =>
      have hx' : relocate m x w = .error (e.relocate m) w' := by rw [relocate, hx]
      rw [relocate, run_bind_of_error hx, run_bind_of_error hx']

@[simp]
theorem relocate_map (f : α → β) (x : Eval H α) : relocate m (f <$> x) = f <$> relocate m x := by
  rw [map_eq_pure_bind, map_eq_pure_bind, relocate_bind]
  rfl

theorem relocate_located (span : Span) (x : Eval H α) :
    relocate m (x.located span) = (relocate m x).located (m.apply span) := by
  funext w
  rw [relocate, located, located, relocate]
  cases x w with
  | ok a w' => rfl
  | error e w' => simp only [EvalError.relocate_orSpan]

/-! An error that has no place yet is the same at any other. -/

@[simp]
theorem relocate_fail (f : Fault) : relocate m (fail f : Eval H α) = fail f := rfl

@[simp]
theorem relocate_liftExcept (x : Except Fault α) :
    relocate m (liftM x : Eval H α) = liftM x := by
  cases x <;> rfl

@[simp]
theorem relocate_liftAction (x : Action H α) : relocate m (liftM x : Eval H α) = liftM x := by
  funext w
  change relocate m (ofAction x) w = ofAction x w
  rw [relocate, ofAction]
  cases x w.memory <;> rfl

@[simp]
theorem relocate_get : relocate m (get : Eval H (World H)) = get := rfl

@[simp]
theorem relocate_memory : relocate m (memory : Eval H (Memory H)) = memory := rfl

@[simp]
theorem relocate_store (name : String) (v : Value) :
    relocate m (store name v : Eval H Unit) = store name v := rfl

@[simp]
theorem relocate_lookup (name : String) : relocate m (lookup name : Eval H Variable) = lookup name := by
  simp only [lookup, relocate_bind, relocate_get]
  congr 1
  funext w
  split <;> rfl

variable (r : Registry H)

@[simp]
theorem relocate_load (name : String) : relocate m (load r name) = load r name := by
  simp [load]

@[simp]
theorem relocate_memberGet (x : Member H) (o : Value) (owner : String) :
    relocate m (liftM (x.get o owner) : Eval H Value) = liftM (x.get o owner) :=
  relocate_liftAction m _

@[simp]
theorem relocate_readMember (o : Value) (name : String) :
    relocate m (readMember r o name) = readMember r o name := by
  simp [readMember]

@[simp]
theorem relocate_writeMember (o : Value) (name : String) (v : Value) :
    relocate m (writeMember r o name v) = writeMember r o name v := by
  simp [writeMember]

@[simp]
theorem relocate_updateMember (o : Value) (name : String) (v : Value) :
    relocate m (updateMember r o name v) = updateMember r o name v := by
  simp only [updateMember, relocate_bind, relocate_liftExcept]
  congr 1
  funext found
  obtain ⟨t, x⟩ := found
  by_cases hw : x.isWritable <;> by_cases hr : x.isReadable <;> simp [hw, hr]

@[simp]
theorem relocate_checkReceiver (receiver : Value) (name : String) :
    relocate m (checkReceiver receiver name : Eval H Unit) = checkReceiver receiver name := by
  rw [checkReceiver]
  split <;> rfl

@[simp]
theorem relocate_access (receiver : Value) (name : String) :
    relocate m (access r receiver name) = access r receiver name := by
  simp [access]

@[simp]
theorem relocate_invoke (receiver : Value) (name : String) (typeArgs : List TypeTag)
    (args : List Value) :
    relocate m (invoke r receiver name typeArgs args) = invoke r receiver name typeArgs args := by
  simp [invoke]

@[simp]
theorem relocate_updateVariable (name : String) (v : Value) :
    relocate m (updateVariable r name v) = updateVariable r name v := by
  simp [updateVariable]

theorem relocate_choose (cond : Value) (yes no : Eval H Value) :
    relocate m (choose cond yes no) = choose cond (relocate m yes) (relocate m no) := by
  rw [choose.eq_def, choose.eq_def]
  split <;> rfl

end Eval

/-! The run of a program goes through the same states at other places. -/

variable (r : Registry H)

open Eval in
mutual

theorem Instr.step_relocate (i : Instr) (stack : List Value) :
    (i.relocate m).step r stack = relocate m (i.step r stack) := by
  cases i with
  | push span c => simp [Instr.relocate, Instr.step]
  | load span name => simp [Instr.relocate, Instr.step]
  | loadType span tag => simp [Instr.relocate, Instr.step]
  | binary span op =>
      cases stack with
      | nil => simp [Instr.relocate, Instr.step]
      | cons b stack => cases stack <;> simp [Instr.relocate, Instr.step]
  | get span name => cases stack <;> simp [Instr.relocate, Instr.step]
  | call span name typeArgs args =>
      cases stack with
      | nil => simp [Instr.relocate, Instr.step]
      | cons o stack => simp [Instr.relocate, Instr.step, Program.runAll_relocate args]
  | ternary span cond yes no =>
      simp [Instr.relocate, Instr.step, Program.runFrom_relocate, relocate_choose]
  | assign span place value =>
      simp [Instr.relocate, Instr.step, Program.runFrom_relocate value, Place.assign_relocate place]

theorem Program.runFrom_relocate (p : List Instr) (stack : List Value) :
    Program.runFrom r stack (Program.relocate m p) = relocate m (Program.runFrom r stack p) := by
  cases p with
  | nil => simp [Program.relocate, Program.runFrom]
  | cons i is =>
      simp [Program.relocate, Program.runFrom, Instr.step_relocate i, Program.runFrom_relocate is,
        relocate_located]

theorem Program.runAll_relocate (ps : List (List Instr)) :
    Program.runAll r (Program.relocateAll m ps) = relocate m (Program.runAll r ps) := by
  cases ps with
  | nil => simp [Program.relocateAll, Program.runAll]
  | cons p ps =>
      simp [Program.relocateAll, Program.runAll, Program.runFrom_relocate p, Program.runAll_relocate ps]

theorem Place.read_relocate (place : Place) :
    (place.relocate m).read r = relocate m (place.read r) := by
  cases place with
  | var name => simp [Place.relocate, Place.read]
  | member owner name span => simp [Place.relocate, Place.read, Place.read_relocate owner]
  | static tag => simp [Place.relocate, Place.read]
  | computed program => simp [Place.relocate, Place.read, Program.runFrom_relocate program]

theorem Place.writeBack_relocate (place : Place) (v : Value) :
    (place.relocate m).writeBack r v = relocate m (place.writeBack r v) := by
  cases place with
  | var name =>
      simp only [Place.relocate, Place.writeBack]
      split <;> simp
  | member owner name span =>
      simp only [Place.relocate, Place.writeBack]
      split <;> simp [Place.read_relocate owner, Place.writeBack_relocate owner]
  | static tag => simp [Place.relocate, Place.writeBack]
  | computed program => simp [Place.relocate, Place.writeBack]

theorem Place.assign_relocate (place : Place) (v : Value) :
    (place.relocate m).assign r v = relocate m (place.assign r v) := by
  cases place with
  | var name => simp [Place.relocate, Place.assign]
  | member owner name span =>
      simp [Place.relocate, Place.assign, relocate_located, Place.read_relocate owner,
        Place.writeBack_relocate owner]
  | static tag => simp [Place.relocate, Place.assign]
  | computed program => simp [Place.relocate, Place.assign]

end

theorem Program.run_relocate (p : Program) :
    Program.run r (Program.relocate m p) = Eval.relocate m (p.run r) := by
  simp [Program.run, Program.runFrom_relocate]

def Evaluation.relocate (ev : Evaluation) : Evaluation :=
  ⟨ev.results, ev.diagnostics.map (·.relocate m)⟩

namespace CompiledStatement

theorem run_relocate (s : CompiledStatement) :
    (s.relocate m).run r =
      (fun (v, d?) => (v, d?.map (·.relocate m))) <$> Eval.relocate m (s.run r) := by
  rw [run, run, relocate]
  cases s.outcome with
  | error d => rfl
  | ok p =>
      funext w
      simp only [Except.map, Except.mapError, Program.run_relocate, Functor.map, EStateM.map,
        Eval.relocate]
      cases p.run r w with
      | ok v w' => rfl
      | error e w' =>
          simp only [← EvalError.relocate_inStatement, EvalError.diagnostic_relocate]
          rw [EvalError.fault_relocate]
          by_cases hsoft : (e.inStatement s.text).fault.isSoft = true
          · simp only [if_pos hsoft, Option.map_some]
          · simp only [if_neg hsoft]

theorem runAll_relocate (ss : List CompiledStatement) :
    runAll r (ss.map (·.relocate m)) = (·.relocate m) <$> Eval.relocate m (runAll r ss) := by
  induction ss with
  | nil => rfl
  | cons s ss ih =>
      simp only [List.map_cons, runAll, run_relocate, ih]
      simp only [map_eq_pure_bind, bind_assoc, pure_bind, Eval.relocate_bind, Eval.relocate_pure]
      congr 1
      funext ⟨v, d?⟩
      congr 1
      funext ev
      cases d? <;> simp [Evaluation.cons, Evaluation.relocate]

end CompiledStatement

end Formula
