import Formula.Engine
import Formula.Proofs.FaultCodes
import Formula.Proofs.StackSafety
import Formula.Proofs.UnknownNames

/-!
The faults that runs raise by themselves, apart from those that they pass on from hosts. Limits of loops
are not among them.
-/

namespace Formula

/-- The codes of the faults that a run raises by itself. -/
def Code.ofRuns : List Code :=
  [.unknownVariable, .unknownMember, .unknownMethod, .unknownVariant, .unregisteredType,
    .conditionNotBool, .notReadable, .notWritable, .notConvertible, .zeroDivision, .integerOverflow,
    .invalidOperands, .noOverload, .hostFailure, .shiftOutOfRange, .malformedProgram]

variable {H : Host} {α β : Type} {P : Fault → Prop}

/-- A computation none of whose faults satisfies `P`. -/
def Eval.Avoids (P : Fault → Prop) (x : Eval H α) : Prop := ∀ w e w', x w = .error e w' → ¬P e.fault

namespace Eval

variable {x : Eval H α}

theorem avoids_pure (a : α) : (pure a : Eval H α).Avoids P := by
  intro w e w' h
  cases h

theorem avoids_fail {f : Fault} (hf : ¬P f) : (fail f : Eval H α).Avoids P := by
  intro w e w' h
  obtain ⟨rfl, -⟩ := EStateM.Result.error.inj h
  exact hf

theorem Avoids.bind {f : α → Eval H β} (hx : x.Avoids P) (hf : ∀ a, (f a).Avoids P) :
    (x >>= f).Avoids P := by
  intro w e w' h
  cases hr : x w with
  | ok a w₁ =>
      rw [run_bind_of_ok hr] at h
      exact hf a w₁ e w' h
  | error e₁ w₁ =>
      rw [run_bind_of_error hr] at h
      obtain ⟨rfl, -⟩ := EStateM.Result.error.inj h
      exact hx w e₁ w₁ hr

/-- The place of an error does not matter. -/
theorem Avoids.located (hx : x.Avoids P) (span : Span) : (x.located span).Avoids P := by
  intro w e w' h
  rw [Eval.located] at h
  cases hr : x w with
  | ok a w₁ =>
      rw [hr] at h
      cases h
  | error e₁ w₁ =>
      rw [hr] at h
      obtain ⟨rfl, -⟩ := EStateM.Result.error.inj h
      exact hx w e₁ w₁ hr

theorem avoids_ofAction {y : Action H α} (hy : y.Avoids P) : (liftM y : Eval H α).Avoids P := by
  intro w e w' h
  change ofAction y w = _ at h
  rw [ofAction] at h
  cases hr : y w.memory with
  | ok a m =>
      rw [hr] at h
      cases h
  | error f m =>
      rw [hr] at h
      obtain ⟨rfl, -⟩ := EStateM.Result.error.inj h
      exact hy w.memory f m hr

theorem avoids_get : (get : Eval H (World H)).Avoids P := by
  intro w e w' h
  cases h

theorem avoids_memory : (memory : Eval H (Memory H)).Avoids P :=
  avoids_get.bind fun w => avoids_pure w.memory

theorem avoids_store (name : String) (v : Value) : (store name v : Eval H Unit).Avoids P := by
  intro w e w' h
  cases h

end Eval

/-- Neither runs by themselves nor the registered types raise a fault that satisfies `P`. -/
structure Registry.Avoids (P : Fault → Prop) (r : Registry H) : Prop where
  own (f : Fault) : P f → f.code ∉ Code.ofRuns
  types : ∀ t ∈ r.types, t.Avoids P

namespace Registry.Avoids

open Eval

variable {r : Registry H}

theorem fail (h : r.Avoids P) {f : Fault} (hf : f.code ∈ Code.ofRuns) : (fail f : Eval H α).Avoids P :=
  avoids_fail fun hfault => h.own f hfault hf

theorem ofExcept_bind (h : r.Avoids P) {codes : List Code} {y : Except Fault α} {f : α → Eval H β}
    (hy : FailsIn codes y) (hcodes : ∀ c ∈ codes, c ∈ Code.ofRuns)
    (hf : ∀ a, y = .ok a → (f a).Avoids P) : (liftM y >>= f).Avoids P := by
  cases y with
  | ok a => exact hf a rfl
  | error fault => exact h.fail (hcodes _ (hy.mem fault rfl))

theorem ofExcept (h : r.Avoids P) {codes : List Code} {y : Except Fault α} (hy : FailsIn codes y)
    (hcodes : ∀ c ∈ codes, c ∈ Code.ofRuns) : (liftM y : Eval H α).Avoids P := by
  cases y with
  | ok a => exact avoids_pure a
  | error fault => exact h.fail (hcodes _ (hy.mem fault rfl))

theorem checkAllowed (h : r.Avoids P) (v : Value) :
    (liftM (r.directory.checkAllowed v) : Eval H Unit).Avoids P :=
  h.ofExcept (r.directory.checkAllowed_failsIn v) (by decide)

theorem result (h : r.Avoids P) {y : Eval H (List Value)} (hy : y.Avoids P) :
    (do Program.result (← y) : Eval H Value).Avoids P :=
  hy.bind fun stack => h.ofExcept (Program.result_failsIn stack) (by decide)

theorem lookup (h : r.Avoids P) (name : String) : (lookup name : Eval H Variable).Avoids P := by
  refine avoids_get.bind fun w => ?_
  split
  · exact avoids_pure _
  · exact h.fail (by simp [Fault.code, Code.ofRuns])

theorem load (h : r.Avoids P) (name : String) : (load r name).Avoids P := by
  refine (h.lookup name).bind fun x => (h.checkAllowed x.get).bind fun _ => ?_
  rcases r.copyOnLoad_cases x.get with hc | ⟨o, t, copy, -, ht, hcopy, hc⟩
  · rw [hc]
    exact avoids_pure x.get
  · rw [hc]
    exact avoids_ofAction (((h.types t (mem_of_find? ht).1).copy hcopy).map Value.object)

theorem updateVariable (h : r.Avoids P) (name : String) (v : Value) :
    (updateVariable r name v).Avoids P := by
  refine (h.lookup name).bind fun x => avoids_memory.bind fun m => ?_
  refine (h.ofExcept (v.convert_failsIn r.directory m x.type) (by decide)).bind fun new => ?_
  exact (avoids_store name new).bind fun _ => avoids_pure new

section

variable {o : Value} {name : String} {t : HostType H} {d : Member H}

theorem get (h : r.Avoids P) (hd : findMember r o name = .ok (t, d)) :
    (liftM (d.get o t.tag.name) : Eval H Value).Avoids P := by
  obtain ⟨ht, hmember⟩ := findMember_eq_ok hd
  rw [Member.get]
  split
  · next getter hgetter =>
    exact avoids_ofAction ((h.types t (mem_of_find? ht).1).get hmember hgetter)
  · exact h.fail (f := .notReadable d.name t.tag.name) (by simp [Fault.code, Code.ofRuns])

theorem set (h : r.Avoids P) (hd : findMember r o name = .ok (t, d)) (v : Value) :
    (liftM (d.set o v t.tag.name) : Eval H Unit).Avoids P := by
  obtain ⟨ht, hmember⟩ := findMember_eq_ok hd
  rw [Member.set]
  split
  · next setter hsetter =>
    exact avoids_ofAction ((h.types t (mem_of_find? ht).1).set hmember hsetter v)
  · exact h.fail (f := .notWritable d.name t.tag.name) (by simp [Fault.code, Code.ofRuns])

theorem readMember (h : r.Avoids P) (o : Value) (name : String) : (readMember r o name).Avoids P :=
  h.ofExcept_bind (findMember_failsIn r o name) (by decide) fun _ hd => h.get hd

theorem writeMember (h : r.Avoids P) (o : Value) (name : String) (v : Value) :
    (writeMember r o name v).Avoids P :=
  h.ofExcept_bind (findMember_failsIn r o name) (by decide) fun _ hd => h.set hd v

theorem converted (h : r.Avoids P) (hd : findMember r o name = .ok (t, d)) (v : Value) :
    (converted r o t d v).Avoids P := by
  rw [Eval.converted]
  split
  · refine (h.get hd).bind fun current => avoids_memory.bind fun m => ?_
    exact h.ofExcept (v.convert_failsIn r.directory m current.typeTag) (by decide)
  · exact avoids_pure v

theorem updateMember (h : r.Avoids P) (o : Value) (name : String) (v : Value) :
    (updateMember r o name v).Avoids P := by
  rw [updateMember_eq]
  refine h.ofExcept_bind (findMember_failsIn r o name) (by decide) fun (t, d) hd => ?_
  have goesOn : (do
      let new ← Eval.converted r o t d v
      r.directory.checkAllowed new
      d.set o new t.tag.name
      return new : Eval H Value).Avoids P := by
    refine (h.converted hd v).bind fun new => (h.checkAllowed new).bind fun _ => ?_
    exact (h.set hd new).bind fun _ => avoids_pure new
  dsimp only
  split
  · exact (h.fail (by simp [Fault.code, Code.ofRuns])).bind fun _ => goesOn
  · exact goesOn

theorem checkReceiver (h : r.Avoids P) (o : Value) (name : String) :
    (checkReceiver o name : Eval H Unit).Avoids P := by
  rw [Eval.checkReceiver]
  split
  · exact h.fail (by simp [Fault.code, Code.ofRuns])
  · exact avoids_pure ()

theorem access (h : r.Avoids P) (o : Value) (name : String) : (access r o name).Avoids P := by
  refine (h.checkReceiver o name).bind fun _ => (h.readMember o name).bind fun v => ?_
  exact (h.checkAllowed v).bind fun _ => avoids_pure v

theorem invoke (h : r.Avoids P) (o : Value) (name : String) (typeArgs : List TypeTag)
    (args : List Value) : (invoke r o name typeArgs args).Avoids P := by
  refine h.ofExcept_bind (r.typeOf_failsIn o) (by decide) fun t ht => ?_
  refine h.ofExcept_bind (Method.select_failsIn ..) (by decide) fun (g, args') hg => ?_
  obtain ⟨⟨fs, hfs, hmem⟩, -⟩ := (Method.select_yields ..).of_ok hg
  have htype := (mem_of_find? (find?_of_typeOf ht)).1
  refine (avoids_ofAction ((h.types t htype).body hfs hmem _)).bind fun v => ?_
  exact (h.checkAllowed _).bind fun _ => avoids_pure _

end

theorem choose (h : r.Avoids P) (c : Value) {yes no : Eval H Value} (hyes : yes.Avoids P)
    (hno : no.Avoids P) : (choose c yes no).Avoids P := by
  rw [choose.eq_def]
  split
  · exact hyes
  · exact hno
  · exact h.fail (by simp [Fault.code, Code.ofRuns])

mutual

theorem step (h : r.Avoids P) (i : Instr) (stack : List Value) : (i.step r stack).Avoids P := by
  have underflow : (Eval.fail (.internal "value stack underflow") : Eval H (List Value)).Avoids P :=
    h.fail (by simp [Fault.code, Code.ofRuns])
  cases i with
  | push | loadType =>
      rw [Instr.step]
      exact avoids_pure _
  | load span name =>
      rw [Instr.step]
      exact (h.load name).bind fun v => avoids_pure _
  | binary span op =>
      match stack with
      | [] | [_] =>
          rw [Instr.step]
          · exact underflow
          all_goals simp
      | right :: left :: stack =>
          rw [Instr.step]
          refine avoids_memory.bind fun m => ?_
          exact (h.ofExcept (Value.binary_failsIn ..) (by decide)).bind fun v => avoids_pure _
  | get span name =>
      cases stack with
      | nil =>
          rw [Instr.step]
          exact underflow
      | cons o stack =>
          rw [Instr.step]
          exact (h.access o name).bind fun v => avoids_pure _
  | call span name typeArgs args =>
      cases stack with
      | nil =>
          rw [Instr.step]
          exact underflow
      | cons o stack =>
          rw [Instr.step]
          refine (h.checkReceiver o name).bind fun _ => ?_
          refine (h.ofExcept (r.typeOf_failsIn o) (by decide)).bind fun t => ?_
          refine (h.runAll args).bind fun vs => ?_
          exact (h.invoke o name typeArgs vs).bind fun v => avoids_pure _
  | ternary span cond yes no =>
      rw [Instr.step_ternary]
      refine (h.result (h.runFrom [] cond)).bind fun c => ?_
      exact (h.choose c (h.result (h.runFrom [] yes)) (h.result (h.runFrom [] no))).bind fun v =>
        avoids_pure _
  | assign span place value =>
      rw [Instr.step_assign]
      refine (h.result (h.runFrom [] value)).bind fun v => ?_
      exact (h.assign place v).bind fun new => avoids_pure _

theorem runFrom (h : r.Avoids P) (stack : List Value) (p : List Instr) :
    (Program.runFrom r stack p).Avoids P := by
  cases p with
  | nil =>
      rw [Program.runFrom]
      exact avoids_pure stack
  | cons i is =>
      rw [Program.runFrom]
      exact ((h.step i stack).located i.span).bind fun stack' => h.runFrom stack' is

theorem runAll (h : r.Avoids P) (ps : List (List Instr)) : (Program.runAll r ps).Avoids P := by
  cases ps with
  | nil =>
      rw [Program.runAll]
      exact avoids_pure []
  | cons p ps =>
      rw [Program.runAll_cons]
      refine (h.result (h.runFrom [] p)).bind fun v => (h.checkAllowed v).bind fun _ => ?_
      exact (h.runAll ps).bind fun vs => avoids_pure _

theorem read (h : r.Avoids P) (place : Place) : (place.read r).Avoids P := by
  cases place with
  | var name =>
      rw [Place.read]
      exact h.load name
  | member owner name span =>
      rw [Place.read]
      exact (h.read owner).bind fun o => h.readMember o name
  | static tag =>
      rw [Place.read]
      exact avoids_pure _
  | computed p =>
      rw [Place.read]
      exact h.result (h.runFrom [] p)

theorem writeBack (h : r.Avoids P) (place : Place) (v : Value) : (place.writeBack r v).Avoids P := by
  cases place with
  | var name =>
      rw [Place.writeBack]
      split
      · exact (h.lookup name).bind fun _ => avoids_store name v
      · exact avoids_pure ()
  | member owner name span =>
      rw [Place.writeBack]
      split
      · refine (h.read owner).bind fun o => ?_
        exact (h.writeMember o name v).bind fun _ => h.writeBack owner o
      · exact avoids_pure ()
  | static | computed =>
      rw [Place.writeBack]
      exact avoids_pure ()

theorem assign (h : r.Avoids P) (place : Place) (v : Value) : (place.assign r v).Avoids P := by
  cases place with
  | var name =>
      rw [Place.assign]
      exact h.updateVariable name v
  | member owner name span =>
      rw [Place.assign]
      refine Eval.Avoids.located ?_ span
      refine (h.read owner).bind fun o => (h.updateMember o name v).bind fun new => ?_
      exact (h.writeBack owner o).bind fun _ => avoids_pure new
  | static | computed =>
      rw [Place.assign]
      exact h.fail (by simp [Fault.code, Code.ofRuns])

end

theorem statement (h : r.Avoids P) (s : CompiledStatement) : (s.run r).Avoids P := by
  rw [CompiledStatement.run]
  split
  · exact avoids_pure _
  · next p _ =>
    intro w e w' hrun
    cases hp : p.run r w with
    | ok v w₁ =>
        simp only [hp] at hrun
        cases hrun
    | error e₁ w₁ =>
        simp only [hp] at hrun
        split at hrun
        · cases hrun
        · obtain ⟨rfl, -⟩ := EStateM.Result.error.inj hrun
          exact h.result (h.runFrom [] p) w e₁ w₁ hp

theorem statements (h : r.Avoids P) (ss : List CompiledStatement) :
    (CompiledStatement.runAll r ss).Avoids P := by
  induction ss with
  | nil => exact avoids_pure _
  | cons s ss ih =>
      rw [CompiledStatement.runAll]
      refine (h.statement s).bind ?_
      rintro ⟨v, d?⟩
      exact ih.bind fun ev => avoids_pure _

end Registry.Avoids

/-- An evaluation ends in such a fault only where a host raises it. -/
theorem Engine.evaluate_avoids {e : Engine H} (h : e.registry.Avoids P) {uid formula : String}
    {s s' : Session H} {err : EvalError} (heval : e.evaluate uid formula s = .error err s') :
    ¬P err.fault := by
  obtain ⟨f, s₁, hcompile⟩ : ∃ f s₁, e.compile uid formula s = .ok f s₁ := ⟨_, _, rfl⟩
  rw [evaluate, run_bind_of_ok hcompile] at heval
  change SessionM.ofEval (CompiledStatement.runAll e.registry f.compiled.statements) s₁ = _ at heval
  rw [SessionM.ofEval] at heval
  cases hrun : CompiledStatement.runAll e.registry f.compiled.statements s₁.world with
  | ok ev w =>
      rw [hrun] at heval
      cases heval
  | error err₁ w =>
      rw [hrun] at heval
      obtain ⟨rfl, -⟩ := EStateM.Result.error.inj heval
      exact h.statements f.compiled.statements s₁.world err₁ w hrun

end Formula
