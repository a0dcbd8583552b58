import Formula.Proofs.Occurrence
import Formula.Proofs.Seclusion

/-!
Runs of programs leave alone the object of a variable that nobody else can get at, unless they assign to
the variable or to a member of it.
-/

namespace Formula

open Contract

variable {H : Host} {α : Type}

theorem Value.isScalar_of_binary {m : Memory H} {op : Operator} {left right v : Value}
    (h : left.binary m op right = .ok v) : v.IsScalar := by
  rcases Value.binary_yields m op left right with hy | ⟨-, herror⟩
  · exact hy.of_ok h
  · rw [herror] at h
    cases h

/-- An assignment to a member of `x` is fine if `S` says nothing. An assignment to `x` itself may store
an object that others can get at. -/
def Place.Spares (x : String) (S : Variable → Content H → Prop) (place : Place) : Prop :=
  place ≠ .var x ∧ (place.root? = some x → ∀ z c, S z c)

/-- All assignments that are executed in the course of the task are fine. -/
def Task.Spares (r : Registry H) (x : String) (S : Variable → Content H → Prop) (t : Task)
    (w : World H) : Prop :=
  ∀ place, t.Executes r w place → place.Spares x S

theorem Task.Spares.of_calls {r : Registry H} {x : String} {S : Variable → Content H → Prop}
    {t t' : Task} {past : List Task} {w w' : World H} (h : t.Spares r x S w)
    (hcalls : t.Calls r w past t' w') : t'.Spares r x S w' :=
  fun place hplace => h place (hplace.of_occurs hcalls.occurs)

/-- All that is in the list can be got at. -/
def AllWithin (A : Set Nat) (vs : List Value) : Prop := ∀ v ∈ vs, v.Within A

theorem AllWithin.mono {A B : Set Nat} {vs : List Value} (h : AllWithin A vs) (hAB : A ⊆ B) :
    AllWithin B vs := fun v hv => (h v hv).mono hAB

theorem AllWithin.cons {A : Set Nat} {v : Value} {vs : List Value} (hv : v.Within A)
    (hvs : AllWithin A vs) : AllWithin A (v :: vs) :=
  List.forall_mem_cons.mpr ⟨hv, hvs⟩

namespace Custody

variable {K : Custody H} {r : Registry H} {x : String} {S : Variable → Content H → Prop}
  {A : Set Nat} {w : World H}

section

variable {Q : Set Nat → α → Prop} {y : Eval H α}

theorem meets_pure {a : α} (hw : (K.ward r x S).state A w) (ha : Q A a) :
    (K.ward r x S).Meets Q A ((pure a : Eval H α) w) := ⟨A, le_rfl, hw, ha⟩

theorem meets_fail {f : Fault} (hw : (K.ward r x S).state A w) :
    (K.ward r x S).Meets Q A ((Eval.fail f : Eval H α) w) := ⟨trivial, A, le_rfl, hw⟩

theorem meets_located (span : Span) (h : (K.ward r x S).Meets Q A (y w)) :
    (K.ward r x S).Meets Q A (y.located span w) := by
  rw [Eval.located]
  cases hr : y w with
  | ok a w' => rw [hr] at h; exact h
  | error e w' => rw [hr] at h; exact ⟨trivial, h.2⟩

theorem meets_liftExcept {z : Except Fault α} (hw : (K.ward r x S).state A w)
    (h : ∀ a, z = .ok a → Q A a) : (K.ward r x S).Meets Q A ((liftM z : Eval H α) w) := by
  cases z with
  | ok a => exact meets_pure hw (h a rfl)
  | error f => exact meets_fail hw

end

/-- What is done without the variables and gets at no more than it is given. -/
theorem meets_of_during {Q : Set Nat → α → Prop} {y : Eval H α} (hw : (K.ward r x S).state A w)
    (h : ∀ rest m₀ b, (K.during ∅ rest m₀ b).Keeps A y Q) : (K.ward r x S).Meets Q A (y w) := by
  obtain ⟨z, o, c, hS, hw⟩ := hw
  exact hw.meets hS (h _ _ _)

theorem run_meets {p : Program} (h : (K.ward r x S).Meets AllWithin A (Program.runFrom r [] p w)) :
    (K.ward r x S).Meets (fun A' v => v.Within A') A (p.run r w) := by
  refine h.bind fun A' vs w' _ _ hw' hvs => meets_liftExcept hw' fun v hv => ?_
  match vs, hv with
  | [u], hv => exact Except.ok.inj hv ▸ hvs u (List.mem_cons_self ..)

theorem writeMember_meets (hr : r.IsConfined K) (hw : (K.ward r x S).state A w) {o v : Value}
    (ho : o.Within A) (hv : v.Within A) (name : String) :
    (K.ward r x S).Meets (fun _ _ => True) A (Eval.writeMember r o name v w) :=
  meets_of_during hw fun _ _ _ => writeMember_keeps hr (by simpa using ho) hv

theorem updateMember_meets (hr : r.IsConfined K) (hw : (K.ward r x S).state A w) {o v : Value}
    (ho : o.Within A) (hv : v.Within A) (name : String) :
    (K.ward r x S).Meets (fun A' v => v.Within A') A (Eval.updateMember r o name v w) :=
  meets_of_during hw fun _ _ _ => updateMember_keeps hr (by simpa using ho) hv

mutual

theorem step_meets (hr : r.IsConfined K) (i : Instr) (stack : List Value) (A : Set Nat) (w : World H)
    (hw : (K.ward r x S).state A w) (hstack : AllWithin A stack)
    (h : (Task.step i stack).Spares r x S w) :
    (K.ward r x S).Meets AllWithin A (i.step r stack w) := by
  cases i with
  | push span c =>
      rw [Instr.step]
      exact meets_pure hw (.cons (Value.within_ofLiteral c) hstack)
  | load span name =>
      rw [Instr.step]
      obtain ⟨z, o, c, hS, hisolated⟩ := id hw
      refine (hisolated.load_meets hr hS name).bind fun A' v w' _ hA hw' hv => ?_
      exact meets_pure hw' (.cons hv (hstack.mono hA))
  | loadType span tag =>
      rw [Instr.step]
      exact meets_pure hw (.cons (Value.within_of_not_object rfl) hstack)
  | binary span op =>
      match stack, hstack with
      | [], _ | [_], _ =>
          rw [Instr.step]
          · exact meets_fail hw
          all_goals simp
      | right :: left :: stack, hstack =>
          rw [Instr.step]
          refine meets_of_during hw fun _ _ _ => Keeps.get.bind fun A₁ w₁ hA₁ _ => ?_
          refine (liftExcept_keeps (Q := fun A' v => v.Within A') fun v hv _ _ =>
            Value.within_of_isScalar (Value.isScalar_of_binary hv)).bind fun A₂ v hA₂ hv => ?_
          refine .pure fun A₃ hA₃ => .cons (hv.mono hA₃) fun u hu => ?_
          exact (hstack u (by simp [hu])).mono (hA₁.trans (hA₂.trans hA₃))
  | get span name =>
      cases stack with
      | nil =>
          rw [Instr.step]
          exact meets_fail hw
      | cons o stack =>
          obtain ⟨ho, hstack⟩ := List.forall_mem_cons.mp hstack
          rw [Instr.step]
          refine (meets_of_during hw fun _ _ _ => access_keeps hr ho).bind
            fun A' v w' _ hA hw' hv => ?_
          exact meets_pure hw' (.cons hv (AllWithin.mono hstack hA))
  | call span name typeArgs args =>
      cases stack with
      | nil =>
          rw [Instr.step]
          exact meets_fail hw
      | cons o stack =>
          obtain ⟨ho, hstack⟩ := List.forall_mem_cons.mp hstack
          by_cases hcall : o.isNull = true ∨ ∃ f, r.typeOf o = .error f
          · obtain ⟨e, he⟩ := Instr.step_call_error r span stack hcall name typeArgs args w
            rw [he]
            exact ⟨trivial, A, le_rfl, hw⟩
          · rw [not_or, Bool.not_eq_true] at hcall
            obtain ⟨t, ht⟩ : ∃ t, r.typeOf o = .ok t := by
              cases ht : r.typeOf o with
              | ok t => exact ⟨t, rfl⟩
              | error f => exact (hcall.2 ⟨f, ht⟩).elim
            rw [Instr.step_call r span stack hcall.1 ht]
            refine (runAll_meets hr args A w hw (h.of_calls (.arguments hcall.1 ht))).bind
              fun A₁ vs w₁ _ hA₁ hw₁ hvs => ?_
            refine (meets_of_during hw₁ fun _ _ _ => invoke_keeps hr (ho.mono hA₁) hvs).bind
              fun A₂ v w₂ _ hA₂ hw₂ hv => ?_
            exact meets_pure hw₂ (.cons hv (AllWithin.mono hstack (hA₁.trans hA₂)))
  | ternary span cond yes no =>
      rw [Instr.step_ternary]
      refine (run_meets (runFrom_meets hr cond [] A w hw nofun (h.of_calls .condition))).bind
        fun A₁ c w₁ hc hA₁ hw₁ _ => ?_
      have hchoose : (K.ward r x S).Meets (fun A' v => v.Within A') A₁
          (Eval.choose c (Program.run r yes) (Program.run r no) w₁) := by
        rw [Eval.choose.eq_def]
        split
        · exact run_meets (runFrom_meets hr yes [] A₁ w₁ hw₁ nofun (h.of_calls (.yes hc)))
        · exact run_meets (runFrom_meets hr no [] A₁ w₁ hw₁ nofun (h.of_calls (.no hc)))
        · exact meets_fail hw₁
      refine hchoose.bind fun A₂ v w₂ _ hA₂ hw₂ hv => ?_
      exact meets_pure hw₂ (.cons hv (hstack.mono (hA₁.trans hA₂)))
  | assign span place value =>
      rw [Instr.step_assign]
      refine (run_meets (runFrom_meets hr value [] A w hw nofun (h.of_calls .value))).bind
        fun A₁ v w₁ hv hA₁ hw₁ hwithin => ?_
      refine (assign_meets hr place v A₁ w₁ hw₁ hwithin (h.of_calls (.store hv))).bind
        fun A₂ new w₂ _ hA₂ hw₂ hnew => ?_
      exact meets_pure hw₂ (.cons hnew (hstack.mono (hA₁.trans hA₂)))

theorem runFrom_meets (hr : r.IsConfined K) (p : List Instr) (stack : List Value) (A : Set Nat)
    (w : World H) (hw : (K.ward r x S).state A w) (hstack : AllWithin A stack)
    (h : (Task.run stack p).Spares r x S w) :
    (K.ward r x S).Meets AllWithin A (Program.runFrom r stack p w) := by
  cases p with
  | nil =>
      rw [Program.runFrom]
      exact meets_pure hw hstack
  | cons i is =>
      rw [Program.runFrom]
      refine (meets_located i.span (step_meets hr i stack A w hw hstack (h.of_calls .head))).bind
        fun A' stack' w' hstep hA hw' hstack' => ?_
      exact runFrom_meets hr is stack' A' w' hw' hstack' (h.of_calls (.tail (Eval.ok_of_located hstep)))

theorem runAll_meets (hr : r.IsConfined K) (ps : List (List Instr)) (A : Set Nat) (w : World H)
    (hw : (K.ward r x S).state A w) (h : (Task.runAll ps).Spares r x S w) :
    (K.ward r x S).Meets AllWithin A (Program.runAll r ps w) := by
  cases ps with
  | nil =>
      rw [Program.runAll]
      exact meets_pure hw nofun
  | cons p ps =>
      rw [Program.runAll_cons]
      refine (run_meets (runFrom_meets hr p [] A w hw nofun (h.of_calls .argument))).bind
        fun A₁ v w₁ hp hA₁ hw₁ hv => ?_
      cases hallowed : r.directory.checkAllowed v with
      | error f => exact meets_fail hw₁
      | ok =>
          rw [Eval.liftM_ok, pure_bind]
          refine (runAll_meets hr ps A₁ w₁ hw₁ (h.of_calls (.nextArguments hp hallowed))).bind
            fun A₂ vs w₂ _ hA₂ hw₂ hvs => ?_
          exact meets_pure hw₂ (.cons (hv.mono hA₂) hvs)

theorem read_meets (hr : r.IsConfined K) (place : Place) (A : Set Nat) (w : World H)
    (hw : (K.ward r x S).state A w) (h : (Task.read place).Spares r x S w) :
    (K.ward r x S).Meets (fun A' v => v.Within A') A (place.read r w) := by
  cases place with
  | var name =>
      rw [Place.read]
      obtain ⟨z, o, c, hS, hw⟩ := hw
      exact hw.load_meets hr hS name
  | member owner name span =>
      rw [Place.read]
      refine (read_meets hr owner A w hw (h.of_calls .readOwner)).bind fun A' o w' _ _ hw' ho => ?_
      exact meets_of_during hw' fun _ _ _ => readMember_keeps hr ho
  | static tag =>
      rw [Place.read]
      exact meets_pure hw (Value.within_of_not_object rfl)
  | computed p =>
      rw [Place.read]
      exact run_meets (runFrom_meets hr p [] A w hw nofun (h.of_calls .compute))

theorem writeBack_meets (hr : r.IsConfined K) (place : Place) (v : Value) (A : Set Nat) (w : World H)
    (hw : (K.ward r x S).state A w) (hv : v.Within A) (hplace : place.Spares x S)
    (h : (Task.writeBack place v).Spares r x S w) :
    (K.ward r x S).Meets (fun _ _ => True) A (place.writeBack r v w) := by
  cases place with
  | var name =>
      rw [Place.writeBack]
      split
      · exact store_keeps (fun hname => hplace.1 (congrArg Place.var hname)) hv A le_rfl w hw
      · exact meets_pure hw trivial
  | member owner name span =>
      rw [Place.writeBack]
      split
      · next hvalue =>
        by_cases howner : owner = .var x
        · subst howner
          obtain ⟨z, o, c, -, hw⟩ := hw
          have hmeets := hw.replace_meets hr (hplace.2 rfl)
            (y := fun q => Eval.writeMember r q name v) (Q := fun _ _ => True)
            fun k _ _ _ => writeMember_keeps hr (Value.within_object (.inr rfl)) hv
          simpa only [Place.read, bind_pure_unit] using hmeets
        · refine (read_meets hr owner A w hw (h.of_calls (.readAgain hvalue))).bind
            fun A₁ o w₁ hread hA₁ hw₁ ho => ?_
          refine (writeMember_meets hr hw₁ ho (hv.mono hA₁) name).bind
            fun A₂ _ w₂ hwritten hA₂ hw₂ _ => ?_
          exact writeBack_meets hr owner o A₂ w₂ hw₂ (ho.mono hA₂) ⟨howner, hplace.2⟩
            (h.of_calls (.writeOwner hvalue hread hwritten))
      · exact meets_pure hw trivial
  | static | computed =>
      rw [Place.writeBack]
      exact meets_pure hw trivial

theorem assign_meets (hr : r.IsConfined K) (place : Place) (v : Value) (A : Set Nat) (w : World H)
    (hw : (K.ward r x S).state A w) (hv : v.Within A) (h : (Task.assign place v).Spares r x S w) :
    (K.ward r x S).Meets (fun A' v => v.Within A') A (place.assign r v w) := by
  have hplace : place.Spares x S := h place (Task.executes_assign place v w)
  cases place with
  | var name =>
      rw [Place.assign]
      exact updateVariable_keeps (fun hname => hplace.1 (congrArg Place.var hname)) hv A le_rfl w hw
  | member owner name span =>
      rw [Place.assign]
      apply meets_located
      by_cases howner : owner = .var x
      · subst howner
        obtain ⟨z, o, c, -, hw⟩ := hw
        rw [Place.read]
        exact hw.replace_meets hr (hplace.2 rfl) fun k _ _ _ =>
          updateMember_keeps hr (Value.within_object (.inr rfl)) hv
      · refine (read_meets hr owner A w hw (h.of_calls .assignOwner)).bind
          fun A₁ o w₁ hread hA₁ hw₁ ho => ?_
        refine (updateMember_meets hr hw₁ ho (hv.mono hA₁) name).bind
          fun A₂ new w₂ hupdated hA₂ hw₂ hnew => ?_
        refine (writeBack_meets hr owner o A₂ w₂ hw₂ (ho.mono hA₂) ⟨howner, hplace.2⟩
          (h.of_calls (.updateOwner hread hupdated))).bind fun A₃ _ w₃ _ hA₃ hw₃ _ => ?_
        exact meets_pure hw₃ (hnew.mono hA₃)
  | static | computed =>
      rw [Place.assign]
      exact meets_fail hw

end

end Custody

namespace Contract

variable {ι : Type} [Preorder ι] {C : Contract ι EvalError (World H)} {i : ι} {y : Eval H α}
  {w w' : World H} {Q : ι → α → Prop}

theorem Meets.exists_after (h : C.Meets Q i (y w)) : ∃ j, C.state j (y.after w) := by
  rw [Eval.after]
  cases hy : y w with
  | ok a w' =>
      rw [hy] at h
      exact ⟨h.choose, h.choose_spec.2.1⟩
  | error e w' =>
      rw [hy] at h
      exact ⟨h.2.choose, h.2.choose_spec.2⟩

end Contract

namespace Task

/-- The values that a task begins with. -/
def inputs : Task → List Value
  | step _ stack | run stack _ => stack
  | runAll _ | read _ => []
  | writeBack _ v | assign _ v => [v]

/-- The last part of an assignment to a member of `x`. -/
def StoresIn (x : String) : Task → Prop
  | writeBack place _ => place.root? = some x
  | step _ _ | run _ _ | runAll _ | read _ | assign _ _ => False

variable {K : Custody H} {r : Registry H} {x : String} {S : Variable → Content H → Prop}
  {t t' : Task} {past : List Task} {w w' : World H}

/-- For `x` and the contents of its object `S` holds before the task. Nobody else can get at the object,
nor with the values that the task begins with. -/
def Begins (K : Custody H) (r : Registry H) (x : String) (S : Variable → Content H → Prop) (t : Task)
    (w : World H) : Prop :=
  ∃ A, (K.ward r x S).state A w ∧ AllWithin A t.inputs

variable (hr : r.IsConfined K) (h : t.Begins K r x S w)

include hr h

theorem exists_after (hspares : t.Spares r x S w) (hstores : ¬t.StoresIn x) :
    ∃ A, (K.ward r x S).state A (t.after r w) := by
  obtain ⟨A, hw, hin⟩ := h
  cases t with
  | step i stack => exact (Custody.step_meets hr i stack A w hw hin hspares).exists_after
  | run stack p => exact (Custody.runFrom_meets hr p stack A w hw hin hspares).exists_after
  | runAll ps => exact (Custody.runAll_meets hr ps A w hw hspares).exists_after
  | read place => exact (Custody.read_meets hr place A w hw hspares).exists_after
  | writeBack place v =>
      have hplace : place.Spares x S :=
        ⟨fun h => hstores (congrArg Place.root? h), fun h => (hstores h).elim⟩
      have hv := hin v (List.mem_cons_self ..)
      exact (Custody.writeBack_meets hr place v A w hw hv hplace hspares).exists_after
  | assign place v =>
      have hv := hin v (List.mem_cons_self ..)
      exact (Custody.assign_meets hr place v A w hw hv hspares).exists_after

/-- If what is done before a call leaves `x` alone, then so it is where the call begins. -/
theorem begins_of_calls (hcalls : t.Calls r w past t' w') (hpast : ∀ t₀ ∈ past, t₀.Spares r x S w) :
    t'.Begins K r x S w' := by
  obtain ⟨A, hw, hin⟩ := h
  have program {p : Program} {v : Value} {w' : World H} (hp : Task.Spares r x S (.run [] p) w)
      (hrun : p.run r w = .ok v w') : ∃ A', A ≤ A' ∧ (K.ward r x S).state A' w' ∧ v.Within A' :=
    (Custody.run_meets (Custody.runFrom_meets hr p [] A w hw nofun hp)).of_ok hrun
  cases hcalls with
  | head => exact ⟨A, hw, hin⟩
  | @tail stack stack' i is _ _ hstep =>
      have hi := Custody.step_meets hr i stack A w hw hin (hpast _ (List.mem_cons_self ..))
      obtain ⟨A', -, hw', hstack⟩ := hi.of_ok hstep
      exact ⟨A', hw', hstack⟩
  | arguments | condition | value | argument | readOwner | compute | readAgain | assignOwner =>
      exact ⟨A, hw, nofun⟩
  | yes hc | no hc =>
      obtain ⟨A', -, hw', -⟩ := program (hpast _ (List.mem_cons_self ..)) hc
      exact ⟨A', hw', nofun⟩
  | store hv =>
      obtain ⟨A', -, hw', hv'⟩ := program (hpast _ (List.mem_cons_self ..)) hv
      exact ⟨A', hw', .cons hv' nofun⟩
  | nextArguments hp =>
      obtain ⟨A', -, hw', -⟩ := program (hpast _ (List.mem_cons_self ..)) hp
      exact ⟨A', hw', nofun⟩
  | @writeOwner owner name _ v o _ _ _ hvalue hread hwrite =>
      have howner := Custody.read_meets hr owner A w hw (hpast _ (List.mem_cons_self ..))
      obtain ⟨A₁, hA₁, hw₁, ho⟩ := howner.of_ok hread
      have hv := (hin v (List.mem_cons_self ..)).mono hA₁
      obtain ⟨A₂, hA₂, hw₂, -⟩ := (Custody.writeMember_meets hr hw₁ ho hv name).of_ok hwrite
      exact ⟨A₂, hw₂, .cons (ho.mono hA₂) nofun⟩
  | @updateOwner owner name _ v o new _ _ _ hread hupdate =>
      have howner := Custody.read_meets hr owner A w hw (hpast _ (List.mem_cons_self ..))
      obtain ⟨A₁, hA₁, hw₁, ho⟩ := howner.of_ok hread
      have hv := (hin v (List.mem_cons_self ..)).mono hA₁
      obtain ⟨A₂, hA₂, hw₂, -⟩ := (Custody.updateMember_meets hr hw₁ ho hv name).of_ok hupdate
      exact ⟨A₂, hw₂, .cons (ho.mono hA₂) nofun⟩

theorem begins_of_reaches (hreaches : t.Reaches r (fun t w => t.Spares r x S w) w t' w') :
    t'.Begins K r x S w' := by
  induction hreaches with
  | here => exact h
  | call hcalls hpast _ ih => exact ih (begins_of_calls hr h hcalls hpast)

end Task

end Formula
