import Formula.Proofs.HostFaults

/-!
How many values programs find on their stacks. The number can be told without running a program. If it
comes out right, for the programs nested in the program as well, then no run ever misses a value or
leaves one behind; if it comes out wrong, then no run ends with a value.
-/

namespace Formula

namespace Instr

/-- How many values an instruction takes from the stack. It puts one there in any case. -/
def takes : Instr → Nat
  | push _ _ | load _ _ | loadType _ _ | ternary _ _ _ _ | assign _ _ _ => 0
  | get _ _ | call _ _ _ _ => 1
  | binary _ _ => 2

/-- The number of values after an instruction that finds `n` of them, if these are enough. -/
def depthAfter? (i : Instr) (n : Nat) : Option Nat :=
  if i.takes ≤ n then some (n - i.takes + 1) else none

end Instr

/-- The number of values after a program that finds `n` of them, if these are always enough. -/
def Program.depthFrom? (n : Nat) : Program → Option Nat
  | [] => some n
  | i :: is => (i.depthAfter? n).bind fun m => depthFrom? m is

mutual

/-- The programs in the instruction are balanced. -/
def Instr.isBalanced : Instr → Bool
  | .push _ _ | .load _ _ | .loadType _ _ | .binary _ _ | .get _ _ => true
  | .call _ _ _ args => Program.allBalanced args
  | .ternary _ cond yes no =>
    Program.isBalancedFrom 0 cond && Program.isBalancedFrom 0 yes && Program.isBalancedFrom 0 no
  | .assign _ place value => place.isBalanced && Program.isBalancedFrom 0 value

/-- With `n` values to begin with there are always enough and one in the end, and the nested programs are
balanced. -/
def Program.isBalancedFrom (n : Nat) : List Instr → Bool
  | [] => n == 1
  | i :: is =>
    i.isBalanced &&
      match i.depthAfter? n with
      | some m => Program.isBalancedFrom m is
      | none => false

def Program.allBalanced : List (List Instr) → Bool
  | [] => true
  | p :: ps => Program.isBalancedFrom 0 p && Program.allBalanced ps

/-- What computes the owner is balanced. -/
def Place.isBalanced : Place → Bool
  | .var _ | .static _ => true
  | .member owner _ _ => owner.isBalanced
  | .computed p => Program.isBalancedFrom 0 p

end

def Program.isBalanced (p : Program) : Bool := Program.isBalancedFrom 0 p

theorem Instr.depthAfter?_eq_some {i : Instr} {n m : Nat} :
    i.depthAfter? n = some m ↔ i.takes ≤ n ∧ m = n - i.takes + 1 := by
  rw [depthAfter?]
  split
  · next h => simp [h, eq_comm]
  · next h => simp [h]

namespace Program

theorem isBalancedFrom_cons {i : Instr} {is : List Instr} {n : Nat} :
    isBalancedFrom n (i :: is) = true ↔
      i.isBalanced = true ∧ ∃ m, i.depthAfter? n = some m ∧ isBalancedFrom m is = true := by
  rw [isBalancedFrom, Bool.and_eq_true]
  cases i.depthAfter? n <;> simp

/-- The check of a whole is that of its own depth, and that of what is nested in it. -/
theorem isBalancedFrom_iff {p : Program} {n : Nat} :
    isBalancedFrom n p = true ↔ depthFrom? n p = some 1 ∧ ∀ i ∈ p, i.isBalanced = true := by
  induction p generalizing n with
  | nil => simp [isBalancedFrom, depthFrom?]
  | cons i is ih =>
      rw [isBalancedFrom_cons, depthFrom?, Option.bind_eq_some_iff, List.forall_mem_cons]
      simp only [ih]
      grind

theorem depthFrom?_append (p q : Program) (n : Nat) :
    depthFrom? n (p ++ q) = (depthFrom? n p).bind fun m => depthFrom? m q := by
  induction p generalizing n with
  | nil => rfl
  | cons i is ih => simp only [List.cons_append, depthFrom?, ih, Option.bind_assoc]

end Program

/-! ### Runs -/

variable {H : Host} {r : Registry H} {w w' : World H}

namespace Instr

variable {i : Instr} {stack stack' : List Value}

/-- An instruction that finds too few values reports it, whatever it is for. -/
theorem step_of_lt_takes (h : stack.length < i.takes) :
    i.step r stack = Eval.fail (.internal "value stack underflow") := by
  cases i with
  | push | load | loadType | ternary | assign => simp [takes] at h
  | get | call =>
      obtain rfl : stack = [] := List.length_eq_zero_iff.mp (Nat.lt_one_iff.mp h)
      rw [step]
  | binary =>
      match stack, h with
      | [], _ => rw [step]; simp
      | [_], _ => rw [step]; simp

theorem takes_le_of_step (h : i.step r stack w = .ok stack' w') : i.takes ≤ stack.length := by
  refine Nat.not_lt.mp fun hlt => ?_
  rw [step_of_lt_takes hlt] at h
  cases h

/-- One value takes the place of those that are taken. -/
theorem depthAfter?_of_step (h : i.step r stack w = .ok stack' w') :
    i.depthAfter? stack.length = some stack'.length := by
  have htakes := takes_le_of_step h
  refine depthAfter?_eq_some.mpr ⟨htakes, ?_⟩
  cases i with
  | push | loadType =>
      rw [step] at h
      cases h
      rfl
  | load =>
      rw [step] at h
      obtain ⟨v, w₁, -, h⟩ := ok_of_run_bind h
      cases h
      rfl
  | binary =>
      match stack, htakes with
      | right :: left :: stack, _ =>
          rw [step] at h
          obtain ⟨m, w₁, -, h⟩ := ok_of_run_bind h
          obtain ⟨v, w₂, -, h⟩ := ok_of_run_bind h
          cases h
          rfl
  | get =>
      match stack, htakes with
      | o :: stack, _ =>
          rw [step] at h
          obtain ⟨v, w₁, -, h⟩ := ok_of_run_bind h
          cases h
          rfl
  | call =>
      match stack, htakes with
      | o :: stack, _ =>
          rw [step] at h
          obtain ⟨_, w₁, -, h⟩ := ok_of_run_bind h
          obtain ⟨_, w₂, -, h⟩ := ok_of_run_bind h
          obtain ⟨_, w₃, -, h⟩ := ok_of_run_bind h
          obtain ⟨v, w₄, -, h⟩ := ok_of_run_bind h
          cases h
          rfl
  | ternary =>
      rw [step_ternary] at h
      obtain ⟨c, w₁, -, h⟩ := ok_of_run_bind h
      obtain ⟨v, w₂, -, h⟩ := ok_of_run_bind h
      cases h
      rfl
  | assign =>
      rw [step_assign] at h
      obtain ⟨v, w₁, -, h⟩ := ok_of_run_bind h
      obtain ⟨new, w₂, -, h⟩ := ok_of_run_bind h
      cases h
      rfl

end Instr

namespace Program

theorem depthFrom?_of_runFrom {p : Program} {stack stack' : List Value}
    (h : runFrom r stack p w = .ok stack' w') : depthFrom? stack.length p = some stack'.length := by
  induction p generalizing stack w with
  | nil =>
      rw [runFrom] at h
      cases h
      rfl
  | cons i is ih =>
      rw [runFrom] at h
      obtain ⟨stack₁, w₁, hstep, hrest⟩ := ok_of_run_bind h
      rw [depthFrom?, Instr.depthAfter?_of_step (Eval.ok_of_located hstep)]
      exact ih hrest

theorem result_eq_ok_iff {stack : List Value} {v : Value} : result stack = .ok v ↔ stack = [v] := by
  cases stack with
  | nil => simp [result]
  | cons u us => cases us <;> simp [result]

/-- A program that ends with a value has the one that it should have. -/
theorem depthFrom?_of_run {p : Program} {v : Value} (h : p.run r w = .ok v w') :
    p.depthFrom? 0 = some 1 := by
  obtain ⟨stack, w₁, hrun, hresult⟩ := ok_of_run_bind h
  cases hv : result stack with
  | error f =>
      rw [hv] at hresult
      cases hresult
  | ok u =>
      obtain rfl := result_eq_ok_iff.mp hv
      exact depthFrom?_of_runFrom hrun

end Program

namespace Task

/-- What there is to run is balanced, and an instruction finds enough. -/
def IsBalanced : Task → Prop
  | step i stack => i.isBalanced = true ∧ i.takes ≤ stack.length
  | run stack p => Program.isBalancedFrom stack.length p = true
  | runAll ps => Program.allBalanced ps = true
  | read place | writeBack place _ | assign place _ => place.isBalanced = true

/-- An instruction finds too few values, or a program ends with none or with more than one. -/
def IsLacking : Task → Prop
  | step i stack => stack.length < i.takes
  | run stack [] => stack.length ≠ 1
  | _ => False

variable {t t' : Task} {past : List Task}

theorem IsBalanced.not_isLacking (h : t.IsBalanced) : ¬t.IsLacking := by
  cases t with
  | step i stack => exact Nat.not_lt.mpr h.2
  | run stack p =>
      cases p with
      | nil => exact not_not.mpr (beq_iff_eq.mp h)
      | cons i is => exact id
  | runAll | read | writeBack | assign => exact id

theorem IsBalanced.of_calls (h : t.IsBalanced) (hcall : t.Calls r w past t' w') : t'.IsBalanced := by
  cases hcall with
  | head =>
      obtain ⟨hi, m, hm, -⟩ := Program.isBalancedFrom_cons.mp h
      exact ⟨hi, (Instr.depthAfter?_eq_some.mp hm).1⟩
  | tail hstep =>
      obtain ⟨-, m, hm, his⟩ := Program.isBalancedFrom_cons.mp h
      rw [Instr.depthAfter?_of_step hstep] at hm
      obtain rfl := Option.some.inj hm
      exact his
  | arguments => exact h.1
  | condition | yes | no | value | store => simp_all [IsBalanced, Instr.isBalanced]
  | argument | nextArguments => simp_all [IsBalanced, Program.allBalanced]
  | readOwner | compute | readAgain | writeOwner | assignOwner | updateOwner => exact h

theorem IsBalanced.of_occurs (h : t.IsBalanced) (hoccurs : t.Occurs r w t' w') : t'.IsBalanced := by
  induction hoccurs with
  | here => exact h
  | call hcall _ _ ih => exact ih (h.of_calls hcall)

end Task

/-! ### Reports -/

theorem Fault.not_isStack_notPlace : ¬(Fault.internal "assignment to a non-place").IsStack := by
  intro h
  obtain ⟨message, c, heq, hc, hmem⟩ := h.last
  obtain rfl := Fault.internal.inj heq
  obtain rfl : 'e' = c := Option.some.inj ((by decide : _ = some 'e').symm.trans hc)
  simp at hmem

/-- A program that leaves the one value it should leave yields it. -/
theorem Eval.PassesOn.run {P : Fault → Prop} {asks : HostCall → Memory H → Prop} {p : Program}
    (hp : p.isBalanced = true) (h : (Program.runFrom r [] p).PassesOn P r asks w) :
    (p.run r).PassesOn P r asks w := by
  refine h.bind fun stack w' hrun => ?_
  have hdepth := Program.depthFrom?_of_runFrom hrun
  rw [List.length_nil, (Program.isBalancedFrom_iff.mp hp).1] at hdepth
  obtain ⟨v, rfl⟩ := List.length_eq_one_iff.mp (Option.some.inj hdepth).symm
  exact passesOn_pure v

section

open Eval

variable (r)

mutual

theorem Instr.step_passesOn {i : Instr} {stack : List Value} (hi : i.isBalanced = true)
    (htakes : i.takes ≤ stack.length) (w : World H) :
    (i.step r stack).PassesOn Fault.IsStack r ((Task.step i stack).Asks r w) w := by
  have hP (f : Fault) (hf : f.IsStack) := hf.isInternal
  cases i with
  | push | loadType =>
      rw [Instr.step]
      exact passesOn_pure _
  | load span name =>
      rw [Instr.step]
      refine PassesOn.bind ?_ fun v w' _ => passesOn_pure _
      exact passesOn_load hP fun x o hx ho => (Task.Puts.copyLoaded hx ho).asks
  | binary span op =>
      match stack, htakes with
      | right :: left :: stack, _ =>
          rw [Instr.step]
          refine passesOn_memory (PassesOn.bind ?_ fun v w' _ => passesOn_pure _)
          rcases Value.binary_yields w.memory op left right with h | ⟨-, h⟩
          · exact passesOn_yields hP h
          · rw [h]
            exact passesOn_fail (Fault.not_isStack_notBinary op)
  | get span name =>
      match stack, htakes with
      | o :: stack, _ =>
          rw [Instr.step]
          exact (passesOn_access hP Task.Puts.get.asks).bind fun v w' _ => passesOn_pure _
  | call span name typeArgs args =>
      match stack, htakes with
      | o :: stack, _ =>
          rw [Instr.step, Eval.checkReceiver]
          cases hnull : o.isNull with
          | true => exact (passesOn_fail fun h => by cases h.isInternal).bind fun _ _ h => by cases h
          | false =>
              refine passesOn_yields_bind hP (Discipline.typeOf_yields o) fun t ht => ?_
              refine ((Program.runAll_passesOn hi w).of_calls (.arguments hnull ht)).bind
                fun vs w' hvs => ?_
              exact (passesOn_invoke hP (Task.Puts.call hvs).asks).bind fun v w'' _ => passesOn_pure _
  | ternary span cond yes no =>
      simp only [Instr.isBalanced, Bool.and_eq_true, and_assoc] at hi
      obtain ⟨hcond, hyes, hno⟩ := hi
      rw [Instr.step_ternary]
      refine (((Program.runFrom_passesOn [] hcond w).of_calls .condition).run hcond).bind
        fun c w₁ hrun => ?_
      have hchoose : (Eval.choose c (Program.run r yes) (Program.run r no)).PassesOn Fault.IsStack r
          ((Task.step (.ternary span cond yes no) stack).Asks r w) w₁ := by
        rw [Eval.choose.eq_def]
        split
        · exact ((Program.runFrom_passesOn [] hyes w₁).of_calls (.yes hrun)).run hyes
        · exact ((Program.runFrom_passesOn [] hno w₁).of_calls (.no hrun)).run hno
        · exact passesOn_fail (by simp [Fault.IsStack])
      exact hchoose.bind fun v w₂ _ => passesOn_pure _
  | assign span place value =>
      obtain ⟨hplace, hvalue⟩ := Bool.and_eq_true_iff.mp hi
      rw [Instr.step_assign]
      refine (((Program.runFrom_passesOn [] hvalue w).of_calls .value).run hvalue).bind
        fun v w₁ hrun => ?_
      refine ((Place.assign_passesOn hplace v w₁).of_calls (.store hrun)).bind ?_
      exact fun new w₂ _ => passesOn_pure _

theorem Program.runFrom_passesOn {p : List Instr} (stack : List Value)
    (hp : Program.isBalancedFrom stack.length p = true) (w : World H) :
    (Program.runFrom r stack p).PassesOn Fault.IsStack r ((Task.run stack p).Asks r w) w := by
  cases p with
  | nil =>
      rw [Program.runFrom]
      exact passesOn_pure _
  | cons i is =>
      obtain ⟨hi, m, hm, his⟩ := Program.isBalancedFrom_cons.mp hp
      have hstep := Instr.step_passesOn hi (Instr.depthAfter?_eq_some.mp hm).1 w
      rw [Program.runFrom]
      refine ((hstep.of_calls .head).located i.span).bind fun stack' w' hrun => ?_
      rw [Instr.depthAfter?_of_step (ok_of_located hrun)] at hm
      obtain rfl := Option.some.inj hm
      exact (Program.runFrom_passesOn stack' his w').of_calls (.tail (ok_of_located hrun))

theorem Program.runAll_passesOn {ps : List (List Instr)} (hps : Program.allBalanced ps = true)
    (w : World H) :
    (Program.runAll r ps).PassesOn Fault.IsStack r ((Task.runAll ps).Asks r w) w := by
  have hP (f : Fault) (hf : f.IsStack) := hf.isInternal
  cases ps with
  | nil =>
      rw [Program.runAll]
      exact passesOn_pure _
  | cons p ps =>
      obtain ⟨hp, hps⟩ := Bool.and_eq_true_iff.mp hps
      rw [Program.runAll_cons]
      refine (((Program.runFrom_passesOn [] hp w).of_calls .argument).run hp).bind
        fun v w₁ hrun => ?_
      refine passesOn_yields_bind hP (r.directory.checkAllowed_yields v) fun _ hallowed => ?_
      refine ((Program.runAll_passesOn hps w₁).of_calls (.nextArguments hrun hallowed)).bind ?_
      exact fun vs w₂ _ => passesOn_pure _

theorem Place.read_passesOn {place : Place} (hplace : place.isBalanced = true) (w : World H) :
    (place.read r).PassesOn Fault.IsStack r ((Task.read place).Asks r w) w := by
  have hP (f : Fault) (hf : f.IsStack) := hf.isInternal
  cases place with
  | var name =>
      rw [Place.read]
      exact passesOn_load hP fun x o hx ho => (Task.Puts.copyRead hx ho).asks
  | member owner name span =>
      have howner : owner.isBalanced = true := hplace
      rw [Place.read]
      refine ((Place.read_passesOn howner w).of_calls .readOwner).bind fun o w' hread => ?_
      exact passesOn_readMember hP (Task.Puts.read hread).asks
  | static tag =>
      rw [Place.read]
      exact passesOn_pure _
  | computed p =>
      rw [Place.read]
      exact ((Program.runFrom_passesOn [] hplace w).of_calls .compute).run hplace

theorem Place.writeBack_passesOn {place : Place} (hplace : place.isBalanced = true) (v : Value)
    (w : World H) :
    (place.writeBack r v).PassesOn Fault.IsStack r ((Task.writeBack place v).Asks r w) w := by
  have hP (f : Fault) (hf : f.IsStack) := hf.isInternal
  cases place with
  | var name =>
      rw [Place.writeBack]
      split
      · refine passesOn_lookup hP fun x _ => ?_
        intro e w' h
        cases h
      · exact passesOn_pure _
  | member owner name span =>
      have howner : owner.isBalanced = true := hplace
      rw [Place.writeBack]
      split
      · next hv =>
        refine ((Place.read_passesOn howner w).of_calls (.readAgain hv)).bind fun o w₁ hread => ?_
        refine (passesOn_writeMember hP (Task.Puts.writeBack hread).asks).bind
          fun _ w₂ hwritten => ?_
        exact (Place.writeBack_passesOn howner o w₂).of_calls (.writeOwner hv hread hwritten)
      · exact passesOn_pure _
  | static | computed =>
      rw [Place.writeBack]
      exact passesOn_pure _

theorem Place.assign_passesOn {place : Place} (hplace : place.isBalanced = true) (v : Value)
    (w : World H) :
    (place.assign r v).PassesOn Fault.IsStack r ((Task.assign place v).Asks r w) w := by
  have hP (f : Fault) (hf : f.IsStack) := hf.isInternal
  cases place with
  | var name =>
      rw [Place.assign]
      exact passesOn_updateVariable hP v
  | member owner name span =>
      have howner : owner.isBalanced = true := hplace
      rw [Place.assign]
      refine PassesOn.located ?_ span
      refine ((Place.read_passesOn howner w).of_calls .assignOwner).bind fun o w₁ hread => ?_
      refine (passesOn_updateMember hP (Task.Puts.assignRead hread).asks fun t d new w' hd hnew =>
        (Task.Puts.assign hread hd hnew).asks).bind fun new w₂ hupdated => ?_
      refine ((Place.writeBack_passesOn howner o w₂).of_calls (.updateOwner hread hupdated)).bind ?_
      exact fun _ w₃ _ => passesOn_pure new
  | static | computed =>
      rw [Place.assign]
      exact passesOn_fail Fault.not_isStack_notPlace

end

end

/-! ### Compiled programs -/

/-- The program puts one value on top of any others. -/
def Program.Adds (p : Program) : Prop :=
  (∀ n, p.depthFrom? n = some (n + 1)) ∧ ∀ i ∈ p, i.isBalanced = true

namespace Program.Adds

variable {p q : Program}

theorem singleton {i : Instr} (htakes : i.takes = 0) (hi : i.isBalanced = true) : Adds [i] := by
  refine ⟨fun n => ?_, List.forall_mem_singleton.mpr hi⟩
  simp [depthFrom?, Instr.depthAfter?, htakes]

/-- What follows may take the value, along with others that are there. -/
theorem concat {i : Instr} (hp : p.Adds) (htakes : i.takes = 1) (hi : i.isBalanced = true) :
    Adds (p ++ [i]) := by
  refine ⟨fun n => ?_, List.forall_mem_append.mpr ⟨hp.2, List.forall_mem_singleton.mpr hi⟩⟩
  simp [depthFrom?_append, hp.1, depthFrom?, Instr.depthAfter?, htakes]

theorem binary (hp : p.Adds) (hq : q.Adds) (span : Span) (op : Operator) :
    Adds (p ++ q ++ [.binary span op]) := by
  refine ⟨fun n => ?_, List.forall_mem_append.mpr ⟨List.forall_mem_append.mpr ⟨hp.2, hq.2⟩, ?_⟩⟩
  · simp [depthFrom?_append, hp.1, hq.1, depthFrom?, Instr.depthAfter?, Instr.takes]
  · exact List.forall_mem_singleton.mpr rfl

theorem isBalanced (h : p.Adds) : p.isBalanced = true := isBalancedFrom_iff.mpr ⟨h.1 0, h.2⟩

end Program.Adds

section

variable {scope : Scope}

mutual

theorem Program.adds_of_ofExpr {e : Expr} {p : Program} (h : Program.ofExpr scope e = .ok p) :
    p.Adds := by
  cases e with
  | literal span value =>
      rw [Program.ofExpr] at h
      obtain rfl := Except.ok.inj h
      exact .singleton rfl rfl
  | ident span name =>
      rw [Program.ofExpr, Scope.variableOr] at h
      split at h
      · obtain rfl := Except.ok.inj h
        exact .singleton rfl rfl
      · cases h
  | binary span op left right =>
      rw [Program.ofExpr, bind_eq_ok] at h
      obtain ⟨pl, hl, h⟩ := h
      obtain ⟨pr, hr, h⟩ := bind_eq_ok.mp h
      obtain rfl := Except.ok.inj h
      exact (Program.adds_of_ofExpr hl).binary (Program.adds_of_ofExpr hr) span op
  | assign span target value =>
      rw [Program.ofExpr, bind_eq_ok] at h
      obtain ⟨place, hplace, h⟩ := h
      obtain ⟨pv, hv, h⟩ := bind_eq_ok.mp h
      obtain rfl := Except.ok.inj h
      have hvalue := (Program.adds_of_ofExpr hv).isBalanced
      exact .singleton rfl (Bool.and_eq_true_iff.mpr ⟨Place.isBalanced_of_ofTarget hplace, hvalue⟩)
  | ternary span cond yes no =>
      rw [Program.ofExpr, bind_eq_ok] at h
      obtain ⟨pc, hc, h⟩ := h
      obtain ⟨py, hy, h⟩ := bind_eq_ok.mp h
      obtain ⟨pn, hn, h⟩ := bind_eq_ok.mp h
      obtain rfl := Except.ok.inj h
      have hcond := (Program.adds_of_ofExpr hc).isBalanced
      have hyes := (Program.adds_of_ofExpr hy).isBalanced
      have hno := (Program.adds_of_ofExpr hn).isBalanced
      exact .singleton rfl (by simp_all [Instr.isBalanced, Program.isBalanced])
  | member span receiver name =>
      rw [Program.ofExpr, bind_eq_ok] at h
      obtain ⟨pr, hr, h⟩ := h
      obtain rfl := Except.ok.inj h
      exact (Program.adds_of_ofReceiver hr).concat rfl rfl
  | call span receiver method typeArgs args =>
      rw [Program.ofExpr, bind_eq_ok] at h
      obtain ⟨pr, hr, h⟩ := h
      obtain ⟨tags, -, h⟩ := bind_eq_ok.mp h
      obtain ⟨ps, hs, h⟩ := bind_eq_ok.mp h
      obtain rfl := Except.ok.inj h
      exact (Program.adds_of_ofReceiver hr).concat rfl (Program.allBalanced_of_ofArguments hs)
termination_by (sizeOf e, 0)

theorem Program.adds_of_ofReceiver {e : Expr} {p : Program}
    (h : Program.ofReceiver scope e = .ok p) : p.Adds := by
  rw [Program.ofReceiver] at h
  split at h
  · obtain ⟨tag, -, h⟩ := bind_eq_ok.mp h
    obtain rfl := Except.ok.inj h
    exact .singleton rfl rfl
  · exact Program.adds_of_ofExpr h
termination_by (sizeOf e, 1)

theorem Program.allBalanced_of_ofArguments {es : List Expr} {ps : List Program}
    (h : Program.ofArguments scope es = .ok ps) : Program.allBalanced ps = true := by
  cases es with
  | nil =>
      rw [Program.ofArguments] at h
      obtain rfl := Except.ok.inj h
      rfl
  | cons e es =>
      rw [Program.ofArguments, bind_eq_ok] at h
      obtain ⟨p, hp, h⟩ := h
      obtain ⟨qs, hq, h⟩ := bind_eq_ok.mp h
      obtain rfl := Except.ok.inj h
      exact Bool.and_eq_true_iff.mpr
        ⟨(Program.adds_of_ofExpr hp).isBalanced, Program.allBalanced_of_ofArguments hq⟩
termination_by (sizeOf es, 0)

theorem Place.isBalanced_of_ofTarget {e : Expr} {place : Place}
    (h : Place.ofTarget scope e = .ok place) : place.isBalanced = true := by
  cases e with
  | ident span name =>
      rw [Place.ofTarget, Scope.variableOr] at h
      split at h
      · obtain rfl := Except.ok.inj h
        rfl
      · cases h
  | member span owner name =>
      rw [Place.ofTarget, bind_eq_ok] at h
      obtain ⟨place, hplace, h⟩ := h
      obtain rfl := Except.ok.inj h
      have howner := Place.isBalanced_of_ofOwner hplace
      exact howner
  | literal | binary | assign | ternary | call => simp [Place.ofTarget] at h
termination_by (sizeOf e, 0)

theorem Place.isBalanced_of_ofOwner {e : Expr} {place : Place}
    (h : Place.ofOwner scope e = .ok place) : place.isBalanced = true := by
  rw [Place.ofOwner] at h
  split at h
  · obtain ⟨tag, -, h⟩ := bind_eq_ok.mp h
    obtain rfl := Except.ok.inj h
    rfl
  · split at h
    · exact Place.isBalanced_of_ofTarget h
    · obtain ⟨p, hp, h⟩ := bind_eq_ok.mp h
      obtain rfl := Except.ok.inj h
      exact (Program.adds_of_ofExpr hp).isBalanced
termination_by (sizeOf e, 1)

end

end

/-- If the check passes, then throughout a run no instruction finds too few values and no program ends
with none or with more than one, and no error says so, unless something that is asked of a host in the
course of the run ends in the very fault. If already the depth of the program itself comes out wrong, then
no run ends with a value. Programs that are compiled from expressions pass. -/
theorem Program.stack_disciplined (p : Program) (r : Registry H) (w : World H) :
    (p.isBalanced = true →
      (∀ t w', (Task.run [] p).Occurs r w t w' → ¬t.IsLacking) ∧
      ∀ err w', p.run r w = .error err w' → err.fault.IsStack →
        ∃ q m, (Task.run [] p).Asks r w q m ∧ q.Raises r m err.fault) ∧
    (p.depthFrom? 0 ≠ some 1 → ∀ v w', p.run r w ≠ .ok v w') ∧
    ∀ scope e, Program.ofExpr scope e = .ok p → p.isBalanced = true := by
  refine ⟨fun hp => ⟨fun t w' hoccurs => ?_, fun err w' hrun => ?_⟩, fun hdepth v w' hrun => ?_,
    fun scope e h => (Program.adds_of_ofExpr h).isBalanced⟩
  · have hbalanced : (Task.run [] p).IsBalanced := hp
    exact (hbalanced.of_occurs hoccurs).not_isLacking
  · exact (Program.runFrom_passesOn r [] hp w).run hp err w' hrun
  · exact hdepth (Program.depthFrom?_of_run hrun)

/-- A sum whose right side is one of two assignments, of which one is to a member of an enumeration value
and the other to nothing that can be assigned to; and a sum that has one operand only. -/
theorem Program.stack_disciplined_sum :
    let p : Program := [.load ⟨0, 1⟩ "x",
      .ternary ⟨2, 9⟩ [.load ⟨2, 3⟩ "b"]
        [.assign ⟨4, 9⟩ (.member (.computed [.loadType ⟨4, 5⟩ (.enum "Mode"), .get ⟨4, 6⟩ "Run"]) "Name"
          ⟨4, 7⟩) [.push ⟨8, 9⟩ .null]]
        [.assign ⟨4, 9⟩ (.computed [.push ⟨4, 5⟩ .null]) [.push ⟨8, 9⟩ .null]],
      .binary ⟨0, 9⟩ .add]
    let q : Program := [.load ⟨0, 1⟩ "x", .binary ⟨0, 9⟩ .add]
    let r : Registry Sample.host := Registry.empty.registerEnum "Mode" ["Idle", "Run"]
    p.isBalanced = true ∧ (∀ w t w', (Task.run [] p).Occurs r w t w' → ¬t.IsLacking) ∧
      (∀ w err w', p.run r w = .error err w' → ¬err.fault.IsStack) ∧
      q.depthFrom? 0 ≠ some 1 ∧ ∀ w v w', q.run r w ≠ .ok v w' := by
  intro p q r
  have hp : p.isBalanced = true := by decide
  have hq : q.depthFrom? 0 ≠ some 1 := by decide
  have hr : ∀ t ∈ r.types, t.Avoids Fault.IsStack :=
    List.forall_mem_singleton.mpr (Enumeration.avoids _)
  have hdisciplined (w : World Sample.host) := (Program.stack_disciplined p r w).1 hp
  refine ⟨hp, fun w => (hdisciplined w).1, fun w err w' hrun hstack => ?_, hq, fun w => ?_⟩
  · obtain ⟨q, m, -, hraises⟩ := (hdisciplined w).2 err w' hrun hstack
    exact hraises.not_of_avoids hr hstack
  · exact (Program.stack_disciplined q r w).2.1 hq

end Formula
