import Formula.Proofs.Evaluation
import Formula.Proofs.Makeup

/-!
Properties of evaluations that depend on which variables they use and on the places that their errors
get. They are checked for the steps that evaluation is made of, once for all expressions.
-/

namespace Formula

variable {H : Host}

/-- A property of computations that reach only variables of which `N` is true and give only places of
which `P` is true. `holds` may say less than `placed` as long as errors have no place yet. -/
structure Conduct (H : Host) (N : String → Prop) (P : Span → Prop) where
  holds {α : Type} : Eval H α → Prop
  placed {α : Type} : Eval H α → Prop
  holds_of_placed {α : Type} {x : Eval H α} : placed x → holds x
  holds_bind {α β : Type} {x : Eval H α} {f : α → Eval H β} :
    holds x → (∀ a, holds (f a)) → holds (x >>= f)
  placed_bind {α β : Type} {x : Eval H α} {f : α → Eval H β} :
    placed x → (∀ a, placed (f a)) → placed (x >>= f)
  placed_pure {α : Type} (a : α) : placed (pure a)
  located {α : Type} {x : Eval H α} {span : Span} : P span → holds x → placed (x.located span)
  ofExcept {α : Type} (x : Except Fault α) : holds (liftM x : Eval H α)
  ofAction {α : Type} (x : Action H α) : holds (liftM x : Eval H α)
  memory : holds Eval.memory
  lookup {name : String} : N name → holds (Eval.lookup name)
  store {name : String} (v : Value) : N name → holds (Eval.store name v)

namespace Conduct

variable {N : String → Prop} {P : Span → Prop} (C : Conduct H N P) {α β : Type}

theorem holds_pure (a : α) : C.holds (pure a : Eval H α) := C.holds_of_placed (C.placed_pure a)

theorem fail_holds (f : Fault) : C.holds (Eval.fail f : Eval H α) := C.ofExcept (.error f)

theorem load_holds (r : Registry H) {name : String} (hname : N name) : C.holds (Eval.load r name) :=
  C.holds_bind (C.lookup hname) fun _ => C.holds_bind (C.ofExcept _) fun _ => C.ofAction _

theorem readMember_holds (r : Registry H) (o : Value) (name : String) :
    C.holds (Eval.readMember r o name) :=
  C.holds_bind (C.ofExcept _) fun _ => C.ofAction _

theorem writeMember_holds (r : Registry H) (o : Value) (name : String) (v : Value) :
    C.holds (Eval.writeMember r o name v) :=
  C.holds_bind (C.ofExcept _) fun _ => C.ofAction _

theorem checkReceiver_holds (o : Value) (name : String) : C.holds (Eval.checkReceiver o name) := by
  rw [Eval.checkReceiver]
  split
  · exact C.fail_holds _
  · exact C.holds_pure _

theorem updateMember_holds (r : Registry H) (o : Value) (name : String) (v : Value) :
    C.holds (Eval.updateMember r o name v) := by
  refine C.holds_bind (C.ofExcept _) fun (t, m) => ?_
  have store (w : Value) : C.holds (do
      r.directory.checkAllowed w
      m.set o w t.tag.name
      return w : Eval H Value) :=
    C.holds_bind (C.ofExcept _) fun _ => C.holds_bind (C.ofAction _) fun _ => C.holds_pure w
  have converted : C.holds (do
      let new ←
        if m.isReadable then do
          let current ← m.get o t.tag.name
          v.convert r.directory (← Eval.memory) current.typeTag
        else pure v
      r.directory.checkAllowed new
      m.set o new t.tag.name
      return new : Eval H Value) := by
    split
    · refine C.holds_bind (C.ofAction _) fun current => C.holds_bind C.memory fun w => ?_
      exact C.holds_bind (C.ofExcept _) store
    · exact C.holds_bind (C.holds_pure v) store
  dsimp only
  split
  · exact C.holds_bind (C.fail_holds _) fun _ => converted
  · exact converted

theorem access_holds (r : Registry H) (o : Value) (name : String) : C.holds (Eval.access r o name) := by
  refine C.holds_bind (C.checkReceiver_holds o name) fun _ => ?_
  refine C.holds_bind (C.readMember_holds r o name) fun v => ?_
  exact C.holds_bind (C.ofExcept _) fun _ => C.holds_pure v

theorem invoke_holds (r : Registry H) (o : Value) (name : String) (typeArgs : List TypeTag)
    (args : List Value) : C.holds (Eval.invoke r o name typeArgs args) := by
  refine C.holds_bind (C.ofExcept _) fun t => C.holds_bind (C.ofExcept _) fun (f, ws) => ?_
  exact C.holds_bind (C.ofAction _) fun v => C.holds_bind (C.ofExcept _) fun _ => C.holds_pure _

theorem updateVariable_holds (r : Registry H) {name : String} (hname : N name) (v : Value) :
    C.holds (Eval.updateVariable r name v) := by
  refine C.holds_bind (C.lookup hname) fun x => C.holds_bind C.memory fun w => ?_
  exact C.holds_bind (C.ofExcept _) fun new => C.holds_bind (C.store new hname) fun _ => C.holds_pure new

theorem choose_holds (c : Value) {yes no : Eval H Value} (hyes : C.holds yes) (hno : C.holds no) :
    C.holds (Eval.choose c yes no) := by
  rw [Eval.choose.eq_def]
  split
  · exact hyes
  · exact hno
  · exact C.fail_holds _

section

variable (r : Registry H) (scope : Scope)

mutual

/-- Evaluation has the property if the names and places of the expression are among those that it
allows. -/
theorem eval_placed (e : Expr) (hn : ∀ name ∈ e.names, N name) (hs : ∀ s ∈ e.spans, P s) :
    C.placed (e.eval r scope) := by
  have hspan := hs _ e.span_mem_spans
  cases e with
  | literal span value =>
      rw [Expr.eval]
      exact C.placed_pure _
  | ident span name =>
      rw [Expr.eval]
      exact C.located hspan (C.load_holds r (hn name (by simp [Expr.names])))
  | binary span op left right =>
      simp only [Expr.names, List.forall_mem_append] at hn
      simp only [Expr.spans, List.forall_mem_cons, List.forall_mem_append] at hs
      rw [Expr.eval]
      refine C.placed_bind (eval_placed left hn.1 hs.2.1) fun a => ?_
      refine C.placed_bind (eval_placed right hn.2 hs.2.2) fun b => ?_
      exact C.located hspan (C.holds_bind C.memory fun w => C.ofExcept _)
  | assign span target value =>
      simp only [Expr.names, List.forall_mem_append] at hn
      simp only [Expr.spans, List.forall_mem_cons, List.forall_mem_append] at hs
      rw [Expr.eval]
      have hvalue := C.holds_of_placed (eval_placed value hn.2 hs.2.2)
      refine C.located hspan (C.holds_bind hvalue fun v => ?_)
      exact assignTo_holds target hn.1 hs.2.1 v
  | ternary span cond yes no =>
      simp only [Expr.names, List.forall_mem_append] at hn
      simp only [Expr.spans, List.forall_mem_cons, List.forall_mem_append] at hs
      rw [Expr.eval]
      have hcond := C.holds_of_placed (eval_placed cond hn.1 hs.2.1)
      have hyes := C.holds_of_placed (eval_placed yes hn.2.1 hs.2.2.1)
      have hno := C.holds_of_placed (eval_placed no hn.2.2 hs.2.2.2)
      exact C.located hspan (C.holds_bind hcond fun c => C.choose_holds c hyes hno)
  | member span receiver name =>
      simp only [Expr.names] at hn
      simp only [Expr.spans, List.forall_mem_cons] at hs
      rw [Expr.eval]
      refine C.placed_bind (evalReceiver_placed receiver hn hs.2) fun o => ?_
      exact C.located hspan (C.access_holds r o name)
  | call span receiver method typeArgs args =>
      simp only [Expr.names, List.forall_mem_append] at hn
      simp only [Expr.spans, List.forall_mem_cons, List.forall_mem_append] at hs
      rw [Expr.eval]
      refine C.placed_bind (evalReceiver_placed receiver hn.1 hs.2.1) fun o => ?_
      refine C.located hspan (C.holds_bind (C.checkReceiver_holds o method) fun _ => ?_)
      refine C.holds_bind (C.ofExcept _) fun t => ?_
      refine C.holds_bind (evalArgs_holds args hn.2.2 hs.2.2.2) fun vs => ?_
      exact C.invoke_holds r o method _ vs
termination_by (sizeOf e, 0)

theorem evalReceiver_placed (e : Expr) (hn : ∀ name ∈ e.names, N name) (hs : ∀ s ∈ e.spans, P s) :
    C.placed (e.evalReceiver r scope) := by
  rw [Expr.evalReceiver]
  split
  · exact C.placed_pure _
  · exact eval_placed e hn hs
termination_by (sizeOf e, 1)

theorem evalArgs_holds (es : List Expr) (hn : ∀ name ∈ Expr.allNames es, N name)
    (hs : ∀ s ∈ Expr.allSpans es, P s) : C.holds (Expr.evalArgs r scope es) := by
  cases es with
  | nil =>
      rw [Expr.evalArgs]
      exact C.holds_pure _
  | cons e es =>
      simp only [Expr.allNames, List.forall_mem_append] at hn
      simp only [Expr.allSpans, List.forall_mem_append] at hs
      rw [Expr.evalArgs]
      refine C.holds_bind (C.holds_of_placed (eval_placed e hn.1 hs.1)) fun v => ?_
      refine C.holds_bind (C.ofExcept _) fun _ => ?_
      exact C.holds_bind (evalArgs_holds es hn.2 hs.2) fun vs => C.holds_pure _
termination_by (sizeOf es, 0)

theorem evalOwner_holds (e : Expr) (hn : ∀ name ∈ e.names, N name) (hs : ∀ s ∈ e.spans, P s) :
    C.holds (e.evalOwner r scope) := by
  cases ht : scope.typeRoot? e with
  | some tag =>
      rw [Expr.evalOwner_of_typeRoot r ht]
      exact C.holds_pure _
  | none =>
      have computed (hp : e.isPlace = false) : C.holds (e.evalOwner r scope) := by
        rw [Expr.evalOwner_of_not_place r hp]
        exact C.holds_of_placed (eval_placed e hn hs)
      cases e with
      | ident span name =>
          rw [Expr.evalOwner, ht]
          exact C.load_holds r (hn name (by simp [Expr.names]))
      | member span owner name =>
          simp only [Expr.names] at hn
          simp only [Expr.spans, List.forall_mem_cons] at hs
          rw [Expr.evalOwner, ht]
          exact C.holds_bind (evalOwner_holds owner hn hs.2) fun o => C.readMember_holds r o name
      | literal | binary | assign | ternary | call => exact computed rfl
termination_by (sizeOf e, 1)

theorem giveBack_holds (e : Expr) (hn : ∀ name ∈ e.names, N name) (hs : ∀ s ∈ e.spans, P s)
    (v : Value) : C.holds (e.giveBack r scope v) := by
  cases e with
  | ident span name =>
      have hname := hn name (by simp [Expr.names])
      rw [Expr.giveBack]
      split
      · exact C.holds_bind (C.lookup hname) fun _ => C.store v hname
      · exact C.holds_pure _
  | member span owner name =>
      simp only [Expr.names] at hn
      simp only [Expr.spans, List.forall_mem_cons] at hs
      rw [Expr.giveBack]
      split
      · refine C.holds_bind (evalOwner_holds owner hn hs.2) fun o => ?_
        refine C.holds_bind (C.writeMember_holds r o name v) fun _ => ?_
        exact giveBack_holds owner hn hs.2 o
      · exact C.holds_pure _
  | literal | binary | assign | ternary | call =>
      rw [Expr.giveBack_of_not_place r rfl]
      exact C.holds_pure _
termination_by (sizeOf e, 0)

theorem assignTo_holds (e : Expr) (hn : ∀ name ∈ e.names, N name) (hs : ∀ s ∈ e.spans, P s)
    (v : Value) : C.holds (e.assignTo r scope v) := by
  have hspan := hs _ e.span_mem_spans
  cases e with
  | ident span name =>
      rw [Expr.assignTo]
      exact C.updateVariable_holds r (hn name (by simp [Expr.names])) v
  | member span owner name =>
      simp only [Expr.names] at hn
      simp only [Expr.spans, List.forall_mem_cons] at hs
      rw [Expr.assignTo]
      refine C.holds_of_placed (C.located hspan ?_)
      refine C.holds_bind (evalOwner_holds owner hn hs.2) fun o => ?_
      refine C.holds_bind (C.updateMember_holds r o name v) fun new => ?_
      exact C.holds_bind (giveBack_holds owner hn hs.2 o) fun _ => C.holds_pure new
  | literal | binary | assign | ternary | call =>
      rw [Expr.assignTo]
      · exact C.holds_pure v
      all_goals simp
termination_by (sizeOf e, 0)

end

end

end Conduct

end Formula
