import Formula.Proofs.Compilation
import Formula.Proofs.Occurrence
import Formula.Proofs.ReadOnly
import Formula.Proofs.Rerun
import Formula.Proofs.Watch

/-!
Runs of formulas that only read can be repeated in a world that holds the same under other numbers.
-/

namespace Formula

variable {H : Host} {α β γ : Type} {off : List String}

/-- The worlds of a run that began with `w₀` and of its repetition. What the variables hold has the same
number in both. -/
structure World.Rerun (ρ : Renumbering) (w₀ w w' : World H) : Prop where
  memory : w₀.memory.Rerun ρ w.memory w'.memory
  bindings : w.bindings = w₀.bindings
  same : w'.bindings = w₀.bindings
  vars : ∀ x ∈ w₀.bindings.vars, ρ.value x.get = x.get

namespace Registry

variable (r : Registry H) (ρ : Renumbering)

theorem typeOf_value (v : Value) : r.typeOf (ρ.value v) = r.typeOf v := by
  rw [typeOf, typeOf, ρ.typeTag_value]

theorem checkAllowed_value (types : Directory) (v : Value) :
    types.checkAllowed (ρ.value v) = types.checkAllowed v := by
  cases v <;> rfl

variable {r}

theorem Steady.copyOnLoad (hr : r.Steady off) (v : Value) : r.copyOnLoad v = pure v := by
  rcases r.copyOnLoad_cases v with h | ⟨o, t, copy, -, ht, hcopy, -⟩
  · exact h
  · rw [(hr t (mem_of_find? ht).1).copy o] at hcopy
    cases hcopy

end Registry

namespace Eval

variable {ρ : Renumbering} {w₀ : World H} {r : Registry H}

section

variable {P : World H → World H → Prop} {g : α → β}

theorem liftExcept_repeats (g : α → β) (x : Except Fault α) :
    Repeats P g (liftM x : Eval H α) (liftM (x.map g) : Eval H β) := by
  cases x with
  | ok a => exact .pure rfl
  | error f => exact .throw (EvalError.of f)

theorem andThen_repeats (x : Except Fault γ) {f : γ → Eval H α} {f' : γ → Eval H β}
    (hf : ∀ a, Repeats P g (f a) (f' a)) : Repeats P g (liftM x >>= f) (liftM x >>= f') := by
  cases x with
  | ok a => exact hf a
  | error e => exact .throw (EvalError.of e)

theorem located_repeats (span : Span) {x : Eval H α} {y : Eval H β} (h : Repeats P g x y) :
    Repeats P g (x.located span) (y.located span) := by
  intro w w' hw
  have h := h w w' hw
  rw [located, located]
  generalize x w = z at h
  generalize y w' = z' at h
  cases h with
  | ok a h => exact .ok a h
  | error e h => exact .error (e.orSpan span) h

end

theorem ofAction_repeats {g : α → β} {x : Action H α} {y : Action H β}
    (h : Repeats (w₀.memory.Rerun ρ) g x y) :
    Repeats (w₀.Rerun ρ) g (liftM x : Eval H α) (liftM y : Eval H β) := by
  intro w w' hw
  have h := h _ _ hw.memory
  change Recurs _ _ (ofAction x w) (ofAction y w')
  rw [ofAction, ofAction]
  generalize x w.memory = z at h
  generalize y w'.memory = z' at h
  cases h with
  | ok a h => exact .ok a ⟨h, hw.bindings, hw.same, hw.vars⟩
  | error f h => exact .error (EvalError.of f) ⟨h, hw.bindings, hw.same, hw.vars⟩

theorem bind_memory_repeats {g : α → β} {f : Memory H → Eval H α} {f' : Memory H → Eval H β}
    (hf : ∀ m m', w₀.memory.Rerun ρ m m' → Repeats (w₀.Rerun ρ) g (f m) (f' m')) :
    Repeats (w₀.Rerun ρ) g (memory >>= f) (memory >>= f') :=
  fun w w' hw => hf _ _ hw.memory w w' hw

theorem load_repeats (hr : r.Steady off) (name : String) :
    Repeats (w₀.Rerun ρ) ρ.value (load r name) (load r name) := by
  intro w w' hw
  rw [load]
  cases hx : w₀.bindings.find? name with
  | none =>
      rw [run_bind_of_error (lookup_of_find?_none (hw.bindings ▸ hx)),
        run_bind_of_error (lookup_of_find?_none (hw.same ▸ hx))]
      exact .error _ hw
  | some x =>
      rw [run_bind_of_ok (lookup_of_find? (hw.bindings ▸ hx)),
        run_bind_of_ok (lookup_of_find? (hw.same ▸ hx)), hr.copyOnLoad]
      -- Nothing is copied, so that what is loaded is what the variable holds.
      have hvalue := hw.vars x (List.mem_of_find?_eq_some hx)
      exact andThen_repeats _ (fun _ => .pure hvalue.symm) w w' hw

theorem readMember_repeats (hr : r.Steady off) (o : Value) (name : String) :
    Repeats (w₀.Rerun ρ) ρ.value (readMember r o name) (readMember r (ρ.value o) name) := by
  have hfind : findMember r (ρ.value o) name = findMember r o name := by
    rw [findMember, findMember, r.typeOf_value, ρ.isTypeRoot_value]
  rw [readMember, readMember, hfind]
  cases hm : findMember r o name with
  | error f => exact .throw (EvalError.of f)
  | ok found =>
      obtain ⟨t, m⟩ := found
      obtain ⟨ht, hmember⟩ := findMember_eq_ok hm
      have ht := hr t (Registry.mem_of_find? ht).1
      have hsteady : m.Steady := by
        rw [HostType.HasMember] at hmember
        split at hmember
        · exact ht.staticMember hmember
        · exact ht.member hmember
      refine ofAction_repeats ?_
      rw [Member.get, Member.get]
      cases hget : m.getter? with
      | none => exact .throw _
      | some get => exact hsteady get hget ρ w₀.memory o

theorem checkReceiver_repeats {P : World H → World H → Prop} (o : Value) (name : String) :
    Repeats P id (checkReceiver o name) (checkReceiver (ρ.value o) name) := by
  rw [checkReceiver, checkReceiver, ρ.isNull_value]
  split
  · exact .throw _
  · exact .pure rfl

theorem access_repeats (hr : r.Steady off) (o : Value) (name : String) :
    Repeats (w₀.Rerun ρ) ρ.value (access r o name) (access r (ρ.value o) name) := by
  refine (checkReceiver_repeats o name).bind fun _ => (readMember_repeats hr o name).bind fun v => ?_
  rw [Registry.checkAllowed_value]
  exact andThen_repeats _ fun _ => .pure rfl

theorem invoke_repeats (hr : r.Steady off) (o : Value) {name : String} (hname : name ∉ off)
    (typeArgs : List TypeTag) (args : List Value) :
    Repeats (w₀.Rerun ρ) ρ.value (invoke r o name typeArgs args)
      (invoke r (ρ.value o) name typeArgs (args.map ρ.value)) := by
  rw [invoke, invoke, r.typeOf_value, ρ.isTypeRoot_value]
  cases ht : r.typeOf o with
  | error f => exact .throw (EvalError.of f)
  | ok t =>
      have hsteady := hr t (Registry.mem_of_find? (Registry.find?_of_typeOf ht)).1
      simp only [liftM_ok, pure_bind]
      rw [Method.select_renumbered]
      generalize hoverloads : (if o.isTypeRoot then t.staticMethods? name else t.methods? name) = fs?
      cases hselect : Method.select r.directory t.tag.name name fs? args typeArgs with
      | error f => exact .throw (EvalError.of f)
      | ok found =>
          obtain ⟨f, ws⟩ := found
          -- Whatever overload is chosen, it has the name, which is not one of `off`.
          have hf : f.Steady := by
            obtain ⟨⟨fs, rfl, hmem⟩, -⟩ :=
              (Method.select_yields r.directory t.tag.name name fs? args typeArgs).of_ok hselect
            split at hoverloads
            · exact hsteady.staticMethods hoverloads hname f hmem
            · exact hsteady.methods hoverloads hname f hmem
          refine (ofAction_repeats (hf ρ w₀.memory ⟨o, ws, typeArgs, r.directory⟩)).bind fun v => ?_
          have hresult : (if f.isVoid then ρ.value o else ρ.value v) =
              ρ.value (if f.isVoid then o else v) := by
            split <;> rfl
          dsimp only [Prod.map, id]
          rw [hresult, Registry.checkAllowed_value]
          exact andThen_repeats _ fun _ => .pure rfl

theorem choose_repeats {P : World H → World H → Prop} {yes no yes' no' : Eval H Value} (c : Value)
    (hyes : Repeats P ρ.value yes yes') (hno : Repeats P ρ.value no no') :
    Repeats P ρ.value (choose c yes no) (choose (ρ.value c) yes' no') := by
  cases c with
  | bool b =>
      cases b with
      | true => exact hyes
      | false => exact hno
  | null | int | float | string | enum | object | typeRoot => exact .throw _

variable (scope : Scope)

mutual

/-- Evaluation can be repeated if it assigns nothing and stays away from the names. -/
theorem eval_repeats (hr : r.Steady off) (e : Expr) (he : e.ReadOnly off) :
    Repeats (w₀.Rerun ρ) ρ.value (e.eval r scope) (e.eval r scope) := by
  cases e with
  | literal span c =>
      rw [Expr.eval]
      exact .pure (ρ.value_of_isScalar (by cases c <;> trivial)).symm
  | ident span name =>
      rw [Expr.eval]
      exact located_repeats span (load_repeats hr name)
  | binary span op left right =>
      rw [Expr.eval]
      refine (eval_repeats hr left he.1).bind fun a => (eval_repeats hr right he.2).bind fun b => ?_
      refine located_repeats span (bind_memory_repeats fun m m' hm => ?_)
      rw [Value.binary_renumbered hm.toRenumbered]
      exact liftExcept_repeats ρ.value _
  | assign => exact he.elim
  | ternary span cond yes no =>
      rw [Expr.eval]
      refine located_repeats span ((eval_repeats hr cond he.1).bind fun c => ?_)
      exact choose_repeats c (eval_repeats hr yes he.2.1) (eval_repeats hr no he.2.2)
  | member span receiver name =>
      rw [Expr.eval]
      refine (evalReceiver_repeats hr receiver he).bind fun o => ?_
      exact located_repeats span (access_repeats hr o name)
  | call span receiver method typeArgs args =>
      obtain ⟨hreceiver, hmethod, hargs⟩ := he
      rw [Expr.eval]
      refine (evalReceiver_repeats hr receiver hreceiver).bind fun o => located_repeats span ?_
      refine (checkReceiver_repeats o method).bind fun _ => ?_
      rw [r.typeOf_value]
      refine andThen_repeats _ fun _ => (evalArgs_repeats hr args hargs).bind fun vs => ?_
      exact invoke_repeats hr o hmethod _ vs
termination_by (sizeOf e, 0)

theorem evalReceiver_repeats (hr : r.Steady off) (e : Expr) (he : e.ReadOnly off) :
    Repeats (w₀.Rerun ρ) ρ.value (e.evalReceiver r scope) (e.evalReceiver r scope) := by
  rw [Expr.evalReceiver]
  split
  · exact .pure rfl
  · exact eval_repeats hr e he
termination_by (sizeOf e, 1)

theorem evalArgs_repeats (hr : r.Steady off) (es : List Expr) (hes : Expr.AllReadOnly off es) :
    Repeats (w₀.Rerun ρ) (List.map ρ.value) (Expr.evalArgs r scope es) (Expr.evalArgs r scope es) := by
  cases es with
  | nil =>
      rw [Expr.evalArgs]
      exact .pure rfl
  | cons e es =>
      rw [Expr.evalArgs]
      refine (eval_repeats hr e hes.1).bind fun v => ?_
      rw [Registry.checkAllowed_value]
      refine andThen_repeats _ fun _ => (evalArgs_repeats hr es hes.2).bind fun vs => ?_
      exact .pure rfl
termination_by (sizeOf es, 0)

end

end Eval

/-- What is evaluated, with its objects under other numbers. -/
def Renumbering.evaluation (ρ : Renumbering) (ev : Evaluation) : Evaluation :=
  ⟨ev.results.map ρ.value, ev.diagnostics⟩

section

variable {r : Registry H} (ρ : Renumbering) (w₀ : World H)

theorem CompiledStatement.run_repeats {s : CompiledStatement}
    (h : ∀ p, s.outcome = .ok p → Repeats (w₀.Rerun ρ) ρ.value (p.run r) (p.run r)) :
    Repeats (w₀.Rerun ρ) (Prod.map ρ.value id) (s.run r) (s.run r) := by
  intro w w' hw
  rw [run]
  cases ho : s.outcome with
  | error d => exact Repeats.pure rfl w w' hw
  | ok p =>
      have hp := h p ho w w' hw
      simp only
      generalize p.run r w = x at hp
      generalize p.run r w' = x' at hp
      cases hp with
      | ok v hv => exact .ok (v, none) hv
      | error e hv =>
          dsimp only
          split
          · exact .ok (Value.null, _) hv
          · exact .error _ hv

theorem CompiledStatement.runAll_repeats {ss : List CompiledStatement}
    (h : ∀ s ∈ ss, ∀ p, s.outcome = .ok p → Repeats (w₀.Rerun ρ) ρ.value (p.run r) (p.run r)) :
    Repeats (w₀.Rerun ρ) ρ.evaluation (runAll r ss) (runAll r ss) := by
  induction ss with
  | nil => exact .pure rfl
  | cons s ss ih =>
      obtain ⟨hs, hss⟩ := List.forall_mem_cons.mp h
      exact (run_repeats ρ w₀ hs).bind fun (v, d?) => (ih hss).bind fun ev => .pure rfl

theorem CompiledFormula.run_repeats (hr : r.Steady off) (maxHops : Nat) (scope : Scope)
    {formula : String} (h : ReadOnly off formula) :
    Repeats (w₀.Rerun ρ) ρ.evaluation ((compile maxHops scope formula).run r)
      ((compile maxHops scope formula).run r) := by
  refine CompiledStatement.runAll_repeats ρ w₀ fun s hs p hp => ?_
  obtain ⟨span, hspan, rfl⟩ := List.mem_map.mp hs
  obtain ⟨e, he, hof⟩ := Program.exists_of_ofSource (CompiledStatement.ofSource_of_outcome hp)
  rw [Program.run_ofExpr r scope hof]
  exact Eval.eval_repeats scope hr e (Expr.readOnly_of_ofSource he hspan h)

end

theorem Repeats.after {P : World H → World H → Prop} {g : α → β} {x : Eval H α} {y : Eval H β}
    (h : Repeats P g x y) {w w' : World H} (hw : P w w') : P (x.after w) (y.after w') := by
  have h := h w w' hw
  rw [Eval.after, Eval.after]
  generalize x w = z at h
  generalize y w' = z' at h
  cases h with
  | ok a h => exact h
  | error e h => exact h

end Formula
