import Formula.Proofs.Evaluation
import Formula.Proofs.Outcomes

/-!
Compiled programs do what the evaluation of their expressions does.
-/

namespace Formula

namespace Eval

variable {H : Host} {α β : Type}

@[simp]
theorem located_pure (span : Span) (a : α) : (pure a : Eval H α).located span = pure a := rfl

theorem located_map (span : Span) (f : α → β) (x : Eval H α) :
    (f <$> x).located span = f <$> x.located span := by
  funext w
  simp only [located, Functor.map, EStateM.map]
  cases x w <;> rfl

end Eval

namespace Scope

theorem typeRoot?_of_static? {scope : Scope} {e : Expr} {span : Span} {tag : TypeTag}
    (h : scope.static? e = some (span, .ok tag)) : scope.typeRoot? e = some tag := by
  cases e with
  | ident s name =>
      simp only [static?, typeNamed, typeRoot?] at h ⊢
      split at h
      · simp at h
      · next hv =>
        rw [if_neg hv]
        cases ht : scope.type? name with
        | none => simp [ht] at h
        | some t => simp_all
  | literal | binary | assign | ternary | member | call => simp [static?] at h

theorem typeRoot?_of_static?_none {scope : Scope} {e : Expr} (h : scope.static? e = none) :
    scope.typeRoot? e = none := by
  cases e with
  | ident s name =>
      simp only [static?, typeRoot?] at h ⊢
      split at h
      · next hv => rw [if_pos hv]
      · simp at h
  | literal | binary | assign | ternary | member | call => rfl

theorem tags_of_typeArgs {scope : Scope} {as : List TypeArg} {tags : List TypeTag}
    (h : scope.typeArgs as = .ok tags) : scope.tags as = tags := by
  induction as generalizing tags with
  | nil => simpa [typeArgs, Scope.tags] using h
  | cons a as ih =>
      simp only [typeArgs, typeNamed] at h
      cases ht : scope.type? a.name with
      | none => simp [ht, bind, Except.bind] at h
      | some tag =>
          cases hs : scope.typeArgs as with
          | error f => simp [ht, hs, bind, Except.bind] at h
          | ok rest =>
              simp only [ht, hs, bind, Except.bind, Except.ok.injEq] at h
              subst h
              have := ih hs
              simp only [Scope.tags] at this
              simp [Scope.tags, ht, this]

end Scope

section

variable {H : Host} (r : Registry H) (scope : Scope)

theorem Program.runFrom_singleton (i : Instr) (stack : List Value) :
    Program.runFrom r stack [i] = (i.step r stack).located i.span := by
  simp [Program.runFrom]

theorem Program.result_of_push (x : Eval H Value) :
    (do Program.result (← (fun v => [v]) <$> x) : Eval H Value) = x := by
  simp [Program.result, liftM, monadLift, MonadLift.monadLift, Eval.ofExcept]

/-- What goes on with the result of a program that pushes one value goes on with that value. -/
theorem Program.result_of_push_bind {α : Type} (x : Eval H Value) (f : Value → Eval H α) :
    (do let v ← Program.result (← (fun v => [v]) <$> x); f v) = x >>= f := by
  rw [← bind_assoc, Program.result_of_push]

/-- An assignment alone runs the program of its value and stores what that leaves. -/
theorem Program.run_assign (span : Span) (place : Place) (value : Program) :
    Program.run r [.assign span place value] =
      (do let v ← Program.run r value; place.assign r v : Eval H Value).located span := by
  have hstep : Instr.step r (.assign span place value) [] =
      (fun v => [v]) <$> (do let v ← Program.run r value; place.assign r v : Eval H Value) := by
    simp only [Instr.step, Program.run, map_eq_pure_bind, bind_assoc]
  rw [Program.run, Program.runFrom_singleton, hstep, Eval.located_map, Program.result_of_push]
  rfl

mutual

/-- The program of an expression puts its value on top of whatever is on the stack. -/
theorem Program.runFrom_ofExpr (e : Expr) {p : Program} (h : Program.ofExpr scope e = .ok p)
    (stack : List Value) :
    Program.runFrom r stack p = (fun v => v :: stack) <$> e.eval r scope := by
  cases e with
  | literal span value =>
      simp only [Program.ofExpr, Except.ok.injEq] at h
      subst h
      simp [Program.runFrom, Instr.step, Expr.eval]
  | ident span name =>
      simp only [Program.ofExpr, Scope.variableOr] at h
      split at h
      · obtain rfl := Except.ok.inj h
        rw [Program.runFrom_singleton, Expr.eval, ← Eval.located_map]
        rfl
      · simp at h
  | binary span op left right =>
      rw [Program.ofExpr, bind_eq_ok] at h
      obtain ⟨pl, hl, h⟩ := h
      obtain ⟨pr, hr, h⟩ := bind_eq_ok.mp h
      obtain rfl := Except.ok.inj h
      rw [Program.runFrom_append, Program.runFrom_append, Program.runFrom_ofExpr left hl]
      simp only [bind_map_left, bind_assoc, Expr.eval, map_bind]
      congr 1
      funext a
      rw [Program.runFrom_ofExpr right hr]
      simp only [bind_map_left]
      congr 1
      funext b
      rw [Program.runFrom_singleton, ← Eval.located_map]
      simp only [Instr.step, Instr.span, map_eq_pure_bind, bind_assoc]
  | assign span target value =>
      rw [Program.ofExpr, bind_eq_ok] at h
      obtain ⟨place, hp, h⟩ := h
      obtain ⟨pv, hv, h⟩ := bind_eq_ok.mp h
      obtain rfl := Except.ok.inj h
      rw [Program.runFrom_singleton, Expr.eval, ← Eval.located_map, Instr.step,
        Program.runFrom_ofExpr value hv, Program.result_of_push_bind]
      simp only [Place.assign_ofTarget target hp, map_eq_pure_bind, bind_assoc, Instr.span]
  | ternary span cond yes no =>
      rw [Program.ofExpr, bind_eq_ok] at h
      obtain ⟨pc, hc, h⟩ := h
      obtain ⟨py, hy, h⟩ := bind_eq_ok.mp h
      obtain ⟨pn, hn, h⟩ := bind_eq_ok.mp h
      obtain rfl := Except.ok.inj h
      rw [Program.runFrom_singleton, Expr.eval, ← Eval.located_map, Instr.step,
        Program.runFrom_ofExpr cond hc, Program.result_of_push_bind,
        Program.runFrom_ofExpr yes hy, Program.result_of_push,
        Program.runFrom_ofExpr no hn, Program.result_of_push]
      simp only [map_eq_pure_bind, bind_assoc, Instr.span]
  | member span receiver name =>
      rw [Program.ofExpr, bind_eq_ok] at h
      obtain ⟨pr, hr, h⟩ := h
      obtain rfl := Except.ok.inj h
      rw [Program.runFrom_append, Program.runFrom_ofReceiver receiver hr]
      simp only [bind_map_left, Expr.eval, map_bind]
      congr 1
      funext o
      rw [Program.runFrom_singleton, ← Eval.located_map]
      simp only [Instr.step, Instr.span, map_eq_pure_bind]
  | call span receiver method typeArgs args =>
      rw [Program.ofExpr, bind_eq_ok] at h
      obtain ⟨pr, hr, h⟩ := h
      obtain ⟨tags, ht, h⟩ := bind_eq_ok.mp h
      obtain ⟨ps, hs, h⟩ := bind_eq_ok.mp h
      obtain rfl := Except.ok.inj h
      rw [Program.runFrom_append, Program.runFrom_ofReceiver receiver hr]
      simp only [bind_map_left, Expr.eval, map_bind]
      congr 1
      funext o
      rw [Program.runFrom_singleton, ← Eval.located_map]
      simp only [Instr.step, Instr.span, map_eq_pure_bind, bind_assoc,
        Program.runAll_ofArguments args hs, Scope.tags_of_typeArgs ht]
termination_by (sizeOf e, 0)

theorem Program.runFrom_ofReceiver (e : Expr) {p : Program}
    (h : Program.ofReceiver scope e = .ok p) (stack : List Value) :
    Program.runFrom r stack p = (fun v => v :: stack) <$> e.evalReceiver r scope := by
  rw [Program.ofReceiver] at h
  rw [Expr.evalReceiver]
  cases hs : scope.static? e with
  | none =>
      simp only [hs] at h
      rw [Scope.typeRoot?_of_static?_none hs]
      exact Program.runFrom_ofExpr e h stack
  | some static =>
      obtain ⟨span, tag?⟩ := static
      simp only [hs] at h
      obtain ⟨tag, rfl, h⟩ := bind_eq_ok.mp h
      obtain rfl := Except.ok.inj h
      rw [Scope.typeRoot?_of_static? hs, Program.runFrom_singleton]
      rfl
termination_by (sizeOf e, 1)

theorem Program.runAll_ofArguments (es : List Expr) {ps : List Program}
    (h : Program.ofArguments scope es = .ok ps) :
    Program.runAll r ps = Expr.evalArgs r scope es := by
  cases es with
  | nil =>
      rw [Program.ofArguments, Except.ok.injEq] at h
      subst h
      rw [Program.runAll, Expr.evalArgs]
  | cons e es =>
      rw [Program.ofArguments, bind_eq_ok] at h
      obtain ⟨p, hp, h⟩ := h
      obtain ⟨qs, hq, h⟩ := bind_eq_ok.mp h
      obtain rfl := Except.ok.inj h
      rw [Program.runAll, Expr.evalArgs, Program.runFrom_ofExpr e hp,
        Program.result_of_push_bind, Program.runAll_ofArguments es hq]
termination_by (sizeOf es, 0)

theorem Place.assign_ofTarget (e : Expr) {place : Place} (h : Place.ofTarget scope e = .ok place)
    (v : Value) : place.assign r v = e.assignTo r scope v := by
  cases e with
  | ident span name =>
      simp only [Place.ofTarget, Scope.variableOr] at h
      split at h
      · obtain rfl := Except.ok.inj h
        rw [Place.assign, Expr.assignTo]
      · simp at h
  | member span owner name =>
      rw [Place.ofTarget, bind_eq_ok] at h
      obtain ⟨place, hp, h⟩ := h
      obtain rfl := Except.ok.inj h
      rw [Place.assign, Expr.assignTo]
      simp only [Place.read_ofOwner owner hp, Place.writeBack_ofOwner owner hp]
  | literal | binary | assign | ternary | call => simp [Place.ofTarget] at h
termination_by (sizeOf e, 0)

theorem Place.read_ofTarget (e : Expr) {place : Place} (h : Place.ofTarget scope e = .ok place)
    (hs : scope.typeRoot? e = none) : place.read r = e.evalOwner r scope := by
  cases e with
  | ident span name =>
      simp only [Place.ofTarget, Scope.variableOr] at h
      split at h
      · obtain rfl := Except.ok.inj h
        rw [Place.read, Expr.evalOwner, hs]
      · simp at h
  | member span owner name =>
      rw [Place.ofTarget, bind_eq_ok] at h
      obtain ⟨place, hp, h⟩ := h
      obtain rfl := Except.ok.inj h
      rw [Place.read, Expr.evalOwner, hs]
      simp only [Place.read_ofOwner owner hp]
  | literal | binary | assign | ternary | call => simp [Place.ofTarget] at h
termination_by (sizeOf e, 0)

theorem Place.read_ofOwner (e : Expr) {place : Place} (h : Place.ofOwner scope e = .ok place) :
    place.read r = e.evalOwner r scope := by
  rw [Place.ofOwner] at h
  cases hs : scope.static? e with
  | none =>
      simp only [hs] at h
      have ht := Scope.typeRoot?_of_static?_none hs
      split at h
      · exact Place.read_ofTarget e h ht
      · next hp =>
        obtain ⟨p, he, h⟩ := bind_eq_ok.mp h
        obtain rfl := Except.ok.inj h
        rw [Place.read, Program.runFrom_ofExpr e he, Program.result_of_push,
          Expr.evalOwner_of_not_place r (by simpa using hp)]
  | some static =>
      obtain ⟨span, tag?⟩ := static
      simp only [hs] at h
      obtain ⟨tag, rfl, h⟩ := bind_eq_ok.mp h
      obtain rfl := Except.ok.inj h
      rw [Place.read, Expr.evalOwner_of_typeRoot r (Scope.typeRoot?_of_static? hs)]
termination_by (sizeOf e, 1)

theorem Place.writeBack_ofTarget (e : Expr) {place : Place}
    (h : Place.ofTarget scope e = .ok place) (hs : scope.typeRoot? e = none) (v : Value) :
    place.writeBack r v = e.giveBack r scope v := by
  cases e with
  | ident span name =>
      simp only [Place.ofTarget, Scope.variableOr] at h
      split at h
      · obtain rfl := Except.ok.inj h
        rw [Place.writeBack, Expr.giveBack, hs]
        simp
      · simp at h
  | member span owner name =>
      rw [Place.ofTarget, bind_eq_ok] at h
      obtain ⟨place, hp, h⟩ := h
      obtain rfl := Except.ok.inj h
      rw [Place.writeBack, Expr.giveBack, hs]
      simp only [Place.read_ofOwner owner hp, Place.writeBack_ofOwner owner hp]
      simp
  | literal | binary | assign | ternary | call => simp [Place.ofTarget] at h
termination_by (sizeOf e, 0)

theorem Place.writeBack_ofOwner (e : Expr) {place : Place}
    (h : Place.ofOwner scope e = .ok place) (v : Value) :
    place.writeBack r v = e.giveBack r scope v := by
  rw [Place.ofOwner] at h
  cases hs : scope.static? e with
  | none =>
      simp only [hs] at h
      have ht := Scope.typeRoot?_of_static?_none hs
      split at h
      · exact Place.writeBack_ofTarget e h ht v
      · next hp =>
        obtain ⟨p, he, h⟩ := bind_eq_ok.mp h
        obtain rfl := Except.ok.inj h
        rw [Place.writeBack, Expr.giveBack_of_not_place r (by simpa using hp)]
  | some static =>
      obtain ⟨span, tag?⟩ := static
      simp only [hs] at h
      obtain ⟨tag, rfl, h⟩ := bind_eq_ok.mp h
      obtain rfl := Except.ok.inj h
      rw [Place.writeBack, Expr.giveBack_of_typeRoot r (Scope.typeRoot?_of_static? hs)]
termination_by (sizeOf e, 1)

end

/-- Running a compiled expression is evaluating it. -/
theorem Program.run_ofExpr {e : Expr} {p : Program} (h : Program.ofExpr scope e = .ok p) :
    p.run r = e.eval r scope := by
  rw [Program.run, Program.runFrom_ofExpr r scope e h, Program.result_of_push]

end

end Formula
