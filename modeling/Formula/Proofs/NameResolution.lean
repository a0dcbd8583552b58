import Formula.Program.OfExpr
import Formula.Proofs.Outcomes
import Formula.Proofs.ParsedTree

/-!
What the names in a formula have to stand for. A statement that has been parsed compiles exactly if each
name stands for something that may be used where it is.
-/

namespace Formula

/-- A name, as it is used. -/
inductive Reference where
  /-- For its value, or to be assigned to. -/
  | value (name : String)
  /-- In front of a `.`. -/
  | receiver (name : String)
  | typeArg (name : String)

namespace Reference

/-- The fault of a name that stands for nothing. -/
def fault : Reference → ParseFault
  | value name | receiver name => .unknownVariable name
  | typeArg name => .unknownType name

end Reference

namespace Expr

def name? : Expr → Option String
  | ident _ name => some name
  | _ => none

mutual

def references : Expr → List Reference
  | literal _ _ => []
  | ident _ name => [.value name]
  | binary _ _ left right => left.references ++ right.references
  | assign _ target value => target.references ++ value.references
  | ternary _ cond yes no => cond.references ++ (yes.references ++ no.references)
  | member _ receiver _ =>
    match receiver.name? with
    | some name => [.receiver name]
    | none => receiver.references
  | call _ receiver _ typeArgs args =>
    (match receiver.name? with
      | some name => [.receiver name]
      | none => receiver.references) ++
    (typeArgs.map (.typeArg ·.name) ++ allReferences args)

def allReferences : List Expr → List Reference
  | [] => []
  | e :: es => e.references ++ allReferences es

end

/-- The names in what stands before a `.`. -/
def receiverReferences (e : Expr) : List Reference :=
  match e.name? with
  | some name => [.receiver name]
  | none => e.references

end Expr

mutual

/-- The variables that an instruction loads, or stores a value in. -/
def Instr.vars : Instr → List String
  | .push _ _ | .loadType _ _ | .binary _ _ | .get _ _ => []
  | .load _ name => [name]
  | .call _ _ _ args => Program.allVars args
  | .ternary _ cond yes no =>
    Program.vars cond ++ (Program.vars yes ++ Program.vars no)
  | .assign _ place value => place.vars ++ Program.vars value

def Program.vars : List Instr → List String
  | [] => []
  | i :: is => i.vars ++ Program.vars is

def Program.allVars : List (List Instr) → List String
  | [] => []
  | p :: ps => Program.vars p ++ Program.allVars ps

/-- The variable at which a place begins, and those of what computes its beginning. -/
def Place.vars : Place → List String
  | .var name => [name]
  | .member owner _ _ => owner.vars
  | .static _ => []
  | .computed p => Program.vars p

end

@[simp]
theorem Program.vars_append (p q : Program) :
    vars (p ++ q) = vars p ++ vars q := by
  induction p with
  | nil => rfl
  | cons i is ih => rw [List.cons_append, vars, vars, ih, List.append_assoc]

namespace Scope

/-- The name stands for something that may be used in this way. A variable hides a type. -/
def Resolves (scope : Scope) : Reference → Prop
  | .value name => scope.isVariable name = true
  | .receiver name => scope.isVariable name = true ∨ (scope.type? name).isSome = true
  | .typeArg name => (scope.type? name).isSome = true

/-- The names are those of variables. -/
def Knows (scope : Scope) (names : List String) : Prop :=
  ∀ name ∈ names, scope.isVariable name = true

/-- The references settle the outcome: all of them resolve and `P` is true of the result, or the fault is
that of one that does not resolve. -/
def Settles {α : Type} (scope : Scope) (refs : List Reference) (P : α → Prop) :
    Except ParseError α → Prop
  | .ok a => (∀ ref ∈ refs, scope.Resolves ref) ∧ P a
  | .error err => ∃ ref ∈ refs, ¬scope.Resolves ref ∧ err.fault = ref.fault

section

variable {scope : Scope} {α β : Type} {refs refs' : List Reference} {P : α → Prop} {Q : β → Prop}

theorem knows_nil (scope : Scope) : scope.Knows [] := fun _ h => absurd h List.not_mem_nil

theorem knows_singleton {name : String} (h : scope.isVariable name = true) : scope.Knows [name] :=
  List.forall_mem_singleton.mpr h

theorem Knows.append {names names' : List String} (h : scope.Knows names) (h' : scope.Knows names') :
    scope.Knows (names ++ names') :=
  List.forall_mem_append.mpr ⟨h, h'⟩

theorem Settles.ok {a : α} (ha : P a) : scope.Settles [] P (.ok a) :=
  ⟨fun _ h => absurd h List.not_mem_nil, ha⟩

theorem Settles.of_resolves {ref : Reference} {a : α} (href : scope.Resolves ref) (ha : P a) :
    scope.Settles [ref] P (.ok a) :=
  ⟨List.forall_mem_singleton.mpr href, ha⟩

theorem Settles.of_not_resolves {ref : Reference} {err : ParseError} (href : ¬scope.Resolves ref)
    (herr : err.fault = ref.fault) : scope.Settles [ref] P (.error err) :=
  ⟨ref, List.mem_singleton_self ref, href, herr⟩

theorem Settles.bind {x : Except ParseError α} {f : α → Except ParseError β}
    (hx : scope.Settles refs P x) (hf : ∀ a, P a → scope.Settles refs' Q (f a)) :
    scope.Settles (refs ++ refs') Q (x >>= f) := by
  cases x with
  | error err =>
      obtain ⟨ref, hmem, hne, hfault⟩ := hx
      exact ⟨ref, List.mem_append_left _ hmem, hne, hfault⟩
  | ok a =>
      obtain ⟨hrefs, ha⟩ := hx
      change scope.Settles (refs ++ refs') Q (f a)
      have hfa := hf a ha
      cases hb : f a with
      | error err =>
          rw [hb] at hfa
          obtain ⟨ref, hmem, hne, hfault⟩ := hfa
          exact ⟨ref, List.mem_append_right _ hmem, hne, hfault⟩
      | ok b =>
          rw [hb] at hfa
          exact ⟨List.forall_mem_append.mpr ⟨hrefs, hfa.1⟩, hfa.2⟩

theorem Settles.map {x : Except ParseError α} (hx : scope.Settles refs P x) {f : α → β}
    (hf : ∀ a, P a → Q (f a)) : scope.Settles refs Q (x >>= fun a => .ok (f a)) := by
  have h := hx.bind fun a ha => Settles.ok (hf a ha)
  rwa [List.append_nil] at h

theorem Settles.isOk_iff {x : Except ParseError α} (hx : scope.Settles refs P x) :
    (∃ a, x = .ok a) ↔ ∀ ref ∈ refs, scope.Resolves ref := by
  cases x with
  | ok a => exact ⟨fun _ => hx.1, fun _ => ⟨a, rfl⟩⟩
  | error err =>
      obtain ⟨ref, hmem, hne, -⟩ := hx
      exact ⟨fun ⟨_, h⟩ => (by cases h), fun h => absurd (h ref hmem) hne⟩

theorem variableOr_settles (span : Span) {name : String} {a : α}
    (ha : scope.isVariable name = true → P a) :
    scope.Settles [.value name] P (scope.variableOr span name a) := by
  rw [variableOr]
  split
  · next h => exact Settles.of_resolves h (ha h)
  · next h => exact Settles.of_not_resolves h rfl

theorem typeNamed_settles (scope : Scope) (span : Span) (name : String) :
    scope.Settles [.typeArg name] (fun _ => True) (scope.typeNamed span name .unknownType) := by
  rw [typeNamed]
  cases h : scope.type? name with
  | some tag => exact Settles.of_resolves (Option.isSome_iff_exists.mpr ⟨tag, h⟩) trivial
  | none => exact Settles.of_not_resolves (by simp [Resolves, h]) rfl

theorem typeArgs_settles (scope : Scope) (args : List TypeArg) :
    scope.Settles (args.map (.typeArg ·.name)) (fun _ => True) (scope.typeArgs args) := by
  induction args with
  | nil => exact Settles.ok trivial
  | cons a as ih =>
      rw [typeArgs]
      exact (scope.typeNamed_settles a.span a.name).bind fun tag _ => ih.map fun _ _ => trivial

theorem typeNamed_settles_receiver {name : String} (h : scope.isVariable name = false) (span : Span) :
    scope.Settles [.receiver name] (fun _ => True) (scope.typeNamed span name .unknownVariable) := by
  rw [typeNamed]
  cases ht : scope.type? name with
  | some tag => exact Settles.of_resolves (.inr (Option.isSome_iff_exists.mpr ⟨tag, ht⟩)) trivial
  | none => exact Settles.of_not_resolves (by simp [Resolves, h, ht]) rfl

/-- Before a `.`, a name that is no variable is that of a type, and all else is what it is elsewhere. -/
theorem static?_cases (scope : Scope) (e : Expr) :
    (∃ span name, e = .ident span name ∧ scope.isVariable name = false ∧
        scope.static? e = some (span, scope.typeNamed span name .unknownVariable)) ∨
      scope.static? e = none ∧
        ((∃ span name, e = .ident span name ∧ scope.isVariable name = true) ∨ e.name? = none) := by
  cases e with
  | ident span name =>
      rw [static?]
      cases h : scope.isVariable name with
      | true => exact .inr ⟨if_pos rfl, .inl ⟨span, name, rfl, h⟩⟩
      | false => exact .inl ⟨span, name, rfl, h, rfl⟩
  | literal | binary | assign | ternary | member | call => exact .inr ⟨rfl, .inr rfl⟩

end

end Scope

section

variable (scope : Scope)

mutual

theorem Program.ofExpr_settles {e : Expr} (he : e.Proper) :
    scope.Settles e.references (fun p => scope.Knows (Program.vars p))
      (Program.ofExpr scope e) := by
  cases e with
  | literal s value =>
      rw [Program.ofExpr]
      exact Scope.Settles.ok scope.knows_nil
  | ident s name =>
      rw [Program.ofExpr]
      exact Scope.variableOr_settles s Scope.knows_singleton
  | binary s op left right =>
      rw [Program.ofExpr]
      refine (Program.ofExpr_settles he.2.1).bind fun l hl => (Program.ofExpr_settles he.2.2).map ?_
      intro r hr
      simpa [Program.vars, Instr.vars] using hl.append hr
  | assign s target value =>
      rw [Program.ofExpr]
      refine (Place.ofTarget_settles he.1 he.2.1).bind fun place hp => ?_
      refine (Program.ofExpr_settles he.2.2).map fun v hv => ?_
      simpa [Program.vars, Instr.vars] using hp.append hv
  | ternary s cond yes no =>
      rw [Program.ofExpr]
      refine (Program.ofExpr_settles he.1).bind fun c hc => ?_
      refine (Program.ofExpr_settles he.2.1).bind fun y hy => (Program.ofExpr_settles he.2.2).map ?_
      intro n hn
      simpa [Program.vars, Instr.vars] using hc.append (hy.append hn)
  | member s receiver name =>
      rw [Program.ofExpr]
      refine (Program.ofReceiver_settles (e := receiver) he).map fun r hr => ?_
      simpa [Program.vars, Instr.vars] using hr
  | call s receiver method typeArgs args =>
      rw [Program.ofExpr]
      refine (Program.ofReceiver_settles he.1).bind fun r hr => ?_
      refine (scope.typeArgs_settles typeArgs).bind fun tags _ => (Program.ofArguments_settles he.2).map ?_
      intro as has
      simpa [Program.vars, Instr.vars] using hr.append has
termination_by (sizeOf e, 0)

theorem Program.ofReceiver_settles {e : Expr} (he : e.Proper) :
    scope.Settles e.receiverReferences (fun p => scope.Knows (Program.vars p))
      (Program.ofReceiver scope e) := by
  rw [Program.ofReceiver]
  obtain ⟨s, name, rfl, hname, hstatic⟩ | ⟨hstatic, ⟨s, name, rfl, hname⟩ | hname⟩ :=
    scope.static?_cases e
  · simp only [hstatic]
    exact (Scope.typeNamed_settles_receiver hname s).map fun _ _ => scope.knows_nil
  · simp only [hstatic]
    rw [Program.ofExpr, Scope.variableOr, if_pos hname]
    exact Scope.Settles.of_resolves (.inl hname) (Scope.knows_singleton hname)
  · simp only [hstatic, Expr.receiverReferences, hname]
    exact Program.ofExpr_settles he
termination_by (sizeOf e, 1)

theorem Program.ofArguments_settles {es : List Expr} (hes : Expr.AllProper es) :
    scope.Settles (Expr.allReferences es) (fun ps => scope.Knows (Program.allVars ps))
      (Program.ofArguments scope es) := by
  cases es with
  | nil =>
      rw [Program.ofArguments]
      exact Scope.Settles.ok scope.knows_nil
  | cons e es =>
      rw [Program.ofArguments]
      refine (Program.ofExpr_settles hes.1).bind fun p hp => ?_
      exact (Program.ofArguments_settles hes.2).map fun ps hps => hp.append hps
termination_by (sizeOf es, 0)

theorem Place.ofTarget_settles {e : Expr} (hplace : e.isPlace = true) (he : e.Proper) :
    scope.Settles e.references (fun place => scope.Knows place.vars)
      (Place.ofTarget scope e) := by
  cases e with
  | ident s name =>
      rw [Place.ofTarget]
      exact Scope.variableOr_settles s Scope.knows_singleton
  | member s receiver name =>
      rw [Place.ofTarget]
      exact (Place.ofOwner_settles (e := receiver) he).map fun owner ho => ho
  | literal | binary | assign | ternary | call => cases hplace
termination_by (sizeOf e, 0)

theorem Place.ofOwner_settles {e : Expr} (he : e.Proper) :
    scope.Settles e.receiverReferences (fun place => scope.Knows place.vars)
      (Place.ofOwner scope e) := by
  rw [Place.ofOwner]
  obtain ⟨s, name, rfl, hname, hstatic⟩ | ⟨hstatic, ⟨s, name, rfl, hname⟩ | hname⟩ :=
    scope.static?_cases e
  · simp only [hstatic]
    exact (Scope.typeNamed_settles_receiver hname s).map fun _ _ => scope.knows_nil
  · simp only [hstatic, Expr.isPlace, if_true]
    rw [Place.ofTarget, Scope.variableOr, if_pos hname]
    exact Scope.Settles.of_resolves (.inl hname) (Scope.knows_singleton hname)
  · simp only [hstatic, Expr.receiverReferences, hname]
    split
    · next hplace => exact Place.ofTarget_settles hplace he
    · exact (Program.ofExpr_settles he).map fun p hp => hp
termination_by (sizeOf e, 1)

end

end

end Formula
