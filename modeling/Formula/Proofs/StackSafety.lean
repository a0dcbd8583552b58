import Formula.Proofs.Access
import Formula.Proofs.Compilation
import Formula.Proofs.Discipline
import Formula.Proofs.TypeTable

/-!
Compiled programs do what their expressions say, and never miss an operand or leave one behind.
-/

namespace Formula

/-- The faults of a stack that does not hold what is expected there. -/
def Fault.IsStack (f : Fault) : Prop :=
  f = .internal "value stack underflow" ∨ f = .internal "empty program" ∨
    ∃ n : Nat, f = .internal (toString n ++ " values left on the stack")

theorem Fault.IsStack.isInternal {f : Fault} (h : f.IsStack) : f.IsInternal := by
  rcases h with rfl | rfl | ⟨n, rfl⟩ <;> rfl

theorem Fault.IsStack.last {f : Fault} (h : f.IsStack) :
    ∃ message c, f = .internal message ∧ message.toList.getLast? = some c ∧ c ∈ ['w', 'm', 'k'] := by
  rcases h with rfl | rfl | ⟨n, rfl⟩
  · exact ⟨_, 'w', rfl, by decide, by simp⟩
  · exact ⟨_, 'm', rfl, by decide, by simp⟩
  · exact ⟨_, 'k', rfl, by simp [List.getLast?_append], by simp⟩

theorem Fault.not_isStack_notBinary (op : Operator) : ¬(Value.notBinary op).IsStack := by
  intro h
  obtain ⟨message, c, heq, hc, hmem⟩ := h.last
  obtain rfl := Fault.internal.inj heq
  rw [String.toList_append, List.getLast?_append] at hc
  obtain rfl : 'r' = c := Option.some.inj hc
  simp at hmem

variable {H : Host}

/-- An action none of whose faults satisfies `P`. -/
def Action.Avoids {α : Type} (P : Fault → Prop) (x : Action H α) : Prop :=
  ∀ m f m', x m = .error f m' → ¬P f

theorem Action.error_of_map {α β : Type} {x : Action H α} {f : α → β} {m m' : Memory H} {fault : Fault}
    (h : (f <$> x) m = .error fault m') : x m = .error fault m' := by
  change EStateM.map f x m = _ at h
  rw [EStateM.map] at h
  cases hr : x m with
  | ok a m'' => simp [hr] at h
  | error fault' m'' =>
      rw [hr] at h
      obtain ⟨rfl, rfl⟩ := EStateM.Result.error.inj h
      rfl

theorem Action.Avoids.map {α β : Type} {P : Fault → Prop} {x : Action H α} (h : x.Avoids P)
    (f : α → β) : (f <$> x).Avoids P :=
  fun m fault m' hm => h m fault m' (Action.error_of_map hm)

/-- A type whose members, methods and copies never end in a fault that satisfies `P`. -/
structure HostType.Avoids (P : Fault → Prop) (t : HostType H) : Prop where
  get {o name m get} : t.HasMember o name m → m.getter? = some get → (get o).Avoids P
  set {o name m set} : t.HasMember o name m → m.setter? = some set → ∀ v, (set o v).Avoids P
  body {o : Value} {name fs} {f : Method H} :
    (if o.isTypeRoot then t.staticMethods? name else t.methods? name) = some fs → f ∈ fs →
      ∀ c, (f.body c).Avoids P
  copy {o copy} : t.copy? o = some copy → copy.Avoids P

namespace StackSafety

def contract : Contract Unit EvalError (World H) where
  state _ _ := True
  error e := ¬e.fault.IsStack

theorem keeps_of_avoids {α : Type} {x : Action H α} (h : x.Avoids Fault.IsStack) :
    contract.Keeps () (liftM x : Eval H α) fun _ _ => True :=
  .ofHost (fun _ _ _ _ hs => hs) (fun _ _ _ _ _ _ => trivial) h

theorem error_of_plain (f : Fault) (h : ¬f.IsInternal) :
    (contract : Contract Unit EvalError (World H)).error (.of f) := fun hf => h hf.isInternal

/-- Hosts that know nothing of stacks keep to the contract. -/
def discipline (r : Registry H) (h : ∀ t ∈ r.types, t.Avoids Fault.IsStack) : Discipline r Unit where
  toContract := contract
  sound _ _ := True
  value _ _ := True
  held _ _ _ := True
  sound_mono _ h := h
  value_mono _ h := h
  held_mono _ h := h
  error_of_plain h := fun hf => h hf.isInternal
  error_congr he h hf := h (he ▸ hf)
  sound_of_value h := h
  value_of_sound h _ := h
  value_of_scalar _ := trivial
  value_of_declares _ := trivial
  load _ _ := by
    refine .load error_of_plain fun _ _ x _ _ _ _ => ?_
    rcases r.copyOnLoad_cases x.get with hc | ⟨o, t, copy, -, ht, hcopy, hc⟩
    · rw [hc]
      exact .pure fun _ _ => ⟨trivial, trivial⟩
    · rw [hc]
      have hav := ((h t (Registry.mem_of_find? ht).1).copy hcopy).map Value.object
      exact (keeps_of_avoids hav).imp fun _ _ _ _ => ⟨trivial, trivial⟩
  update _ _ := .updateVariable error_of_plain fun _ _ _ _ _ _ _ _ => ⟨trivial, trivial⟩
  store _ _ := .store error_of_plain fun _ _ _ _ _ _ => trivial
  getter _ hm hg := by
    obtain ⟨ht, hm⟩ := Eval.findMember_eq_ok hm
    exact keeps_of_avoids ((h _ (Registry.mem_of_find? ht).1).get hm hg)
  setter _ hm hs _ := by
    obtain ⟨ht, hm⟩ := Eval.findMember_eq_ok hm
    exact keeps_of_avoids ((h _ (Registry.mem_of_find? ht).1).set hm hs _)
  body _ ht hfs hf _ _ :=
    keeps_of_avoids ((h _ (Registry.mem_of_find? (Registry.find?_of_typeOf ht)).1).body hfs hf _)

end StackSafety

/-- Running a compiled expression is evaluating it: the same value or error, the same variables and
objects, whatever else is on the stack. Unless hosts pass such a fault off as theirs, no stack is ever
found short, empty or with more than one value. -/
theorem Program.ofExpr_correct {scope : Scope} {e : Expr} {p : Program}
    (h : Program.ofExpr scope e = .ok p) (r : Registry H) :
    p.run r = e.eval r scope ∧
      (∀ stack, Program.runFrom r stack p = (fun v => v :: stack) <$> e.eval r scope) ∧
      ((∀ t ∈ r.types, t.Avoids Fault.IsStack) → ∀ w err w',
        p.run r w = .error err w' → ¬err.fault.IsStack) := by
  refine ⟨Program.run_ofExpr r scope h, Program.runFrom_ofExpr r scope e h, ?_⟩
  intro hr w err w' hrun
  let D := StackSafety.discipline r hr
  have hk := D.eval_keeps scope e () (fun op _ => .inr (Fault.not_isStack_notBinary op)) ()
    le_rfl w trivial
  rw [← Program.run_ofExpr r scope h, hrun] at hk
  exact hk.1

theorem Action.avoids_pure {α : Type} {P : Fault → Prop} (a : α) :
    (pure a : Action H α).Avoids P := by
  intro m f m' h
  cases h

theorem Call.avoids_receiverText (P : Fault → Prop) (c : Call) :
    (c.receiverText : Action H Value).Avoids P := by
  intro m f m' h
  cases h

theorem Enumeration.avoids_property (get : EnumValue → Value) (o : Value) :
    (property get o : Action H Value).Avoids Fault.IsStack := by
  intro m f m' h hf
  cases o with
  | enum e => cases h
  | null | bool | int | float | string | object | typeRoot =>
      obtain ⟨rfl, -⟩ := EStateM.Result.error.inj h
      rcases hf with hf | hf | ⟨n, hf⟩
      · simp at hf
      · simp at hf
      · have hlast := congrArg (fun s => s.toList.getLast?) (Fault.internal.inj hf)
        simp [List.getLast?_append] at hlast

/-- All that an enumeration can fail in is to read a property of its values. -/
theorem Enumeration.avoids_of_property {P : Fault → Prop} (e : Enumeration)
    (hproperty : ∀ get o, (property get o : Action H Value).Avoids P) :
    (e.toHostType : HostType H).Avoids P := by
  have hmember {o : Value} {name : String} {m : Member H}
      (h : (e.toHostType : HostType H).HasMember o name m) : m.setter? = none ∧
        ∀ get, m.getter? = some get → ∀ v, (get v).Avoids P := by
    rw [HostType.HasMember, toHostType, typeDef_eq] at h
    split at h
    · obtain ⟨v, -, rfl⟩ := List.mem_map.mp (List.mem_reverse.mp (List.mem_of_find?_eq_some h))
      exact ⟨rfl, fun get hg _ => Option.some.inj hg ▸ Action.avoids_pure _⟩
    · have hm : m ∈ (e.members : TypeDef H).members := TypeDef.mem_of_member? h
      rcases List.mem_cons.mp hm with rfl | hm
      · exact ⟨rfl, fun get hg v => Option.some.inj hg ▸ hproperty _ v⟩
      · obtain rfl := List.mem_singleton.mp hm
        exact ⟨rfl, fun get hg v => Option.some.inj hg ▸ hproperty _ v⟩
  constructor
  · intro o name m get h hg
    exact (hmember h).2 get hg o
  · intro o name m set h hs
    rw [(hmember h).1] at hs
    cases hs
  · intro o name fs f hfs hf c
    rw [toHostType, typeDef_eq] at hfs
    split at hfs
    · cases hfs
    · have hf := TypeDef.mem_of_overloads? hfs hf
      obtain rfl := List.mem_singleton.mp hf
      exact c.avoids_receiverText _
  · intro o copy hc
    simp at hc

theorem Enumeration.avoids (e : Enumeration) : (e.toHostType : HostType H).Avoids Fault.IsStack :=
  e.avoids_of_property avoids_property

theorem Program.ofExpr_correct_assignment :
    let e : Expr := .assign ⟨0, 9⟩ (.ident ⟨0, 1⟩ "x")
      (.ternary ⟨4, 9⟩ (.ident ⟨4, 5⟩ "b") (.member ⟨6, 12⟩ (.ident ⟨6, 7⟩ "Mode") "Run")
        (.ident ⟨13, 14⟩ "x"))
    let scope : Scope := ⟨fun name => name == "x" || name == "b", fun name => some (.enum name)⟩
    let p : Program := [.assign ⟨0, 9⟩ (.var "x") [.ternary ⟨4, 9⟩ [.load ⟨4, 5⟩ "b"]
      [.loadType ⟨6, 7⟩ (.enum "Mode"), .get ⟨6, 12⟩ "Run"] [.load ⟨13, 14⟩ "x"]]]
    let r : Registry Sample.host := Registry.empty.registerEnum "Mode" ["Idle", "Run"]
    Program.ofExpr scope e = .ok p ∧ (∀ t ∈ r.types, t.Avoids Fault.IsStack) ∧
      p.run r = e.eval r scope ∧
      (∀ stack, Program.runFrom r stack p = (fun v => v :: stack) <$> e.eval r scope) ∧
      ∀ w err w', p.run r w = .error err w' → ¬err.fault.IsStack := by
  intro e scope p r
  have hp : Program.ofExpr scope e = .ok p := by
    simp [e, scope, p, Program.ofExpr, Program.ofReceiver, Place.ofTarget, Scope.variableOr,
      Scope.static?, Scope.typeNamed, bind, Except.bind]
  have hr : ∀ t ∈ r.types, t.Avoids Fault.IsStack :=
    List.forall_mem_singleton.mpr (Enumeration.avoids _)
  have h := Program.ofExpr_correct hp r
  exact ⟨hp, hr, h.1, h.2.1, h.2.2 hr⟩

end Formula
