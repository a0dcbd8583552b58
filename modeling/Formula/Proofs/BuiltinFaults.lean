import Formula.Builtin
import Formula.Proofs.OwnFaults

/-!
The builtin types and enumerations raise no faults but those that runs raise by themselves.
-/

namespace Formula

variable {H : Host} {α β : Type} {P : Fault → Prop}

/-- A computation without effects that fails with the codes of runs. -/
abbrev FailsAsRuns (x : Except Fault α) : Prop := FailsIn Code.ofRuns x

theorem failsAsRuns_hostFailure (message : String) :
    FailsAsRuns (.error (.hostFailure message) : Except Fault α) :=
  .error (by simp [Fault.code, Code.ofRuns])

/-! ### What bodies ask of their calls -/

namespace Call

variable (c : Call) (i : Nat)

theorem expect_failsAsRuns (x : Option α) (otherwise : String) : FailsAsRuns (expect x otherwise) := by
  cases x with
  | some a => exact .ok _ a
  | none => exact .error (by simp [Fault.code, Code.ofRuns])

theorem arg_failsAsRuns : FailsAsRuns (c.arg i) := expect_failsAsRuns ..

theorem int_failsAsRuns : FailsAsRuns (c.int i) :=
  (c.arg_failsAsRuns i).bind fun _ => expect_failsAsRuns ..

theorem float_failsAsRuns : FailsAsRuns (c.float i) :=
  (c.arg_failsAsRuns i).bind fun _ => expect_failsAsRuns ..

theorem string_failsAsRuns : FailsAsRuns (c.string i) :=
  (c.arg_failsAsRuns i).bind fun _ => expect_failsAsRuns ..

end Call

/-! ### Actions -/

namespace Action

theorem Avoids.bind {x : Action H α} {f : α → Action H β} (hx : x.Avoids P)
    (hf : ∀ a, (f a).Avoids P) : (x >>= f).Avoids P := by
  intro m fault m' h
  cases hr : x m with
  | ok a m₁ =>
      rw [run_bind_of_ok hr] at h
      exact hf a m₁ fault m' h
  | error fault₁ m₁ =>
      rw [run_bind_of_error hr] at h
      obtain ⟨rfl, -⟩ := EStateM.Result.error.inj h
      exact hx m fault₁ m₁ hr

theorem avoids_get : (get : Action H (Memory H)).Avoids P := by
  intro m fault m' h
  cases h

theorem avoids_set (m : Memory H) : (set m : Action H PUnit).Avoids P := by
  intro m fault m' h
  cases h

theorem avoids_newList (items : List Value) : (newList items : Action H Value).Avoids P := by
  intro m fault m' h
  cases h

section

variable (own : ∀ f, P f → f.code ∉ Code.ofRuns)

include own

theorem avoids_ofExcept {x : Except Fault α} (hx : FailsAsRuns x) : (liftM x : Action H α).Avoids P := by
  cases x with
  | ok a => exact avoids_pure a
  | error fault =>
      intro m fault' m' h
      obtain ⟨rfl, -⟩ := EStateM.Result.error.inj h
      exact fun hP => own fault hP (hx.mem fault rfl)

theorem avoids_andThen {x : Except Fault α} {f : α → Action H β} (hx : FailsAsRuns x)
    (hf : ∀ a, (f a).Avoids P) : (liftM x >>= f).Avoids P :=
  (avoids_ofExcept own hx).bind hf

theorem avoids_read {T : Type} (facet : Facet H T) (o : ObjectRef) : (read facet o).Avoids P := by
  refine avoids_get.bind fun m => ?_
  split
  · exact avoids_pure _
  · exact avoids_ofExcept own (failsAsRuns_hostFailure _)

end

end Action

/-! ### Types put together member by member -/

/-- A member that can only be read, and never fails so. -/
structure Member.Avoids (P : Fault → Prop) (m : Member H) : Prop where
  setter : m.setter? = none
  get {getter} : m.getter? = some getter → ∀ o, (getter o).Avoids P

/-- A type whose members and methods never fail so, and whose objects are shared. -/
structure TypeDef.Avoids (P : Fault → Prop) (d : TypeDef H) : Prop where
  copy : d.copy? = none
  members : ∀ m ∈ d.members, m.Avoids P
  staticMembers : ∀ m ∈ d.staticMembers, m.Avoids P
  methods : ∀ f ∈ d.methods, ∀ c, (f.body c).Avoids P
  staticMethods : ∀ f ∈ d.staticMethods, ∀ c, (f.body c).Avoids P

namespace TypeDef.Avoids

variable {d : TypeDef H} {name : String} {params : List ParamType}

theorem toHostType (h : d.Avoids P) : d.toHostType.Avoids P := by
  have hmember {o : Value} {name : String} {m : Member H} (hm : d.toHostType.HasMember o name m) :
      m.Avoids P := by
    rw [HostType.HasMember] at hm
    split at hm
    · exact h.staticMembers m (List.mem_of_find?_eq_some hm)
    · exact h.members m (mem_of_member? hm)
  constructor
  · intro o name m get hm hget
    exact (hmember hm).get hget o
  · intro o name m set hm hset
    rw [(hmember hm).setter] at hset
    cases hset
  · intro o name fs f hfs hf
    split at hfs
    · exact h.staticMethods f (mem_of_overloads? hfs hf)
    · exact h.methods f (mem_of_overloads? hfs hf)
  · intro o copy hcopy
    simp [TypeDef.toHostType, h.copy] at hcopy

theorem ofTag (tag : TypeTag) : (TypeDef.ofTag tag : TypeDef H).Avoids P :=
  ⟨rfl, List.forall_mem_nil _, List.forall_mem_nil _, List.forall_mem_nil _, List.forall_mem_nil _⟩

theorem computed {get : Value → Action H Value} (hget : ∀ o, (get o).Avoids P) (h : d.Avoids P) :
    (d.computed name get).Avoids P :=
  { h with members :=
    List.forall_mem_cons.mpr ⟨⟨rfl, fun heq => Option.some.inj heq ▸ hget⟩, h.members⟩ }

theorem addMethod {f : Method H} (hf : ∀ c, (f.body c).Avoids P) (h : d.Avoids P) :
    (d.addMethod f).Avoids P :=
  { h with methods := List.forall_mem_append.mpr ⟨h.methods, List.forall_mem_singleton.mpr hf⟩ }

theorem method {body : Call → Action H Value} (hbody : ∀ c, (body c).Avoids P) (h : d.Avoids P) :
    (d.method name params body).Avoids P :=
  h.addMethod hbody

theorem voidMethod {body : Call → Action H Unit} (hbody : ∀ c, (body c).Avoids P) (h : d.Avoids P) :
    (d.voidMethod name params body).Avoids P :=
  h.addMethod fun c => (hbody c).bind fun _ => Action.avoids_pure _

theorem staticProperty {get : Action H Value} (hget : get.Avoids P) (h : d.Avoids P) :
    (d.staticProperty name get).Avoids P :=
  { h with staticMembers :=
    List.forall_mem_cons.mpr ⟨⟨rfl, fun heq => Option.some.inj heq ▸ fun _ => hget⟩, h.staticMembers⟩ }

theorem staticGenericMethod {generics : Nat} {body : Call → Action H Value}
    (hbody : ∀ c, (body c).Avoids P) (h : d.Avoids P) :
    (d.staticGenericMethod name generics params body).Avoids P :=
  { h with staticMethods :=
    List.forall_mem_append.mpr ⟨h.staticMethods, List.forall_mem_singleton.mpr hbody⟩ }

theorem staticMethod {body : Call → Action H Value} (hbody : ∀ c, (body c).Avoids P)
    (h : d.Avoids P) : (d.staticMethod name params body).Avoids P :=
  h.staticGenericMethod hbody

end TypeDef.Avoids

/-! ### The builtin types -/

namespace Builtin

open Formula.Action

theorem cut_failsAsRuns (i : Int64) (length : Nat) : FailsAsRuns (cut i length) := by
  rw [cut]
  split
  · exact .ok _ _
  · exact failsAsRuns_hostFailure _

theorem slot_failsAsRuns (i : Int64) (length : Nat) : FailsAsRuns (slot i length) := by
  rw [slot]
  split
  · exact .ok _ _
  · exact failsAsRuns_hostFailure _

variable (own : ∀ f, P f → f.code ∉ Code.ofRuns)

include own

namespace Strings

omit own in
theorem substring_failsAsRuns (s : String) (start : Int64) (length? : Option Int64) :
    FailsAsRuns (substring s start length?) := by
  refine (cut_failsAsRuns start s.toList.length).bind fun n => ?_
  cases length? with
  | none => exact .ok _ _
  | some k =>
      dsimp only
      split
      · exact .ok _ _
      · exact failsAsRuns_hostFailure _

omit own in
theorem replace_failsAsRuns (s old new : String) : FailsAsRuns (replace s old new) := by
  rw [replace]
  split
  · exact failsAsRuns_hostFailure _
  · exact .ok _ _

theorem avoids_readLength (o : Value) : (readLength o : Action H Value).Avoids P := by
  have refused : (throw (.internal "receiver is not a string") : Action H Value).Avoids P :=
    avoids_ofExcept own (.error (by simp [Fault.code, Code.ofRuns]))
  cases o with
  | string s => exact avoids_pure _
  | null | bool | int | float | enum | object | typeRoot => exact refused

theorem avoids_typeDef : (typeDef : TypeDef H).Avoids P := by
  have receiver {β : Type} {f : String → Action H β} (c : Call) (hf : ∀ s, (f s).Avoids P) :
      (liftM c.receiverString >>= f).Avoids P := avoids_andThen own (Call.expect_failsAsRuns ..) hf
  have text {f : String → String → Value} (c : Call) :
      (do return f (← c.receiverString) (← c.string 0) : Action H Value).Avoids P :=
    receiver c fun s => avoids_andThen own (c.string_failsAsRuns 0) fun t => avoids_pure _
  -- From the last method back to the first: `ToString`, `Replace`, both `Substring`, then those that
  -- compute a scalar from one other text, and from none.
  refine .method (fun c => avoids_pure _) ?_
  apply TypeDef.Avoids.method
  · intro c
    refine receiver c fun s => ?_
    refine avoids_andThen own (c.string_failsAsRuns 0) fun old => ?_
    refine avoids_andThen own (c.string_failsAsRuns 1) fun new => ?_
    exact avoids_andThen own (replace_failsAsRuns s old new) fun _ => avoids_pure _
  apply TypeDef.Avoids.method
  · intro c
    refine receiver c fun s => ?_
    refine avoids_andThen own (c.int_failsAsRuns 0) fun start => ?_
    refine avoids_andThen own (c.int_failsAsRuns 1) fun n => ?_
    exact avoids_andThen own (substring_failsAsRuns s start (some n)) fun _ => avoids_pure _
  apply TypeDef.Avoids.method
  · intro c
    refine receiver c fun s => ?_
    refine avoids_andThen own (c.int_failsAsRuns 0) fun start => ?_
    exact avoids_andThen own (substring_failsAsRuns s start none) fun _ => avoids_pure _
  iterate 4 refine .method (fun c => text c) ?_
  iterate 3 refine .method (fun c => receiver c fun _ => avoids_pure _) ?_
  exact .computed (avoids_readLength own) (.ofTag .string)

end Strings

namespace Primitive

theorem avoids_int : (Primitive.int : TypeDef H).Avoids P := by
  apply TypeDef.Avoids.method
  · intro c
    refine avoids_andThen own (Call.expect_failsAsRuns ..) fun a => ?_
    exact avoids_andThen own (c.int_failsAsRuns 0) fun b => avoids_pure _
  exact .method (fun c => c.avoids_receiverText P) (.ofTag .int)

theorem avoids_float : (Primitive.float : TypeDef H).Avoids P := by
  apply TypeDef.Avoids.method
  · intro c
    refine avoids_andThen own (Call.expect_failsAsRuns ..) fun x => ?_
    exact avoids_andThen own (c.float_failsAsRuns 0) fun y => avoids_pure _
  exact .method (fun c => c.avoids_receiverText P) (.ofTag .float)

omit own in
theorem avoids_bool : (Primitive.bool : TypeDef H).Avoids P :=
  .method (fun c => c.avoids_receiverText P) (.ofTag .bool)

end Primitive

namespace Math

omit own in
theorem absInt_failsAsRuns (n : Int64) : FailsAsRuns (absInt n) := by
  rw [absInt]
  split
  · exact .error (by simp [Fault.code, Code.ofRuns])
  · exact .ok _ _

omit own in
theorem clampInt_failsAsRuns (n low high : Int64) : FailsAsRuns (clampInt n low high) := by
  rw [clampInt]
  split
  · exact failsAsRuns_hostFailure _
  · exact .ok _ _

omit own in
theorem clampFloat_failsAsRuns (x low high : Number.Double) :
    FailsAsRuns (clampFloat x low high) := by
  rw [clampFloat]
  split
  · exact failsAsRuns_hostFailure _
  · exact .ok _ _

variable {d : TypeDef H} {name : String}

theorem avoids_unary (f : Number.Double → Number.Double) (h : d.Avoids P) :
    (unary d name f).Avoids P :=
  h.staticMethod fun c => avoids_andThen own (c.float_failsAsRuns 0) fun _ => avoids_pure _

theorem avoids_binary (f : Number.Double → Number.Double → Number.Double) (h : d.Avoids P) :
    (binary d name f).Avoids P := by
  refine h.staticMethod fun c => avoids_andThen own (c.float_failsAsRuns 0) fun x => ?_
  exact avoids_andThen own (c.float_failsAsRuns 1) fun y => avoids_pure _

theorem avoids_binaryInt (f : Int64 → Int64 → Int64) (h : d.Avoids P) :
    (binaryInt d name f).Avoids P := by
  refine h.staticMethod fun c => avoids_andThen own (c.int_failsAsRuns 0) fun a => ?_
  exact avoids_andThen own (c.int_failsAsRuns 1) fun b => avoids_pure _

theorem avoids_typeDef : (typeDef : TypeDef H).Avoids P := by
  -- From the last method back to the first, and then the constants.
  iterate 4 apply avoids_unary own
  apply avoids_binary own
  apply TypeDef.Avoids.staticMethod
  · intro c
    refine avoids_andThen own (c.float_failsAsRuns 0) fun x => ?_
    refine avoids_andThen own (c.float_failsAsRuns 1) fun low => ?_
    refine avoids_andThen own (c.float_failsAsRuns 2) fun high => ?_
    exact avoids_andThen own (clampFloat_failsAsRuns x low high) fun _ => avoids_pure _
  apply TypeDef.Avoids.staticMethod
  · intro c
    refine avoids_andThen own (c.int_failsAsRuns 0) fun n => ?_
    refine avoids_andThen own (c.int_failsAsRuns 1) fun low => ?_
    refine avoids_andThen own (c.int_failsAsRuns 2) fun high => ?_
    exact avoids_andThen own (clampInt_failsAsRuns n low high) fun _ => avoids_pure _
  apply avoids_binary own
  apply avoids_binaryInt own
  apply avoids_binary own
  apply avoids_binaryInt own
  apply avoids_unary own
  apply TypeDef.Avoids.staticMethod
  · intro c
    refine avoids_andThen own (c.int_failsAsRuns 0) fun n => ?_
    exact avoids_andThen own (absInt_failsAsRuns n) fun _ => avoids_pure _
  exact .staticProperty (avoids_pure _) (.staticProperty (avoids_pure _) (.ofTag _))

end Math

namespace Convert

theorem avoids_convert (types : Directory) (m : Memory H) (v : Value) (tag : TypeTag) :
    (liftM (v.convert types m tag) : Action H Value).Avoids P :=
  avoids_ofExcept own ((v.convert_failsIn types m tag).mono (by decide))

theorem avoids_first (tag : TypeTag) (c : Call) : (first tag c : Action H Value).Avoids P :=
  avoids_andThen own (c.arg_failsAsRuns 0) fun v => avoids_get.bind fun m =>
    avoids_convert own c.types m v tag

theorem avoids_typeDef : (typeDef : TypeDef H).Avoids P := by
  iterate 4 refine .staticMethod (fun c => avoids_first own _ c) ?_
  refine .staticGenericMethod (fun c => ?_) (.ofTag _)
  refine avoids_andThen own (c.arg_failsAsRuns 0) fun v => avoids_get.bind fun m => ?_
  exact avoids_andThen own (Call.expect_failsAsRuns ..) fun tag => avoids_convert own c.types m v tag

end Convert

namespace Sequence

variable {c : Call}

theorem avoids_receiverObject : (liftM c.receiverObject : Action H ObjectRef).Avoids P :=
  avoids_ofExcept own (Call.expect_failsAsRuns ..)

theorem avoids_change {f : List Value → Except Fault (α × List Value)} (hf : ∀ vs, FailsAsRuns (f vs)) :
    (change c f : Action H α).Avoids P := by
  refine (avoids_receiverObject own).bind fun o => (avoids_read own _ o).bind fun vs => ?_
  refine avoids_andThen own (hf vs) fun p => ?_
  refine Avoids.bind ?_ fun _ => avoids_pure _
  exact (avoids_read own _ o).bind fun _ => avoids_get.bind fun m => avoids_set _

theorem avoids_items : (items c : Action H (List Value)).Avoids P :=
  (avoids_receiverObject own).bind fun o => avoids_read own _ o

theorem avoids_mutator {d : TypeDef H} {name : String} {params : List ParamType}
    {f : Call → Except Fault (List Value → Except Fault (List Value))} (hf : ∀ c, FailsAsRuns (f c))
    (hg : ∀ c g, f c = .ok g → ∀ vs, FailsAsRuns (g vs)) (h : d.Avoids P) :
    (mutator d name params f).Avoids P := by
  refine h.voidMethod fun c => ?_
  cases hr : f c with
  | ok g => exact avoids_change own fun vs => (hg c g hr vs).bind fun _ => .ok _ _
  | error fault => exact avoids_ofExcept own (.error ((hf c).mem fault hr))

theorem avoids_typeDef : (typeDef : TypeDef H).Avoids P := by
  -- From the last method back to the first: `Get`, `IndexOf`, `Contains` and `Remove`, then the
  -- mutators `Set`, `Clear`, `RemoveAt`, `Insert` and `Add`.
  apply TypeDef.Avoids.method
  · intro c
    refine avoids_andThen own (c.int_failsAsRuns 0) fun i => (avoids_items own).bind fun vs => ?_
    exact avoids_ofExcept own ((slot_failsAsRuns i vs.length).bind fun _ => .ok _ _)
  iterate 2
    refine .method (fun c => avoids_andThen own (c.arg_failsAsRuns 0) fun v => ?_) ?_
    · exact (avoids_items own).bind fun vs => avoids_pure _
  apply TypeDef.Avoids.method
  · intro c
    refine avoids_andThen own (c.arg_failsAsRuns 0) fun v => ?_
    exact (avoids_change own fun vs => .ok _ _).bind fun _ => avoids_pure _
  apply avoids_mutator own
  · exact fun c => (c.int_failsAsRuns 0).bind fun i => (c.arg_failsAsRuns 1).bind fun v => .ok _ _
  · intro c g hg vs
    obtain ⟨i, -, hg⟩ := bind_eq_ok.mp hg
    obtain ⟨v, -, hg⟩ := bind_eq_ok.mp hg
    obtain rfl := Except.ok.inj hg
    exact (slot_failsAsRuns i vs.length).bind fun _ => .ok _ _
  apply avoids_mutator own
  · exact fun c => .ok _ _
  · intro c g hg vs
    obtain rfl := Except.ok.inj hg
    exact .ok _ _
  apply avoids_mutator own
  · exact fun c => (c.int_failsAsRuns 0).bind fun i => .ok _ _
  · intro c g hg vs
    obtain ⟨i, -, hg⟩ := bind_eq_ok.mp hg
    obtain rfl := Except.ok.inj hg
    exact (slot_failsAsRuns i vs.length).bind fun _ => .ok _ _
  apply avoids_mutator own
  · exact fun c => (c.int_failsAsRuns 0).bind fun i => (c.arg_failsAsRuns 1).bind fun v => .ok _ _
  · intro c g hg vs
    obtain ⟨i, -, hg⟩ := bind_eq_ok.mp hg
    obtain ⟨v, -, hg⟩ := bind_eq_ok.mp hg
    obtain rfl := Except.ok.inj hg
    exact (cut_failsAsRuns i vs.length).bind fun _ => .ok _ _
  apply avoids_mutator own
  · exact fun c => (c.arg_failsAsRuns 0).bind fun v => .ok _ _
  · intro c g hg vs
    obtain ⟨v, -, hg⟩ := bind_eq_ok.mp hg
    obtain rfl := Except.ok.inj hg
    exact .ok _ _
  refine .staticMethod (fun c => avoids_newList _) (.computed (fun o => ?_) (.ofTag _))
  rw [Member.getterOf]
  split
  · exact (avoids_read own _ _).bind fun vs => avoids_pure _
  · exact avoids_ofExcept own (.error (by simp [Fault.code, Code.ofRuns]))

end Sequence

end Builtin

theorem Enumeration.avoids_own (own : ∀ f, P f → f.code ∉ Code.ofRuns) (e : Enumeration) :
    (e.toHostType : HostType H).Avoids P := by
  refine e.avoids_of_property fun get o => ?_
  have refused : (throw (.internal "enum member read on a non-enum") : Action H Value).Avoids P :=
    Action.avoids_ofExcept own (.error (by simp [Fault.code, Code.ofRuns]))
  cases o with
  | enum v => exact Action.avoids_pure _
  | null | bool | int | float | string | object | typeRoot => exact refused

namespace Registry

theorem avoids_of_mem_builtins (own : ∀ f, P f → f.code ∉ Code.ofRuns) :
    ∀ t ∈ (builtins : Registry H).types, t.Avoids P := by
  refine forall_mem_registerAll (fun t ht => by simp [empty] at ht) ?_
  simp only [List.map_cons, List.map_nil, List.forall_mem_cons]
  exact ⟨(Builtin.Strings.avoids_typeDef own).toHostType, (Builtin.Primitive.avoids_int own).toHostType,
    (Builtin.Primitive.avoids_float own).toHostType, Builtin.Primitive.avoids_bool.toHostType,
    (Builtin.Sequence.avoids_typeDef own).toHostType, (Builtin.Math.avoids_typeDef own).toHostType,
    (Builtin.Convert.avoids_typeDef own).toHostType, by simp⟩

/-- All types are builtin, or enumerations. -/
def IsOwn (r : Registry H) : Prop :=
  ∀ t ∈ r.types, t ∈ (builtins : Registry H).types ∨ ∃ e : Enumeration, t = e.toHostType

theorem IsOwn.avoids {r : Registry H} (h : r.IsOwn) (own : ∀ f, P f → f.code ∉ Code.ofRuns) :
    ∀ t ∈ r.types, t.Avoids P := by
  intro t ht
  rcases h t ht with ht | ⟨e, rfl⟩
  · exact avoids_of_mem_builtins own t ht
  · exact e.avoids_own own

end Registry

end Formula
