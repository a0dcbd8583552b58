import Formula.Builtin
import Formula.Proofs.Intact
import Formula.Proofs.Renumbering

/-!
Computations that can be repeated. On a memory that holds the same under other numbers they come to the
same end, and they only add to what there was.
-/

namespace Formula

variable {H : Host}

section

variable {ε σ α β γ δ : Type} {P : σ → σ → Prop} {g : α → β}

/-- Two ends, the second of which is that of a repetition: `g` takes the one result to the other, or the
errors are the same. -/
inductive Recurs (P : σ → σ → Prop) (g : α → β) :
    EStateM.Result ε σ α → EStateM.Result ε σ β → Prop
  | ok {s s' : σ} (a : α) (h : P s s') : Recurs P g (.ok a s) (.ok (g a) s')
  | error {s s' : σ} (e : ε) (h : P s s') : Recurs P g (.error e s) (.error e s')

/-- What `x` does from a state, `y` repeats from any state that corresponds to it by `P`. -/
def Repeats (P : σ → σ → Prop) (g : α → β) (x : EStateM ε σ α) (y : EStateM ε σ β) : Prop :=
  ∀ s s', P s s' → Recurs P g (x s) (y s')

namespace Repeats

theorem pure {a : α} {b : β} (h : b = g a) :
    Repeats P g (pure a : EStateM ε σ α) (pure b : EStateM ε σ β) := by
  subst h
  exact fun _ _ hs => .ok a hs

theorem throw (e : ε) : Repeats P g (throw e : EStateM ε σ α) (throw e : EStateM ε σ β) :=
  fun _ _ hs => .error e hs

theorem bind {k : γ → δ} {x : EStateM ε σ α} {y : EStateM ε σ β} {f : α → EStateM ε σ γ}
    {f' : β → EStateM ε σ δ} (hx : Repeats P g x y) (hf : ∀ a, Repeats P k (f a) (f' (g a))) :
    Repeats P k (x >>= f) (y >>= f') := by
  intro s s' hs
  have h := hx s s' hs
  generalize hr : x s = r at h
  generalize hr' : y s' = r' at h
  cases h with
  | ok a h =>
      rw [run_bind_of_ok hr, run_bind_of_ok hr']
      exact hf a _ _ h
  | error e h =>
      rw [run_bind_of_error hr, run_bind_of_error hr']
      exact .error e h

theorem bind_get {f : σ → EStateM ε σ α} {f' : σ → EStateM ε σ β}
    (hf : ∀ s s', P s s' → Repeats P g (f s) (f' s')) : Repeats P g (get >>= f) (get >>= f') :=
  fun s s' hs => hf s s' hs s s' hs

theorem liftExcept {P : Memory H → Memory H → Prop} (g : α → β) (x : Except Fault α) :
    Repeats P g (liftM x : Action H α) (liftM (x.map g) : Action H β) := by
  cases x with
  | ok a => exact .pure rfl
  | error f => exact .throw f

/-- What goes on with something that is the same in both runs. -/
theorem andThen {P : Memory H → Memory H → Prop} {k : β → γ} {f : α → Action H β}
    {f' : α → Action H γ} (x : Except Fault α) (hf : ∀ a, Repeats P k (f a) (f' a)) :
    Repeats P k (liftM x >>= f) (liftM x >>= f') := by
  cases x with
  | ok a => exact hf a
  | error e => exact .throw e

end Repeats

end

/-- The memories of a run that began with `m₀` and of its repetition. -/
structure Memory.Rerun (ρ : Renumbering) (m₀ m m' : Memory H) : Prop extends m.Renumbered ρ m' where
  intact : m₀.Intact m

section

variable {ρ : Renumbering} {m₀ : Memory H}

namespace Action

theorem read_repeats (o : ObjectRef) :
    Repeats (Memory.Rerun ρ m₀) (List.map ρ.value) (read .items o) (read .items (ρ.object o)) := by
  refine .bind_get fun m m' h => ?_
  rw [h.get? o]
  cases m.get? o with
  | none => exact .throw _
  | some c =>
      cases c with
      | list items => exact .pure rfl
      | host object => exact .throw _

/-- A new list is the next object in both runs. -/
theorem newList_repeats (items : List Value) :
    Repeats (Memory.Rerun ρ m₀) ρ.value (newList items) (newList (items.map ρ.value)) := by
  intro m m' h
  -- A new object's number is the size of the memory, and the two sizes are as far apart as the numbers.
  obtain ⟨ho, hm⟩ := h.alloc "List" (.list items)
  have hend : newList (items.map ρ.value) m' =
      .ok (.object (ρ.object (m.alloc "List" (.list items)).1))
        (m'.alloc "List" (ρ.content (.list items))).2 := by
    rw [← ho]
    rfl
  rw [hend]
  exact .ok (Value.object (m.alloc "List" (.list items)).1)
    ⟨hm, h.intact.trans (m.intact_alloc "List" (.list items))⟩

end Action

namespace Renumbering

def call (ρ : Renumbering) (c : Call) : Call :=
  { c with receiver := ρ.value c.receiver, args := c.args.map ρ.value }

variable (c : Call) (i : Nat)

@[simp]
theorem types_call : (ρ.call c).types = c.types := rfl

@[simp]
theorem receiver_call : (ρ.call c).receiver = ρ.value c.receiver := rfl

@[simp]
theorem typeArg_call : (ρ.call c).typeArg i = c.typeArg i := rfl

@[simp]
theorem arg_call : (ρ.call c).arg i = (c.arg i).map ρ.value := by
  simp only [Call.arg, call, List.getElem?_map]
  cases c.args[i]? <;> rfl

/-- What is asked of an argument does not depend on numbers. -/
theorem expect_arg_call {α : Type} {view : Value → Option α} (hview : ∀ v, view (ρ.value v) = view v)
    (otherwise : String) :
    (do Call.expect (view (← (ρ.call c).arg i)) otherwise) =
      (do Call.expect (view (← c.arg i)) otherwise) := by
  rw [arg_call]
  cases c.arg i with
  | ok v => exact congrArg (Call.expect · otherwise) (hview v)
  | error f => rfl

@[simp]
theorem int_call : (ρ.call c).int i = c.int i := expect_arg_call c i ρ.int?_value _

@[simp]
theorem float_call : (ρ.call c).float i = c.float i := expect_arg_call c i ρ.float?_value _

@[simp]
theorem string_call : (ρ.call c).string i = c.string i := expect_arg_call c i ρ.string?_value _

@[simp]
theorem receiverInt_call : (ρ.call c).receiverInt = c.receiverInt := by simp [Call.receiverInt]

@[simp]
theorem receiverFloat_call : (ρ.call c).receiverFloat = c.receiverFloat := by
  simp [Call.receiverFloat]

@[simp]
theorem receiverString_call : (ρ.call c).receiverString = c.receiverString := by
  simp [Call.receiverString]

@[simp]
theorem receiverObject_call : (ρ.call c).receiverObject = c.receiverObject.map ρ.object := by
  rw [Call.receiverObject, Call.receiverObject, receiver_call, object?_value]
  cases c.receiver.object? <;> rfl

end Renumbering

end

/-! Types of which nothing is changed by those who stay away from some names. -/

/-- Reading the member can be repeated. -/
def Member.Steady (m : Member H) : Prop :=
  ∀ get, m.getter? = some get → ∀ (ρ : Renumbering) (m₀ : Memory H) (o : Value),
    Repeats (Memory.Rerun ρ m₀) ρ.value (get o) (get (ρ.value o))

/-- The call can be repeated. -/
def Method.Steady (f : Method H) : Prop :=
  ∀ (ρ : Renumbering) (m₀ : Memory H) (c : Call),
    Repeats (Memory.Rerun ρ m₀) ρ.value (f.body c) (f.body (ρ.call c))

/-- Members can be read and methods called again, unless they have one of the names `off`. -/
structure TypeDef.Steady (off : List String) (d : TypeDef H) : Prop where
  copy : d.copy? = none
  members : ∀ m ∈ d.members, m.Steady
  methods : ∀ f ∈ d.methods, f.name ∉ off → f.Steady
  staticMembers : ∀ m ∈ d.staticMembers, m.Steady
  staticMethods : ∀ f ∈ d.staticMethods, f.name ∉ off → f.Steady

structure HostType.Steady (off : List String) (t : HostType H) : Prop where
  copy : ∀ o, t.copy? o = none
  member : ∀ {name m}, t.member? name = some m → m.Steady
  methods : ∀ {name fs}, t.methods? name = some fs → name ∉ off → ∀ f ∈ fs, f.Steady
  staticMember : ∀ {name m}, t.staticMember? name = some m → m.Steady
  staticMethods : ∀ {name fs}, t.staticMethods? name = some fs → name ∉ off → ∀ f ∈ fs, f.Steady

def Registry.Steady (off : List String) (r : Registry H) : Prop := ∀ t ∈ r.types, t.Steady off

namespace TypeDef

theorem name_of_overloads? {fs gs : List (Method H)} {name : String} {f : Method H}
    (h : overloads? fs name = some gs) (hf : f ∈ gs) : f.name = name := by
  rw [overloads?] at h
  split at h
  · cases h
  · obtain rfl := Option.some.inj h
    simpa using (List.mem_filter.mp hf).2

namespace Steady

variable {off : List String} {d : TypeDef H} {name : String} {params : List ParamType}

theorem toHostType (h : d.Steady off) : d.toHostType.Steady off where
  copy o := by simp [TypeDef.toHostType, h.copy]
  member hm := h.members _ (mem_of_member? hm)
  methods hfs hname f hf :=
    h.methods f (mem_of_overloads? hfs hf) (name_of_overloads? hfs hf ▸ hname)
  staticMember hm := h.staticMembers _ (List.mem_of_find?_eq_some hm)
  staticMethods hfs hname f hf :=
    h.staticMethods f (mem_of_overloads? hfs hf) (name_of_overloads? hfs hf ▸ hname)

theorem ofTag (tag : TypeTag) : (TypeDef.ofTag tag : TypeDef H).Steady off :=
  ⟨rfl, by simp [TypeDef.ofTag], by simp [TypeDef.ofTag], by simp [TypeDef.ofTag],
    by simp [TypeDef.ofTag]⟩

theorem add {m : Member H} (hm : m.Steady) (h : d.Steady off) : (d.add m).Steady off :=
  { h with members := List.forall_mem_cons.mpr ⟨hm, h.members⟩ }

theorem addMethod {f : Method H} (hf : f.name ∉ off → f.Steady) (h : d.Steady off) :
    (d.addMethod f).Steady off :=
  { h with methods := List.forall_mem_append.mpr ⟨h.methods, List.forall_mem_singleton.mpr hf⟩ }

theorem computed {get : Value → Action H Value}
    (hget : ∀ (ρ : Renumbering) (m₀ : Memory H) (o : Value),
      Repeats (Memory.Rerun ρ m₀) ρ.value (get o) (get (ρ.value o)))
    (h : d.Steady off) : (d.computed name get).Steady off :=
  h.add fun _ hg => Option.some.inj hg ▸ hget

/-- A property of lists that does not depend on what the objects in them are. -/
theorem items {F : Type} {code : Coding H F} {get : List Value → F}
    (hget : ∀ (ρ : Renumbering) vs, get (vs.map ρ.value) = get vs)
    (hcode : ∀ (ρ : Renumbering) (m₀ : Memory H) x,
      Repeats (Memory.Rerun ρ m₀) ρ.value (code.encode x) (code.encode x))
    (h : d.Steady off) : (d.property .items code name get).Steady off := by
  refine h.add fun _ hg ρ m₀ o => ?_
  obtain rfl := Option.some.inj hg
  cases o with
  | object o =>
      refine (Action.read_repeats o).bind fun vs => ?_
      rw [hget]
      exact hcode ρ m₀ (get vs)
  | null | bool | int | float | string | enum | typeRoot => exact .throw _

theorem method {body : Call → Action H Value}
    (hbody : ∀ (ρ : Renumbering) (m₀ : Memory H) (c : Call),
      Repeats (Memory.Rerun ρ m₀) ρ.value (body c) (body (ρ.call c)))
    (h : d.Steady off) : (d.method name params body).Steady off :=
  h.addMethod fun _ => hbody

theorem staticProperty {get : Action H Value}
    (hget : ∀ (ρ : Renumbering) (m₀ : Memory H), Repeats (Memory.Rerun ρ m₀) ρ.value get get)
    (h : d.Steady off) : (d.staticProperty name get).Steady off := by
  have hm : Member.Steady (H := H) ⟨name, .property, some fun _ => get, none⟩ :=
    fun _ hg ρ m₀ _ => Option.some.inj hg ▸ hget ρ m₀
  exact { h with staticMembers := List.forall_mem_cons.mpr ⟨hm, h.staticMembers⟩ }

theorem staticGenericMethod {generics : Nat} {body : Call → Action H Value}
    (hbody : ∀ (ρ : Renumbering) (m₀ : Memory H) (c : Call),
      Repeats (Memory.Rerun ρ m₀) ρ.value (body c) (body (ρ.call c)))
    (h : d.Steady off) : (d.staticGenericMethod name generics params body).Steady off := by
  have hf : Method.Steady ⟨name, params, generics, false, body⟩ := hbody
  exact { h with staticMethods :=
    List.forall_mem_append.mpr ⟨h.staticMethods, List.forall_mem_singleton.mpr fun _ => hf⟩ }

theorem staticMethod {body : Call → Action H Value}
    (hbody : ∀ (ρ : Renumbering) (m₀ : Memory H) (c : Call),
      Repeats (Memory.Rerun ρ m₀) ρ.value (body c) (body (ρ.call c)))
    (h : d.Steady off) : (d.staticMethod name params body).Steady off :=
  h.staticGenericMethod hbody

end Steady

end TypeDef

end Formula
