import Formula.Proofs.TypeTable
import Mathlib.Data.List.Forall2
import Mathlib.Data.Set.Lattice

/-!
Plain values, and types that make only plain values of plain values. Such types never find a receiver
or an argument that they do not expect.
-/

namespace Formula

open Contract

variable {H : Host}

/-- Primitive values, values of registered enumerations, and lists, whose numbers are among the given
ones. -/
def Value.Plain (r : Registry H) (lists : Set Nat) : Value → Prop
  | null | bool _ | int _ | float _ | string _ => True
  | enum e => ∃ t, r.find? e.typeName = some t ∧ t.tag = .enum e.typeName
  | object o => o.typeName = "List" ∧ o.id ∈ lists
  | typeRoot _ => False

namespace Value

variable {r : Registry H} {lists lists' : Set Nat} {v : Value}

theorem Plain.mono (h : v.Plain r lists) (hl : lists ⊆ lists') : v.Plain r lists' := by
  cases v with
  | object o => exact ⟨h.1, hl h.2⟩
  | null | bool | int | float | string | enum | typeRoot => exact h

theorem plain_of_scalar (h : v.IsScalar) : v.Plain r lists := by
  cases v with
  | null | bool | int | float | string => trivial
  | enum | object | typeRoot => exact h.elim

theorem Plain.int (h : v.Plain r lists) (ht : v.typeTag = .int) : ∃ n, v = .int n := by
  cases v with
  | int n => exact ⟨n, rfl⟩
  | typeRoot => exact h.elim
  | null | bool | float | string | enum | object => cases ht

theorem Plain.float (h : v.Plain r lists) (ht : v.typeTag = .float) : ∃ x, v = .float x := by
  cases v with
  | float x => exact ⟨x, rfl⟩
  | typeRoot => exact h.elim
  | null | bool | int | string | enum | object => cases ht

theorem Plain.string (h : v.Plain r lists) (ht : v.typeTag = .string) : ∃ s, v = .string s := by
  cases v with
  | string s => exact ⟨s, rfl⟩
  | typeRoot => exact h.elim
  | null | bool | int | float | enum | object => cases ht

theorem Plain.enum (h : v.Plain r lists) {name : String} (ht : v.typeTag = .enum name) :
    ∃ e, v = .enum e := by
  cases v with
  | enum e => exact ⟨e, rfl⟩
  | typeRoot => exact h.elim
  | null | bool | int | float | string | object => cases ht

theorem Plain.object (h : v.Plain r lists) {name : String} (ht : v.typeTag = .object name) :
    ∃ o, v = .object o ∧ o.id ∈ lists := by
  cases v with
  | object o => exact ⟨o, rfl, h.2⟩
  | typeRoot => exact h.elim
  | null | bool | int | float | string | enum => cases ht

end Value

theorem Registry.IsTabled.plain_of_declares {r : Registry H} (hr : r.IsTabled) {lists : Set Nat}
    {name : String} {e : EnumValue} (h : r.directory.Declares name e) :
    (Value.enum e).Plain r lists := by
  obtain ⟨rfl, t, ht⟩ := hr.declares h
  exact ⟨t, ht⟩

theorem Value.convert_plain {r : Registry H} (hr : r.IsTabled) {lists : Set Nat} {v : Value}
    (hv : v.Plain r lists) (m : Memory H) (tag : TypeTag) :
    Yields (v.convert r.directory m tag) fun w => w.Plain r lists := by
  refine (v.convert_yields r.directory m tag).imp fun w hw => ?_
  rcases hw with ⟨rfl, -⟩ | ⟨hw, -⟩ | ⟨name, e, -, rfl, he⟩
  · exact hv
  · exact plain_of_scalar hw
  · exact hr.plain_of_declares he

/-- The known lists are there, with plain items, and no fault is internal. -/
def listContract (r : Registry H) : Contract (Set Nat) Fault (Memory H) where
  state lists m := ∀ id ∈ lists, ∃ items, m.cells[id]? = some (.list items) ∧
    ∀ v ∈ items, v.Plain r lists
  error f := ¬f.IsInternal

theorem Action.read_of_items {m : Memory H} {o : ObjectRef} {items : List Value}
    (h : m.cells[o.id]? = some (.list items)) : Action.read Facet.items o m = .ok items m := by
  have hget : (get : Action H (Memory H)) m = .ok m m := rfl
  rw [Action.read, run_bind_of_ok hget, Memory.get?, h]
  rfl

section

variable {r : Registry H} {lists : Set Nat} {α : Type} {Q : Set Nat → α → Prop}

theorem Yields.keeps {x : Except Fault α} {P : α → Prop} (h : Yields x P)
    (hQ : ∀ a, P a → ∀ lists', lists ⊆ lists' → Q lists' a) :
    (listContract r).Keeps lists (liftM x : Action H α) Q := by
  cases x with
  | ok a => exact .pure (hQ a h)
  | error f => exact .throw h

theorem Action.read_keeps {o : ObjectRef} (ho : o.id ∈ lists) :
    (listContract r).Keeps lists (Action.read .items o : Action H (List Value))
      fun lists' items => ∀ v ∈ items, v.Plain r lists' := by
  intro lists' hl m hm
  obtain ⟨items, hi, hplain⟩ := hm o.id (hl ho)
  rw [Action.read_of_items hi]
  exact ⟨lists', le_rfl, hm, hplain⟩

theorem listContract_set {m : Memory H} (hm : (listContract r).state lists m) (o : ObjectRef)
    {items : List Value} (hitems : ∀ v ∈ items, v.Plain r lists) (ho : o.id ∈ lists) :
    (listContract r).state lists (m.set o (.list items)) := by
  intro id hid
  by_cases heq : id = o.id
  · obtain ⟨old, hold, -⟩ := hm o.id ho
    have hlt : o.id < m.cells.size := (Array.getElem?_eq_some_iff.mp hold).1
    subst heq
    exact ⟨items, by simp [Memory.set, hlt], hitems⟩
  · obtain ⟨old, hold, hplain⟩ := hm id hid
    exact ⟨old, by simp [Memory.set, Ne.symm heq, hold], hplain⟩

theorem Action.modify_keeps {o : ObjectRef} {f : List Value → List Value} (ho : o.id ∈ lists)
    (hf : ∀ items lists', lists ⊆ lists' → (∀ v ∈ items, v.Plain r lists') →
      ∀ v ∈ f items, v.Plain r lists') :
    (listContract r).Keeps lists (Action.modify .items o f : Action H Unit) fun _ _ => True := by
  intro lists' hl m hm
  obtain ⟨items, hi, hplain⟩ := hm o.id (hl ho)
  rw [Action.modify, run_bind_of_ok (Action.read_of_items hi)]
  exact ⟨lists', le_rfl, listContract_set hm o (hf items lists' hl hplain) (hl ho), trivial⟩

/-- A new list is one more that is known. -/
theorem Action.newList_keeps {items : List Value} (h : ∀ v ∈ items, v.Plain r lists) :
    (listContract r).Keeps lists (Action.newList items : Action H Value)
      fun lists' v => v.Plain r lists' := by
  intro lists' hl m hm
  have hsub : lists' ⊆ insert m.cells.size lists' := Set.subset_insert ..
  refine ⟨insert m.cells.size lists', hsub, ?_, rfl, Set.mem_insert ..⟩
  intro id hid
  rcases Set.mem_insert_iff.mp hid with rfl | hid
  · exact ⟨items, by simp [Facet.items], fun v hv => (h v hv).mono (hl.trans hsub)⟩
  · obtain ⟨old, hold, hplain⟩ := hm id hid
    have hlt : id < m.cells.size := (Array.getElem?_eq_some_iff.mp hold).1
    exact ⟨old, by simp [Array.getElem?_push, hlt.ne, hold], fun v hv => (hplain v hv).mono hsub⟩

/-- What goes on with the result of a computation without effects. -/
theorem Yields.andThen {β : Type} {x : Except Fault α} {P : α → Prop} {f : α → Action H β}
    {R : Set Nat → β → Prop} (h : Yields x P)
    (hf : ∀ a, P a → (listContract r).Keeps lists (f a) R) :
    (listContract r).Keeps lists (liftM x >>= f) R :=
  (h.keeps fun _ ha _ _ => ha).bind fun _ a hl ha => (hf a ha).mono hl

end

def Value.PlainOf (r : Registry H) (tag : TypeTag) (lists : Set Nat) (v : Value) : Prop :=
  v.Plain r lists ∧ v.typeTag = tag

/-- What the choice of an overload ensures of a call. -/
structure Call.Suits (r : Registry H) (lists : Set Nat) (params : List ParamType) (generics : Nat)
    (c : Call) : Prop where
  types : c.types = r.directory
  typeArgs : c.typeArgs.length = generics
  args : List.Forall₂ (fun p v => v.Plain r lists ∧ (p = .any ∨ p = .exact v.typeTag)) params c.args

namespace Call

variable {r : Registry H} {lists : Set Nat} {params : List ParamType} {generics i : Nat} {c : Call}

theorem receiverInt_yields (h : c.receiver.PlainOf r .int lists) :
    Yields c.receiverInt fun _ => True := by
  obtain ⟨n, hn⟩ := h.1.int h.2
  rw [receiverInt, hn]
  trivial

theorem receiverFloat_yields (h : c.receiver.PlainOf r .float lists) :
    Yields c.receiverFloat fun _ => True := by
  obtain ⟨x, hx⟩ := h.1.float h.2
  rw [receiverFloat, hx]
  trivial

theorem receiverString_yields (h : c.receiver.PlainOf r .string lists) :
    Yields c.receiverString fun _ => True := by
  obtain ⟨s, hs⟩ := h.1.string h.2
  rw [receiverString, hs]
  trivial

theorem receiverObject_yields {name : String} (h : c.receiver.PlainOf r (.object name) lists) :
    Yields c.receiverObject fun o => o.id ∈ lists := by
  obtain ⟨o, ho, hid⟩ := h.1.object h.2
  rw [receiverObject, ho]
  exact hid

namespace Suits

variable (h : c.Suits r lists params generics)

include h

theorem arg_yields {p : ParamType} (hp : params[i]? = some p) :
    Yields (c.arg i) fun v => v.Plain r lists ∧ (p = .any ∨ p = .exact v.typeTag) := by
  obtain ⟨hi, rfl⟩ := List.getElem?_eq_some_iff.mp hp
  have hlen := h.args.length_eq
  have hv := h.args.get hi (hlen ▸ hi)
  rw [arg, List.getElem?_eq_getElem (hlen ▸ hi)]
  exact hv

theorem any_yields (hp : params[i]? = some .any) : Yields (c.arg i) fun v => v.Plain r lists :=
  (h.arg_yields hp).imp fun _ => And.left

theorem int_yields (hp : params[i]? = some (.exact .int)) : Yields (c.int i) fun _ => True := by
  refine (h.arg_yields hp).bind fun v hv => ?_
  obtain ⟨n, rfl⟩ := hv.1.int (by simpa [eq_comm] using hv.2)
  trivial

theorem float_yields (hp : params[i]? = some (.exact .float)) : Yields (c.float i) fun _ => True := by
  refine (h.arg_yields hp).bind fun v hv => ?_
  obtain ⟨x, rfl⟩ := hv.1.float (by simpa [eq_comm] using hv.2)
  trivial

theorem string_yields (hp : params[i]? = some (.exact .string)) :
    Yields (c.string i) fun _ => True := by
  refine (h.arg_yields hp).bind fun v hv => ?_
  obtain ⟨s, rfl⟩ := hv.1.string (by simpa [eq_comm] using hv.2)
  trivial

theorem typeArg_yields (hi : i < generics) : Yields (c.typeArg i) fun _ => True := by
  rw [typeArg, List.getElem?_eq_getElem (h.typeArgs ▸ hi)]
  trivial

end Suits

end Call

/-- A member that can only be read, and gives plain values for the receivers of which `P` holds. -/
def Member.Honest (r : Registry H) (P : Set Nat → Value → Prop) (m : Member H) : Prop :=
  m.setter? = none ∧ ∀ get, m.getter? = some get → ∀ lists o, P lists o →
    (listContract r).Keeps lists (get o) fun lists' v => v.Plain r lists'

/-- A body that gives plain values for the receivers of which `P` holds, and the arguments that it
declares. -/
def Method.Honest (r : Registry H) (P : Set Nat → Value → Prop) (f : Method H) : Prop :=
  ∀ lists c, P lists c.receiver → c.Suits r lists f.params f.generics →
    (listContract r).Keeps lists (f.body c) fun lists' v => f.isVoid = false → v.Plain r lists'

/-- A type whose members and methods are honest, and whose objects are shared. -/
structure TypeDef.Honest (r : Registry H) (d : TypeDef H) : Prop where
  copy : d.copy? = none
  members : ∀ m ∈ d.members, m.Honest r (Value.PlainOf r d.tag)
  methods : ∀ f ∈ d.methods, f.Honest r (Value.PlainOf r d.tag)
  staticMembers : ∀ m ∈ d.staticMembers, m.Honest r fun _ _ => True
  staticMethods : ∀ f ∈ d.staticMethods, f.isVoid = false ∧ f.Honest r fun _ _ => True

namespace TypeDef.Honest

variable {r : Registry H} {d : TypeDef H} {name : String} {params : List ParamType}

theorem ofTag (tag : TypeTag) : (TypeDef.ofTag tag : TypeDef H).Honest r :=
  ⟨rfl, by simp [TypeDef.ofTag], by simp [TypeDef.ofTag], by simp [TypeDef.ofTag],
    by simp [TypeDef.ofTag]⟩

theorem add {m : Member H} (hm : m.Honest r (Value.PlainOf r d.tag)) (h : d.Honest r) :
    (d.add m).Honest r :=
  { h with members := List.forall_mem_cons.mpr ⟨hm, h.members⟩ }

theorem addMethod {f : Method H} (hf : f.Honest r (Value.PlainOf r d.tag)) (h : d.Honest r) :
    (d.addMethod f).Honest r :=
  { h with methods := List.forall_mem_append.mpr ⟨h.methods, List.forall_mem_singleton.mpr hf⟩ }

theorem computed {get : Value → Action H Value}
    (hget : ∀ lists o, o.PlainOf r d.tag lists →
      (listContract r).Keeps lists (get o) fun lists' v => v.Plain r lists')
    (h : d.Honest r) : (d.computed name get).Honest r :=
  h.add ⟨rfl, fun _ hg => Option.some.inj hg ▸ hget⟩

theorem method {body : Call → Action H Value}
    (hbody : ∀ lists c, c.receiver.PlainOf r d.tag lists → c.Suits r lists params 0 →
      (listContract r).Keeps lists (body c) fun lists' v => v.Plain r lists')
    (h : d.Honest r) : (d.method name params body).Honest r :=
  h.addMethod fun lists c hc hs => (hbody lists c hc hs).imp fun _ _ _ hv _ => hv

theorem voidMethod {body : Call → Action H Unit}
    (hbody : ∀ lists c, c.receiver.PlainOf r d.tag lists → c.Suits r lists params 0 →
      (listContract r).Keeps lists (body c) fun _ _ => True)
    (h : d.Honest r) : (d.voidMethod name params body).Honest r :=
  h.addMethod fun lists c hc hs => (hbody lists c hc hs).bind fun _ _ _ _ =>
    .pure fun _ _ hvoid => by simp at hvoid

theorem staticProperty {get : Action H Value}
    (hget : ∀ lists, (listContract r).Keeps lists get fun lists' v => v.Plain r lists')
    (h : d.Honest r) : (d.staticProperty name get).Honest r := by
  have hm : Member.Honest r (fun _ _ => True) ⟨name, .property, some fun _ => get, none⟩ :=
    ⟨rfl, fun _ hg => Option.some.inj hg ▸ fun lists _ _ => hget lists⟩
  exact { h with staticMembers := List.forall_mem_cons.mpr ⟨hm, h.staticMembers⟩ }

theorem staticGenericMethod {generics : Nat} {body : Call → Action H Value}
    (hbody : ∀ lists c, c.Suits r lists params generics →
      (listContract r).Keeps lists (body c) fun lists' v => v.Plain r lists')
    (h : d.Honest r) : (d.staticGenericMethod name generics params body).Honest r := by
  have hf : Method.Honest r (fun _ _ => True) ⟨name, params, generics, false, body⟩ :=
    fun lists c _ hs => (hbody lists c hs).imp fun _ _ _ hv _ => hv
  exact { h with staticMethods :=
    List.forall_mem_append.mpr ⟨h.staticMethods, List.forall_mem_singleton.mpr ⟨rfl, hf⟩⟩ }

theorem staticMethod {body : Call → Action H Value}
    (hbody : ∀ lists c, c.Suits r lists params 0 →
      (listContract r).Keeps lists (body c) fun lists' v => v.Plain r lists')
    (h : d.Honest r) : (d.staticMethod name params body).Honest r :=
  h.staticGenericMethod hbody

end TypeDef.Honest

end Formula
