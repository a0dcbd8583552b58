import Formula.Proofs.TypeTable
import Mathlib.Order.Defs.PartialOrder

/-!
Computations that change nothing there was. They may add objects, such as the copies that are made when
an object of a value type is read.
-/

namespace Formula

variable {H : Host} {α : Type}

namespace Memory

/-- All that there was is as it was; there may be new objects. -/
structure Intact (m m' : Memory H) : Prop where
  state : m'.state = m.state
  get? : ∀ {o c}, m.get? o = some c → m'.get? o = some c

/-- All that there was is as it was, apart from one object. -/
structure IntactBut (o : ObjectRef) (m m' : Memory H) : Prop where
  state : m'.state = m.state
  get? : ∀ {p c}, p.id ≠ o.id → m.get? p = some c → m'.get? p = some c

variable {m m' m'' : Memory H} {o : ObjectRef}

theorem Intact.refl (m : Memory H) : m.Intact m := ⟨rfl, id⟩

theorem Intact.trans (h : m.Intact m') (h' : m'.Intact m'') : m.Intact m'' :=
  ⟨h'.state.trans h.state, fun hc => h'.get? (h.get? hc)⟩

theorem Intact.get?_eq_none (h : m.Intact m') (ho : m'.get? o = none) : m.get? o = none := by
  cases hc : m.get? o with
  | none => rfl
  | some c => rw [h.get? hc] at ho; cases ho

/-- An object that was not there may change. -/
theorem Intact.trans_but (h : m.Intact m') (ho : m.get? o = none) (h' : IntactBut o m' m'') :
    m.Intact m'' := by
  refine ⟨h'.state.trans h.state, fun {p c} hc => h'.get? (fun hid => ?_) (h.get? hc)⟩
  rw [Memory.get?, hid, ← Memory.get?, ho] at hc
  cases hc

theorem get?_alloc_self (m : Memory H) (typeName : String) (c : Content H) :
    m.get? (m.alloc typeName c).1 = none := by
  simp [alloc, get?]

theorem intact_alloc (m : Memory H) (typeName : String) (c : Content H) :
    m.Intact (m.alloc typeName c).2 := by
  refine ⟨rfl, fun {o c'} hc => ?_⟩
  rw [get?_alloc_of_ne, hc]
  intro hid
  simp [get?, hid] at hc

theorem get?_set_of_get? {c : Content H} (h : m.get? o = some c) (c' : Content H) :
    (m.set o c').get? o = some c' :=
  get?_set (Array.getElem?_eq_some_iff.mp h).1

theorem intactBut_set (m : Memory H) (o : ObjectRef) (c : Content H) : IntactBut o m (m.set o c) :=
  ⟨rfl, fun hne hc => by rw [get?_set_of_ne (Ne.symm hne), hc]⟩

end Memory

/-- No object that there was, unless its type is shared. -/
def Value.IsNew (types : Directory) (m : Memory H) (v : Value) : Prop :=
  ∀ o, v = .object o → types.holdsValueType v = true → m.get? o = none

namespace Value

variable {types : Directory} {m m' : Memory H} {v : Value}

theorem isNew_of_not_holdsValueType (h : types.holdsValueType v = false) : v.IsNew types m :=
  fun _ _ hv => by simp [h] at hv

theorem IsNew.of_intact (h : v.IsNew types m') (hm : m.Intact m') : v.IsNew types m :=
  fun o ho hv => hm.get?_eq_none (h o ho hv)

end Value

theorem Directory.object_of_holdsValueType {types : Directory} {v : Value}
    (h : types.holdsValueType v = true) : ∃ o, v = .object o := by
  cases v with
  | object o => exact ⟨o, rfl⟩
  | null | bool | int | float | string | enum | typeRoot => cases h

namespace Action

/-- However it ends, all that there was is as it was; `Q` relates the memory at the start to the result
and the memory at the end. -/
def Adds (x : Action H α) (m : Memory H) (Q : α → Memory H → Prop) : Prop :=
  match x m with
  | .ok a m' => m.Intact m' ∧ Q a m'
  | .error _ m' => m.Intact m'

/-- If it fails, all that there was is as it was. -/
def Atomic (x : Action H α) (m : Memory H) : Prop := ∀ f m', x m = .error f m' → m.Intact m'

variable {β : Type} {x : Action H α} {f : α → Action H β} {m : Memory H} {Q : α → Memory H → Prop}

theorem Adds.pure {a : α} (h : Q a m) : Adds (pure a) m Q := ⟨.refl m, h⟩

theorem Adds.throw (e : Fault) : Adds (throw e : Action H α) m Q := .refl m

theorem Adds.ok (h : Adds x m Q) {a : α} {m' : Memory H} (hx : x m = .ok a m') :
    m.Intact m' ∧ Q a m' := by
  rw [Adds, hx] at h
  exact h

theorem Adds.atomic (h : Adds x m Q) : Atomic x m := by
  intro e m' hx
  rw [Adds, hx] at h
  exact h

theorem Adds.bind {R : β → Memory H → Prop} (hx : Adds x m Q)
    (hf : ∀ a m', x m = .ok a m' → m.Intact m' → Q a m' → Adds (f a) m' R) :
    Adds (x >>= f) m R := by
  cases hr : x m with
  | ok a m' =>
      obtain ⟨hm, ha⟩ := hx.ok hr
      have h := hf a m' hr hm ha
      rw [Adds, run_bind_of_ok hr]
      rw [Adds] at h
      cases hr' : f a m' with
      | ok b m'' => rw [hr'] at h; exact ⟨hm.trans h.1, h.2⟩
      | error e m'' => rw [hr'] at h; exact hm.trans h
  | error e m' =>
      rw [Adds, run_bind_of_error hr]
      exact hx.atomic e m' hr

theorem Adds.imp {R : α → Memory H → Prop} (hx : Adds x m Q)
    (h : ∀ a m', m.Intact m' → Q a m' → R a m') : Adds x m R := by
  rw [Adds] at hx ⊢
  cases hr : x m with
  | ok a m' => rw [hr] at hx; exact ⟨hx.1, h a m' hx.1 hx.2⟩
  | error e m' => rw [hr] at hx; exact hx

variable {T : Type} {facet : Facet H T} {o : ObjectRef}

theorem read_adds (facet : Facet H T) (o : ObjectRef) (m : Memory H) :
    Adds (read facet o) m fun t m' => m' = m ∧ (m.get? o).bind facet.view? = some t := by
  have hget : (get : Action H (Memory H)) m = .ok m m := rfl
  rw [Adds, read, run_bind_of_ok hget]
  cases ht : (m.get? o).bind facet.view? with
  | none => exact .refl m
  | some t => exact ⟨.refl m, rfl, rfl⟩

theorem read_ok {t : T} (h : (m.get? o).bind facet.view? = some t) : read facet o m = .ok t m := by
  have hget : (get : Action H (Memory H)) m = .ok m m := rfl
  rw [read, run_bind_of_ok hget, h]
  rfl

theorem create_adds (facet : Facet H T) (typeName : String) (t : T) (m : Memory H) :
    Adds (create facet typeName t) m fun o m' =>
      m.get? o = none ∧ o.typeName = typeName ∧ m'.get? o = some (facet.embed t) :=
  ⟨m.intact_alloc typeName (facet.embed t), m.get?_alloc_self typeName (facet.embed t), rfl,
    m.get?_alloc typeName (facet.embed t)⟩

theorem copy_adds (facet : Facet H T) (o : ObjectRef) (m : Memory H) :
    Adds (copy facet o) m fun o' m' => m.get? o' = none ∧ o'.typeName = o.typeName ∧
      ∃ t, (m.get? o).bind facet.view? = some t ∧ m'.get? o' = some (facet.embed t) := by
  refine (read_adds facet o m).bind fun t m' _ _ ht => ?_
  obtain ⟨rfl, ht⟩ := ht
  exact (create_adds facet o.typeName t m').imp fun o' m'' _ h => ⟨h.1, h.2.1, t, ht, h.2.2⟩

/-- A change of one object happens as a whole or not at all. -/
theorem modify_ok {f : T → T} {m' : Memory H} (h : modify facet o f m = .ok () m') :
    ∃ t, (m.get? o).bind facet.view? = some t ∧ m' = m.set o (facet.embed (f t)) := by
  obtain ⟨t, m'', hread, hset⟩ := ok_of_run_bind h
  obtain ⟨-, rfl, ht⟩ := (read_adds facet o m).ok hread
  exact ⟨t, ht, (EStateM.Result.ok.inj hset).2.symm⟩

theorem modify_atomic (facet : Facet H T) (o : ObjectRef) (f : T → T) (m : Memory H) :
    Atomic (modify facet o f) m := by
  intro e m' h
  cases hr : read facet o m with
  | ok t m'' =>
      rw [modify, run_bind_of_ok hr] at h
      cases h
  | error e' m'' =>
      rw [modify, run_bind_of_error hr] at h
      obtain ⟨-, rfl⟩ := EStateM.Result.error.inj h
      exact (read_adds facet o m).atomic e' m'' hr

end Action

namespace HostType.IsTabled

variable {t : HostType H} (ht : t.IsTabled) {o : ObjectRef}

include ht

theorem isValueType_eq (o : ObjectRef) : t.isValueType = (t.copy? o).isSome := by
  cases ht with
  | typeDef d => simp [TypeDef.toHostType]
  | enumeration e =>
      rw [Enumeration.toHostType, TypeDef.toHostType, Enumeration.typeDef_eq]
      rfl

theorem copy_adds {copy : Action H ObjectRef} (hcopy : t.copy? o = some copy) (m : Memory H) :
    Action.Adds copy m fun o' _ => m.get? o' = none ∧ o'.typeName = o.typeName := by
  cases ht with
  | typeDef d hd =>
      obtain ⟨c, hc, rfl⟩ := Option.map_eq_some_iff.mp hcopy
      obtain ⟨T, facet, rfl⟩ := hd c hc
      exact (Action.copy_adds facet o m).imp fun _ _ _ h => ⟨h.1, h.2.1⟩
  | enumeration e => simp at hcopy

end HostType.IsTabled

theorem Registry.holdsValueType_object (r : Registry H) (o : ObjectRef) :
    r.directory.holdsValueType (.object o) =
      ((r.find? o.typeName).map (·.isValueType)).getD false := by
  simp only [Directory.holdsValueType, directory, Option.map_map]
  rfl

/-- Loading an object of a value type makes a new one. -/
theorem Registry.IsTabled.copyOnLoad_adds {r : Registry H} (hr : r.IsTabled) (v : Value)
    (m : Memory H) : Action.Adds (r.copyOnLoad v) m fun w _ => w.IsNew r.directory m := by
  cases v with
  | object o =>
      rw [copyOnLoad]
      cases hf : (r.find? o.typeName).bind (·.copy? o) with
      | some copy =>
          obtain ⟨t, ht, hcopy⟩ := Option.bind_eq_some_iff.mp hf
          refine ((hr t (mem_of_find? ht).1).copy_adds hcopy m).bind fun o' m' _ _ ho' => ?_
          refine .pure fun p hp _ => ?_
          obtain rfl := Value.object.inj hp
          exact ho'.1
      | none =>
          refine .pure (Value.isNew_of_not_holdsValueType ?_)
          rw [holdsValueType_object]
          cases ht : r.find? o.typeName with
          | none => rfl
          | some t =>
              have hcopy : t.copy? o = none := by simpa [ht] using hf
              simp [(hr t (mem_of_find? ht).1).isValueType_eq o, hcopy]
  | null | bool | int | float | string | enum | typeRoot =>
      exact .pure (Value.isNew_of_not_holdsValueType rfl)

/-- The variables are as they were, and so are the objects that there were. -/
structure World.Intact (w w' : World H) : Prop where
  bindings : w'.bindings = w.bindings
  memory : w.memory.Intact w'.memory

theorem World.Intact.refl (w : World H) : w.Intact w := ⟨rfl, .refl _⟩

namespace Eval

open Contract

/-- What there was in `w` is as it was. -/
def intact (w : World H) : Contract Unit EvalError (World H) where
  state _ w' := w.Intact w'
  error _ := True

variable {w : World H} {i : Unit} {Q : Unit → α → Prop}

theorem ofAction_keeps {x : Action H α} {P : Memory H → α → Prop}
    (hx : ∀ m, w.memory.Intact m → x.Adds m fun a _ => P m a)
    (hQ : ∀ m a, w.memory.Intact m → P m a → Q () a) :
    (intact w).Keeps i (liftM x : Eval H α) Q := by
  refine .ofAction fun b j _ m hm => ?_
  have h := hx m hm.memory
  cases hr : x m with
  | ok a m' =>
      obtain ⟨hm', ha⟩ := h.ok hr
      exact ⟨j, le_rfl, ⟨hm.bindings, hm.memory.trans hm'⟩, hQ m a hm.memory ha⟩
  | error f m' => exact ⟨trivial, j, le_rfl, hm.bindings, hm.memory.trans (h.atomic f m' hr)⟩

theorem load_keeps {r : Registry H} (hr : r.IsTabled) (name : String) :
    (intact w).Keeps i (load r name) fun _ v => v.IsNew r.directory w.memory :=
  .load (fun _ _ => trivial) fun _ _ x _ _ _ _ =>
    ofAction_keeps (fun m _ => hr.copyOnLoad_adds x.get m) fun _ _ hm hv => hv.of_intact hm

end Eval

end Formula
