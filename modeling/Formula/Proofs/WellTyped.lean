import Formula.Proofs.Session
import Formula.Proofs.TypeTable
import Mathlib.Data.List.Nodup

/-!
Variables keep their names and types, and hold values of their types, whatever is asked of an engine.
-/

namespace Formula

/-- Null, or a value of the type; the null type has all values. -/
def TypeTag.Holds (tag : TypeTag) (v : Value) : Prop := v = .null ∨ tag = .null ∨ v.typeTag = tag

/-- Owned, or backed by a store that keeps what it is given. -/
def Slot.Retains : Slot → Prop
  | .owned _ => True
  | .backed _ keep => ∀ old new, keep old new = new

/-- A value of the declared type, in a slot that keeps what is stored. -/
def Variable.WellTyped (x : Variable) : Prop := x.type.Holds x.get ∧ x.slot.Retains

namespace Bindings

def WellTyped (b : Bindings) : Prop := ∀ x ∈ b.vars, x.WellTyped

/-- The variables by name and declared type, in their order. -/
def shape (b : Bindings) : List (String × TypeTag) := b.vars.map fun x => (x.name, x.type)

def Distinct (b : Bindings) : Prop := (b.vars.map (·.name)).Nodup

instance (b : Bindings) : Decidable b.Distinct := inferInstanceAs (Decidable (List.Nodup _))

theorem signature_eq_of_shape_eq {b b' : Bindings} (h : b.shape = b'.shape) :
    b.signature = b'.signature := by
  have hs (b : Bindings) : b.signature = ⟨b.shape.mergeSort fun x y => decide (x.1 ≤ y.1)⟩ := rfl
  rw [hs b, hs b', h]

theorem shape_store (b : Bindings) (name : String) (v : Value) : (b.store name v).shape = b.shape := by
  simp only [shape, store, List.map_map, List.map_inj_left, Function.comp_apply]
  intro x _
  split <;> rfl

end Bindings

theorem Slot.get_set {s : Slot} (h : s.Retains) (v : Value) : (s.set v).get = v := by
  cases s with
  | owned => rfl
  | backed old keep => exact h old v

theorem Slot.Retains.set {s : Slot} (h : s.Retains) (v : Value) : (s.set v).Retains := by
  cases s with
  | owned => trivial
  | backed => exact h

theorem Variable.WellTyped.set {x : Variable} (h : x.WellTyped) {v : Value} (hv : x.type.Holds v) :
    (x.set v).WellTyped := by
  refine ⟨?_, h.2.set v⟩
  rw [Variable.get, Variable.set, Slot.get_set h.2]
  exact hv

/-- A conversion to a type yields one of its values. -/
theorem TypeTag.holds_convert {H : Host} {r : Registry H} (hr : r.IsTabled) {m : Memory H}
    {v w : Value} {tag : TypeTag} (h : v.convert r.directory m tag = .ok w) : tag.Holds w := by
  rcases (v.convert_yields r.directory m tag).of_ok h with ⟨rfl, hv⟩ | ⟨-, ht⟩ | ⟨name, e, rfl, rfl, he⟩
  · exact hv
  · exact .inr (.inr ht)
  · obtain ⟨rfl, -⟩ := hr.declares he
    exact .inr (.inr rfl)

namespace WellTyped

variable {H : Host}

/-- Variables of the given names and types hold values of these types. -/
def contract (shape : List (String × TypeTag)) : Contract Unit EvalError (World H) where
  state _ w := w.bindings.WellTyped ∧ w.bindings.shape = shape
  error _ := True

def Held (shape : List (String × TypeTag)) (name : String) (v : Value) : Prop :=
  ∀ tag, (name, tag) ∈ shape → tag.Holds v

variable {shape : List (String × TypeTag)}

theorem state_store {w : World H} {name : String} {v : Value}
    (h : (contract shape).state () w) (hv : Held shape name v) :
    (contract shape).state () { w with bindings := w.bindings.store name v } := by
  refine ⟨?_, (w.bindings.shape_store name v).trans h.2⟩
  intro x hx
  obtain ⟨y, hy, rfl⟩ := List.mem_map.mp hx
  split
  · next hname =>
    refine (h.1 y hy).set (hv y.type ?_)
    rw [← h.2, ← hname]
    exact List.mem_map_of_mem hy
  · exact h.1 y hy

theorem held_of_find? (hd : (shape.map (·.1)).Nodup) {w : World H} {x : Variable} {name : String}
    {v : Value} (h : (contract shape).state () w) (hx : w.bindings.find? name = some x)
    (hv : x.type.Holds v) : Held shape name v := by
  intro tag hmem
  have hname : x.name = name := by simpa using List.find?_some hx
  have hmem' : (x.name, x.type) ∈ shape := h.2 ▸ List.mem_map_of_mem (List.mem_of_find?_eq_some hx)
  rw [hname] at hmem'
  obtain rfl : x.type = tag := by
    have heq := List.inj_on_of_nodup_map hd hmem' hmem rfl
    exact (Prod.mk.inj heq).2
  exact hv

theorem keeps {i : Unit} {α : Type} {x : Action H α} {Q : Unit → α → Prop}
    (hok : ∀ m a m', x m = .ok a m' → ∀ j, i ≤ j → Q j a) :
    (contract shape).Keeps i (liftM x : Eval H α) Q :=
  .ofHost (fun _ _ _ _ hs => hs) hok fun _ _ _ _ => trivial

def discipline (r : Registry H) (hr : r.IsTabled) (hd : (shape.map (·.1)).Nodup) :
    Discipline r Unit where
  toContract := contract shape
  sound _ _ := True
  value _ _ := True
  held _ := Held shape
  sound_mono _ h := h
  value_mono _ h := h
  held_mono _ h := h
  error_of_plain _ := trivial
  error_congr _ _ := trivial
  sound_of_value h := h
  value_of_sound h _ := h
  value_of_scalar _ := trivial
  value_of_declares _ := trivial
  load _ name := by
    refine .load (fun _ _ => trivial) fun _ w x _ hw hx _ => keeps fun m v m' hv _ _ => ⟨trivial, ?_⟩
    refine held_of_find? hd hw hx ?_
    have hx' := (hw.1 x (List.mem_of_find?_eq_some hx)).1
    rcases hr.copyOnLoad_ok hv with rfl | ⟨o, o', ho, rfl, hname⟩
    · exact hx'
    · rw [ho] at hx'
      exact hx'.imp (by simp) (.imp_right fun h => by simpa [Value.typeTag, hname] using h)
  update _ _ := .updateVariable (fun _ _ => trivial) fun _ _ _ _ _ hw hx hnew =>
    ⟨state_store hw (held_of_find? hd hw hx (TypeTag.holds_convert hr hnew)), trivial⟩
  store hv _ := .store (fun _ _ => trivial) fun _ _ _ _ hw _ => state_store hw hv
  getter _ _ _ := keeps fun _ _ _ _ _ _ => trivial
  setter _ _ _ _ := keeps fun _ _ _ _ _ _ => trivial
  body _ _ _ _ _ _ := keeps fun _ _ _ _ _ _ => trivial

end WellTyped

variable {H : Host}

/-- An int, a mode that the host keeps, and a variable for any value. -/
def WellTyped.session : Session Sample.host where
  world :=
    { memory := Sample.memory
      bindings := ⟨[.infer "n" (.int 1), ⟨"mode", .enum "Mode", .plain .null⟩,
        ⟨"any", .null, .owned (.string "x")⟩]⟩ }
  cache := .empty

end Formula
