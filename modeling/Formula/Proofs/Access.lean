import Formula.Proofs.Contract
import Formula.Proofs.Outcomes

/-!
What contracts ask of reads and writes of variables, and of what hosts do.
-/

namespace Formula

namespace Registry

variable {H : Host} {r : Registry H} {t : HostType H}

theorem mem_of_find? {name : String} (h : r.find? name = some t) :
    t ∈ r.types ∧ t.tag.name = name :=
  ⟨List.mem_of_find?_eq_some h, by simpa using List.find?_some h⟩

theorem find?_of_typeOf {v : Value} (h : r.typeOf v = .ok t) :
    r.find? v.typeTag.name = some t := by
  rw [typeOf] at h
  split at h
  · next ht => rw [ht, Except.ok.inj h]
  · simp at h

/-- A loaded value is the one that is held, or the copy that its type makes of it. -/
theorem copyOnLoad_cases (r : Registry H) (v : Value) :
    r.copyOnLoad v = pure v ∨ ∃ o t copy, v = .object o ∧ r.find? o.typeName = some t ∧
      t.copy? o = some copy ∧ r.copyOnLoad v = Value.object <$> copy := by
  rw [copyOnLoad.eq_def]
  cases v with
  | object o =>
      simp only
      split
      · next copy hc =>
        obtain ⟨t, ht, hc⟩ := Option.bind_eq_some_iff.mp hc
        exact .inr ⟨o, t, copy, rfl, ht, hc, (map_eq_pure_bind ..).symm⟩
      · exact .inl rfl
  | null | bool | int | float | string | enum | typeRoot => exact .inl rfl

end Registry

def HostType.HasMember {H : Host} (t : HostType H) (v : Value) (name : String) (m : Member H) : Prop :=
  (if v.isTypeRoot then t.staticMember? name else t.member? name) = some m

theorem Eval.findMember_eq_ok {H : Host} {r : Registry H} {v : Value} {name : String}
    {t : HostType H} {m : Member H} (h : Eval.findMember r v name = .ok (t, m)) :
    r.find? v.typeTag.name = some t ∧ t.HasMember v name m := by
  obtain ⟨t', ht, h⟩ := bind_eq_ok.mp h
  split at h
  · next hm =>
    obtain ⟨rfl, rfl⟩ := Prod.mk.inj (Except.ok.inj h)
    exact ⟨Registry.find?_of_typeOf ht, hm⟩
  · simp at h

namespace Eval

variable {H : Host} {w : World H} {name : String}

theorem lookup_of_find? {x : Variable} (h : w.bindings.find? name = some x) :
    lookup name w = .ok x w := by
  have hget : (get : Eval H (World H)) w = .ok w w := rfl
  rw [lookup, run_bind_of_ok hget, h]
  rfl

theorem lookup_of_find?_none (h : w.bindings.find? name = none) :
    lookup name w = .error (.of (.unknownVariable name)) w := by
  have hget : (get : Eval H (World H)) w = .ok w w := rfl
  rw [lookup, run_bind_of_ok hget, h]
  rfl

end Eval

namespace Contract

variable {H : Host} {ι α : Type} [Preorder ι] {C : Contract ι EvalError (World H)} {i : ι}
  {Q : ι → α → Prop}

/-- What a contract asks of hosts while the variables are as they are. -/
def onMemory (C : Contract ι EvalError (World H)) (b : Bindings) : Contract ι Fault (Memory H) where
  state i m := C.state i ⟨m, b⟩
  error f := C.error (.of f)

theorem Keeps.ofAction {x : Action H α} (h : ∀ b, (C.onMemory b).Keeps i x Q) :
    C.Keeps i (liftM x : Eval H α) Q := by
  intro j hij w hw
  have hx := h w.bindings j hij w.memory hw
  change C.Meets Q j (Eval.ofAction x w)
  rw [Eval.ofAction]
  cases hr : x w.memory with
  | ok a m => rw [hr] at hx; exact hx
  | error f m => rw [hr] at hx; exact hx

/-- A contract that says nothing of memory asks of hosts only for what they return and raise. -/
theorem Keeps.ofHost {x : Action H α}
    (hstate : ∀ j b m m', C.state j ⟨m, b⟩ → C.state j ⟨m', b⟩)
    (hok : ∀ m a m', x m = .ok a m' → ∀ j, i ≤ j → Q j a)
    (herror : ∀ m f m', x m = .error f m' → C.error (.of f)) :
    C.Keeps i (liftM x : Eval H α) Q := by
  refine .ofAction fun b j hij m hm => ?_
  cases hr : x m with
  | ok a m' => exact ⟨j, le_rfl, hstate j b m m' hm, hok m a m' hr j hij⟩
  | error f m' => exact ⟨herror m f m' hr, j, le_rfl, hstate j b m m' hm⟩

section

variable (hC : ∀ f : Fault, ¬f.IsInternal → C.error (.of f)) {r : Registry H} {name : String}
  {v : Value}

include hC

/-- What goes on with a variable has to be right for each that is there. -/
theorem Keeps.lookup {f : Variable → Eval H α}
    (h : ∀ j w x, i ≤ j → C.state j w → w.bindings.find? name = some x → C.Meets Q j (f x w)) :
    C.Keeps i (Eval.lookup name >>= f) Q := by
  intro j hij w hw
  cases hx : w.bindings.find? name with
  | none =>
      rw [run_bind_of_error (Eval.lookup_of_find?_none hx)]
      exact ⟨hC _ (by simp [Fault.IsInternal, Fault.code]), j, le_rfl, hw⟩
  | some x =>
      rw [run_bind_of_ok (Eval.lookup_of_find? hx)]
      exact h j w x hij hw hx

theorem Keeps.load {Q : ι → Value → Prop}
    (h : ∀ j w x, i ≤ j → C.state j w → w.bindings.find? name = some x →
      r.directory.checkAllowed x.get = .ok () →
      C.Keeps j (liftM (r.copyOnLoad x.get) : Eval H Value) Q) :
    C.Keeps i (Eval.load r name) Q := by
  refine Keeps.lookup hC fun j w x hij hw hx => ?_
  have hy := r.directory.checkAllowed_yields x.get
  cases hallowed : r.directory.checkAllowed x.get with
  | error f =>
      rw [hallowed] at hy
      exact ⟨hC f hy, j, le_rfl, hw⟩
  | ok => exact h j w x hij hw hx hallowed j le_rfl w hw

theorem Keeps.updateVariable {Q : ι → Value → Prop}
    (h : ∀ j w x new, i ≤ j → C.state j w → w.bindings.find? name = some x →
      v.convert r.directory w.memory x.type = .ok new →
      C.state j { w with bindings := w.bindings.store name new } ∧ Q j new) :
    C.Keeps i (Eval.updateVariable r name v) Q := by
  refine Keeps.lookup hC fun j w x hij hw hx => ?_
  have hy := Value.convert_yields r.directory w.memory v x.type
  change C.Meets Q j ((Eval.ofExcept (v.convert r.directory w.memory x.type) >>= _) w)
  cases hconv : v.convert r.directory w.memory x.type with
  | error f =>
      rw [hconv] at hy
      exact ⟨hC f hy, j, le_rfl, hw⟩
  | ok new =>
      obtain ⟨hs, hq⟩ := h j w x new hij hw hx hconv
      exact ⟨j, le_rfl, hs, hq⟩

theorem Keeps.store
    (h : ∀ j w x, i ≤ j → C.state j w → w.bindings.find? name = some x →
      C.state j { w with bindings := w.bindings.store name v }) :
    C.Keeps i (do let _ ← Eval.lookup name; Eval.store name v : Eval H Unit) fun _ _ => True :=
  Keeps.lookup hC fun j w x hij hw hx => ⟨j, le_rfl, h j w x hij hw hx, trivial⟩

end

end Contract

end Formula
