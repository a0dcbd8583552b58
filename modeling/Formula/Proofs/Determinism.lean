import Formula.Proofs.Composition
import Formula.Proofs.Custody
import Formula.Proofs.RepeatedRun
import Formula.Proofs.SteadyTypes
import Formula.Proofs.Turns
import Mathlib

/-!
With the builtin types, formulas that assign nothing and call none of the methods that change lists leave
the world as it is, apart from new lists. Evaluated again they yield the same.
-/

namespace Formula

variable {H : Host} {off : List String}

namespace Renumbering

variable {ρ : Renumbering}

theorem value_of_number {v : Value} (h : ∀ o, v = .object o → ρ.number o.id = o.id) :
    ρ.value v = v := by
  cases v with
  | object o => rw [value, object, h o rfl]
  | null | bool | int | float | string | enum | typeRoot => rfl

theorem value_of_within {v : Value} (h : v.Within (Set.Iio ρ.first)) : ρ.value v = v :=
  value_of_number fun o ho => ρ.number_of_lt (h o ho)

theorem value_of_gap (h : ρ.gap = 0) (v : Value) : ρ.value v = v := by
  refine value_of_number fun o _ => ?_
  rw [number]
  split <;> omega

end Renumbering

section

variable {ρ : Renumbering}

theorem Memory.Intact.size_le {m m' : Memory H} (h : m.Intact m') : m.cells.size ≤ m'.cells.size := by
  have hnone : m'.get? ⟨m'.cells.size, ""⟩ = none := Array.getElem?_eq_none le_rfl
  exact Array.getElem?_eq_none_iff.mp (h.get?_eq_none hnone)

/-- Where there are more objects, those that come next have higher numbers. -/
theorem Memory.Intact.renumbered {m m' : Memory H} (h : m.Intact m') (hfirst : ρ.first = m.cells.size)
    (hsize : m'.cells.size = m.cells.size + ρ.gap)
    (hitems : ∀ o items, m.items? o = some items → ∀ v ∈ items, ρ.value v = v) :
    m.Renumbered ρ m' where
  state := h.state
  size := hsize
  first_le := hfirst.le
  get? o := by
    rcases Nat.lt_or_ge o.id m.cells.size with hlt | hge
    · have hobject : ρ.object o = o := by rw [Renumbering.object, ρ.number_of_lt (hfirst ▸ hlt)]
      obtain ⟨c, hc⟩ : ∃ c, m.get? o = some c := ⟨_, Array.getElem?_eq_getElem hlt⟩
      rw [hobject, h.get? hc, hc]
      cases c with
      | list items =>
          have hsame : items.map ρ.value = items :=
            (List.map_congr_left (hitems o items (by rw [items?, hc]))).trans (List.map_id' items)
          exact congrArg (some ∘ Content.list) hsame.symm
      | host object => rfl
    · have hnumber : ρ.number o.id = o.id + ρ.gap := ρ.number_of_le (hfirst ▸ hge)
      have hnone : m.get? o = none := Array.getElem?_eq_none hge
      rw [hnone]
      refine Array.getElem?_eq_none ?_
      simp only [Renumbering.object, hnumber]
      omega

end

/-- All objects that are held are there. -/
structure World.Closed (w : World H) : Prop where
  vars : ∀ x ∈ w.bindings.vars, x.get.Within (Set.Iio w.memory.cells.size)
  items : ∀ o items, w.memory.items? o = some items →
    ∀ v ∈ items, v.Within (Set.Iio w.memory.cells.size)

namespace World

variable {w w' : World H}

/-- The objects that are in `w'` and not in `w` take the place of those that came next. -/
def past (w w' : World H) : Renumbering :=
  ⟨w.memory.cells.size, w'.memory.cells.size - w.memory.cells.size⟩

/-- Where there are no more objects, nothing gets another number. -/
theorem rerun_self (w : World H) : w.Rerun (w.past w) w w where
  memory :=
    { (Memory.Intact.refl w.memory).renumbered rfl (by simp [past])
        fun _ _ _ v _ => Renumbering.value_of_gap (Nat.sub_self _) v with
      intact := .refl _ }
  bindings := rfl
  same := rfl
  vars x _ := Renumbering.value_of_gap (Nat.sub_self _) x.get

/-- A world may be run in again after something that left it intact. -/
theorem Closed.rerun (hw : w.Closed) (h : w.Intact w') : w.Rerun (w.past w') w w' where
  memory :=
    { h.memory.renumbered rfl (by have := h.memory.size_le; simp only [past]; omega)
        fun o items hi v hv => Renumbering.value_of_within (hw.items o items hi v hv) with
      intact := .refl _ }
  bindings := rfl
  same := h.bindings
  vars x hx := Renumbering.value_of_within (hw.vars x hx)

end World

namespace Engine

variable {e : Engine H} {s : Session H}

theorem afterEvaluate_of_coherent (hs : s.cache.Coherent e) (uid formula : String) :
    (e.afterEvaluate uid formula s).world =
        ((e.compileFor s.world.bindings formula).run e.registry).after s.world ∧
      (e.afterEvaluate uid formula s).cache.Coherent e := by
  obtain ⟨c, hc, heval⟩ := evaluate_of_coherent hs uid formula
  rw [afterEvaluate, heval, SessionM.ofEval, Eval.after]
  cases (e.compileFor s.world.bindings formula).run e.registry s.world <;> exact ⟨rfl, hc⟩

/-- However it ends, a formula that only reads leaves the variables and all objects that there were as
they were. -/
theorem intact_afterEvaluate (hs : s.cache.Coherent e) (hr : e.registry.Steady off) (uid : String)
    {formula : String} (hf : ReadOnly off formula) :
    s.world.Intact (e.afterEvaluate uid formula s).world := by
  have hrerun := (CompiledFormula.run_repeats (s.world.past s.world) s.world hr e.config.maxHops
    (.of e.registry.directory s.world.bindings) hf).after s.world.rerun_self
  rw [(afterEvaluate_of_coherent hs uid formula).1, compileFor]
  exact ⟨hrerun.bindings, hrerun.memory.intact⟩

/-- Evaluated again, a formula that only reads yields the same. -/
theorem effect_again (hs : s.cache.Coherent e) (hr : e.registry.Steady off) (hw : s.world.Closed)
    {formula : String} (hf : ReadOnly off formula) (uid uid' : String) :
    let s' := e.afterEvaluate uid formula s
    let ρ := s.world.past s'.world
    (e.effect uid' formula s').1 = (e.effect uid formula s).1.map ρ.evaluation ∧
      s'.world.memory.Renumbered ρ (e.afterEvaluate uid' formula s').world.memory := by
  intro s' ρ
  -- The second run begins where the first one ended, in what is a copy of where the first one began.
  obtain ⟨hworld, hs'⟩ := afterEvaluate_of_coherent hs uid formula
  have hintact : s.world.Intact s'.world := intact_afterEvaluate hs hr uid hf
  have hcompiled : e.compileFor s'.world.bindings formula = e.compileFor s.world.bindings formula := by
    rw [hintact.bindings]
  have hrepeats : Repeats (s.world.Rerun ρ) ρ.evaluation
      ((e.compileFor s.world.bindings formula).run e.registry)
      ((e.compileFor s.world.bindings formula).run e.registry) :=
    CompiledFormula.run_repeats ρ s.world hr _ _ hf
  constructor
  · have h := hrepeats _ _ (hw.rerun hintact)
    rw [effect_of_coherent hs, effect_of_coherent hs', hcompiled]
    generalize CompiledFormula.run e.registry _ s.world = x at h ⊢
    generalize CompiledFormula.run e.registry _ s'.world = x' at h ⊢
    cases h with
    | ok ev h => rfl
    | error err h => rfl
  · have h := hrepeats.after (hw.rerun hintact)
    rw [← hworld] at h
    rw [(afterEvaluate_of_coherent hs' uid' formula).1, hcompiled]
    exact h.memory.toRenumbered

/-- With the builtin types, a formula without operators that assign and without the names of methods
that change lists changes neither variables nor lists, however it ends. Evaluated again it yields the
same results and diagnostics or the same error, and creates the same lists, under the next numbers. -/
theorem effect_readOnly (config : Config) (s : Session H)
    (hs : s.cache.Coherent (⟨Registry.builtins, config⟩ : Engine H)) (hw : s.world.Closed)
    {formula : String} (hf : ReadOnly Builtin.Sequence.mutators formula) (uid uid' : String) :
    let e : Engine H := ⟨Registry.builtins, config⟩
    let s' := e.afterEvaluate uid formula s
    let ρ := s.world.past s'.world
    s.world.Intact s'.world ∧ s'.world.Intact (e.afterEvaluate uid' formula s').world ∧
      (e.effect uid' formula s').1 = (e.effect uid formula s).1.map ρ.evaluation ∧
      s'.world.memory.Renumbered ρ (e.afterEvaluate uid' formula s').world.memory := by
  intro e s' ρ
  have hr : e.registry.Steady Builtin.Sequence.mutators := Registry.steady_builtins
  have hs' : s'.cache.Coherent e := (afterEvaluate_of_coherent hs uid formula).2
  exact ⟨intact_afterEvaluate hs hr uid hf, intact_afterEvaluate hs' hr uid' hf,
    effect_again hs hr hw hf uid uid'⟩

end Engine

/-- A list that is its own first item. -/
def Sample.looped : Session Sample.host where
  world :=
    { memory := ⟨#[.list [.object ⟨0, "List"⟩, .int 1]], Sample.Settings.initialLevel⟩
      bindings := ⟨[.infer "xs" (.object ⟨0, "List"⟩)]⟩ }
  cache := .empty

theorem Sample.closed_looped : looped.world.Closed where
  vars x hx := by
    obtain rfl := List.mem_singleton.mp hx
    exact Value.within_object (by decide : 0 < 1)
  items o items hi v hv := by
    obtain ⟨n, typeName⟩ := o
    have hlt : n < 1 := Memory.lt_size_of_items? hi
    obtain rfl : n = 0 := by omega
    obtain rfl := Option.some.inj hi
    rcases List.mem_pair.mp hv with rfl | rfl
    · exact Value.within_object (by decide : 0 < 1)
    · exact Value.within_of_not_object rfl

open Sample in
/-- A new list, a list from within itself and a member that there is not. -/
theorem Engine.effect_readOnly_cyclic :
    let e : Engine host := ⟨Registry.builtins, .default⟩
    let formula := "List.Create(); xs.Get(0); xs.Nope"
    let s' := e.afterEvaluate "f" formula looped
    looped.cache.Coherent e ∧ looped.world.Closed ∧ ReadOnly Builtin.Sequence.mutators formula ∧
      looped.world.Intact s'.world ∧
      (e.effect "g" formula s').1 =
        (e.effect "f" formula looped).1.map (looped.world.past s'.world).evaluation := by
  intro e formula s'
  have hsplit : Statement.split formula = [⟨0, 13⟩, ⟨15, 24⟩, ⟨26, 33⟩] := by decide +kernel
  have hcreate : TokenList.scan formula ⟨0, 13⟩ =
      .ok ⟨[⟨.ident "List", ⟨0, 4⟩⟩, ⟨.mark .dot, ⟨4, 5⟩⟩, ⟨.ident "Create", ⟨5, 11⟩⟩,
        ⟨.mark .leftParen, ⟨11, 12⟩⟩, ⟨.mark .rightParen, ⟨12, 13⟩⟩], 13⟩ := by cbv
  have hget : TokenList.scan formula ⟨15, 24⟩ =
      .ok ⟨[⟨.ident "xs", ⟨15, 17⟩⟩, ⟨.mark .dot, ⟨17, 18⟩⟩, ⟨.ident "Get", ⟨18, 21⟩⟩,
        ⟨.mark .leftParen, ⟨21, 22⟩⟩, ⟨.int 0, ⟨22, 23⟩⟩, ⟨.mark .rightParen, ⟨23, 24⟩⟩], 24⟩ := by
    cbv
  have hnope : TokenList.scan formula ⟨26, 33⟩ =
      .ok ⟨[⟨.ident "xs", ⟨26, 28⟩⟩, ⟨.mark .dot, ⟨28, 29⟩⟩, ⟨.ident "Nope", ⟨29, 33⟩⟩], 33⟩ := by cbv
  have hf : ReadOnly Builtin.Sequence.mutators formula := by
    simp [ReadOnly, hsplit, hcreate, hget, hnope, Token.readOnly_cons, Token.readOnly_nil,
      Builtin.Sequence.mutators]
  have hs : looped.cache.Coherent e := Cache.coherent_empty
  obtain ⟨hintact, -, hagain, -⟩ := effect_readOnly .default looped hs closed_looped hf "f" "g"
  exact ⟨hs, closed_looped, hf, hintact, hagain⟩

end Formula
