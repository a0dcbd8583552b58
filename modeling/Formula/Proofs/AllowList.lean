import Formula.Proofs.Session
import Formula.Proofs.Watch
import Mathlib.Data.List.Forall2

/-!
Objects and enumeration values of types that are not registered can be bound to variables, but go
nowhere from there.
-/

namespace Formula

variable {H : Host}

section

variable {r : Registry H} (hr : r.IsTabled) (alarm : List Value → Action H Unit)

include hr

theorem CompiledStatement.run_watched (s : CompiledStatement) :
    s.run (r.watched alarm) = s.run r := by
  rw [CompiledStatement.run, CompiledStatement.run]
  simp only [Program.run_watched alarm hr]

theorem CompiledStatement.runAll_watched (ss : List CompiledStatement) :
    CompiledStatement.runAll (r.watched alarm) ss = CompiledStatement.runAll r ss := by
  induction ss with
  | nil => rfl
  | cons s ss ih => rw [runAll, runAll, CompiledStatement.run_watched hr, ih]

end

namespace Engine

def watched (e : Engine H) (alarm : List Value → Action H Unit) : Engine H :=
  ⟨e.registry.watched alarm, e.config⟩

section

variable {e : Engine H} (he : e.registry.IsTabled) (alarm : List Value → Action H Unit)

theorem compile_watched (uid formula : String) :
    (e.watched alarm).compile uid formula = e.compile uid formula := by
  have hc (b : Bindings) : (e.watched alarm).compileFor b formula = e.compileFor b formula := by
    rw [compileFor, compileFor, watched, Registry.directory_watched]
  simp only [compile, hc]
  rfl

include he

theorem evaluate_watched (uid formula : String) :
    (e.watched alarm).evaluate uid formula = e.evaluate uid formula := by
  simp only [evaluate, compile_watched, CompiledFormula.run]
  simp only [watched, CompiledStatement.runAll_watched he]

theorem check_watched (uid formula : String) :
    (e.watched alarm).check uid formula = e.check uid formula := by
  simp only [check, compile_watched, CompiledFormula.run]
  simp only [watched, CompiledStatement.runAll_watched he]

theorem runWhileFrom_watched (uid condition body : String) (g : Guard) :
    (e.watched alarm).runWhileFrom uid condition body g = e.runWhileFrom uid condition body g := by
  induction hn : g.limit - g.count using Nat.strongRecOn generalizing g with
  | ind n ih =>
      rw [runWhileFrom, runWhileFrom]
      simp only [test, evaluate_watched he]
      congr 1
      funext b
      cases b with
      | false => simp only [Bool.false_eq_true, if_false]
      | true =>
          simp only [if_true]
          split
          · rfl
          · next g' hg =>
            congr 1
            funext _
            exact ih _ (hn ▸ Guard.remaining_lt hg) g' rfl

theorem serve_watched (q : Request) : (e.watched alarm).serve q = e.serve q := by
  cases q with
  | evaluate uid formula => rw [serve, serve, evaluate_watched he]
  | check uid formula => rw [serve, serve, check_watched he]
  | runWhile uid condition body =>
      rw [serve, serve, runWhile, runWhile, runWhileFrom_watched he]
      rfl

theorem serveAll_watched (qs : List Request) (s : Session H) :
    (e.watched alarm).serveAll qs s = e.serveAll qs s := by
  induction qs generalizing s with
  | nil => rfl
  | cons q qs ih => simp only [serveAll, serve_watched he, ih]

end

end Engine

/-- What becomes of a slot as values that satisfy `P` are stored in it. -/
inductive Slot.Reaches (P : Value → Prop) (s : Slot) : Slot → Prop
  | refl : Slot.Reaches P s s
  | set {t : Slot} {v : Value} : Slot.Reaches P s t → P v → Slot.Reaches P s (t.set v)

/-- A variable in which values that satisfy `P` have been stored since. -/
structure Variable.Reaches (P : Value → Prop) (x y : Variable) : Prop where
  name : y.name = x.name
  type : y.type = x.type
  slot : x.slot.Reaches P y.slot

theorem Variable.Reaches.set {P : Value → Prop} {x y : Variable} {v : Value} (h : x.Reaches P y)
    (hv : P v) : x.Reaches P (y.set v) := ⟨h.name, h.type, h.slot.set hv⟩

def Bindings.Reaches (P : Value → Prop) (b c : Bindings) : Prop :=
  List.Forall₂ (Variable.Reaches P) b.vars c.vars

theorem Bindings.reaches_refl (P : Value → Prop) (b : Bindings) : b.Reaches P b :=
  List.forall₂_same.mpr fun _ _ => ⟨rfl, rfl, .refl⟩

theorem Bindings.Reaches.store {P : Value → Prop} {b c : Bindings} {v : Value} (h : b.Reaches P c)
    (hv : P v) (name : String) : b.Reaches P (c.store name v) := by
  rw [Bindings.Reaches, Bindings.store, List.forall₂_map_right_iff]
  refine h.imp fun x y hxy => ?_
  split
  · exact hxy.set hv
  · exact hxy

namespace AllowList

/-- Only admitted values have been stored in variables. -/
def contract (r : Registry H) (b : Bindings) : Contract Unit EvalError (World H) where
  state _ w := b.Reaches r.directory.Admits w.bindings
  error _ := True

theorem keeps {r : Registry H} {b : Bindings} {i : Unit} {α : Type} {x : Action H α}
    {Q : Unit → α → Prop} (hok : ∀ m a m', x m = .ok a m' → ∀ j, i ≤ j → Q j a) :
    (contract r b).Keeps i (liftM x : Eval H α) Q :=
  .ofHost (fun _ _ _ _ hs => hs) hok fun _ _ _ _ => trivial

theorem admits_of_scalar (types : Directory) {v : Value} (h : v.IsScalar) : types.Admits v := by
  cases v with
  | null | bool | int | float | string => rfl
  | object | enum | typeRoot => exact h.elim

theorem admits_of_convert {r : Registry H} (hr : r.IsTabled) {m : Memory H} {v w : Value}
    {tag : TypeTag} (hv : r.directory.Admits v) (h : v.convert r.directory m tag = .ok w) :
    r.directory.Admits w := by
  rcases (v.convert_yields r.directory m tag).of_ok h with ⟨rfl, -⟩ | ⟨hw, -⟩ | ⟨name, e, -, rfl, he⟩
  · exact hv
  · exact admits_of_scalar _ hw
  · exact hr.admits_of_declares he

def discipline (r : Registry H) (hr : r.IsTabled) (b : Bindings) : Discipline r Unit where
  toContract := contract r b
  sound _ _ := True
  value _ := r.directory.Admits
  held _ _ _ := True
  sound_mono _ h := h
  value_mono _ h := h
  held_mono _ h := h
  error_of_plain _ := trivial
  error_congr _ _ := trivial
  sound_of_value _ := trivial
  value_of_sound _ h := h
  value_of_scalar h := admits_of_scalar _ h
  value_of_declares h := hr.admits_of_declares h
  load _ name := by
    refine .load (fun _ _ => trivial) fun _ w x _ _ _ hx => keeps fun m v m' hv _ _ => ⟨?_, trivial⟩
    rcases hr.copyOnLoad_ok hv with rfl | ⟨o, o', ho, rfl, hname⟩
    · exact hx
    · rw [ho] at hx
      simpa [Directory.Admits, Directory.checkAllowed, hname] using hx
  update name hv := .updateVariable (fun _ _ => trivial) fun _ _ _ _ _ hw _ hnew =>
    have hn := admits_of_convert hr hv hnew
    ⟨hw.store hn name, hn⟩
  store _ hv := .store (fun _ _ => trivial) fun _ _ _ _ hw _ =>
    hw.store (Registry.admits_of_holdsValueType hv) _
  getter _ _ _ := keeps fun _ _ _ _ _ _ => trivial
  setter _ _ _ _ := keeps fun _ _ _ _ _ _ => trivial
  body _ _ _ _ _ _ := keeps fun _ _ _ _ _ _ => trivial

end AllowList

/-- Values of types that are not registered never come to a getter, a setter or the body of a method,
are no results, and are not stored in variables. A slot may remember whatever is stored in it, so this
goes for values that are overwritten later as well. -/
theorem Engine.serveAll_admits (e : Engine H) (he : e.registry.IsTabled) (qs : List Request)
    (s : Session H) (hc : s.cache.Sound) :
    (∀ alarm, (e.watched alarm).serveAll qs s = e.serveAll qs s) ∧
      (∀ ev, .ok (.evaluation ev) ∈ (e.serveAll qs s).1 →
        ∀ v ∈ ev.results, e.registry.directory.Admits v) ∧
      s.world.bindings.Reaches e.registry.directory.Admits (e.serveAll qs s).2.world.bindings := by
  refine ⟨fun alarm => serveAll_watched he alarm qs s, ?_⟩
  let D := AllowList.discipline e.registry he s.world.bindings
  obtain ⟨j, -, ⟨hb, -⟩, hok, -⟩ :=
    D.serveAll_keeps (i := ()) (fun op hop => .inl hop) qs s ⟨Bindings.reaches_refl _ _, hc⟩
  refine ⟨?_, hb⟩
  intro ev hev v hv
  obtain ⟨k, -, hresults, -⟩ := hok _ hev
  exact hresults v hv

/-- An object of a type that nobody registered, and a list. -/
def AllowList.session : Session Sample.host where
  world :=
    { memory := ⟨#[.host (.foreign 7), .list []], Sample.Settings.initialLevel⟩
      bindings := ⟨[.infer "ghost" (.object ⟨0, "Ghost"⟩), .infer "xs" (.object ⟨1, "List"⟩)]⟩ }
  cache := .empty

theorem Engine.serveAll_admits_ghost :
    let e : Engine Sample.host := ⟨Sample.registry, .default⟩
    let s := AllowList.session
    let qs : List Request := [.evaluate "f" "ghost; xs.Add(ghost); ghost.Id; xs = ghost"]
    e.registry.IsTabled ∧ s.cache.Sound ∧ ¬e.registry.directory.Admits (.object ⟨0, "Ghost"⟩) ∧
      (∀ alarm, (e.watched alarm).serveAll qs s = e.serveAll qs s) ∧
      (∀ ev, .ok (.evaluation ev) ∈ (e.serveAll qs s).1 →
        ∀ v ∈ ev.results, e.registry.directory.Admits v) ∧
      s.world.bindings.Reaches e.registry.directory.Admits (e.serveAll qs s).2.world.bindings := by
  intro e s qs
  have he : e.registry.IsTabled := Sample.isTabled_registry
  have hc : s.cache.Sound := Cache.sound_empty
  have hghost : ¬e.registry.directory.Admits (.object ⟨0, "Ghost"⟩) := by
    intro h
    cases h
  exact ⟨he, hc, hghost, Engine.serveAll_admits e he qs s hc⟩

end Formula
