import Formula.Proofs.BrokenChains
import Formula.Proofs.Determinism
import Formula.Proofs.Honest
import Formula.Proofs.OverloadChoice
import Formula.Proofs.Registration

/-!
What calls do to a list. It is a sequence of values whose operations happen as a whole or not at all.
-/

namespace Formula

variable {H : Host}

namespace Builtin

theorem toInt_count (n : Nat) : (count n).toInt = min (n : Int) Number.maxInt64 := by
  have hmax : (Number.maxInt64.toNat : Int) = Number.maxInt64 := by decide
  rw [count, Number.toInt_ofNat]
  · omega
  · rw [Number.inInt64_iff, Number.minInt64]
    omega

theorem toInt_count_of_le {n : Nat} (h : (n : Int) ≤ Number.maxInt64) : (count n).toInt = n := by
  rw [toInt_count]
  omega

theorem count_ne_neg_one (n : Nat) : count n ≠ -1 := by
  intro h
  have hcount := toInt_count n
  have hneg : (-1 : Int64).toInt = -1 := by decide
  rw [h, hneg, Number.maxInt64] at hcount
  omega

theorem upTo?_eq (i : Int64) (n : Nat) :
    upTo? i n = if 0 ≤ i.toInt ∧ i.toInt ≤ n then some i.toInt.toNat else none := by
  have hiff : (0 ≤ i.toInt ∧ i.toInt.toNat ≤ n) ↔ 0 ≤ i.toInt ∧ i.toInt ≤ n := by omega
  rw [upTo?, if_congr hiff rfl rfl]

theorem cut_eq (i : Int64) (n : Nat) :
    cut i n = if 0 ≤ i.toInt ∧ i.toInt ≤ n then .ok i.toInt.toNat
      else .error (.indexOutOfRange i.toInt n) := by
  rw [cut, upTo?_eq]
  by_cases h : 0 ≤ i.toInt ∧ i.toInt ≤ n
  · simp only [if_pos h]
  · simp only [if_neg h]

theorem slot_eq (i : Int64) (n : Nat) :
    slot i n = if 0 ≤ i.toInt ∧ i.toInt < n then .ok i.toInt.toNat
      else .error (.indexOutOfRange i.toInt n) := by
  have hiff : (0 ≤ i.toInt ∧ i.toInt.toNat < n) ↔ 0 ≤ i.toInt ∧ i.toInt < n := by omega
  rw [slot, below?, if_congr hiff rfl rfl]
  by_cases h : 0 ≤ i.toInt ∧ i.toInt < n
  · simp only [if_pos h]
  · simp only [if_neg h]

end Builtin

theorem Memory.get?_of_items? {m : Memory H} {o : ObjectRef} {vs : List Value}
    (h : m.items? o = some vs) : m.get? o = some (.list vs) := by
  rw [items?] at h
  split at h
  · next us hget => rw [hget, Option.some.inj h]
  · cases h

namespace World

variable {w : World H} {o : ObjectRef} {us vs : List Value}

/-- The world in which the list contains `vs` and all else is as it was. -/
def withItems (w : World H) (o : ObjectRef) (vs : List Value) : World H :=
  { w with memory := w.memory.set o (.list vs) }

theorem items?_withItems (h : w.memory.items? o = some us) (vs : List Value) :
    (w.withItems o vs).memory.items? o = some vs := by
  have hget := Memory.get?_set (c := .list vs) (Memory.lt_size_of_items? h)
  rw [Memory.items?, withItems, hget]

theorem withItems_withItems (w : World H) (o : ObjectRef) (us vs : List Value) :
    (w.withItems o us).withItems o vs = w.withItems o vs := by
  simp [withItems, Memory.set]

theorem withItems_self (h : w.memory.items? o = some vs) : w.withItems o vs = w := by
  have hget : w.memory.cells[o.id]? = some (.list vs) := Memory.get?_of_items? h
  obtain ⟨hlt, hcell⟩ := Array.getElem?_eq_some_iff.mp hget
  rw [withItems, Memory.set, ← hcell, Array.setIfInBounds, dif_pos hlt, Array.set_getElem_self]

end World

namespace Eval

variable {r : Registry H} {receiver v : Value} {name : String} {typeArgs : List TypeTag}
  {args ws : List Value} {w w' : World H} {e : EvalError}

/-- The result of a method, before it is known to be of a registered type. -/
def perform (r : Registry H) (receiver : Value) (name : String) (typeArgs : List TypeTag)
    (args : List Value) : Eval H Value := do
  let t ← r.typeOf receiver
  let overloads? := if receiver.isTypeRoot then t.staticMethods? name else t.methods? name
  let (f, args) ← Method.select r.directory t.tag.name name overloads? args typeArgs
  let result ← f.body ⟨receiver, args, typeArgs, r.directory⟩
  return if f.isVoid then receiver else result

theorem invoke_eq_perform (r : Registry H) (receiver : Value) (name : String) (typeArgs : List TypeTag)
    (args : List Value) :
    invoke r receiver name typeArgs args = do
      let v ← perform r receiver name typeArgs args
      r.directory.checkAllowed v
      return v := by
  simp only [invoke, perform, bind_assoc, pure_bind]

theorem invoke_of_perform (h : perform r receiver name typeArgs args w = .ok v w')
    (hv : r.directory.Admits v) : invoke r receiver name typeArgs args w = .ok v w' := by
  rw [invoke_eq_perform, run_bind_of_ok h, hv, liftM_ok, pure_bind]
  rfl

theorem invoke_of_perform_error (h : perform r receiver name typeArgs args w = .error e w') :
    invoke r receiver name typeArgs args w = .error e w' := by
  rw [invoke_eq_perform, run_bind_of_error h]

/-- The computation fails with the code of an index out of range and leaves the world as it is. -/
def OutOfRange (x : Eval H Value) (w : World H) : Prop :=
  ∃ e, x w = .error e w ∧ e.fault.code.text = "E6005"

theorem liftAction_error {α : Type} {x : Action H α} {f : Fault} {μ : Memory H}
    (h : x w.memory = .error f μ) :
    (liftM x : Eval H α) w = .error (.of f) { w with memory := μ } := by
  change ofAction x w = _
  rw [ofAction, h]

variable {t : HostType H} {f : Method H} {o : ObjectRef}

/-- The method that is chosen is run. -/
theorem perform_eq_of_select (ht : r.typeOf receiver = .ok t) (hroot : receiver.isTypeRoot = false)
    (hselect : Method.select r.directory t.tag.name name (t.methods? name) args [] = .ok (f, ws)) :
    perform r receiver name [] args = do
      let result ← f.body ⟨receiver, ws, [], r.directory⟩
      return if f.isVoid then receiver else result := by
  rw [perform, ht, liftM_ok, pure_bind]
  simp only [hroot, Bool.false_eq_true, if_false, hselect, liftM_ok, pure_bind]

section

variable (ht : r.find? o.typeName = some t) (hf : t.methods? name = some [f])
  (hgenerics : f.generics = 0) (hargs : ParamType.TakesAll r.directory f.params args ws)

include ht hf hgenerics hargs

/-- A method without overloads and type parameters is run if it takes the arguments. -/
theorem perform_eq_of_single : perform r (.object o) name [] args = do
    let result ← f.body ⟨.object o, ws, [], r.directory⟩
    return if f.isVoid then .object o else result := by
  refine perform_eq_of_select (Registry.typeOf_eq_ok.mpr ht) rfl ?_
  rw [hf]
  exact (Method.select_some_eq_ok_iff _ _).mpr ⟨[], [], rfl, by simp, hgenerics, hargs⟩

theorem perform_of_body {μ : Memory H}
    (h : f.body ⟨.object o, ws, [], r.directory⟩ w.memory = .ok v μ) :
    perform r (.object o) name [] args w =
      .ok (if f.isVoid then .object o else v) { w with memory := μ } := by
  rw [perform_eq_of_single ht hf hgenerics hargs, run_bind_of_ok (liftAction_ok h)]
  rfl

theorem perform_of_body_error {fault : Fault} {μ : Memory H}
    (h : f.body ⟨.object o, ws, [], r.directory⟩ w.memory = .error fault μ) :
    perform r (.object o) name [] args w = .error (.of fault) { w with memory := μ } := by
  rw [perform_eq_of_single ht hf hgenerics hargs, run_bind_of_error (liftAction_error h)]

end

end Eval

namespace Builtin.Sequence

/-- A change of a sequence that has no result. -/
inductive Edit where
  | add (v : Value)
  | insert (i : Int64) (v : Value)
  | removeAt (i : Int64)
  | set (i : Int64) (v : Value)
  | clear

namespace Edit

def name : Edit → String
  | add _ => "Add"
  | insert _ _ => "Insert"
  | removeAt _ => "RemoveAt"
  | set _ _ => "Set"
  | clear => "Clear"

def args : Edit → List Value
  | add v => [v]
  | insert i v => [.int i, v]
  | removeAt i => [.int i]
  | set i v => [.int i, v]
  | clear => []

/-- What becomes of a sequence, if the index is one of it. -/
def result? : Edit → List Value → Option (List Value)
  | add v, vs => some (vs ++ [v])
  | insert i v, vs =>
    if 0 ≤ i.toInt ∧ i.toInt ≤ vs.length then some (vs.insertIdx i.toInt.toNat v) else none
  | removeAt i, vs => if 0 ≤ i.toInt ∧ i.toInt < vs.length then some (vs.eraseIdx i.toInt.toNat) else none
  | set i v, vs => if 0 ≤ i.toInt ∧ i.toInt < vs.length then some (vs.set i.toInt.toNat v) else none
  | clear, _ => some []

/-- What the body of the method does to the items. -/
def run : Edit → List Value → Except Fault (List Value)
  | add v, vs => .ok (vs ++ [v])
  | insert i v, vs => insertAt i v vs
  | removeAt i, vs => Sequence.removeAt i vs
  | set i v, vs => setAt i v vs
  | clear, _ => .ok []

/-- The body does to the items what the change does to the sequence, or finds the index out of range. -/
theorem run_eq (e : Edit) (vs : List Value) :
    ∃ i : Int, e.run vs = match e.result? vs with
      | some us => .ok us
      | none => .error (.indexOutOfRange i vs.length) := by
  cases e with
  | add v => exact ⟨0, rfl⟩
  | clear => exact ⟨0, rfl⟩
  | insert i v =>
      refine ⟨i.toInt, ?_⟩
      rw [run, insertAt, cut_eq, result?]
      split <;> rfl
  | removeAt i =>
      refine ⟨i.toInt, ?_⟩
      rw [run, Sequence.removeAt, slot_eq, result?]
      split <;> rfl
  | set i v =>
      refine ⟨i.toInt, ?_⟩
      rw [run, setAt, slot_eq, result?]
      split <;> rfl

theorem exists_method (e : Edit) (o : ObjectRef) (types : Directory) : ∃ f : Method H,
    (typeDef.toHostType : HostType H).methods? e.name = some [f] ∧ f.isVoid = true ∧ f.generics = 0 ∧
      ParamType.TakesAll types f.params e.args e.args ∧
      f.body ⟨.object o, e.args, [], types⟩ = do
        change ⟨.object o, e.args, [], types⟩ fun vs => do return ((), ← e.run vs)
        return .null := by
  cases e with
  | add v => exact ⟨_, rfl, rfl, rfl, .cons (.any v) .nil, rfl⟩
  | insert i v => exact ⟨_, rfl, rfl, rfl, .cons (.exact (.int i)) (.cons (.any v) .nil), rfl⟩
  | removeAt i => exact ⟨_, rfl, rfl, rfl, .cons (.exact (.int i)) .nil, rfl⟩
  | set i v => exact ⟨_, rfl, rfl, rfl, .cons (.exact (.int i)) (.cons (.any v) .nil), rfl⟩
  | clear => exact ⟨_, rfl, rfl, rfl, .nil, rfl⟩

end Edit

section

variable {α : Type} {c : Call} {m : Memory H} {o : ObjectRef} {vs : List Value}
  (hc : c.receiver = .object o) (hvs : m.items? o = some vs)

include hc

theorem receiverObject_ok (m : Memory H) : (liftM c.receiverObject : Action H ObjectRef) m = .ok o m := by
  rw [Call.receiverObject, hc]
  rfl

include hvs

theorem items_ok : (items c : Action H (List Value)) m = .ok vs m := by
  rw [items, run_bind_of_ok (receiverObject_ok hc m), Action.read_of_items (Memory.get?_of_items? hvs)]

/-- The items are written once what they become is known. -/
theorem change_eq (f : List Value → Except Fault (α × List Value)) :
    (change c f : Action H α) m = match f vs with
      | .ok (a, us) => .ok a (m.set o (.list us))
      | .error fault => .error fault m := by
  have hread : (Action.read .items o : Action H (List Value)) m = .ok vs m :=
    Action.read_of_items (Memory.get?_of_items? hvs)
  rw [change, run_bind_of_ok (receiverObject_ok hc m), run_bind_of_ok hread]
  cases f vs with
  | error fault => rfl
  | ok p =>
      have hmodify : (Action.modify .items o fun _ => p.2 : Action H Unit) m =
          .ok () (m.set o (.list p.2)) := by
        rw [Action.modify, run_bind_of_ok hread]
        rfl
      exact run_bind_of_ok (f := fun _ => pure p.1) hmodify

end

/-- The positions of the items that equal `x`. -/
def positions (m : Memory H) (x : Value) (vs : List Value) : Set Nat :=
  {n | ∃ v, vs[n]? = some v ∧ v.binary m .equal x = .ok (.bool true)}

theorem mem_positions {m : Memory H} {x : Value} {vs : List Value} {n : Nat} :
    n ∈ positions m x vs ↔ ∃ h : n < vs.length, vs[n].equal x = true := by
  have hequal (v : Value) : v.binary m .equal x = .ok (.bool (v.equal x)) := rfl
  simp [positions, hequal, List.getElem?_eq_some_iff]

theorem position?_eq_some_iff (m : Memory H) {x : Value} {vs : List Value} {n : Nat} :
    position? x vs = some n ↔ IsLeast (positions m x vs) n := by
  rw [position?, List.findIdx?_eq_some_iff_getElem, IsLeast, mem_positions, ← exists_and_right]
  refine exists_congr fun h => and_congr_right fun _ => ?_
  constructor
  · intro hbefore k hk
    obtain ⟨hlt, hequal⟩ := mem_positions.mp hk
    by_contra hnot
    exact hbefore k (by omega) hequal
  · intro hleast k hk hequal
    exact absurd (hleast (mem_positions.mpr ⟨by omega, hequal⟩)) (by omega)

theorem position?_eq_none_iff (m : Memory H) {x : Value} {vs : List Value} :
    position? x vs = none ↔ positions m x vs = ∅ := by
  rw [position?, List.findIdx?_eq_none_iff, Set.eq_empty_iff_forall_notMem]
  constructor
  · intro h n hn
    obtain ⟨hlt, hequal⟩ := mem_positions.mp hn
    exact Bool.false_ne_true ((h _ (List.getElem_mem hlt)).symm.trans hequal)
  · intro h v hv
    obtain ⟨n, hlt, rfl⟩ := List.mem_iff_getElem.mp hv
    exact Bool.eq_false_iff.mpr fun hequal => h n (mem_positions.mpr ⟨hlt, hequal⟩)

section

variable {r : Registry H} {w : World H} {o : ObjectRef} {vs : List Value}
  (hr : r.find? "List" = some typeDef.toHostType) (ho : o.typeName = "List")
  (hvs : w.memory.items? o = some vs)

include hr ho hvs

theorem perform_edit (e : Edit) : ∃ i : Int, Eval.perform r (.object o) e.name [] e.args w =
    match e.result? vs with
    | some us => .ok (.object o) (w.withItems o us)
    | none => .error (.of (.indexOutOfRange i vs.length)) w := by
  obtain ⟨i, hrun⟩ := e.run_eq vs
  obtain ⟨f, hf, hvoid, hgenerics, hargs, hbody⟩ := e.exists_method (H := H) o r.directory
  have hchange := change_eq (c := ⟨.object o, e.args, [], r.directory⟩) rfl hvs
    fun vs => do return ((), ← e.run vs)
  refine ⟨i, ?_⟩
  rw [hrun] at hchange
  cases hresult : e.result? vs with
  | some us =>
      rw [hresult] at hchange
      have h := Eval.perform_of_body (ho ▸ hr) hf hgenerics hargs (hbody ▸ run_bind_of_ok hchange)
      rwa [hvoid] at h
  | none =>
      rw [hresult] at hchange
      exact Eval.perform_of_body_error (ho ▸ hr) hf hgenerics hargs (hbody ▸ run_bind_of_error hchange)

theorem perform_contains (x : Value) :
    Eval.perform r (.object o) "Contains" [] [x] w = .ok (.bool (position? x vs).isSome) w := by
  rw [position?, List.findIdx?_isSome]
  have hf : (typeDef.toHostType : HostType H).methods? "Contains" = some [_] := rfl
  exact Eval.perform_of_body (ho ▸ hr) hf rfl (.cons (.any x) .nil) (run_bind_of_ok (items_ok rfl hvs))

theorem perform_indexOf (x : Value) :
    Eval.perform r (.object o) "IndexOf" [] [x] w = .ok (.int (indexOf x vs)) w := by
  have hf : (typeDef.toHostType : HostType H).methods? "IndexOf" = some [_] := rfl
  exact Eval.perform_of_body (ho ▸ hr) hf rfl (.cons (.any x) .nil) (run_bind_of_ok (items_ok rfl hvs))

theorem perform_remove (x : Value) : Eval.perform r (.object o) "Remove" [] [x] w =
    .ok (.bool (remove x vs).1) (w.withItems o (remove x vs).2) := by
  have hf : (typeDef.toHostType : HostType H).methods? "Remove" = some [_] := rfl
  refine Eval.perform_of_body (ho ▸ hr) hf rfl (.cons (.any x) .nil) ?_
  exact run_bind_of_ok (change_eq rfl hvs fun vs => .ok (remove x vs))

theorem perform_get (i : Int64) : Eval.perform r (.object o) "Get" [] [.int i] w =
    if 0 ≤ i.toInt ∧ i.toInt < vs.length then .ok (vs.getD i.toInt.toNat .null) w
    else .error (.of (.indexOutOfRange i.toInt vs.length)) w := by
  have hf : (typeDef.toHostType : HostType H).methods? "Get" = some [_] := rfl
  split
  · next hi =>
    refine Eval.perform_of_body (ho ▸ hr) hf rfl (.cons (.exact (.int i)) .nil) ?_
    refine (run_bind_of_ok (items_ok rfl hvs)).trans ?_
    rw [getAt, slot_eq, if_pos hi]
    rfl
  · next hi =>
    refine Eval.perform_of_body_error (ho ▸ hr) hf rfl (.cons (.exact (.int i)) .nil) ?_
    refine (run_bind_of_ok (items_ok rfl hvs)).trans ?_
    rw [getAt, slot_eq, if_neg hi]
    rfl

theorem access_count : Eval.access r (.object o) "Count" w = .ok (.int (count vs.length)) w := by
  have hmember : Eval.findMember r (.object o) "Count" = .ok (typeDef.toHostType,
      ⟨"Count", .property, some (Member.getterOf .items .int (count ·.length)), none⟩) := by
    rw [Eval.findMember, Registry.typeOf_eq_ok.mpr (ho ▸ hr)]
    rfl
  have hread : Eval.readMember r (.object o) "Count" w = .ok (.int (count vs.length)) w := by
    rw [Eval.readMember, hmember, Eval.liftM_ok, pure_bind]
    refine Eval.liftAction_ok ?_
    exact run_bind_of_ok (Action.read_of_items (Memory.get?_of_items? hvs))
  exact Eval.access_of_readMember rfl hread rfl

theorem invoke_edit {e : Edit} {us : List Value} (h : e.result? vs = some us) :
    Eval.invoke r (.object o) e.name [] e.args w = .ok (.object o) (w.withItems o us) := by
  obtain ⟨i, hperform⟩ := perform_edit hr ho hvs e
  rw [h] at hperform
  exact Eval.invoke_of_perform hperform (Registry.admits_of_find? (v := .object o) (ho ▸ hr))

theorem invoke_edit_outside {e : Edit} (h : e.result? vs = none) :
    Eval.OutOfRange (Eval.invoke r (.object o) e.name [] e.args) w := by
  obtain ⟨i, hperform⟩ := perform_edit hr ho hvs e
  rw [h] at hperform
  exact ⟨_, Eval.invoke_of_perform_error hperform, rfl⟩

theorem invoke_search (x : Value) :
    Eval.invoke r (.object o) "IndexOf" [] [x] w = .ok (.int (indexOf x vs)) w ∧
      Eval.invoke r (.object o) "Contains" [] [x] w = .ok (.bool (position? x vs).isSome) w ∧
      Eval.invoke r (.object o) "Remove" [] [x] w =
        .ok (.bool (remove x vs).1) (w.withItems o (remove x vs).2) :=
  ⟨Eval.invoke_of_perform (perform_indexOf hr ho hvs x) rfl,
    Eval.invoke_of_perform (perform_contains hr ho hvs x) rfl,
    Eval.invoke_of_perform (perform_remove hr ho hvs x) rfl⟩

end

section

variable {r : Registry H} {o : ObjectRef} (hr : r.find? "List" = some typeDef.toHostType)
  (ho : o.typeName = "List")

include hr ho

/-- Changes one after another, each called on what the one before it yields. -/
theorem invoke_edits {es : List Edit} {w : World H} {us vs : List Value}
    (hvs : w.memory.items? o = some vs) (h : es.foldlM (fun vs e => e.result? vs) vs = some us) :
    es.foldlM (fun receiver e => Eval.invoke r receiver e.name [] e.args) (.object o) w =
      .ok (.object o) (w.withItems o us) := by
  induction es generalizing w vs with
  | nil =>
      obtain rfl := Option.some.inj h
      rw [World.withItems_self hvs]
      rfl
  | cons e es ih =>
      rw [List.foldlM_cons] at h ⊢
      obtain ⟨vs', he, hes⟩ := Option.bind_eq_some_iff.mp h
      rw [run_bind_of_ok (invoke_edit hr ho hvs he), ih (World.items?_withItems hvs vs') hes,
        World.withItems_withItems]

end

/-- Calls on the list `o` do what the operations on the sequence `vs` do. A count or a position that is too
large for an int is cut to the greatest one. -/
structure IsSequence (r : Registry H) (w : World H) (o : ObjectRef) (vs : List Value) : Prop where
  count : ∃ n : Int64, n.toInt = min (vs.length : Int) Number.maxInt64 ∧
    Eval.access r (.object o) "Count" w = .ok (.int n) w
  edit (e : Edit) (us : List Value) : e.result? vs = some us →
    Eval.invoke r (.object o) e.name [] e.args w = .ok (.object o) (w.withItems o us)
  edit_outside (e : Edit) : e.result? vs = none →
    Eval.OutOfRange (Eval.invoke r (.object o) e.name [] e.args) w
  /-- The item is the result of the call unless its type is not registered. -/
  get (i : Int64) (v : Value) : 0 ≤ i.toInt → vs[i.toInt.toNat]? = some v →
    Eval.perform r (.object o) "Get" [] [.int i] w = .ok v w ∧
      (r.directory.Admits v → Eval.invoke r (.object o) "Get" [] [.int i] w = .ok v w)
  get_outside (i : Int64) : i.toInt < 0 ∨ vs.length ≤ i.toInt →
    Eval.OutOfRange (Eval.invoke r (.object o) "Get" [] [.int i]) w
  found (x : Value) (n : Nat) : IsLeast (positions w.memory x vs) n →
    (∃ i : Int64, i.toInt = min (n : Int) Number.maxInt64 ∧
        Eval.invoke r (.object o) "IndexOf" [] [x] w = .ok (.int i) w) ∧
      Eval.invoke r (.object o) "Contains" [] [x] w = .ok (.bool true) w ∧
      Eval.invoke r (.object o) "Remove" [] [x] w = .ok (.bool true) (w.withItems o (vs.eraseIdx n))
  missing (x : Value) : positions w.memory x vs = ∅ →
    Eval.invoke r (.object o) "IndexOf" [] [x] w = .ok (.int (-1)) w ∧
      Eval.invoke r (.object o) "Contains" [] [x] w = .ok (.bool false) w ∧
      Eval.invoke r (.object o) "Remove" [] [x] w = .ok (.bool false) w
  contains_iff (x : Value) : ∃ b i, Eval.invoke r (.object o) "Contains" [] [x] w = .ok (.bool b) w ∧
    Eval.invoke r (.object o) "IndexOf" [] [x] w = .ok (.int i) w ∧ (b = true ↔ i ≠ -1)

/-- A list of the builtin type is the sequence of its items, whatever they are. -/
theorem isSequence {r : Registry H} {w : World H} {o : ObjectRef} {vs : List Value}
    (hr : r.find? "List" = some typeDef.toHostType) (ho : o.typeName = "List")
    (hvs : w.memory.items? o = some vs) : IsSequence r w o vs where
  count := ⟨count vs.length, toInt_count vs.length, access_count hr ho hvs⟩
  edit _ _ := invoke_edit hr ho hvs
  edit_outside _ := invoke_edit_outside hr ho hvs
  get i v hi hv := by
    obtain ⟨hlt, rfl⟩ := List.getElem?_eq_some_iff.mp hv
    have hperform := perform_get hr ho hvs i
    rw [if_pos ⟨hi, by omega⟩, List.getD_eq_getElem _ _ hlt] at hperform
    exact ⟨hperform, Eval.invoke_of_perform hperform⟩
  get_outside i hi := by
    have hperform := perform_get hr ho hvs i
    rw [if_neg (by omega)] at hperform
    exact ⟨_, Eval.invoke_of_perform_error hperform, rfl⟩
  found x n hn := by
    have hposition := (position?_eq_some_iff w.memory).mpr hn
    obtain ⟨hindex, hcontains, hremove⟩ := invoke_search hr ho hvs x
    rw [indexOf, hposition] at hindex
    rw [hposition] at hcontains
    rw [remove, hposition] at hremove
    exact ⟨⟨Builtin.count n, toInt_count n, hindex⟩, hcontains, hremove⟩
  missing x hx := by
    have hposition := (position?_eq_none_iff w.memory).mpr hx
    obtain ⟨hindex, hcontains, hremove⟩ := invoke_search hr ho hvs x
    rw [indexOf, hposition] at hindex
    rw [hposition] at hcontains
    rw [remove, hposition, World.withItems_self hvs] at hremove
    exact ⟨hindex, hcontains, hremove⟩
  contains_iff x := by
    obtain ⟨hindex, hcontains, -⟩ := invoke_search hr ho hvs x
    refine ⟨_, _, hcontains, hindex, ?_⟩
    rw [indexOf]
    cases position? x vs with
    | none => simp
    | some n => simp [count_ne_neg_one]

/-- The list is an item of itself. It is inserted at its end once more, and removed at its beginning. -/
theorem isSequence_looped :
    let r := Sample.registry
    let w := Sample.looped.world
    let o : ObjectRef := ⟨0, "List"⟩
    let vs : List Value := [.object o, .int 1]
    r.find? "List" = some typeDef.toHostType ∧ o.typeName = "List" ∧ w.memory.items? o = some vs ∧
      Eval.invoke r (.object o) "Insert" [] [.int 2, .object o] w =
        .ok (.object o) (w.withItems o [.object o, .int 1, .object o]) ∧
      Eval.OutOfRange (Eval.invoke r (.object o) "RemoveAt" [] [.int 2]) w ∧
      Eval.invoke r (.object o) "Get" [] [.int 0] w = .ok (.object o) w ∧
      Eval.OutOfRange (Eval.invoke r (.object o) "Get" [] [.int (-1)]) w ∧
      Eval.invoke r (.object o) "Remove" [] [.object o] w =
        .ok (.bool true) (w.withItems o [.int 1]) := by
  intro r w o vs
  have hr : r.find? "List" = some typeDef.toHostType := rfl
  have hvs : w.memory.items? o = some vs := rfl
  have hlist : IsSequence r w o vs := isSequence hr rfl hvs
  have hfirst : IsLeast (positions w.memory (.object o) vs) 0 :=
    ⟨⟨.object o, rfl, rfl⟩, fun n _ => Nat.zero_le n⟩
  exact ⟨hr, rfl, hvs, hlist.edit (.insert 2 (.object o)) _ rfl, hlist.edit_outside (.removeAt 2) rfl,
    (hlist.get 0 (.object o) (by decide) rfl).2 rfl, hlist.get_outside (-1) (.inl (by decide)),
    (hlist.found _ 0 hfirst).2.2⟩

end Builtin.Sequence

end Formula
