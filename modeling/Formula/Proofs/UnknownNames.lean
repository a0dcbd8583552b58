import Formula.Proofs.FaultCodes
import Formula.Proofs.NameResolution
import Formula.Proofs.Occurrence
import Formula.Proofs.Reading
import Formula.Proofs.StackSafety
import Formula.Sample

/-!
Names that nothing is known of. Whether a statement has such names is settled when it is compiled: its
program never comes upon one as long as the variables are there, whatever types it runs with. If its run
does end in such a fault, then a host has raised it.
-/

namespace Formula

/-- The fault is about a variable or a type that nothing is known of. -/
def Fault.IsUnknownName (f : Fault) : Prop := f.code = .unknownVariable ∨ f.code = .unknownType

theorem FailsIn.not_isUnknownName {α : Type} {codes : List Code} {x : Except Fault α} {f : Fault}
    (h : FailsIn codes x) (hcodes : Code.unknownVariable ∉ codes ∧ Code.unknownType ∉ codes)
    (hf : x = .error f) : ¬f.IsUnknownName := by
  rintro (hcode | hcode)
  · exact hcodes.1 (hcode ▸ h.mem f hf)
  · exact hcodes.2 (hcode ▸ h.mem f hf)

/-- What a run asks of a host. -/
inductive HostCall where
  | copy (o : ObjectRef)
  | get (owner : Value) (member : String)
  | set (owner : Value) (member : String) (v : Value)
  | call (receiver : Value) (method : String) (typeArgs : List TypeTag) (args : List Value)

variable {H : Host}

/-- What the host has for the call ends in the fault. -/
def HostCall.Raises (r : Registry H) (m : Memory H) (f : Fault) : HostCall → Prop
  | copy o => ∃ t copy m', r.find? o.typeName = some t ∧ t.copy? o = some copy ∧ copy m = .error f m'
  | get owner name => ∃ t d getter m', Eval.findMember r owner name = .ok (t, d) ∧
      d.getter? = some getter ∧ getter owner m = .error f m'
  | set owner name v => ∃ t d setter m', Eval.findMember r owner name = .ok (t, d) ∧
      d.setter? = some setter ∧ setter owner v m = .error f m'
  | call receiver name typeArgs args => ∃ t g args' m', r.typeOf receiver = .ok t ∧
      Method.select r.directory t.tag.name name
        (if receiver.isTypeRoot then t.staticMethods? name else t.methods? name) args typeArgs =
          .ok (g, args') ∧
      g.body ⟨receiver, args', typeArgs, r.directory⟩ m = .error f m'

theorem HostCall.Raises.not_of_avoids {r : Registry H} {m : Memory H} {f : Fault} {q : HostCall}
    {P : Fault → Prop} (h : q.Raises r m f) (hr : ∀ t ∈ r.types, t.Avoids P) : ¬P f := by
  cases q with
  | copy o =>
      obtain ⟨t, copy, m', ht, hcopy, hraised⟩ := h
      exact (hr t (Registry.mem_of_find? ht).1).copy hcopy m f m' hraised
  | get owner name =>
      obtain ⟨t, d, getter, m', hd, hgetter, hraised⟩ := h
      obtain ⟨ht, hd⟩ := Eval.findMember_eq_ok hd
      exact (hr t (Registry.mem_of_find? ht).1).get hd hgetter m f m' hraised
  | set owner name v =>
      obtain ⟨t, d, setter, m', hd, hsetter, hraised⟩ := h
      obtain ⟨ht, hd⟩ := Eval.findMember_eq_ok hd
      exact (hr t (Registry.mem_of_find? ht).1).set hd hsetter v m f m' hraised
  | call receiver name typeArgs args =>
      obtain ⟨t, g, args', m', ht, hg, hraised⟩ := h
      obtain ⟨⟨fs, hfs, hmem⟩, -⟩ := (Method.select_yields ..).of_ok hg
      exact (hr t (Registry.mem_of_find? (Registry.find?_of_typeOf ht)).1).body hfs hmem _ m f m' hraised

/-- What a member is going to hold once a value has been stored in it. -/
def Eval.converted (r : Registry H) (owner : Value) (t : HostType H) (d : Member H) (v : Value) :
    Eval H Value :=
  if d.isReadable then do
    let current ← d.get owner t.tag.name
    v.convert r.directory (← memory) current.typeTag
  else pure v

theorem Eval.updateMember_eq (r : Registry H) (owner : Value) (name : String) (v : Value) :
    updateMember r owner name v = (do
      let (t, d) ← findMember r owner name
      if !d.isWritable then fail (.notWritable name t.tag.name)
      let new ← converted r owner t d v
      r.directory.checkAllowed new
      d.set owner new t.tag.name
      return new : Eval H Value) := by
  refine congrArg (liftM (findMember r owner name) >>= ·) (funext fun (t, d) => ?_)
  cases hd : d.isReadable <;> simp [converted, hd]

namespace Task

/-- A task may ask this of a host by itself, in this memory. -/
inductive Puts (r : Registry H) : Task → World H → HostCall → Memory H → Prop
  | copyLoaded {span name x o stack w} : w.bindings.find? name = some x → x.get = .object o →
      Puts r (step (.load span name) stack) w (.copy o) w.memory
  | copyRead {name x o w} : w.bindings.find? name = some x → x.get = .object o →
      Puts r (read (.var name)) w (.copy o) w.memory
  | get {span name o stack w} : Puts r (step (.get span name) (o :: stack)) w (.get o name) w.memory
  | call {span name typeArgs args o stack vs w w'} : Program.runAll r args w = .ok vs w' →
      Puts r (step (.call span name typeArgs args) (o :: stack)) w (.call o name typeArgs vs) w'.memory
  | read {owner name span o w w'} : owner.read r w = .ok o w' →
      Puts r (read (.member owner name span)) w (.get o name) w'.memory
  | writeBack {owner name span v o w w'} : owner.read r w = .ok o w' →
      Puts r (writeBack (.member owner name span) v) w (.set o name v) w'.memory
  | assignRead {owner name span v o w w'} : owner.read r w = .ok o w' →
      Puts r (assign (.member owner name span) v) w (.get o name) w'.memory
  | assign {owner name span v o t d new w w₁ w₂} : owner.read r w = .ok o w₁ →
      Eval.findMember r o name = .ok (t, d) → Eval.converted r o t d v w₁ = .ok new w₂ →
      Puts r (assign (.member owner name span) v) w (.set o name new) w₂.memory

/-- In the course of the task, this is asked of a host in this memory. -/
def Asks (r : Registry H) (t : Task) (w : World H) (q : HostCall) (m : Memory H) : Prop :=
  ∃ t' w', t.Occurs r w t' w' ∧ t'.Puts r w' q m

variable {r : Registry H} {t t' : Task} {past : List Task} {w w' : World H} {q : HostCall}
  {m : Memory H}

theorem Puts.asks (h : t.Puts r w q m) : t.Asks r w q m := ⟨t, w, .here, h⟩

theorem Asks.of_calls (hcall : t.Calls r w past t' w') (h : t'.Asks r w' q m) : t.Asks r w q m := by
  obtain ⟨t'', w'', hoccurs, hputs⟩ := h
  exact ⟨t'', w'', hcall.occurs.trans hoccurs, hputs⟩

end Task

/-- The variables of the scope are there. -/
def Scope.BoundIn (scope : Scope) (b : Bindings) : Prop :=
  ∀ name, scope.isVariable name = true → b.contains name = true

theorem Scope.BoundIn.store {scope : Scope} {b : Bindings} (h : scope.BoundIn b) (name : String)
    (v : Value) : scope.BoundIn (b.store name v) := by
  intro other hother
  rw [Bindings.contains]
  by_cases hname : name = other
  · subst hname
    rw [Bindings.find?_store_self, Option.isSome_map]
    exact h name hother
  · rw [Bindings.find?_store_of_ne b v hname]
    exact h other hother

theorem Scope.BoundIn.find? {scope : Scope} {b : Bindings} (h : scope.BoundIn b) {name : String}
    (hname : scope.isVariable name = true) : ∃ x, b.find? name = some x :=
  Option.isSome_iff_exists.mp (h name hname)

/-- The variables are still there afterwards, or it fails. It fails for an unknown name only if something
that is asked of a host ends in the very fault. -/
def Eval.KnowsNames {α : Type} (scope : Scope) (r : Registry H) (asks : HostCall → Memory H → Prop)
    (x : Eval H α) (w : World H) : Prop :=
  match x w with
  | .ok _ w' => scope.BoundIn w'.bindings
  | .error e _ => e.fault.IsUnknownName → ∃ q m, asks q m ∧ q.Raises r m e.fault

namespace Eval

variable {scope : Scope} {r : Registry H} {asks : HostCall → Memory H → Prop} {w : World H}

section

variable {α β : Type} {x : Eval H α}

theorem knowsNames_pure (hw : scope.BoundIn w.bindings) (a : α) :
    (pure a : Eval H α).KnowsNames scope r asks w := hw

theorem KnowsNames.bind {f : α → Eval H β} (hx : x.KnowsNames scope r asks w)
    (hf : ∀ a w', x w = .ok a w' → scope.BoundIn w'.bindings → (f a).KnowsNames scope r asks w') :
    (x >>= f).KnowsNames scope r asks w := by
  rw [KnowsNames] at hx
  cases hr : x w with
  | ok a w' =>
      rw [hr] at hx
      rw [KnowsNames, run_bind_of_ok hr]
      exact hf a w' hr hx
  | error e w' =>
      rw [hr] at hx
      rw [KnowsNames, run_bind_of_error hr]
      exact hx

/-- What a task that is called asks is asked in the course of the calling one. -/
theorem KnowsNames.of_calls {t t' : Task} {past : List Task} {w' : World H}
    (h : x.KnowsNames scope r (t'.Asks r w') w') (hcall : t.Calls r w past t' w') :
    x.KnowsNames scope r (t.Asks r w) w' := by
  rw [KnowsNames] at h ⊢
  cases hr : x w' with
  | ok a w'' => rw [hr] at h; exact h
  | error e w'' =>
      rw [hr] at h
      intro hunknown
      obtain ⟨q, m, hq, hraises⟩ := h hunknown
      exact ⟨q, m, hq.of_calls hcall, hraises⟩

theorem KnowsNames.located (h : x.KnowsNames scope r asks w) (span : Span) :
    (x.located span).KnowsNames scope r asks w := by
  rw [KnowsNames] at h ⊢
  rw [Eval.located]
  cases hr : x w with
  | ok a w' => rw [hr] at h; exact h
  | error e w' => rw [hr] at h; exact h

/-- A fault of the engine's own. -/
theorem knowsNames_fail {f : Fault} (hf : ¬f.IsUnknownName) :
    (fail f : Eval H α).KnowsNames scope r asks w := fun h => absurd h hf

theorem knowsNames_ofExcept {codes : List Code} {y : Except Fault α} (hy : FailsIn codes y)
    (hcodes : Code.unknownVariable ∉ codes ∧ Code.unknownType ∉ codes)
    (hw : scope.BoundIn w.bindings) : (liftM y : Eval H α).KnowsNames scope r asks w := by
  cases y with
  | ok a => exact hw
  | error f => exact knowsNames_fail (hy.not_isUnknownName hcodes rfl)

theorem knowsNames_ofExcept_bind {codes : List Code} {y : Except Fault α} {f : α → Eval H β}
    (hy : FailsIn codes y) (hcodes : Code.unknownVariable ∉ codes ∧ Code.unknownType ∉ codes)
    (hf : ∀ a, y = .ok a → (f a).KnowsNames scope r asks w) :
    (liftM y >>= f).KnowsNames scope r asks w := by
  cases y with
  | ok a => exact hf a rfl
  | error fault => exact knowsNames_fail (hy.not_isUnknownName hcodes rfl)

theorem knowsNames_ofAction {y : Action H α} (hw : scope.BoundIn w.bindings)
    (hy : ∀ f m', y w.memory = .error f m' → f.IsUnknownName →
      ∃ q m, asks q m ∧ q.Raises r m f) :
    (liftM y : Eval H α).KnowsNames scope r asks w := by
  change (ofAction y).KnowsNames scope r asks w
  rw [KnowsNames, ofAction]
  cases hr : y w.memory with
  | ok a m' => exact hw
  | error f m' => exact hy f m' hr

/-- What goes on with a variable that is there. -/
theorem knowsNames_lookup {name : String} {f : Variable → Eval H α} (hw : scope.BoundIn w.bindings)
    (hname : scope.isVariable name = true)
    (hf : ∀ x, w.bindings.find? name = some x → (f x).KnowsNames scope r asks w) :
    (lookup name >>= f).KnowsNames scope r asks w := by
  obtain ⟨x, hx⟩ := hw.find? hname
  rw [KnowsNames, run_bind_of_ok (lookup_of_find? hx)]
  exact hf x hx

theorem knowsNames_memory {f : Memory H → Eval H α} (hf : (f w.memory).KnowsNames scope r asks w) :
    (memory >>= f).KnowsNames scope r asks w := hf

end

section

variable (hw : scope.BoundIn w.bindings) {o v : Value} {name : String}

include hw

theorem knowsNames_checkAllowed (v : Value) :
    (liftM (r.directory.checkAllowed v) : Eval H Unit).KnowsNames scope r asks w :=
  knowsNames_ofExcept (r.directory.checkAllowed_failsIn v) (by decide) hw

theorem knowsNames_result (stack : List Value) :
    (liftM (Program.result stack) : Eval H Value).KnowsNames scope r asks w :=
  knowsNames_ofExcept (Program.result_failsIn stack) (by decide) hw

theorem knowsNames_load (hname : scope.isVariable name = true)
    (hasks : ∀ x o, w.bindings.find? name = some x → x.get = .object o → asks (.copy o) w.memory) :
    (load r name).KnowsNames scope r asks w := by
  refine knowsNames_lookup hw hname fun x hx => ?_
  refine knowsNames_ofExcept_bind (r.directory.checkAllowed_failsIn x.get) (by decide) fun _ _ => ?_
  rcases r.copyOnLoad_cases x.get with hc | ⟨o, t, copy, hobject, ht, hcopy, hc⟩
  · rw [hc]
    exact hw
  · rw [hc]
    refine knowsNames_ofAction hw fun f m' hf _ => ?_
    have hraised := Action.error_of_map hf
    exact ⟨.copy o, w.memory, hasks x o hx hobject, t, copy, m', ht, hcopy, hraised⟩

theorem knowsNames_get {t : HostType H} {d : Member H} (hd : findMember r o name = .ok (t, d))
    (hasks : asks (.get o name) w.memory) :
    (liftM (d.get o t.tag.name) : Eval H Value).KnowsNames scope r asks w := by
  refine knowsNames_ofAction hw fun f m' hf hunknown => ?_
  rw [Member.get] at hf
  cases hgetter : d.getter? with
  | some getter =>
      rw [hgetter] at hf
      exact ⟨_, _, hasks, t, d, getter, m', hd, hgetter, hf⟩
  | none =>
      rw [hgetter] at hf
      obtain ⟨rfl, -⟩ := EStateM.Result.error.inj hf
      simp [Fault.IsUnknownName, Fault.code] at hunknown

theorem knowsNames_set {t : HostType H} {d : Member H} (hd : findMember r o name = .ok (t, d))
    (hasks : asks (.set o name v) w.memory) :
    (liftM (d.set o v t.tag.name) : Eval H Unit).KnowsNames scope r asks w := by
  refine knowsNames_ofAction hw fun f m' hf hunknown => ?_
  rw [Member.set] at hf
  cases hsetter : d.setter? with
  | some setter =>
      rw [hsetter] at hf
      exact ⟨_, _, hasks, t, d, setter, m', hd, hsetter, hf⟩
  | none =>
      rw [hsetter] at hf
      obtain ⟨rfl, -⟩ := EStateM.Result.error.inj hf
      simp [Fault.IsUnknownName, Fault.code] at hunknown

theorem knowsNames_readMember (hasks : asks (.get o name) w.memory) :
    (readMember r o name).KnowsNames scope r asks w :=
  knowsNames_ofExcept_bind (findMember_failsIn r o name) (by decide) fun _ hd =>
    knowsNames_get hw hd hasks

theorem knowsNames_writeMember (hasks : asks (.set o name v) w.memory) :
    (writeMember r o name v).KnowsNames scope r asks w :=
  knowsNames_ofExcept_bind (findMember_failsIn r o name) (by decide) fun _ hd =>
    knowsNames_set hw hd hasks

theorem knowsNames_converted {t : HostType H} {d : Member H} (hd : findMember r o name = .ok (t, d))
    (hasks : asks (.get o name) w.memory) (v : Value) :
    (converted r o t d v).KnowsNames scope r asks w := by
  rw [converted]
  split
  · refine (knowsNames_get hw hd hasks).bind fun current w' _ hw' => knowsNames_memory ?_
    exact knowsNames_ofExcept (v.convert_failsIn r.directory w'.memory current.typeTag) (by decide) hw'
  · exact knowsNames_pure hw v

theorem knowsNames_updateMember (hget : asks (.get o name) w.memory)
    (hset : ∀ t d new w', findMember r o name = .ok (t, d) → converted r o t d v w = .ok new w' →
      asks (.set o name new) w'.memory) :
    (updateMember r o name v).KnowsNames scope r asks w := by
  rw [updateMember_eq]
  refine knowsNames_ofExcept_bind (findMember_failsIn r o name) (by decide) fun (t, d) hd => ?_
  have goesOn : (do
      let new ← converted r o t d v
      r.directory.checkAllowed new
      d.set o new t.tag.name
      return new : Eval H Value).KnowsNames scope r asks w := by
    refine (knowsNames_converted hw hd hget v).bind fun new w₁ hnew hw₁ => ?_
    refine knowsNames_ofExcept_bind (r.directory.checkAllowed_failsIn new) (by decide) fun _ _ => ?_
    refine (knowsNames_set hw₁ hd (hset t d new w₁ hd hnew)).bind fun _ w₂ _ hw₂ => ?_
    exact knowsNames_pure hw₂ new
  dsimp only
  split
  · exact (knowsNames_fail (by simp [Fault.IsUnknownName, Fault.code])).bind fun _ _ h => by cases h
  · exact goesOn

theorem knowsNames_access (hasks : asks (.get o name) w.memory) :
    (access r o name).KnowsNames scope r asks w := by
  rw [access, checkReceiver]
  split
  · exact (knowsNames_fail (by simp [Fault.IsUnknownName, Fault.code])).bind fun _ _ h => by cases h
  · refine (knowsNames_readMember hw hasks).bind fun v w' _ hw' => ?_
    exact (knowsNames_checkAllowed hw' v).bind fun _ _ _ hw'' => knowsNames_pure hw'' v

theorem knowsNames_invoke {typeArgs : List TypeTag} {args : List Value}
    (hasks : asks (.call o name typeArgs args) w.memory) :
    (invoke r o name typeArgs args).KnowsNames scope r asks w := by
  refine knowsNames_ofExcept_bind (r.typeOf_failsIn o) (by decide) fun t ht => ?_
  refine knowsNames_ofExcept_bind (Method.select_failsIn ..) (by decide) fun (g, args') hg => ?_
  have hbody : (liftM (g.body ⟨o, args', typeArgs, r.directory⟩) : Eval H Value).KnowsNames scope r
      asks w :=
    knowsNames_ofAction hw fun f m' hf _ => ⟨_, _, hasks, t, g, args', m', ht, hg, hf⟩
  refine hbody.bind fun v w' _ hw' => ?_
  exact (knowsNames_checkAllowed hw' _).bind fun _ _ _ hw'' => knowsNames_pure hw'' _

theorem knowsNames_updateVariable (hname : scope.isVariable name = true) (v : Value) :
    (updateVariable r name v).KnowsNames scope r asks w := by
  refine knowsNames_lookup hw hname fun x _ => knowsNames_memory ?_
  refine knowsNames_ofExcept_bind (v.convert_failsIn r.directory w.memory x.type) (by decide)
    fun new _ => ?_
  exact hw.store name new

end

theorem KnowsNames.run {p : Program} (h : (Program.runFrom r [] p).KnowsNames scope r asks w) :
    (p.run r).KnowsNames scope r asks w :=
  h.bind fun stack _ _ hw' => knowsNames_result hw' stack

end Eval

section

open Eval

variable {scope : Scope} (r : Registry H)

mutual

/-- All that is asked of hosts in the course of a task is asked by the task itself or by what it calls. -/
theorem Instr.step_knowsNames {i : Instr} (hi : scope.Knows i.vars) (stack : List Value)
    {w : World H} (hw : scope.BoundIn w.bindings) :
    (i.step r stack).KnowsNames scope r ((Task.step i stack).Asks r w) w := by
  cases i with
  | push span c =>
      rw [Instr.step]
      exact knowsNames_pure hw _
  | load span name =>
      rw [Instr.step]
      have hname := hi name (List.mem_singleton_self name)
      refine (knowsNames_load hw hname fun x o hx ho => (Task.Puts.copyLoaded hx ho).asks).bind ?_
      exact fun v _ _ hw' => knowsNames_pure hw' _
  | loadType span tag =>
      rw [Instr.step]
      exact knowsNames_pure hw _
  | binary span op =>
      match stack with
      | [] | [_] =>
          rw [Instr.step]
          · exact knowsNames_fail (by simp [Fault.IsUnknownName, Fault.code])
          all_goals simp
      | right :: left :: stack =>
          rw [Instr.step]
          refine knowsNames_memory ?_
          refine (knowsNames_ofExcept (Value.binary_failsIn ..) (by decide) hw).bind ?_
          exact fun v _ _ hw' => knowsNames_pure hw' _
  | get span name =>
      cases stack with
      | nil =>
          rw [Instr.step]
          exact knowsNames_fail (by simp [Fault.IsUnknownName, Fault.code])
      | cons o stack =>
          rw [Instr.step]
          refine (knowsNames_access hw Task.Puts.get.asks).bind ?_
          exact fun v _ _ hw' => knowsNames_pure hw' _
  | call span name typeArgs args =>
      cases stack with
      | nil =>
          rw [Instr.step]
          exact knowsNames_fail (by simp [Fault.IsUnknownName, Fault.code])
      | cons o stack =>
          have hargs : scope.Knows (Program.allVars args) := hi
          rw [Instr.step, Eval.checkReceiver]
          cases hnull : o.isNull with
          | true =>
              refine (knowsNames_fail ?_).bind fun _ _ h => by cases h
              simp [Fault.IsUnknownName, Fault.code]
          | false =>
              refine knowsNames_ofExcept_bind (r.typeOf_failsIn o) (by decide) fun t ht => ?_
              refine ((Program.runAll_knowsNames hargs hw).of_calls (.arguments hnull ht)).bind
                fun vs w' hvs hw' => ?_
              refine (knowsNames_invoke hw' (Task.Puts.call hvs).asks).bind ?_
              exact fun v _ _ hw'' => knowsNames_pure hw'' _
  | ternary span cond yes no =>
      obtain ⟨hcond, hbranches⟩ := List.forall_mem_append.mp hi
      obtain ⟨hyes, hno⟩ := List.forall_mem_append.mp hbranches
      rw [Instr.step_ternary]
      refine ((Program.runFrom_knowsNames hcond [] hw).of_calls .condition).run.bind
        fun c w₁ hrun hw₁ => ?_
      have hchoose : (Eval.choose c (Program.run r yes) (Program.run r no)).KnowsNames scope r
          ((Task.step (.ternary span cond yes no) stack).Asks r w) w₁ := by
        rw [Eval.choose.eq_def]
        split
        · exact ((Program.runFrom_knowsNames hyes [] hw₁).of_calls (.yes hrun)).run
        · exact ((Program.runFrom_knowsNames hno [] hw₁).of_calls (.no hrun)).run
        · exact knowsNames_fail (by simp [Fault.IsUnknownName, Fault.code])
      exact hchoose.bind fun v _ _ hw₂ => knowsNames_pure hw₂ _
  | assign span place value =>
      obtain ⟨hplace, hvalue⟩ := List.forall_mem_append.mp hi
      rw [Instr.step_assign]
      refine ((Program.runFrom_knowsNames hvalue [] hw).of_calls .value).run.bind
        fun v w₁ hrun hw₁ => ?_
      refine ((Place.assign_knowsNames hplace v hw₁).of_calls (.store hrun)).bind ?_
      exact fun new _ _ hw₂ => knowsNames_pure hw₂ _

theorem Program.runFrom_knowsNames {p : List Instr} (hp : scope.Knows (Program.vars p))
    (stack : List Value) {w : World H} (hw : scope.BoundIn w.bindings) :
    (Program.runFrom r stack p).KnowsNames scope r ((Task.run stack p).Asks r w) w := by
  cases p with
  | nil =>
      rw [Program.runFrom]
      exact knowsNames_pure hw _
  | cons i is =>
      obtain ⟨hi, his⟩ := List.forall_mem_append.mp hp
      rw [Program.runFrom]
      refine (((Instr.step_knowsNames hi stack hw).of_calls .head).located i.span).bind
        fun stack' w' hrun hw' => ?_
      exact (Program.runFrom_knowsNames his stack' hw').of_calls (.tail (ok_of_located hrun))

theorem Program.runAll_knowsNames {ps : List (List Instr)} (hps : scope.Knows (Program.allVars ps))
    {w : World H} (hw : scope.BoundIn w.bindings) :
    (Program.runAll r ps).KnowsNames scope r ((Task.runAll ps).Asks r w) w := by
  cases ps with
  | nil =>
      rw [Program.runAll]
      exact knowsNames_pure hw _
  | cons p ps =>
      obtain ⟨hp, hps⟩ := List.forall_mem_append.mp hps
      rw [Program.runAll_cons]
      refine ((Program.runFrom_knowsNames hp [] hw).of_calls .argument).run.bind
        fun v w₁ hrun hw₁ => ?_
      refine knowsNames_ofExcept_bind (r.directory.checkAllowed_failsIn v) (by decide)
        fun _ hallowed => ?_
      refine ((Program.runAll_knowsNames hps hw₁).of_calls (.nextArguments hrun hallowed)).bind ?_
      exact fun vs _ _ hw₂ => knowsNames_pure hw₂ _

theorem Place.read_knowsNames {place : Place} (hplace : scope.Knows place.vars) {w : World H}
    (hw : scope.BoundIn w.bindings) :
    (place.read r).KnowsNames scope r ((Task.read place).Asks r w) w := by
  cases place with
  | var name =>
      rw [Place.read]
      exact knowsNames_load hw (hplace name (List.mem_singleton_self name)) fun x o hx ho =>
        (Task.Puts.copyRead hx ho).asks
  | member owner name span =>
      have howner : scope.Knows owner.vars := hplace
      rw [Place.read]
      refine ((Place.read_knowsNames howner hw).of_calls .readOwner).bind
        fun o w' hread hw' => ?_
      exact knowsNames_readMember hw' (Task.Puts.read hread).asks
  | static tag =>
      rw [Place.read]
      exact knowsNames_pure hw _
  | computed p =>
      rw [Place.read]
      exact ((Program.runFrom_knowsNames (p := p) hplace [] hw).of_calls .compute).run

theorem Place.writeBack_knowsNames {place : Place} (hplace : scope.Knows place.vars) (v : Value)
    {w : World H} (hw : scope.BoundIn w.bindings) :
    (place.writeBack r v).KnowsNames scope r ((Task.writeBack place v).Asks r w) w := by
  cases place with
  | var name =>
      rw [Place.writeBack]
      split
      · refine knowsNames_lookup hw (hplace name (List.mem_singleton_self name)) fun x _ => ?_
        exact hw.store name v
      · exact knowsNames_pure hw ()
  | member owner name span =>
      have howner : scope.Knows owner.vars := hplace
      rw [Place.writeBack]
      split
      · next hv =>
        refine ((Place.read_knowsNames howner hw).of_calls (.readAgain hv)).bind
          fun o w₁ hread hw₁ => ?_
        refine (knowsNames_writeMember hw₁ (Task.Puts.writeBack hread).asks).bind
          fun _ w₂ hwritten hw₂ => ?_
        exact (Place.writeBack_knowsNames howner o hw₂).of_calls
          (.writeOwner hv hread hwritten)
      · exact knowsNames_pure hw ()
  | static | computed =>
      rw [Place.writeBack]
      exact knowsNames_pure hw ()

theorem Place.assign_knowsNames {place : Place} (hplace : scope.Knows place.vars) (v : Value)
    {w : World H} (hw : scope.BoundIn w.bindings) :
    (place.assign r v).KnowsNames scope r ((Task.assign place v).Asks r w) w := by
  cases place with
  | var name =>
      rw [Place.assign]
      exact knowsNames_updateVariable hw (hplace name (List.mem_singleton_self name)) v
  | member owner name span =>
      have howner : scope.Knows owner.vars := hplace
      rw [Place.assign]
      refine KnowsNames.located ?_ span
      refine ((Place.read_knowsNames howner hw).of_calls .assignOwner).bind
        fun o w₁ hread hw₁ => ?_
      refine (knowsNames_updateMember hw₁ (Task.Puts.assignRead hread).asks fun t d new w' hd hnew =>
        (Task.Puts.assign hread hd hnew).asks).bind fun new w₂ hupdated hw₂ => ?_
      refine ((Place.writeBack_knowsNames howner o hw₂).of_calls
        (.updateOwner hread hupdated)).bind ?_
      exact fun _ _ _ hw₃ => knowsNames_pure hw₃ new
  | static | computed =>
      rw [Place.assign]
      exact knowsNames_fail (by simp [Fault.IsUnknownName, Fault.code])

end

section

variable {r} {p : Program} (hp : scope.Knows (Program.vars p)) {w w' : World H}
  (hw : scope.BoundIn w.bindings) {err : EvalError} (hrun : p.run r w = .error err w')

include hp hw hrun

theorem Program.exists_asks_of_run_error (hunknown : err.fault.IsUnknownName) :
    ∃ q m, (Task.run [] p).Asks r w q m ∧ q.Raises r m err.fault := by
  have hknows := (Program.runFrom_knowsNames r hp [] hw).run
  rw [KnowsNames, hrun] at hknows
  exact hknows hunknown

/-- Hosts that never raise such a fault are enough for there to be none. -/
theorem Program.not_isUnknownName_of_avoids (hr : ∀ t ∈ r.types, t.Avoids Fault.IsUnknownName) :
    ¬err.fault.IsUnknownName := by
  intro hunknown
  obtain ⟨q, m, -, hraises⟩ := Program.exists_asks_of_run_error hp hw hrun hunknown
  exact hraises.not_of_avoids hr hunknown

end

end

theorem Reference.code_fault (ref : Reference) :
    ref.fault.code = .unknownVariable ∨ ref.fault.code = .unknownType := by
  cases ref with
  | value | receiver => exact .inl rfl
  | typeArg => exact .inr rfl

/-- A parsed statement has a program if and only if each of its names stands for something that may be
used where the name is. If there is none, the fault is that a variable or a type is unknown. If there is
one, then it never fails for such a reason where the variables of the scope are there, unless something
that it asks of a host ends in the very fault. -/
theorem Expr.resolution_of_ofTokens {maxHops : Nat} {ts : TokenList} {e : Expr}
    (h : Expr.ofTokens maxHops ts = .ok e) (scope : Scope) :
    ((∃ p, Program.ofExpr scope e = .ok p) ↔ ∀ ref ∈ e.references, scope.Resolves ref) ∧
      (∀ err, Program.ofExpr scope e = .error err →
        (err.fault.code = .unknownVariable ∨ err.fault.code = .unknownType) ∧
          ∃ ref ∈ e.references, ¬scope.Resolves ref ∧ err.fault = ref.fault) ∧
      ∀ p, Program.ofExpr scope e = .ok p → ∀ (r : Registry H) (w : World H),
        scope.BoundIn w.bindings → ∀ err w', p.run r w = .error err w' → err.fault.IsUnknownName →
          ∃ q m, (Task.run [] p).Asks r w q m ∧ q.Raises r m err.fault := by
  have hsettles := Program.ofExpr_settles scope (Expr.proper_of_ofTokens h)
  refine ⟨hsettles.isOk_iff, fun err herr => ?_, fun p hp r w hw err w' hrun hunknown => ?_⟩
  · rw [herr] at hsettles
    obtain ⟨ref, hmem, hne, hfault⟩ := hsettles
    exact ⟨hfault ▸ ref.code_fault, ref, hmem, hne, hfault⟩
  · rw [hp] at hsettles
    exact Program.exists_asks_of_run_error hsettles.2 hw hrun hunknown

namespace Sample

/-- A member of ints that fails for a variable of the host's own. -/
def forgetful : Registry host :=
  Registry.empty.register
    ((TypeDef.ofTag .int).computed "Whim" fun _ => throw (.unknownVariable "whim")).toHostType

def forgetfulWorld : World host := ⟨memory, ⟨[.infer "a" (.int 1)]⟩⟩

end Sample

open Sample in
/-- `a.Whim`, where `a` is a variable. -/
theorem Expr.resolution_of_ofTokens_whim :
    let ts : TokenList :=
      ⟨[⟨.ident "a", ⟨0, 1⟩⟩, ⟨.mark .dot, ⟨1, 2⟩⟩, ⟨.ident "Whim", ⟨2, 6⟩⟩], 6⟩
    let e : Expr := .member ⟨0, 6⟩ (.ident ⟨0, 1⟩ "a") "Whim"
    let scope : Scope := ⟨(· == "a"), fun _ => none⟩
    let p : Program := [.load ⟨0, 1⟩ "a", .get ⟨0, 6⟩ "Whim"]
    let fault : Fault := .unknownVariable "whim"
    Expr.ofTokens 1 ts = .ok e ∧ Program.ofExpr scope e = .ok p ∧
      scope.BoundIn forgetfulWorld.bindings ∧
      p.run forgetful forgetfulWorld = .error ⟨fault, some ⟨0, 6⟩, none⟩ forgetfulWorld ∧
      (∃ q m, (Task.run [] p).Asks forgetful forgetfulWorld q m ∧ q.Raises forgetful m fault) ∧
      ∃ ref ∈ e.references, ¬(⟨fun _ => false, fun _ => none⟩ : Scope).Resolves ref := by
  intro ts e scope p fault
  have hparse : Expr.ofTokens 1 ts = .ok e := by cbv
  have hp : Program.ofExpr scope e = .ok p := by
    simp [e, scope, p, Program.ofExpr, Program.ofReceiver, Scope.variableOr, Scope.static?, bind,
      Except.bind]
  have hw : scope.BoundIn forgetfulWorld.bindings := by
    intro name hname
    obtain rfl : name = "a" := by simpa [scope] using hname
    rfl
  have hrun : p.run forgetful forgetfulWorld = .error ⟨fault, some ⟨0, 6⟩, none⟩ forgetfulWorld := rfl
  have hfails : Program.ofExpr ⟨fun _ => false, fun _ => none⟩ e =
      .error ⟨⟨0, 1⟩, .unknownVariable "a"⟩ := by
    simp [e, Program.ofExpr, Program.ofReceiver, Scope.static?, Scope.typeNamed, bind, Except.bind]
  have hresolution := Expr.resolution_of_ofTokens (H := host) hparse
  obtain ⟨ref, hmem, hne, -⟩ := ((hresolution ⟨fun _ => false, fun _ => none⟩).2.1 _ hfails).2
  exact ⟨hparse, hp, hw, hrun,
    (hresolution scope).2.2 p hp forgetful forgetfulWorld hw _ _ hrun (.inl rfl), ref, hmem, hne⟩

end Formula
