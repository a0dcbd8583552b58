import Formula.Proofs.UnknownNames

/-!
Internal faults that runs pass on from hosts. Reads and writes of variables and members, conversions and
the choice of an overload raise none by themselves.
-/

namespace Formula

variable {H : Host}

/-- It fails with a fault of which `P` is true only if something that is asked of a host ends in the very
fault. -/
def Eval.PassesOn {α : Type} (P : Fault → Prop) (r : Registry H) (asks : HostCall → Memory H → Prop)
    (x : Eval H α) (w : World H) : Prop :=
  ∀ e w', x w = .error e w' → P e.fault → ∃ q m, asks q m ∧ q.Raises r m e.fault

namespace Eval

variable {P : Fault → Prop} {r : Registry H} {asks : HostCall → Memory H → Prop} {w : World H}

section

variable {α β : Type} {x : Eval H α}

theorem passesOn_pure (a : α) : (pure a : Eval H α).PassesOn P r asks w := by
  intro e w' h
  cases h

theorem passesOn_fail {f : Fault} (hf : ¬P f) : (fail f : Eval H α).PassesOn P r asks w := by
  intro e w' h
  obtain ⟨rfl, -⟩ := EStateM.Result.error.inj h
  exact fun hfault => absurd hfault hf

theorem PassesOn.bind {f : α → Eval H β} (hx : x.PassesOn P r asks w)
    (hf : ∀ a w', x w = .ok a w' → (f a).PassesOn P r asks w') :
    (x >>= f).PassesOn P r asks w := by
  intro e w' h
  cases hr : x w with
  | ok a w₁ =>
      rw [run_bind_of_ok hr] at h
      exact hf a w₁ hr e w' h
  | error e₁ w₁ =>
      rw [run_bind_of_error hr] at h
      obtain ⟨rfl, -⟩ := EStateM.Result.error.inj h
      exact hx e₁ w₁ hr

theorem PassesOn.located (h : x.PassesOn P r asks w) (span : Span) :
    (x.located span).PassesOn P r asks w := by
  intro e w' hx
  rw [Eval.located] at hx
  cases hr : x w with
  | ok a w₁ =>
      rw [hr] at hx
      cases hx
  | error e₁ w₁ =>
      rw [hr] at hx
      obtain ⟨rfl, -⟩ := EStateM.Result.error.inj hx
      exact h e₁ w₁ hr

/-- What a task that is called asks is asked in the course of the calling one. -/
theorem PassesOn.of_calls {t t' : Task} {past : List Task} {w' : World H}
    (h : x.PassesOn P r (t'.Asks r w') w') (hcall : t.Calls r w past t' w') :
    x.PassesOn P r (t.Asks r w) w' := by
  intro e w'' hx hfault
  obtain ⟨q, m, hq, hraises⟩ := h e w'' hx hfault
  exact ⟨q, m, hq.of_calls hcall, hraises⟩

theorem passesOn_ofAction {y : Action H α}
    (hy : ∀ f m', y w.memory = .error f m' → P f → ∃ q m, asks q m ∧ q.Raises r m f) :
    (liftM y : Eval H α).PassesOn P r asks w := by
  intro e w' h
  change ofAction y w = _ at h
  rw [ofAction] at h
  cases hr : y w.memory with
  | ok a m =>
      rw [hr] at h
      cases h
  | error f m =>
      rw [hr] at h
      obtain ⟨rfl, -⟩ := EStateM.Result.error.inj h
      exact hy f m hr

theorem passesOn_memory {f : Memory H → Eval H α} (hf : (f w.memory).PassesOn P r asks w) :
    (memory >>= f).PassesOn P r asks w := hf

end

section

variable (hP : ∀ f : Fault, P f → f.IsInternal) {α β : Type} {o v : Value} {name : String}

include hP

theorem passesOn_yields_bind {y : Except Fault α} {Q : α → Prop} {f : α → Eval H β}
    (hy : Yields y Q) (hf : ∀ a, y = .ok a → (f a).PassesOn P r asks w) :
    (liftM y >>= f).PassesOn P r asks w := by
  cases y with
  | ok a => exact hf a rfl
  | error fault => exact passesOn_fail fun hfault => hy (hP fault hfault)

theorem passesOn_yields {y : Except Fault α} {Q : α → Prop} (hy : Yields y Q) :
    (liftM y : Eval H α).PassesOn P r asks w := by
  cases y with
  | ok a => exact passesOn_pure a
  | error fault => exact passesOn_fail fun hfault => hy (hP fault hfault)

theorem passesOn_lookup {f : Variable → Eval H α}
    (hf : ∀ x, w.bindings.find? name = some x → (f x).PassesOn P r asks w) :
    (lookup name >>= f).PassesOn P r asks w := by
  cases hx : w.bindings.find? name with
  | some x =>
      intro e w'
      rw [run_bind_of_ok (lookup_of_find? hx)]
      exact hf x hx e w'
  | none =>
      intro e w' h hfault
      rw [run_bind_of_error (lookup_of_find?_none hx)] at h
      obtain ⟨rfl, -⟩ := EStateM.Result.error.inj h
      cases hP _ hfault

theorem passesOn_load
    (hasks : ∀ x o, w.bindings.find? name = some x → x.get = .object o → asks (.copy o) w.memory) :
    (load r name).PassesOn P r asks w := by
  refine passesOn_lookup hP fun x hx => ?_
  refine passesOn_yields_bind hP (r.directory.checkAllowed_yields x.get) fun _ _ => ?_
  rcases r.copyOnLoad_cases x.get with hc | ⟨o, t, copy, hobject, ht, hcopy, hc⟩
  · rw [hc]
    exact passesOn_pure x.get
  · rw [hc]
    refine passesOn_ofAction fun f m' hf _ => ?_
    exact ⟨.copy o, w.memory, hasks x o hx hobject, t, copy, m', ht, hcopy, Action.error_of_map hf⟩

theorem passesOn_get {t : HostType H} {d : Member H} (hd : findMember r o name = .ok (t, d))
    (hasks : asks (.get o name) w.memory) :
    (liftM (d.get o t.tag.name) : Eval H Value).PassesOn P r asks w := by
  refine passesOn_ofAction fun f m' hf hfault => ?_
  rw [Member.get] at hf
  cases hgetter : d.getter? with
  | some getter =>
      rw [hgetter] at hf
      exact ⟨_, _, hasks, t, d, getter, m', hd, hgetter, hf⟩
  | none =>
      rw [hgetter] at hf
      obtain ⟨rfl, -⟩ := EStateM.Result.error.inj hf
      cases hP _ hfault

theorem passesOn_set {t : HostType H} {d : Member H} (hd : findMember r o name = .ok (t, d))
    (hasks : asks (.set o name v) w.memory) :
    (liftM (d.set o v t.tag.name) : Eval H Unit).PassesOn P r asks w := by
  refine passesOn_ofAction fun f m' hf hfault => ?_
  rw [Member.set] at hf
  cases hsetter : d.setter? with
  | some setter =>
      rw [hsetter] at hf
      exact ⟨_, _, hasks, t, d, setter, m', hd, hsetter, hf⟩
  | none =>
      rw [hsetter] at hf
      obtain ⟨rfl, -⟩ := EStateM.Result.error.inj hf
      cases hP _ hfault

theorem passesOn_readMember (hasks : asks (.get o name) w.memory) :
    (readMember r o name).PassesOn P r asks w :=
  passesOn_yields_bind hP (Discipline.findMember_yields o name) fun _ hd => passesOn_get hP hd hasks

theorem passesOn_writeMember (hasks : asks (.set o name v) w.memory) :
    (writeMember r o name v).PassesOn P r asks w :=
  passesOn_yields_bind hP (Discipline.findMember_yields o name) fun _ hd => passesOn_set hP hd hasks

theorem passesOn_updateMember (hget : asks (.get o name) w.memory)
    (hset : ∀ t d new w', findMember r o name = .ok (t, d) → converted r o t d v w = .ok new w' →
      asks (.set o name new) w'.memory) :
    (updateMember r o name v).PassesOn P r asks w := by
  rw [updateMember_eq]
  refine passesOn_yields_bind hP (Discipline.findMember_yields o name) fun (t, d) hd => ?_
  have hconverted : (converted r o t d v).PassesOn P r asks w := by
    rw [converted]
    split
    · refine (passesOn_get hP hd hget).bind fun current w' _ => passesOn_memory ?_
      exact passesOn_yields hP (Value.convert_yields r.directory w'.memory v current.typeTag)
    · exact passesOn_pure v
  have hstored : (do
      let new ← converted r o t d v
      r.directory.checkAllowed new
      d.set o new t.tag.name
      return new : Eval H Value).PassesOn P r asks w := by
    refine hconverted.bind fun new w₁ hnew => ?_
    refine passesOn_yields_bind hP (r.directory.checkAllowed_yields new) fun _ _ => ?_
    exact (passesOn_set hP hd (hset t d new w₁ hd hnew)).bind fun _ _ _ => passesOn_pure new
  dsimp only
  split
  · exact (passesOn_fail fun hfault => by cases hP _ hfault).bind fun _ _ h => by cases h
  · exact hstored

theorem passesOn_access (hasks : asks (.get o name) w.memory) :
    (access r o name).PassesOn P r asks w := by
  rw [access, checkReceiver]
  split
  · exact (passesOn_fail fun hfault => by cases hP _ hfault).bind fun _ _ h => by cases h
  · refine (passesOn_readMember hP hasks).bind fun v w' _ => ?_
    exact passesOn_yields_bind hP (r.directory.checkAllowed_yields v) fun _ _ => passesOn_pure v

theorem passesOn_invoke {typeArgs : List TypeTag} {args : List Value}
    (hasks : asks (.call o name typeArgs args) w.memory) :
    (invoke r o name typeArgs args).PassesOn P r asks w := by
  refine passesOn_yields_bind hP (Discipline.typeOf_yields o) fun t ht => ?_
  refine passesOn_yields_bind hP (Method.select_yields ..) fun (g, args') hg => ?_
  have hbody : (liftM (g.body ⟨o, args', typeArgs, r.directory⟩) : Eval H Value).PassesOn P r
      asks w :=
    passesOn_ofAction fun f m' hf _ => ⟨_, _, hasks, t, g, args', m', ht, hg, hf⟩
  refine hbody.bind fun v w' _ => ?_
  exact passesOn_yields_bind hP (r.directory.checkAllowed_yields _) fun _ _ => passesOn_pure _

theorem passesOn_updateVariable (v : Value) : (updateVariable r name v).PassesOn P r asks w := by
  refine passesOn_lookup hP fun x _ => passesOn_memory ?_
  refine passesOn_yields_bind hP (Value.convert_yields r.directory w.memory v x.type) fun new _ => ?_
  intro e w' h
  cases h

end

end Eval

end Formula
