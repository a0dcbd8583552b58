import Formula.Proofs.Composition
import Formula.Proofs.Reading
import Mathlib

/-!
Chains of members that cannot be followed to their end. Where an assignment walks along a chain and where a
program loads it, the same receivers and members are missed; only members of null are refused in two ways.
-/

namespace Formula

variable {H : Host} {α β : Type}

namespace Eval

variable {r : Registry H} {w w' : World H} {o y : Value} {name : String} {f : Fault}

theorem except_error_bind {x : Except Fault α} (h : x = .error f) (g : α → Eval H β) (w : World H) :
    (liftM x >>= g : Eval H β) w = .error (.of f) w := by
  subst h
  rfl

theorem located_error {span : Span} {x : Eval H α} {e : EvalError} (h : x w = .error e w') :
    x.located span w = .error (e.orSpan span) w' := by
  rw [located, h]

/-- A value of an unregistered type has no members, for the reason for which it is refused. -/
theorem findMember_of_refused (h : r.directory.checkAllowed y = .error f) (name : String) :
    findMember r y name = .error f := by
  have hfind {typeName : String} (hreg : r.directory.isRegistered typeName ≠ true) :
      r.find? typeName = none := by
    simpa [Directory.isRegistered, Registry.directory] using hreg
  cases y with
  | object o | enum e =>
      rw [Directory.checkAllowed] at h
      split at h
      · cases h
      · next hreg =>
        obtain rfl := Except.error.inj h
        simp [findMember, Registry.typeOf, Value.typeTag, TypeTag.name, hfind hreg, bind, Except.bind]
  | null | bool | int | float | string | typeRoot => cases h

theorem readMember_of_findMember_error (h : findMember r o name = .error f) (w : World H) :
    readMember r o name w = .error (.of f) w := except_error_bind h _ w

theorem access_of_null (ho : o.isNull = true) (name : String) (w : World H) :
    access r o name w = .error (.of (.hostFailure ("cannot access `" ++ name ++ "` on null"))) w := by
  rw [access, checkReceiver, if_pos ho]
  rfl

/-- Beyond the receiver, an access fails as the read of the member does. -/
theorem access_of_readMember_error (ho : o.isNull = false) {e : EvalError}
    (h : readMember r o name w = .error e w') : access r o name w = .error e w' := by
  rw [access, checkReceiver, if_neg (by simp [ho]), pure_bind, run_bind_of_error h]

theorem access_of_refused (ho : o.isNull = false) (h : readMember r o name w = .ok y w')
    (hy : r.directory.checkAllowed y = .error f) : access r o name w = .error (.of f) w' := by
  rw [access, checkReceiver, if_neg (by simp [ho]), pure_bind, run_bind_of_ok h]
  exact except_error_bind hy _ w'

theorem admits_of_readMember (h : readMember r o name w = .ok y w') : r.directory.Admits o := by
  obtain ⟨⟨t, m⟩, hm, -⟩ := ok_of_except_bind h
  exact Registry.admits_of_find? (findMember_eq_ok hm).1

theorem readMember_of_unreadable {t : HostType H} {m : Member H}
    (h : findMember r o name = .ok (t, m)) (hm : m.isReadable = false) (w : World H) :
    readMember r o name w = .error (.of (.notReadable m.name t.tag.name)) w := by
  have hget : m.getter? = none := by simpa [Member.isReadable] using hm
  rw [readMember, h, liftM_ok, pure_bind]
  simp only [Member.get.eq_def, hget]
  rfl

theorem load_of_refused {x : Variable} (hx : w.bindings.find? name = some x)
    (h : r.directory.checkAllowed x.get = .error f) : load r name w = .error (.of f) w := by
  rw [load, run_bind_of_ok (lookup_of_find? hx)]
  exact except_error_bind h _ w

end Eval

namespace Place

/-- From `w`, the chain leads to the value `y`, and no receiver on the way is null. -/
inductive Follows (r : Registry H) (w : World H) : Place → Value → World H → Prop
  | var {name y w'} : Eval.load r name w = .ok y w' → Follows r w (.var name) y w'
  | member {owner name span o y w' w''} : Follows r w owner o w' → o.isNull = false →
      Eval.readMember r o name w' = .ok y w'' → Follows r w (.member owner name span) y w''

/-- From `w`, the chain stops at the receiver `o` and in the world `w'`, as the fault `f` says: the type of
the receiver is not registered or does not have the member, or the member cannot be read though the chain
goes on. -/
inductive Breaks (r : Registry H) (w : World H) : Place → Value → Fault → World H → Prop
  | root {name x f} : w.bindings.find? name = some x → r.directory.checkAllowed x.get = .error f →
      Breaks r w (.var name) x.get f w
  | receiver {owner name span o f w'} : owner.Follows r w o w' →
      Eval.findMember r o name = .error f → Breaks r w (.member owner name span) o f w'
  | unreadable {owner name span next span' o t m w'} : owner.Follows r w o w' →
      Eval.findMember r o name = .ok (t, m) → m.isReadable = false →
      Breaks r w (.member (.member owner name span) next span') o (.notReadable m.name t.tag.name) w'
  | owner {owner name span o f w'} : owner.Breaks r w o f w' →
      Breaks r w (.member owner name span) o f w'

variable {r : Registry H} {w w' : World H} {place owner : Place} {o y u : Value} {f : Fault}
  {name : String} {span : Span}

theorem Follows.read (h : place.Follows r w y w') : place.read r w = .ok y w' := by
  induction h with
  | var h => rwa [Place.read]
  | member _ _ hmember ih => rw [Place.read, run_bind_of_ok ih, hmember]

/-- The walk along a chain stops where it breaks. -/
theorem Breaks.read (h : place.Breaks r w o f w') : place.read r w = .error (.of f) w' := by
  induction h with
  | root hx hallowed =>
      rw [Place.read]
      exact Eval.load_of_refused hx hallowed
  | receiver howner hfind =>
      rw [Place.read, run_bind_of_ok howner.read]
      exact Eval.readMember_of_findMember_error hfind _
  | unreadable howner hfind hm =>
      rw [Place.read, Place.read]
      refine run_bind_of_error ?_
      rw [run_bind_of_ok howner.read]
      exact Eval.readMember_of_unreadable hfind hm _
  | owner _ ih =>
      rw [Place.read]
      exact run_bind_of_error ih

theorem Breaks.assign (h : (Place.member owner name span).Breaks r w o f w') (u : Value) :
    (Place.member owner name span).assign r u w = .error ((EvalError.of f).orSpan span) w' := by
  rw [Place.assign]
  refine Eval.located_error ?_
  cases h with
  | receiver howner hfind =>
      rw [run_bind_of_ok howner.read]
      exact run_bind_of_error (Eval.except_error_bind hfind _ _)
  | unreadable howner hfind hm =>
      refine run_bind_of_error ?_
      rw [Place.read, run_bind_of_ok howner.read]
      exact Eval.readMember_of_unreadable hfind hm _
  | owner h => exact run_bind_of_error h.read

theorem Breaks.fault_of_null (h : place.Breaks r w o f w') (ho : o.isNull = true)
    (hnull : r.find? "null" = none) : f = .unregisteredType "null" := by
  have hfind (name : String) : Eval.findMember r .null name = .error (.unregisteredType "null") := by
    simp [Eval.findMember, Registry.typeOf, Value.typeTag, TypeTag.name, hnull, bind, Except.bind]
  have eq_null {v : Value} (hv : v.isNull = true) : v = .null := by cases v <;> simp_all [Value.isNull]
  induction h with
  | root hx hallowed =>
      rw [eq_null ho] at hallowed
      cases hallowed
  | receiver _ hm =>
      rw [eq_null ho, hfind] at hm
      exact (Except.error.inj hm).symm
  | unreadable _ hm =>
      rw [eq_null ho, hfind] at hm
      cases hm
  | owner _ ih => exact ih ho

end Place

namespace Program

variable {r : Registry H} {w w' : World H} {place : Place} {p q : Program} {o y u : Value} {f : Fault}

/-- A program that loads a chain follows it likewise, unless it refuses the value at the end. -/
theorem Loads.run_of_follows (hp : p.Loads place) (h : place.Follows r w y w') :
    p.run r w = .ok y w' ∨
      ∃ f err, r.directory.checkAllowed y = .error f ∧ p.run r w = .error err w' ∧ err.fault = f := by
  induction hp generalizing y w' with
  | var name span =>
      cases h with
      | var h =>
        rw [run_of_push (runFrom_load r span name)]
        exact .inl (Eval.located_ok h)
  | @member p _ name span span' hp ih =>
      cases h with
      | @member _ _ _ o _ w₁ _ howner ho hmember =>
        have hrun : p.run r w = .ok o w₁ := by
          rcases ih howner with hrun | ⟨f, -, hf, -⟩
          · exact hrun
          · rw [Eval.admits_of_readMember hmember] at hf
            cases hf
        rw [hp.run_member, run_bind_of_ok hrun]
        cases hy : r.directory.checkAllowed y with
        | ok => exact .inl (Eval.located_ok (Eval.access_of_readMember ho hmember hy))
        | error f =>
            exact .inr ⟨f, _, rfl, Eval.located_error (Eval.access_of_refused ho hmember hy), rfl⟩

theorem Loads.run_of_follows_admits (hp : p.Loads place) (h : place.Follows r w y w')
    (hy : r.directory.Admits y) : p.run r w = .ok y w' := by
  rcases hp.run_of_follows h with hrun | ⟨f, -, hf, -⟩
  · exact hrun
  · rw [hy] at hf
    cases hf

section

variable {owner : Place} {name : String} {w₁ : World H} {e : EvalError}

theorem Loads.run_member_of_access_error (hp : p.Loads owner) (hrun : p.run r w = .ok o w₁)
    (h : Eval.access r o name w₁ = .error e w') (span : Span) :
    Program.run r (p ++ [.get span name]) w = .error (e.orSpan span) w' := by
  rw [hp.run_member, run_bind_of_ok hrun, Eval.located_error h]

theorem Loads.run_member_of_error (hp : p.Loads owner) (hrun : p.run r w = .error e w') (name : String)
    (span : Span) : Program.run r (p ++ [.get span name]) w = .error e w' := by
  rw [hp.run_member, run_bind_of_error hrun]

end

/-- The program stops where the chain breaks, with the same fault. -/
theorem Loads.run_of_breaks (hp : p.Loads place) (h : place.Breaks r w o f w')
    (ho : o.isNull = false) : ∃ err, p.run r w = .error err w' ∧ err.fault = f := by
  induction h generalizing p with
  | root hx hallowed =>
      cases hp with
      | var _ span =>
        rw [run_of_push (runFrom_load r span _)]
        exact ⟨_, Eval.located_error (Eval.load_of_refused hx hallowed), rfl⟩
  | @receiver _ _ _ _ _ w₁ howner hfind =>
      cases hp with
      | member _ span _ hp =>
        rcases hp.run_of_follows howner with hrun | ⟨f', err, hf, hrun, rfl⟩
        · have hread := Eval.readMember_of_findMember_error hfind w₁
          have haccess := Eval.access_of_readMember_error ho hread
          exact ⟨_, hp.run_member_of_access_error hrun haccess span, rfl⟩
        · rw [Eval.findMember_of_refused hf] at hfind
          exact ⟨err, hp.run_member_of_error hrun _ span, Except.error.inj hfind⟩
  | @unreadable _ _ _ _ _ _ _ _ w₁ howner hfind hm =>
      cases hp with
      | member _ span' _ hp =>
        cases id hp with
        | member _ span _ howner' =>
          have hadmits := Registry.admits_of_find? (Eval.findMember_eq_ok hfind).1
          have hrun := howner'.run_of_follows_admits howner hadmits
          have hread := Eval.readMember_of_unreadable hfind hm w₁
          have haccess := Eval.access_of_readMember_error ho hread
          have hhop := howner'.run_member_of_access_error hrun haccess span
          exact ⟨_, hp.run_member_of_error hhop _ span', rfl⟩
  | owner _ ih =>
      cases hp with
      | member _ span _ hp =>
        obtain ⟨err, hrun, hf⟩ := ih hp ho
        exact ⟨err, hp.run_member_of_error hrun _ span, hf⟩

/-- What the program says of a member of null. -/
theorem Loads.run_of_breaks_null (hp : p.Loads place) (h : place.Breaks r w o f w')
    (ho : o.isNull = true) : ∃ err name, p.run r w = .error err w' ∧
      err.fault = .hostFailure ("cannot access `" ++ name ++ "` on null") := by
  have hadmits {v : Value} (hv : v.isNull = true) : r.directory.Admits v := by
    cases v <;> simp_all [Value.isNull, Directory.Admits, Directory.checkAllowed]
  induction h generalizing p with
  | root hx hallowed =>
      rw [hadmits ho] at hallowed
      cases hallowed
  | @receiver _ name _ _ _ w₁ howner hfind =>
      cases hp with
      | member _ span _ hp =>
        have hrun := hp.run_of_follows_admits howner (hadmits ho)
        exact ⟨_, name, hp.run_member_of_access_error hrun (Eval.access_of_null ho name w₁) span, rfl⟩
  | @unreadable _ name _ _ _ _ _ _ w₁ howner hfind hm =>
      cases hp with
      | member _ span' _ hp =>
        cases id hp with
        | member _ span _ howner' =>
          have hrun := howner'.run_of_follows_admits howner (hadmits ho)
          have hhop := howner'.run_member_of_access_error hrun (Eval.access_of_null ho name w₁) span
          exact ⟨_, name, hp.run_member_of_error hhop _ span', rfl⟩
  | owner _ ih =>
      cases hp with
      | member _ span _ hp =>
        obtain ⟨err, name, hrun, hf⟩ := ih hp ho
        exact ⟨err, name, hp.run_member_of_error hrun _ span, hf⟩

end Program

/-- If a chain of members of a variable breaks, then reading it and assigning to it, with a value that is
known by then, fail with one fault and in one world, unless it is a member of null that is asked for. That
is a failure of the host to one and a type that is not registered to the other. -/
theorem Expr.fail_alike {r : Registry H} {scope : Scope} {target value : Expr} {owner : Place}
    {root name : String} {span : Span} {q : Program} {w w' : World H} {o u : Value} {f : Fault}
    (hplace : Place.ofTarget scope target = .ok (.member owner name span))
    (hroot : owner.root? = some root) (hq : Program.ofExpr scope value = .ok q)
    (hvalue : q.run r w = .ok u w) (hbreaks : (Place.member owner name span).Breaks r w o f w')
    (s : Span) :
    ∃ load store, Program.ofExpr scope target = .ok load ∧
      Program.ofExpr scope (.assign s target value) = .ok store ∧
      (o.isNull = false →
        (∃ err, load.run r w = .error err w' ∧ err.fault = f) ∧
          ∃ err, store.run r w = .error err w' ∧ err.fault = f) ∧
      (o.isNull = true → r.find? "null" = none →
        (∃ err hop, load.run r w = .error err w' ∧
          err.fault = .hostFailure ("cannot access `" ++ hop ++ "` on null")) ∧
          ∃ err, store.run r w = .error err w' ∧ err.fault = .unregisteredType "null") := by
  obtain ⟨load, hload, hloads⟩ := Program.loads_ofExpr target hplace hroot
  have hstore : Program.ofExpr scope (.assign s target value) =
      .ok [.assign s (.member owner name span) q] := by
    rw [Program.ofExpr, hplace, hq]
    rfl
  have hfails : ∃ err, Program.run r [.assign s (.member owner name span) q] w = .error err w' ∧
      err.fault = f := by
    have hassign : (do let v ← q.run r; (Place.member owner name span).assign r v : Eval H Value) w =
        .error ((EvalError.of f).orSpan span) w' := by
      rw [run_bind_of_ok hvalue]
      exact hbreaks.assign u
    rw [Program.run_assign]
    exact ⟨_, Eval.located_error hassign, rfl⟩
  refine ⟨load, _, hload, hstore, fun ho => ⟨hloads.run_of_breaks hbreaks ho, hfails⟩, ?_⟩
  intro ho hnull
  obtain rfl := hbreaks.fault_of_null ho hnull
  exact ⟨hloads.run_of_breaks_null hbreaks ho, hfails⟩

namespace Sample

/-- A null, and a counter that has no point. -/
def vacant : Session host where
  world :=
    { memory := ⟨#[.host (.counter ⟨0, 0, false, .zero, "c"⟩)], Settings.initialLevel⟩
      bindings := ⟨[.infer "v" .null, .infer "c" (.object ⟨0, "Counter"⟩)]⟩ }
  cache := .empty

end Sample

open Sample in
/-- The chain `c.Secret.X` breaks at a member that can only be written. -/
theorem Expr.fail_alike_secret :
    let e : Engine host := ⟨Sample.registry, .default⟩
    let scope := Scope.of e.registry.directory vacant.world.bindings
    let target : Expr := .member ⟨0, 10⟩ (.member ⟨0, 8⟩ (.ident ⟨0, 1⟩ "c") "Secret") "X"
    let secret : Place := .member (.var "c") "Secret" ⟨0, 8⟩
    let place : Place := .member secret "X" ⟨0, 10⟩
    let f : Fault := .notReadable "Secret" "Counter"
    Place.ofTarget scope target = .ok place ∧ secret.root? = some "c" ∧
      place.Breaks e.registry vacant.world (.object ⟨0, "Counter"⟩) f vacant.world ∧
      ∃ load store, Program.ofExpr scope target = .ok load ∧
        Program.ofExpr scope (.assign ⟨0, 14⟩ target (.literal ⟨13, 14⟩ (.int 1))) = .ok store ∧
        (∃ err, load.run e.registry vacant.world = .error err vacant.world ∧ err.fault = f) ∧
        ∃ err, store.run e.registry vacant.world = .error err vacant.world ∧ err.fault = f := by
  intro e scope target secret place f
  have hplace : Place.ofTarget scope target = .ok place := by
    simp only [target, Place.ofTarget, Place.ofOwner]
    rfl
  have hq : Program.ofExpr scope (.literal ⟨13, 14⟩ (.int 1)) = .ok [.push ⟨13, 14⟩ (.int 1)] := by
    rw [Program.ofExpr]
  have hvalue : Program.run e.registry [.push ⟨13, 14⟩ (.int 1)] vacant.world =
      .ok (.int 1) vacant.world := rfl
  obtain ⟨t, m, hfind, hm, hf⟩ : ∃ t m,
      Eval.findMember e.registry (.object ⟨0, "Counter"⟩) "Secret" = .ok (t, m) ∧
        m.isReadable = false ∧ f = .notReadable m.name t.tag.name := ⟨_, _, rfl, rfl, rfl⟩
  have hbreaks : place.Breaks e.registry vacant.world (.object ⟨0, "Counter"⟩) f vacant.world := by
    rw [hf]
    exact .unreadable (.var rfl) hfind hm
  obtain ⟨load, store, hload, hstore, halike, -⟩ :=
    Expr.fail_alike hplace rfl hq hvalue hbreaks ⟨0, 14⟩
  exact ⟨hplace, rfl, hbreaks, load, store, hload, hstore, halike rfl⟩

open Sample in
/-- A member of null is an error when it is read, and a null with a diagnostic when it is assigned to. -/
theorem Engine.effect_vacant :
    let e : Engine host := ⟨Sample.registry, .default⟩
    (∃ err, (e.effect "f" "v.X" vacant).1 = .error err ∧ err.fault.code = .hostFailure) ∧
      ∃ d, (e.effect "f" "v.X = 1" vacant).1 = .ok ⟨[.null], [d]⟩ ∧ d.code = .unregisteredType := by
  intro e
  have hread := e.compileFor_single vacant.world.bindings "v.X" ⟨0, 3⟩
    [.load ⟨0, 1⟩ "v", .get ⟨0, 3⟩ "X"] (by decide +kernel) (by cbv) (by cbv)
    (by simp only [Program.ofExpr, Program.ofReceiver]; rfl)
  have hassign := e.compileFor_single vacant.world.bindings "v.X = 1" ⟨0, 7⟩
    [.assign ⟨0, 7⟩ (.member (.var "v") "X" ⟨0, 3⟩) [.push ⟨6, 7⟩ (.int 1)]]
    (by decide +kernel) (by cbv) (by cbv)
    (by simp only [Program.ofExpr, Place.ofTarget, Place.ofOwner]; rfl)
  rw [effect_of_coherent Cache.coherent_empty, effect_of_coherent Cache.coherent_empty, hread, hassign]
  exact ⟨⟨_, rfl, rfl⟩, _, rfl, rfl⟩

end Formula
