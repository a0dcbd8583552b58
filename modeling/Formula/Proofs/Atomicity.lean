import Formula.Proofs.Compilation
import Formula.Proofs.Intact

/-!
An assignment to a member that fails leaves the variables and the objects as they were once its value
was known. Before the last store all that changes is new: the copies that are read on the way.
-/

namespace Formula

variable {H : Host} {α β : Type}

/-- Its getter changes nothing and makes a new object if that is of a value type. Its setter changes
nothing if it fails, and no more than its receiver if that is of a value type. The last is what makes it
a value: a setter that went on to a shared object would be seen before anything is stored. -/
structure Member.IsCareful (types : Directory) (m : Member H) : Prop where
  get : ∀ {get}, m.getter? = some get → ∀ o μ, (get o).Adds μ fun v _ => v.IsNew types μ
  set_error : ∀ {set}, m.setter? = some set → ∀ o v μ, (set o v).Atomic μ
  set_ok : ∀ {set}, m.setter? = some set → ∀ o v μ μ', types.holdsValueType (.object o) = true →
    set (.object o) v μ = .ok () μ' → Memory.IntactBut o μ μ'

/-- Decoding and encoding change nothing, and encoding makes new objects of value types. -/
structure Coding.IsCareful {F : Type} (types : Directory) (code : Coding H F) : Prop where
  decode : ∀ v μ, (code.decode v).Adds μ fun _ _ => True
  encode : ∀ x μ, (code.encode x).Adds μ fun v _ => v.IsNew types μ

theorem Coding.isCareful_checked {F : Type} {types : Directory} (typeName : String)
    (view? : Value → Option F) {encode : F → Value}
    (h : ∀ x, types.holdsValueType (encode x) = false) :
    (checked typeName view? encode : Coding H F).IsCareful types where
  decode v μ := by
    simp only [checked]
    cases view? v with
    | some x => exact .pure trivial
    | none => exact Memory.Intact.refl μ
  encode x μ := .pure (Value.isNew_of_not_holdsValueType (h x))

namespace Member

variable {T F : Type} {types : Directory} {facet : Facet H T} {code : Coding H F}

theorem setterOf_object (set : T → F → T) (o : ObjectRef) (v : Value) :
    setterOf facet code set (.object o) v =
      (do let x ← code.decode v; Action.modify facet o (set · x) : Action H Unit) := rfl

theorem getterOf_adds (h : code.IsCareful types) (get : T → F) (o : Value) (μ : Memory H) :
    (getterOf facet code get o).Adds μ fun v _ => v.IsNew types μ := by
  rw [getterOf]
  split
  · next p _ =>
    refine (Action.read_adds facet p μ).bind fun t μ' _ _ ht => ?_
    obtain ⟨rfl, -⟩ := ht
    exact h.encode (get t) μ'
  · exact .throw _

theorem setterOf_atomic (h : code.IsCareful types) (set : T → F → T) (o v : Value) (μ : Memory H) :
    (setterOf facet code set o v).Atomic μ := by
  intro e μ'' hset
  cases o with
  | object p =>
      have hdecode := h.decode v μ
      cases hr : code.decode v μ with
      | ok x μ' =>
          have hmodify : Action.modify facet p (set · x) μ' = .error e μ'' := by
            rw [← hset, setterOf_object, run_bind_of_ok hr]
          exact (hdecode.ok hr).1.trans (Action.modify_atomic facet p _ μ' e μ'' hmodify)
      | error e' μ' =>
          rw [setterOf_object, run_bind_of_error hr] at hset
          obtain ⟨-, rfl⟩ := EStateM.Result.error.inj hset
          exact hdecode.atomic e' μ' hr
  | null | bool | int | float | string | enum | typeRoot =>
      obtain ⟨-, rfl⟩ := EStateM.Result.error.inj hset
      exact .refl μ

theorem setterOf_ok (h : code.IsCareful types) {set : T → F → T} {o : ObjectRef} {v : Value}
    {μ μ' : Memory H} (hset : setterOf facet code set (.object o) v μ = .ok () μ') :
    Memory.IntactBut o μ μ' := by
  obtain ⟨x, μ₁, hdecode, hmodify⟩ := ok_of_run_bind hset
  obtain ⟨t, -, rfl⟩ := Action.modify_ok hmodify
  have hμ := ((h.decode v μ).ok hdecode).1
  exact ⟨hμ.state, fun hne hc => (μ₁.intactBut_set o _).get? hne (hμ.get? hc)⟩

/-- A member of what the objects contain is careful if values are handled with care. -/
theorem isCareful_of_coding (h : code.IsCareful types) (name : String) (kind : MemberKind)
    (get : T → F) (set? : Option (T → F → T)) :
    IsCareful types ⟨name, kind, some (getterOf facet code get),
      set?.map (setterOf facet code)⟩ where
  get hg := by
    obtain rfl := Option.some.inj hg
    exact getterOf_adds h get
  set_error hs := by
    obtain ⟨set, -, rfl⟩ := Option.map_eq_some_iff.mp hs
    exact setterOf_atomic h set
  set_ok hs _ _ _ _ _ hset := by
    obtain ⟨set, -, rfl⟩ := Option.map_eq_some_iff.mp hs
    exact setterOf_ok h hset

end Member

namespace Place

/-- A chain of members of a variable or of a type. -/
inductive IsRooted : Place → Prop
  | var (name : String) : IsRooted (.var name)
  | static (tag : TypeTag) : IsRooted (.static tag)
  | member {owner : Place} (name : String) (span : Span) : owner.IsRooted →
      IsRooted (.member owner name span)

/-- The members that a chain comes upon, as long as what there was in `w` is as it was. -/
inductive Meets (r : Registry H) (w : World H) : Place → Member H → Prop
  | last {owner : Place} {name : String} {span : Span} {w' w'' : World H} {o : Value}
      {t : HostType H} {m : Member H} : w.Intact w' → owner.read r w' = .ok o w'' →
      Eval.findMember r o name = .ok (t, m) → Meets r w (.member owner name span) m
  | owner {owner : Place} {name : String} {span : Span} {m : Member H} : owner.Meets r w m →
      Meets r w (.member owner name span) m

end Place

/-- A member that a chain comes upon is one of a registered type. -/
theorem Place.Meets.exists_type {r : Registry H} {w : World H} {place : Place} {m : Member H}
    (h : place.Meets r w m) :
    ∃ t ∈ r.types, ∃ name, t.member? name = some m ∨ t.staticMember? name = some m := by
  induction h with
  | @last _ name _ _ _ o t _ _ _ hfound =>
      obtain ⟨ht, hm⟩ := Eval.findMember_eq_ok hfound
      refine ⟨t, (Registry.mem_of_find? ht).1, name, ?_⟩
      rw [HostType.HasMember] at hm
      split at hm
      · exact .inr hm
      · exact .inl hm
  | owner _ ih => exact ih

namespace Eval

open Contract

/-- What there was in `w` is as it was after a failure, and if `S` holds after a success as well. -/
def Spared (w : World H) (S : Prop) : EStateM.Result EvalError (World H) α → Prop
  | .ok _ w' => S → w.Intact w'
  | .error _ w' => w.Intact w'

def Protects (w : World H) (S : Prop) (x : Eval H α) : Prop :=
  ∀ w', w.Intact w' → Spared w S (x w')

variable {w : World H} {S S' : Prop} {x : Eval H α} {f : α → Eval H β} {Q : Unit → α → Prop}

theorem Protects.pure {a : α} : Protects w S (Pure.pure a) := fun _ hw _ => hw

theorem Protects.error (h : Protects w S x) {w' w'' : World H} {e : EvalError} (hw : w.Intact w')
    (hx : x w' = .error e w'') : w.Intact w'' := by
  have hx' := h w' hw
  rw [hx] at hx'
  exact hx'

theorem protects_of_keeps (h : (intact w).Keeps () x Q) : Protects w S x := by
  intro w' hw
  have hx := h () le_rfl w' hw
  cases hr : x w' with
  | ok a w'' => rw [hr] at hx; exact fun _ => hx.choose_spec.2.1
  | error e w'' => rw [hr] at hx; exact hx.2.choose_spec.2

/-- What goes on protects `w` where it can fail. -/
theorem Protects.bind (h : Protects w S x) (hf : ∀ a, S → Protects w S' (f a))
    (hpure : ∀ a, ¬S → ∃ b, f a = Pure.pure b) (hS : S' → S) : Protects w S' (x >>= f) := by
  intro w' hw
  have hx := h w' hw
  cases hr : x w' with
  | error e w'' =>
      rw [hr] at hx
      rw [run_bind_of_error hr]
      exact hx
  | ok a w'' =>
      rw [hr] at hx
      rw [run_bind_of_ok hr]
      by_cases hs : S
      · exact hf a hs w'' (hx hs)
      · obtain ⟨b, hb⟩ := hpure a hs
        rw [hb]
        exact fun hs' => absurd (hS hs') hs

theorem Protects.afterKeeps (h : (intact w).Keeps () x Q)
    (hf : ∀ a, Q () a → Protects w S (f a)) : Protects w S (x >>= f) := by
  intro w' hw
  have hx := h () le_rfl w' hw
  cases hr : x w' with
  | ok a w'' =>
      rw [hr] at hx
      obtain ⟨_, -, hw', ha⟩ := hx
      rw [run_bind_of_ok hr]
      exact hf a ha w'' hw'
  | error e w'' =>
      rw [hr] at hx
      rw [run_bind_of_error hr]
      exact hx.2.choose_spec.2

/-- A result is one that the computation has in a state that keeps what there was in `w`. -/
theorem keeps_reached (h : (intact w).Keeps () x Q) :
    (intact w).Keeps () x fun _ a => Q () a ∧ ∃ w' w'', w.Intact w' ∧ x w' = .ok a w'' := by
  intro i hi w' hw
  have hx := h i hi w' hw
  cases hr : x w' with
  | ok a w'' =>
      rw [hr] at hx
      obtain ⟨j, hj, hw'', ha⟩ := hx
      exact ⟨j, hj, hw'', ha, w', w'', hw, hr⟩
  | error e w'' => rw [hr] at hx; exact hx

theorem Protects.located (h : Protects w S x) (span : Span) : Protects w S (x.located span) := by
  intro w' hw
  have hx := h w' hw
  rw [Eval.located]
  cases hr : x w' with
  | ok a w'' => rw [hr] at hx; exact hx
  | error e w'' => rw [hr] at hx; exact hx

theorem except_keeps (y : Except Fault α) :
    (intact w).Keeps () (liftM y : Eval H α) fun _ a => y = .ok a :=
  .ofExcept (fun _ ha _ _ => ha) fun _ _ => trivial

theorem lookup_keeps (name : String) :
    (intact w).Keeps () (lookup name : Eval H Variable) fun _ _ => True := by
  have h : (intact w).Keeps () (lookup name >>= Pure.pure) fun _ (_ : Variable) => True :=
    .lookup (fun _ _ => trivial) fun j w' _ _ hw _ => ⟨j, le_rfl, hw, trivial⟩
  rwa [bind_pure] at h

theorem memory_keeps : (intact w).Keeps () (memory : Eval H (Memory H)) fun _ _ => True :=
  Keeps.get.bind fun _ _ _ _ => .pure fun _ _ => trivial

section

variable {r : Registry H} {t : HostType H} {m : Member H} {o v : Value} {name : String}

theorem get_keeps (hm : m.IsCareful r.directory) (o : Value) (owner : String) :
    (intact w).Keeps () (liftM (m.get o owner) : Eval H Value)
      fun _ v => v.IsNew r.directory w.memory := by
  rw [Member.get.eq_def]
  split
  · next get hg =>
    exact ofAction_keeps (fun μ _ => hm.get hg o μ) fun _ _ hμ hv => hv.of_intact hμ
  · exact .throw trivial

theorem set_protects (hm : m.IsCareful r.directory) (ho : o.IsNew r.directory w.memory) (v : Value)
    (owner : String) :
    Protects w (r.directory.holdsValueType o = true) (liftM (m.set o v owner) : Eval H Unit) := by
  rw [Member.set.eq_def]
  split
  · next set hs =>
    intro w' hw
    change Spared w _ (Eval.ofAction (set o v) w')
    rw [Eval.ofAction]
    cases hr : set o v w'.memory with
    | ok _ μ =>
        intro hv
        obtain ⟨p, rfl⟩ := Directory.object_of_holdsValueType hv
        exact ⟨hw.bindings, hw.memory.trans_but (ho p rfl hv) (hm.set_ok hs p v _ μ hv hr)⟩
    | error e μ => exact ⟨hw.bindings, hw.memory.trans (hm.set_error hs o v _ e μ hr)⟩
  · exact protects_of_keeps (Q := fun _ _ => True) (.throw trivial)

theorem readMember_keeps (hm : ∀ t m, findMember r o name = .ok (t, m) → m.IsCareful r.directory) :
    (intact w).Keeps () (readMember r o name) fun _ v => v.IsNew r.directory w.memory :=
  (except_keeps _).bind fun _ (t, m) _ hfound => get_keeps (hm t m hfound) o _

theorem writeMember_protects
    (hm : ∀ t m, findMember r o name = .ok (t, m) → m.IsCareful r.directory)
    (ho : o.IsNew r.directory w.memory) :
    Protects w (r.directory.holdsValueType o = true) (writeMember r o name v) :=
  .afterKeeps (except_keeps _) fun (t, m) hfound => set_protects (hm t m hfound) ho v _

theorem updateMember_protects
    (hm : ∀ t m, findMember r o name = .ok (t, m) → m.IsCareful r.directory)
    (ho : o.IsNew r.directory w.memory) :
    Protects w (r.directory.holdsValueType o = true) (updateMember r o name v) := by
  refine .afterKeeps (except_keeps _) fun (t, m) hfound => ?_
  have hcareful := hm t m hfound
  have store (new : Value) : Protects w (r.directory.holdsValueType o = true) (do
      r.directory.checkAllowed new
      m.set o new t.tag.name
      return new : Eval H Value) :=
    .afterKeeps (except_keeps _) fun _ _ =>
      (set_protects hcareful ho new _).bind (fun _ _ => .pure) (fun _ _ => ⟨new, rfl⟩) id
  dsimp only
  split
  · exact .afterKeeps (Q := fun _ _ => False) (.throw trivial) fun _ h => h.elim
  · split
    · refine .afterKeeps (get_keeps hcareful o _) fun current _ => ?_
      refine .afterKeeps memory_keeps fun μ _ => ?_
      exact .afterKeeps (except_keeps (v.convert r.directory μ current.typeTag)) fun new _ => store new
    · exact store v

end

end Eval

namespace Place

open Contract Eval

variable {r : Registry H} {w : World H} {place : Place}

/-- A changed object is stored where it was read from only if its type is a value type. -/
theorem writeBack_of_shared {v : Value} (h : r.directory.holdsValueType v = false) :
    place.writeBack r v = pure () := by
  cases place with
  | var | member => rw [writeBack, if_neg (by simp [h])]
  | static | computed => rw [writeBack]

section

variable (hr : r.IsTabled) (hplace : place.IsRooted)
  (hm : ∀ m, place.Meets r w m → m.IsCareful r.directory)

include hr hplace hm

theorem read_keeps :
    (intact w).Keeps () (place.read r) fun _ v => v.IsNew r.directory w.memory := by
  induction hplace with
  | var name =>
      rw [read]
      exact load_keeps hr name
  | static tag =>
      rw [read]
      exact .pure fun _ _ => Value.isNew_of_not_holdsValueType rfl
  | member name span _ ih =>
      rw [read]
      refine (keeps_reached (ih fun m h => hm m (.owner h))).bind fun _ o _ ho => ?_
      obtain ⟨-, w', w'', hw, hread⟩ := ho
      exact readMember_keeps fun t m hfound => hm m (.last hw hread hfound)

/-- The store in a variable comes last and does not fail. Any other store is in an object that is new,
or it is the last. -/
theorem writeBack_protects (v : Value) : Protects w False (place.writeBack r v) := by
  induction hplace generalizing v with
  | var name =>
      rw [writeBack]
      split
      · exact .afterKeeps (lookup_keeps name) fun _ _ _ _ h => h.elim
      · exact .pure
  | static tag =>
      rw [writeBack]
      exact .pure
  | member name span howner ih =>
      have howners (m : Member H) (h : _) := hm m (.owner h)
      rw [writeBack]
      split
      · refine .afterKeeps (keeps_reached (read_keeps hr howner howners)) fun o ho => ?_
        obtain ⟨hnew, w', w'', hw, hread⟩ := ho
        refine (writeMember_protects (fun t m hfound => hm m (.last hw hread hfound)) hnew).bind
          (fun _ _ => ih howners o) (fun _ ho => ⟨(), ?_⟩) False.elim
        exact writeBack_of_shared (by simpa using ho)
      · exact .pure

theorem assign_protects (v : Value) : Protects w False (place.assign r v) := by
  cases hplace with
  | var name =>
      rw [assign]
      refine .afterKeeps (lookup_keeps name) fun x _ => .afterKeeps memory_keeps fun μ _ => ?_
      refine .afterKeeps (except_keeps (v.convert r.directory μ x.type)) fun new _ => ?_
      exact fun _ _ h => h.elim
  | static tag =>
      rw [assign]
      exact protects_of_keeps (Q := fun _ _ => True) (.throw trivial)
  | member name span howner =>
      have howners (m : Member H) (h : _) := hm m (.owner h)
      rw [assign]
      refine .located (.afterKeeps (keeps_reached (read_keeps hr howner howners)) fun o ho => ?_) span
      obtain ⟨hnew, w', w'', hw, hread⟩ := ho
      refine (updateMember_protects (fun t m hfound => hm m (.last hw hread hfound)) hnew).bind
        (fun new _ => ?_) (fun new ho => ⟨new, ?_⟩) False.elim
      · exact (writeBack_protects hr howner howners o).bind (S := False) (fun _ h => h.elim)
          (fun _ _ => ⟨new, rfl⟩) id
      · rw [writeBack_of_shared (by simpa using ho), pure_bind]

end

end Place

namespace Sample

theorem isCareful_codingOf {T : Type} (types : Directory) (facet : Facet host T) (typeName : String) :
    (codingOf facet typeName).IsCareful types where
  decode v μ := by
    cases v with
    | object o => exact (Action.read_adds facet o μ).imp fun _ _ _ _ => trivial
    | null | bool | int | float | string | enum | typeRoot => exact Memory.Intact.refl μ
  encode t μ := by
    refine (Action.create_adds facet typeName t μ).bind fun o _ _ _ ho => .pure fun p hp _ => ?_
    obtain rfl := Value.object.inj hp
    exact ho.1

def shapes : Registry host := ⟨[Rect.typeDef.toHostType, Point.typeDef.toHostType]⟩

theorem isTabled_shapes : shapes.IsTabled := by
  simp only [Registry.IsTabled, shapes, List.forall_mem_cons]
  exact ⟨.typeDef _ fun _ h => ⟨_, _, (Option.some.inj h).symm⟩,
    .typeDef _ fun _ h => ⟨_, _, (Option.some.inj h).symm⟩, by simp⟩

theorem isCareful_point : (Point.coding : Coding host Point).IsCareful shapes.directory :=
  isCareful_codingOf _ _ _

theorem isCareful_of_mem_rect : ∀ m ∈ Rect.typeDef.members, m.IsCareful shapes.directory := by
  have hstring : (Coding.string : Coding host String).IsCareful shapes.directory :=
    Coding.isCareful_checked _ _ fun _ => rfl
  exact List.forall_mem_cons.mpr ⟨Member.isCareful_of_coding isCareful_point "Corner" .property _ none,
    List.forall_mem_cons.mpr ⟨Member.isCareful_of_coding hstring "Label" .property _ (some _),
      List.forall_mem_singleton.mpr (Member.isCareful_of_coding isCareful_point "Origin" .field _ (some _))⟩⟩

theorem isCareful_of_mem_point : ∀ m ∈ Point.typeDef.members, m.IsCareful shapes.directory := by
  have hint : (Coding.int : Coding host Int64).IsCareful shapes.directory :=
    Coding.isCareful_checked _ _ fun _ => rfl
  have hfloat : (Coding.float : Coding host Number.Double).IsCareful shapes.directory :=
    Coding.isCareful_checked _ _ fun _ => rfl
  exact List.forall_mem_cons.mpr ⟨Member.isCareful_of_coding hfloat "Y" .field _ (some _),
    List.forall_mem_singleton.mpr (Member.isCareful_of_coding hint "X" .field _ (some _))⟩

theorem isCareful_of_mem_shapes {t : HostType host} (ht : t ∈ shapes.types) {name : String}
    {m : Member host} (hm : t.member? name = some m ∨ t.staticMember? name = some m) :
    m.IsCareful shapes.directory := by
  have hone : ∀ m ∈ Point.typeDef.staticMembers, m.IsCareful shapes.directory :=
    List.forall_mem_singleton.mpr
      { get := fun h _ μ => Option.some.inj h ▸ isCareful_point.encode ⟨1, .one⟩ μ
        set_error := fun h => by cases h
        set_ok := fun h => by cases h }
  simp only [shapes, List.mem_cons, List.not_mem_nil, or_false] at ht
  rcases ht with rfl | rfl
  · rcases hm with hm | hm
    · exact isCareful_of_mem_rect m (TypeDef.mem_of_member? hm)
    · cases hm
  · rcases hm with hm | hm
    · exact isCareful_of_mem_point m (TypeDef.mem_of_member? hm)
    · have hfind : Point.typeDef.staticMembers.find? (·.name == name) = some m := hm
      exact hone m (List.mem_of_find?_eq_some hfind)

/-- A rectangle `r`. -/
def framed : World host where
  memory := ⟨#[.host (.rect ⟨⟨1, .zero⟩, "a"⟩)], Settings.initialLevel⟩
  bindings := ⟨[.infer "r" (.object ⟨0, "Rect"⟩)]⟩

end Sample

end Formula
