import Formula.Builtin
import Formula.Proofs.Honest
import Mathlib.Data.List.InsertIdx

/-!
The builtin types and enumerations are honest.
-/

namespace Formula

open Contract

variable {H : Host} {r : Registry H} {lists : Set Nat}

theorem Call.receiverText_keeps (c : Call) :
    (listContract r).Keeps lists (c.receiverText : Action H Value) fun lists' v => v.Plain r lists' :=
  Keeps.get.bind fun _ _ _ _ => .pure fun _ _ => trivial

namespace Builtin

theorem cut_yields (i : Int64) (length : Nat) : Yields (cut i length) fun _ => True := by
  rw [cut]
  split
  · trivial
  · exact .error (by simp [Fault.indexOutOfRange, Fault.code])

theorem slot_yields (i : Int64) (length : Nat) : Yields (slot i length) fun _ => True := by
  rw [slot]
  split
  · trivial
  · exact .error (by simp [Fault.indexOutOfRange, Fault.code])

namespace Strings

theorem substring_yields (s : String) (start : Int64) (length? : Option Int64) :
    Yields (substring s start length?) fun _ => True := by
  refine (cut_yields start s.toList.length).bind fun n _ => ?_
  cases length? with
  | none => trivial
  | some k =>
      dsimp only
      split
      · trivial
      · exact .error (by simp [Fault.code])

theorem replace_yields (s old new : String) : Yields (replace s old new) fun _ => True := by
  rw [replace]
  split
  · exact .error (by simp [Fault.code])
  · trivial

theorem readLength_keeps {o : Value} (h : o.PlainOf r .string lists) :
    (listContract r).Keeps lists (readLength o : Action H Value) fun lists' v => v.Plain r lists' := by
  obtain ⟨s, rfl⟩ := h.1.string h.2
  exact .pure fun _ _ => trivial

theorem receiver_keeps {c : Call} {f : String → Value} (hc : c.receiver.PlainOf r .string lists)
    (hf : ∀ s, (f s).IsScalar) :
    (listContract r).Keeps lists (do return f (← c.receiverString) : Action H Value)
      fun lists' v => v.Plain r lists' :=
  (c.receiverString_yields hc).andThen fun _ _ => .pure fun _ _ => Value.plain_of_scalar (hf _)

theorem argument_keeps {c : Call} {f : String → String → Value}
    (hc : c.receiver.PlainOf r .string lists) (hs : c.Suits r lists [.exact .string] 0)
    (hf : ∀ s t, (f s t).IsScalar) :
    (listContract r).Keeps lists (do return f (← c.receiverString) (← c.string 0) : Action H Value)
      fun lists' v => v.Plain r lists' := by
  refine (c.receiverString_yields hc).andThen fun s _ => ?_
  refine (hs.string_yields rfl).andThen fun t _ => ?_
  exact .pure fun _ _ => Value.plain_of_scalar (hf s t)

theorem honest_typeDef : (typeDef : TypeDef H).Honest r := by
  -- From the last method back to the first: `ToString`, `Replace`, both `Substring`, then those that
  -- compute a scalar from one other text, and from none.
  apply TypeDef.Honest.method
  · intro lists c hc hs
    exact .pure fun _ hl => hc.1.mono hl
  apply TypeDef.Honest.method
  · intro lists c hc hs
    refine (c.receiverString_yields hc).andThen fun s _ => ?_
    refine (hs.string_yields rfl).andThen fun old _ => ?_
    refine (hs.string_yields rfl).andThen fun new _ => ?_
    exact (replace_yields s old new).andThen fun _ _ => .pure fun _ _ => trivial
  apply TypeDef.Honest.method
  · intro lists c hc hs
    refine (c.receiverString_yields hc).andThen fun s _ => ?_
    refine (hs.int_yields rfl).andThen fun start _ => ?_
    refine (hs.int_yields rfl).andThen fun length _ => ?_
    exact (substring_yields s start length).andThen fun _ _ => .pure fun _ _ => trivial
  apply TypeDef.Honest.method
  · intro lists c hc hs
    refine (c.receiverString_yields hc).andThen fun s _ => ?_
    refine (hs.int_yields rfl).andThen fun start _ => ?_
    exact (substring_yields s start none).andThen fun _ _ => .pure fun _ _ => trivial
  refine .method (fun _ c hc hs => argument_keeps hc hs fun _ _ => trivial) ?_
  refine .method (fun _ c hc hs => argument_keeps hc hs fun _ _ => trivial) ?_
  refine .method (fun _ c hc hs => argument_keeps hc hs fun _ _ => trivial) ?_
  refine .method (fun _ c hc hs => argument_keeps hc hs fun _ _ => trivial) ?_
  refine .method (fun _ c hc _ => receiver_keeps hc fun _ => trivial) ?_
  refine .method (fun _ c hc _ => receiver_keeps hc fun _ => trivial) ?_
  refine .method (fun _ c hc _ => receiver_keeps hc fun _ => trivial) ?_
  exact .computed (fun lists o ho => readLength_keeps ho) (.ofTag .string)

end Strings

namespace Primitive

theorem comparison_isScalar (o : Ordering) : (comparison o).IsScalar := by
  cases o <;> trivial

theorem honest_int : (Primitive.int : TypeDef H).Honest r := by
  apply TypeDef.Honest.method
  · intro lists c hc hs
    refine (c.receiverInt_yields hc).andThen fun a _ => ?_
    refine (hs.int_yields rfl).andThen fun b _ => ?_
    exact .pure fun _ _ => Value.plain_of_scalar (comparison_isScalar _)
  exact .method (fun _ c _ _ => c.receiverText_keeps) (.ofTag .int)

theorem honest_float : (Primitive.float : TypeDef H).Honest r := by
  apply TypeDef.Honest.method
  · intro lists c hc hs
    refine (c.receiverFloat_yields hc).andThen fun x _ => ?_
    refine (hs.float_yields rfl).andThen fun y _ => ?_
    exact .pure fun _ _ => Value.plain_of_scalar (comparison_isScalar _)
  exact .method (fun _ c _ _ => c.receiverText_keeps) (.ofTag .float)

theorem honest_bool : (Primitive.bool : TypeDef H).Honest r :=
  .method (fun _ c _ _ => c.receiverText_keeps) (.ofTag .bool)

end Primitive

namespace Math

theorem absInt_yields (n : Int64) : Yields (absInt n) fun _ => True := by
  rw [absInt]
  split
  · exact .error (by simp [Fault.code])
  · trivial

theorem clampInt_yields (n low high : Int64) : Yields (clampInt n low high) fun _ => True := by
  rw [clampInt]
  split
  · exact .error (by simp [Fault.code])
  · trivial

theorem clampFloat_yields (x low high : Number.Double) :
    Yields (clampFloat x low high) fun _ => True := by
  rw [clampFloat]
  split
  · exact .error (by simp [Fault.code])
  · trivial

variable {d : TypeDef H} {name : String}

theorem honest_unary (f : Number.Double → Number.Double) (h : d.Honest r) :
    (unary d name f).Honest r := by
  apply TypeDef.Honest.staticMethod _ h
  intro lists c hs
  exact (hs.float_yields rfl).andThen fun _ _ => .pure fun _ _ => trivial

theorem honest_binary (f : Number.Double → Number.Double → Number.Double) (h : d.Honest r) :
    (binary d name f).Honest r := by
  apply TypeDef.Honest.staticMethod _ h
  intro lists c hs
  refine (hs.float_yields rfl).andThen fun x _ => ?_
  exact (hs.float_yields rfl).andThen fun _ _ => .pure fun _ _ => trivial

theorem honest_binaryInt (f : Int64 → Int64 → Int64) (h : d.Honest r) :
    (binaryInt d name f).Honest r := by
  apply TypeDef.Honest.staticMethod _ h
  intro lists c hs
  refine (hs.int_yields rfl).andThen fun a _ => ?_
  exact (hs.int_yields rfl).andThen fun _ _ => .pure fun _ _ => trivial

theorem honest_typeDef : (typeDef : TypeDef H).Honest r := by
  iterate 4 apply honest_unary
  apply honest_binary
  apply TypeDef.Honest.staticMethod
  · intro lists c hs
    refine (hs.float_yields rfl).andThen fun x _ => ?_
    refine (hs.float_yields rfl).andThen fun low _ => ?_
    refine (hs.float_yields rfl).andThen fun high _ => ?_
    exact (clampFloat_yields x low high).andThen fun _ _ => .pure fun _ _ => trivial
  apply TypeDef.Honest.staticMethod
  · intro lists c hs
    refine (hs.int_yields rfl).andThen fun n _ => ?_
    refine (hs.int_yields rfl).andThen fun low _ => ?_
    refine (hs.int_yields rfl).andThen fun high _ => ?_
    exact (clampInt_yields n low high).andThen fun _ _ => .pure fun _ _ => trivial
  apply honest_binary
  apply honest_binaryInt
  apply honest_binary
  apply honest_binaryInt
  apply honest_unary
  apply TypeDef.Honest.staticMethod
  · intro lists c hs
    refine (hs.int_yields rfl).andThen fun n _ => ?_
    exact (absInt_yields n).andThen fun _ _ => .pure fun _ _ => trivial
  refine .staticProperty (fun _ => .pure fun _ _ => trivial) ?_
  exact .staticProperty (fun _ => .pure fun _ _ => trivial) (.ofTag _)

end Math

namespace Convert

theorem convert_keeps (hr : r.IsTabled) {v : Value} (hv : v.Plain r lists) (m : Memory H)
    (tag : TypeTag) :
    (listContract r).Keeps lists (liftM (v.convert r.directory m tag) : Action H Value)
      fun lists' v => v.Plain r lists' :=
  (Value.convert_plain hr hv m tag).keeps fun _ hw _ hl => hw.mono hl

theorem first_keeps (hr : r.IsTabled) (tag : TypeTag) {c : Call} (hs : c.Suits r lists [.any] 0) :
    (listContract r).Keeps lists (first tag c : Action H Value) fun lists' v => v.Plain r lists' := by
  refine (hs.any_yields rfl).andThen fun v hv => ?_
  refine Keeps.get.bind fun lists' m hl _ => ?_
  rw [hs.types]
  exact convert_keeps hr (hv.mono hl) m tag

theorem honest_typeDef (hr : r.IsTabled) : (typeDef : TypeDef H).Honest r := by
  refine .staticMethod (fun lists c hs => first_keeps hr .string hs) ?_
  refine .staticMethod (fun lists c hs => first_keeps hr .bool hs) ?_
  refine .staticMethod (fun lists c hs => first_keeps hr .float hs) ?_
  refine .staticMethod (fun lists c hs => first_keeps hr .int hs) ?_
  refine .staticGenericMethod (fun lists c hs => ?_) (.ofTag _)
  refine (hs.any_yields rfl).andThen fun v hv => ?_
  refine Keeps.get.bind fun lists' m hl _ => ?_
  refine (hs.typeArg_yields (by decide)).andThen fun tag _ => ?_
  rw [hs.types]
  exact convert_keeps hr (hv.mono hl) m tag

end Convert

namespace Sequence

/-- A computation on the items of a list that takes plain items to plain ones. -/
theorem change_keeps {α : Type} {c : Call} {f : List Value → Except Fault (α × List Value)}
    (hc : c.receiver.PlainOf r (.object "List") lists)
    (hf : ∀ items lists', lists ⊆ lists' → (∀ v ∈ items, v.Plain r lists') →
      Yields (f items) fun p => ∀ v ∈ p.2, v.Plain r lists') :
    (listContract r).Keeps lists (change c f : Action H α) fun _ _ => True := by
  refine (c.receiverObject_yields hc).andThen fun o ho => ?_
  refine (Action.read_keeps ho).bind fun lists' items hl hitems => ?_
  refine (hf items lists' hl hitems).andThen fun (a, new) hnew => ?_
  have hmodify : (listContract r).Keeps lists' (Action.modify .items o fun _ => new : Action H Unit)
      fun _ _ => True :=
    Action.modify_keeps (hl ho) fun _ _ hl' _ v hv => (hnew v hv).mono hl'
  exact hmodify.bind fun _ _ _ _ => .pure fun _ _ => trivial

theorem items_keeps {c : Call} (hc : c.receiver.PlainOf r (.object "List") lists) :
    (listContract r).Keeps lists (items c : Action H (List Value))
      fun lists' items => ∀ v ∈ items, v.Plain r lists' :=
  (c.receiverObject_yields hc).andThen fun _ ho => Action.read_keeps ho

section

variable {vs : List Value} {P : Value → Prop}

theorem insertAt_yields (i : Int64) {v : Value} (hv : P v) (hvs : ∀ w ∈ vs, P w) :
    Yields (insertAt i v vs) fun ws => ∀ w ∈ ws, P w := by
  refine (cut_yields i vs.length).bind fun n _ w hw => ?_
  rcases List.eq_or_mem_of_mem_insertIdx hw with rfl | hw
  · exact hv
  · exact hvs w hw

theorem removeAt_yields (i : Int64) (hvs : ∀ w ∈ vs, P w) :
    Yields (removeAt i vs) fun ws => ∀ w ∈ ws, P w :=
  (slot_yields i vs.length).bind fun _ _ w hw => hvs w (List.mem_of_mem_eraseIdx hw)

theorem setAt_yields (i : Int64) {v : Value} (hv : P v) (hvs : ∀ w ∈ vs, P w) :
    Yields (setAt i v vs) fun ws => ∀ w ∈ ws, P w := by
  refine (slot_yields i vs.length).bind fun n _ w hw => ?_
  rcases List.mem_or_eq_of_mem_set hw with hw | rfl
  · exact hvs w hw
  · exact hv

theorem getAt_yields (i : Int64) (hnull : P .null) (hvs : ∀ w ∈ vs, P w) :
    Yields (getAt i vs) P := by
  refine (slot_yields i vs.length).bind fun n _ => ?_
  change P (vs.getD n .null)
  rw [List.getD_eq_getElem?_getD]
  cases hw : vs[n]? with
  | none => exact hnull
  | some w => exact hvs w (List.mem_of_getElem? hw)

theorem remove_snd (v : Value) (hvs : ∀ w ∈ vs, P w) : ∀ w ∈ (remove v vs).2, P w := by
  intro w hw
  rw [remove] at hw
  split at hw
  · exact hvs w (List.mem_of_mem_eraseIdx hw)
  · exact hvs w hw

end

theorem honest_mutator {d : TypeDef H} {name : String} {params : List ParamType}
    {f : Call → Except Fault (List Value → Except Fault (List Value))}
    (hd : d.tag = .object "List")
    (hf : ∀ lists c, c.Suits r lists params 0 → Yields (f c) fun g =>
      ∀ items lists', lists ⊆ lists' → (∀ v ∈ items, v.Plain r lists') →
        Yields (g items) fun new => ∀ v ∈ new, v.Plain r lists')
    (h : d.Honest r) : (mutator d name params f).Honest r := by
  refine .voidMethod (fun lists c hc hs => ?_) h
  refine (hf lists c hs).andThen fun g hg => change_keeps (hd ▸ hc) fun items lists' hl hitems => ?_
  exact (hg items lists' hl hitems).bind fun _ hnew => hnew

theorem honest_typeDef : (typeDef : TypeDef H).Honest r := by
  -- From the last method back to the first: `Get`, `IndexOf`, `Contains` and `Remove`, then the
  -- mutators `Set`, `Clear`, `RemoveAt`, `Insert` and `Add`.
  apply TypeDef.Honest.method
  · intro lists c hc hs
    refine (hs.int_yields rfl).andThen fun i _ => ?_
    refine (items_keeps hc).bind fun lists' items _ hitems => ?_
    exact (getAt_yields i trivial hitems).keeps fun v hv lists'' hl => hv.mono hl
  apply TypeDef.Honest.method
  · intro lists c hc hs
    refine (hs.any_yields rfl).andThen fun v _ => ?_
    exact (items_keeps hc).bind fun _ _ _ _ => .pure fun _ _ => trivial
  apply TypeDef.Honest.method
  · intro lists c hc hs
    refine (hs.any_yields rfl).andThen fun v _ => ?_
    exact (items_keeps hc).bind fun _ _ _ _ => .pure fun _ _ => trivial
  apply TypeDef.Honest.method
  · intro lists c hc hs
    refine (hs.any_yields rfl).andThen fun v _ => ?_
    refine (change_keeps hc fun items lists' _ hitems => ?_).bind fun _ _ _ _ => .pure fun _ _ => trivial
    exact remove_snd v hitems
  apply honest_mutator rfl
  · intro lists c hs
    refine (hs.int_yields rfl).bind fun i _ => ?_
    refine (hs.any_yields rfl).bind fun v hv items lists' hl hitems => ?_
    exact setAt_yields i (hv.mono hl) hitems
  apply honest_mutator rfl
  · rintro lists c hs items lists' - - v ⟨⟩
  apply honest_mutator rfl
  · intro lists c hs
    exact (hs.int_yields rfl).bind fun i _ items lists' _ hitems => removeAt_yields i hitems
  apply honest_mutator rfl
  · intro lists c hs
    refine (hs.int_yields rfl).bind fun i _ => ?_
    refine (hs.any_yields rfl).bind fun v hv items lists' hl hitems => ?_
    exact insertAt_yields i (hv.mono hl) hitems
  apply honest_mutator rfl
  · intro lists c hs
    refine (hs.any_yields rfl).bind fun v hv items lists' hl hitems => ?_
    exact List.forall_mem_append.mpr ⟨hitems, List.forall_mem_singleton.mpr (hv.mono hl)⟩
  refine .staticMethod (fun lists c hs => Action.newList_keeps (by simp)) ?_
  refine .add ⟨rfl, ?_⟩ (.ofTag _)
  rintro get ⟨⟩ lists o ⟨ho, ht⟩
  obtain ⟨o, rfl, hid⟩ := ho.object ht
  exact (Action.read_keeps hid).bind fun _ _ _ _ => .pure fun _ _ => trivial

end Sequence

end Builtin

namespace Enumeration

theorem property_keeps {name : String} {get : EnumValue → Value} (hget : ∀ e, (get e).IsScalar)
    {o : Value} (ho : o.PlainOf r (.enum name) lists) :
    (listContract r).Keeps lists (property get o : Action H Value) fun lists' v => v.Plain r lists' := by
  obtain ⟨e, rfl⟩ := ho.1.enum ho.2
  exact .pure fun _ _ => Value.plain_of_scalar (hget e)

theorem honest_members (e : Enumeration) : (e.members : TypeDef H).Honest r := by
  refine .method (fun _ c _ _ => c.receiverText_keeps) ?_
  refine .computed (fun _ o ho => property_keeps (fun e => ?_) ho) ?_
  · exact (trivial : (Value.int e.ordinal).IsScalar)
  refine .computed (fun _ o ho => property_keeps (fun e => ?_) ho) (.ofTag _)
  exact (trivial : (Value.string e.variant).IsScalar)

/-- An enumeration is honest where it is registered. -/
theorem honest_typeDef (e : Enumeration) {t : HostType H} (ht : r.find? e.name = some t)
    (htag : t.tag = .enum e.name) : (e.typeDef : TypeDef H).Honest r := by
  rw [e.typeDef_eq]
  refine { e.honest_members with staticMembers := fun m hm => ?_ }
  obtain ⟨⟨variant, ordinal⟩, -, rfl⟩ := List.mem_map.mp (List.mem_reverse.mp hm)
  exact ⟨rfl, fun get hget lists o _ => Option.some.inj hget ▸ .pure fun _ _ => ⟨t, ht, htag⟩⟩

end Enumeration

end Formula
