import Formula.Proofs.Composition
import Formula.Proofs.Occurrence
import Mathlib

/-!
Assignments to members of what a program computes. The program runs when the chain is read, and once more
for each object of a value type that is stored back on the way out.
-/

namespace Formula

variable {H : Host}

namespace Place

/-- A chain of members, perhaps an empty one, of the object that a program computes. -/
inductive IsOver (p : Program) : Place → Prop
  | computed : IsOver p (.computed p)
  | member {owner : Place} (name : String) (span : Span) : owner.IsOver p →
      IsOver p (.member owner name span)

/-- How many members a chain has. -/
def hops : Place → Nat
  | member owner _ _ => owner.hops + 1
  | var _ | static _ | computed _ => 0

/-- The worlds in which the program at the beginning of a chain is started when the chain is read. -/
def readStarts : Place → World H → List (World H)
  | member owner _ _, w => owner.readStarts w
  | computed _, w => [w]
  | var _, _ | static _, _ => []

variable (r : Registry H)

/-- The worlds in which it is started when a changed object is stored back. -/
def writeBackStarts : Place → Value → World H → List (World H)
  | member owner name _, v, w =>
    if r.directory.holdsValueType v then
      owner.readStarts w ++
        match (do let o ← owner.read r; Eval.writeMember r o name v; return o : Eval H Value) w with
        | .ok o w' => owner.writeBackStarts o w'
        | .error _ _ => []
    else []
  | var _, _, _ | static _, _, _ | computed _, _, _ => []

/-- The worlds in which it is started in the course of an assignment. -/
def assignStarts : Place → Value → World H → List (World H)
  | member owner name _, v, w =>
    owner.readStarts w ++
      match (do let o ← owner.read r; let _ ← Eval.updateMember r o name v; return o : Eval H Value) w with
      | .ok o w' => owner.writeBackStarts r o w'
      | .error _ _ => []
  | var _, _, _ | static _, _, _ | computed _, _, _ => []

variable {r} {p : Program} {place owner : Place} {name : String} {span : Span} {v : Value}
  {w w' : World H}

@[simp]
theorem IsOver.readStarts (h : place.IsOver p) (w : World H) : place.readStarts w = [w] := by
  induction h with
  | computed => rfl
  | member name span _ ih => rw [Place.readStarts, ih]

/-- At most one start for each member that is passed on the way out. -/
theorem IsOver.length_writeBackStarts_le (h : place.IsOver p) (v : Value) (w : World H) :
    (place.writeBackStarts r v w).length ≤ place.hops := by
  induction h generalizing v w with
  | computed => exact le_rfl
  | member name span howner ih =>
      rw [writeBackStarts, hops]
      split
      · rw [howner.readStarts, List.length_append, List.length_singleton]
        split
        · next o w' _ => have := ih o w'; omega
        · simp
      · simp

/-- What is shared is not stored back, and neither is anything in a computed object itself. -/
theorem IsOver.writeBackStarts_eq_nil_iff (h : place.IsOver p) (v : Value) (w : World H) :
    place.writeBackStarts r v w = [] ↔
      place = .computed p ∨ r.directory.holdsValueType v = false := by
  cases h with
  | computed => simp [writeBackStarts]
  | member name span howner =>
      rw [writeBackStarts, howner.readStarts]
      cases r.directory.holdsValueType v <;> simp

end Place

/-! The starts are all that there are, as the program does not come to itself. -/

namespace Task

/-- The size of what a task has yet to do. -/
noncomputable def weight : Task → Nat
  | step i _ => sizeOf i
  | run _ p => sizeOf p
  | runAll ps => sizeOf ps
  | read place | writeBack place _ | assign place _ => sizeOf place

variable {r : Registry H} {t t' : Task} {past : List Task} {w w' : World H} {p : Program}
  {place : Place} {v : Value}

theorem Calls.weight_lt (h : t.Calls r w past t' w') : t'.weight < t.weight := by
  cases h <;> simp [weight] <;> omega

theorem Occurs.eq_or_weight_lt (h : t.Occurs r w t' w') : t' = t ∧ w' = w ∨ t'.weight < t.weight := by
  induction h with
  | here => exact .inl ⟨rfl, rfl⟩
  | call hcall _ _ ih =>
      rcases ih with ⟨rfl, -⟩ | hlt
      · exact .inr hcall.weight_lt
      · exact .inr (hlt.trans hcall.weight_lt)

theorem occurs_run_self : (run [] p).Occurs r w (run [] p) w' ↔ w' = w := by
  constructor
  · intro h
    -- Whatever is called is smaller, so that a program is never run within its own run.
    rcases h.eq_or_weight_lt with ⟨-, hw⟩ | hlt
    · exact hw
    · exact absurd hlt (lt_irrefl _)
  · rintro rfl
    exact .here

theorem occurs_read_iff (h : place.IsOver p) :
    (read place).Occurs r w (run [] p) w' ↔ w' ∈ place.readStarts w := by
  rw [h.readStarts, List.mem_singleton]
  induction h with
  | computed =>
      rw [← occurs_run_self (r := r) (p := p)]
      constructor
      · rintro (_ | ⟨hcall, -, h⟩)
        cases hcall
        exact h
      · exact .call .compute nofun
  | member name span _ ih =>
      rw [← ih]
      constructor
      · rintro (_ | ⟨hcall, -, h⟩)
        cases hcall
        exact h
      · exact .call .readOwner nofun

/-- What goes on from an owner that is read and then worked on by `y`. -/
theorem mem_afterOwner {α : Type} {owner : Place} {y : Value → Eval H α}
    {f : Value → World H → List (World H)} :
    (w' ∈ match (do let o ← owner.read r; let _ ← y o; return o : Eval H Value) w with
      | .ok o w₂ => f o w₂
      | .error _ _ => []) ↔
      ∃ o w₁ a w₂, owner.read r w = .ok o w₁ ∧ y o w₁ = .ok a w₂ ∧ w' ∈ f o w₂ := by
  constructor
  · intro hmem
    split at hmem
    · next hrun =>
      obtain ⟨o, w₁, hread, hrun⟩ := ok_of_run_bind hrun
      obtain ⟨a, w₂, hy, hrun⟩ := ok_of_run_bind hrun
      obtain ⟨rfl, rfl⟩ := EStateM.Result.ok.inj hrun
      exact ⟨o, w₁, a, w₂, hread, hy, hmem⟩
    · simp at hmem
  · rintro ⟨o, w₁, a, w₂, hread, hy, hmem⟩
    rw [run_bind_of_ok hread, run_bind_of_ok hy]
    exact hmem

theorem occurs_writeBack_iff (h : place.IsOver p) :
    (writeBack place v).Occurs r w (run [] p) w' ↔ w' ∈ place.writeBackStarts r v w := by
  induction h generalizing v w with
  | computed =>
      refine ⟨?_, nofun⟩
      rintro (_ | ⟨hcall, -, h⟩)
      cases hcall
  | @member owner name span howner ih =>
      rw [Place.writeBackStarts]
      constructor
      · rintro (_ | ⟨hcall, -, h⟩)
        cases hcall with
        | readAgain hv =>
            rw [if_pos hv]
            exact List.mem_append_left _ ((occurs_read_iff howner).mp h)
        | writeOwner hv hread hwrite =>
            rw [if_pos hv]
            exact List.mem_append_right _ (mem_afterOwner.mpr ⟨_, _, (), _, hread, hwrite, ih.mp h⟩)
      · intro hmem
        split at hmem
        · next hv =>
          rcases List.mem_append.mp hmem with hmem | hmem
          · exact .call (.readAgain hv) (fun _ _ => trivial) ((occurs_read_iff howner).mpr hmem)
          · obtain ⟨o, w₁, ⟨⟩, w₂, hread, hwrite, hmem⟩ := mem_afterOwner.mp hmem
            exact .call (.writeOwner hv hread hwrite) (fun _ _ => trivial) (ih.mpr hmem)
        · simp at hmem

theorem occurs_assign_iff (h : place.IsOver p) :
    (assign place v).Occurs r w (run [] p) w' ↔ w' ∈ place.assignStarts r v w := by
  cases h with
  | computed =>
      refine ⟨?_, nofun⟩
      rintro (_ | ⟨hcall, -, h⟩)
      cases hcall
  | @member owner name span howner =>
      rw [Place.assignStarts]
      constructor
      · rintro (_ | ⟨hcall, -, h⟩)
        cases hcall with
        | assignOwner => exact List.mem_append_left _ ((occurs_read_iff howner).mp h)
        | updateOwner hread hupdate =>
            refine List.mem_append_right _ (mem_afterOwner.mpr ⟨_, _, _, _, hread, hupdate, ?_⟩)
            exact (occurs_writeBack_iff howner).mp h
      · intro hmem
        rcases List.mem_append.mp hmem with hmem | hmem
        · exact .call .assignOwner nofun ((occurs_read_iff howner).mpr hmem)
        · obtain ⟨o, w₁, new, w₂, hread, hupdate, hmem⟩ := mem_afterOwner.mp hmem
          exact .call (.updateOwner hread hupdate) (fun _ _ => trivial)
            ((occurs_writeBack_iff howner).mpr hmem)

variable {owner : Place} {name : String} {span : Span}

/-- An assignment to a member of what a program computes starts the program at once. It does so again, up
to once for each further member, if the object that holds the member is not the computed one and is of a
value type. -/
theorem occurs_computed_owner (h : owner.IsOver p) (r : Registry H) (v : Value) (w : World H) :
    let place : Place := .member owner name span
    let starts := place.assignStarts r v w
    (∀ w', (assign place v).Occurs r w (run [] p) w' ↔ w' ∈ starts) ∧
      starts.head? = some w ∧ starts.length ≤ place.hops ∧
      (starts.length = 1 ↔ owner = .computed p ∨ ∀ o w₁ new w₂, owner.read r w = .ok o w₁ →
        Eval.updateMember r o name v w₁ = .ok new w₂ → r.directory.holdsValueType o = false) := by
  intro place starts
  have hstarts : starts = [w] ++
      match (do let o ← owner.read r; let _ ← Eval.updateMember r o name v; return o : Eval H Value) w with
      | .ok o w' => owner.writeBackStarts r o w'
      | .error _ _ => [] := by
    rw [← h.readStarts]
    rfl
  refine ⟨fun w' => occurs_assign_iff (h.member name span), by rw [hstarts]; rfl, ?_, ?_⟩
  · rw [hstarts, List.length_append, List.length_singleton, Place.hops]
    split
    · next o w' _ => have := h.length_writeBackStarts_le (r := r) o w'; omega
    · simp
  · rw [hstarts, List.length_append, List.length_singleton, Nat.add_eq_left, List.length_eq_zero_iff]
    split
    · next o w' hrun =>
      obtain ⟨o', w₁, hread, hrun⟩ := ok_of_run_bind hrun
      obtain ⟨new, w₂, hupdate, hrun⟩ := ok_of_run_bind hrun
      obtain ⟨rfl, rfl⟩ := EStateM.Result.ok.inj hrun
      rw [h.writeBackStarts_eq_nil_iff]
      refine or_congr_right ⟨fun ho o w₁' new' w₂' hread' _ => ?_, fun ho => ho _ _ _ _ hread hupdate⟩
      obtain ⟨rfl, -⟩ := EStateM.Result.ok.inj (hread.symm.trans hread')
      exact ho
    · next e w' hrun =>
      refine iff_of_true rfl (.inr fun o w₁ new w₂ hread hupdate => ?_)
      rw [run_bind_of_ok hread, run_bind_of_ok hupdate] at hrun
      cases hrun

end Task

namespace Sample

/-- A scene, and a list that it can be added to. -/
def collected : Session host where
  world :=
    { memory := ⟨#[.host (.scene ⟨⟨⟨1, .zero⟩, "a"⟩, .null⟩), .list []], Settings.initialLevel⟩
      bindings := ⟨[.infer "s" (.object ⟨0, "Scene"⟩), .infer "lst" (.object ⟨1, "List"⟩)]⟩ }
  cache := .empty

/-- Adds the scene to the list and yields the first item. -/
def firstAdded : Program :=
  [.load ⟨0, 3⟩ "lst", .call ⟨0, 10⟩ "Add" [] [[.load ⟨8, 9⟩ "s"]],
    .call ⟨0, 17⟩ "Get" [] [[.push ⟨15, 16⟩ (.int 0)]]]

def firstMain : Place := .member (.computed firstAdded) "Main" ⟨0, 22⟩

end Sample

open Sample in
/-- The rectangle of a scene is a value. -/
theorem Task.occurs_computed_owner_label :
    let place : Place := .member firstMain "Label" ⟨0, 28⟩
    firstMain.IsOver firstAdded ∧
      ((place.assignStarts registry (.string "x") collected.world).length = 1 ↔
        firstMain = .computed firstAdded ∨ ∀ o w₁ new w₂,
          firstMain.read registry collected.world = .ok o w₁ →
          Eval.updateMember registry o "Label" (.string "x") w₁ = .ok new w₂ →
          registry.directory.holdsValueType o = false) ∧
      (place.assignStarts registry (.string "x") collected.world).length = 2 := by
  have hover : firstMain.IsOver firstAdded := .member "Main" ⟨0, 22⟩ .computed
  exact ⟨hover, (occurs_computed_owner hover registry (.string "x") collected.world).2.2.2, rfl⟩

open Sample in
/-- The scene is added twice. -/
theorem Engine.effect_computed_owner :
    let e : Engine host := ⟨Sample.registry, .default⟩
    let s := collected
    let effect := e.effect "f" "lst.Add(s).Get(0).Main.Label = 'x'" s
    effect.1 = .ok ⟨[.string "x"], []⟩ ∧
      effect.2.memory.items? ⟨1, "List"⟩ = some [.object ⟨0, "Scene"⟩, .object ⟨0, "Scene"⟩] := by
  intro e s effect
  have hcompiled := e.compileFor_single s.world.bindings "lst.Add(s).Get(0).Main.Label = 'x'"
    ⟨0, 34⟩
    [.assign ⟨0, 34⟩ (.member firstMain "Label" ⟨0, 28⟩) [.push ⟨31, 34⟩ (.string "x")]]
    (by decide +kernel) (by cbv) (by cbv)
    (by simp only [Program.ofExpr, Place.ofTarget, Place.ofOwner, Program.ofReceiver,
      Program.ofArguments]; rfl)
  obtain ⟨w, hrun, hitems⟩ : ∃ w,
      (e.compileFor s.world.bindings "lst.Add(s).Get(0).Main.Label = 'x'").run e.registry s.world =
          .ok ⟨[.string "x"], []⟩ w ∧
        w.memory.items? ⟨1, "List"⟩ = some [.object ⟨0, "Scene"⟩, .object ⟨0, "Scene"⟩] := by
    rw [hcompiled]
    exact ⟨_, rfl, rfl⟩
  unfold effect
  rw [effect_of_coherent Cache.coherent_empty, hrun]
  exact ⟨rfl, hitems⟩

end Formula
