import Formula.Proofs.ConfinedTypes
import Formula.Proofs.SecludedRun
import Formula.Proofs.Turns
import Mathlib

/-!
Value types are isolated. As long as nobody else can get at the object of a variable, it changes only by
assignments to members of the variable.
-/

namespace Formula

variable {H : Host}

/-- Not the same object, unless its type is shared. -/
def Value.Apart (types : Directory) (u v : Value) : Prop :=
  ∀ o p, u = .object o → v = .object p → o.id = p.id →
    types.holdsValueType u = false ∧ types.holdsValueType v = false

namespace World

/-- The variable `x` holds an object of a value type, and nobody else can get at it. -/
def Isolates (K : Custody H) (r : Registry H) (x : String) (w : World H) : Prop :=
  ∃ A z o c, K.Isolated r x A z o c w

/-- The variable `x` holds the same object of a value type in both worlds, with the same contents. -/
def KeepsValue (r : Registry H) (x : String) (w w' : World H) : Prop :=
  ∃ z o c, w.bindings.find? x = some z ∧ w'.bindings.find? x = some z ∧ z.get = .object o ∧
    r.directory.holdsValueType (.object o) = true ∧ w.memory.get? o = some c ∧
    w'.memory.get? o = some c

/-- What variables, objects and static members hold. -/
def holdings (K : Custody H) (w : World H) : List Value :=
  w.bindings.vars.map (·.get) ++ (w.memory.cells.toList.flatMap K.content ++ K.state w.memory.state)

/-- All objects that are held exist, and no object of a value type is held twice. -/
structure Unshared (K : Custody H) (r : Registry H) (w : World H) : Prop where
  lt_size : ∀ v ∈ w.holdings K, v.Within {i | i < w.memory.cells.size}
  apart : (w.holdings K).Pairwise (Value.Apart r.directory)
  settles : ∀ y ∈ w.bindings.vars, y.slot.Settles

/-- A member that the object of `x` has. What it reads as depends on no more than the contents of the
object. -/
def HasLocalMember (r : Registry H) (x : String) (w : World H) (name : String) : Prop :=
  ∃ z o t m, w.bindings.find? x = some z ∧ z.get = .object o ∧
    Eval.findMember r (.object o) name = .ok (t, m) ∧ m.IsLocal r.directory o.typeName

variable {K : Custody H} {r : Registry H} {x : String} {w w' : World H}

/-- Nobody else can get at an object that nobody shares with `x`. -/
theorem Unshared.isolates (h : w.Unshared K r) {z : Variable} (hx : w.bindings.find? x = some z)
    (hvalue : r.directory.holdsValueType z.get = true) : w.Isolates K r x := by
  obtain ⟨o, ho⟩ := Directory.object_of_holdsValueType hvalue
  obtain ⟨hz, rfl⟩ := Custody.Isolated.mem_of_find? hx
  obtain ⟨hvars, -, hcross⟩ := List.pairwise_append.mp h.apart
  have hvar {y : Variable} (hy : y ∈ w.bindings.vars) : y.get ∈ w.bindings.vars.map (·.get) :=
    List.mem_map_of_mem hy
  have hsize : o.id < w.memory.cells.size := h.lt_size _ (List.mem_append_left _ (hvar hz)) o ho
  have hother {v : Value} (hv : v ∈ w.holdings K) (hapart : z.get.Apart r.directory v) :
      v.Within {i | i < w.memory.cells.size ∧ i ≠ o.id} := by
    refine fun p hp => ⟨h.lt_size v hv p hp, fun hid => ?_⟩
    have hshared := (hapart o p ho hp hid.symm).1
    simp [hvalue] at hshared
  have hrest (v : Value) (hv : v ∈ w.memory.cells.toList.flatMap K.content ++ K.state w.memory.state) :
      v.Within {i | i < w.memory.cells.size ∧ i ≠ o.id} :=
    hother (List.mem_append_right _ hv) (hcross _ (hvar hz) v hv)
  refine ⟨{i | i < w.memory.cells.size ∧ i ≠ o.id}, z, o, w.memory.cells[o.id], hx, ho, ho ▸ hvalue,
    Array.getElem?_eq_getElem hsize, ⟨?_, fun hi => hi.2, fun {p c} _ hc v hv => ?_, fun v hv => ?_⟩,
    fun y hy hne => ?_, h.settles⟩
  · rintro i (hi | rfl)
    · exact hi.1
    · exact hsize
  · have hmem : c ∈ w.memory.cells.toList := Array.mem_toList_iff.mpr (Array.mem_of_getElem? hc)
    exact hrest v (List.mem_append_left _ (List.mem_flatMap.mpr ⟨c, hmem, hv⟩))
  · exact hrest v (List.mem_append_right _ hv)
  · have : Std.Symm fun y y' : Variable => y.get.Apart r.directory y'.get :=
      ⟨fun _ _ h o p hy hy' hid => (h p o hy' hy hid.symm).symm⟩
    have hapart := (List.pairwise_map.mp hvars).forall hz hy fun heq => hne (heq ▸ rfl)
    exact hother (List.mem_append_left _ (hvar hy)) hapart

theorem KeepsValue.symm (h : w.KeepsValue r x w') : w'.KeepsValue r x w := by
  obtain ⟨z, o, c, hx, hx', hz, hv, hc, hc'⟩ := h
  exact ⟨z, o, c, hx', hx, hz, hv, hc', hc⟩

theorem KeepsValue.hasLocalMember (h : w.KeepsValue r x w') {name : String}
    (hm : w.HasLocalMember r x name) : w'.HasLocalMember r x name := by
  obtain ⟨z, o, c, hx, hx', -⟩ := h
  obtain ⟨z', o', t, m, hz', hm⟩ := hm
  obtain rfl := Option.some.inj (hx.symm.trans hz')
  exact ⟨z, o', t, m, hx', hm⟩

theorem KeepsValue.reads_of_reads (h : w.KeepsValue r x w') (hr : r.CopiesValues) {name : String}
    (hm : w.HasLocalMember r x name) {span : Span} {d : Datum H}
    (hd : (Place.member (.var x) name span).Reads r w d) :
    (Place.member (.var x) name span).Reads r w' d := by
  obtain ⟨z, o, c, hx, hx', hz, hv, hc, hc'⟩ := h
  obtain ⟨z', o', t, m, hz', ho', hm, hlocal⟩ := hm
  obtain rfl := Option.some.inj (hx.symm.trans hz')
  obtain rfl := Value.object.inj (hz.symm.trans ho')
  have ha : (Place.var x).Agrees r w w' :=
    { root := by
        rintro _ ⟨⟩
        rw [hx, hx']
      rootObject := by
        rintro _ y p ⟨⟩ hy hp -
        obtain rfl := Option.some.inj (hx.symm.trans hy)
        obtain rfl := Value.object.inj (hz.symm.trans hp)
        rw [hc, hc']
      owner := nofun }
  obtain ⟨y, w₁, hread, hy⟩ := id hd
  obtain ⟨q, w₂, hq, -⟩ := ok_of_run_bind hread
  have hload : (Place.var x).Reads r w (.record o.typeName (some c)) := by
    refine ⟨q, w₂, hq, ?_⟩
    obtain ⟨z', μ, hz', -, hcopy, rfl⟩ := Eval.ok_of_load hq
    obtain rfl := Option.some.inj (hx.symm.trans hz')
    rw [((hr.adds _ _).ok hcopy).2.2, hz, Memory.datum_of_valueType hv, hc]
  have hobject {w : World H} (h : (Place.var x).Reads r w (.record o.typeName (some c))) :
      (Place.var x).HoldsObject r w o.typeName c := by
    obtain ⟨q, w', hq, hd⟩ := h
    obtain ⟨p, rfl, hp, hpc⟩ := Memory.object_of_datum_eq_record hd
    exact ⟨p, w', hq, hp, hpc⟩
  have hfound (p : ObjectRef) (hp : p.typeName = o.typeName) :
      Eval.findMember r (.object p) name = .ok (t, m) := (Eval.findMember_object hp name).trans hm
  have hgives := (Place.reads_member_iff (hobject hload) hfound hlocal).mp hd
  exact (Place.reads_member_iff (hobject (Place.reads_var_of_agrees hr ha hload)) hfound hlocal).mpr
    hgives

/-- An object with the same contents reads the same through all its members. -/
theorem KeepsValue.reads_iff (h : w.KeepsValue r x w') (hr : r.CopiesValues) {name : String}
    (hm : w.HasLocalMember r x name) (span : Span) (d : Datum H) :
    (Place.member (.var x) name span).Reads r w d ↔ (Place.member (.var x) name span).Reads r w' d :=
  ⟨h.reads_of_reads hr hm, h.symm.reads_of_reads hr (h.hasLocalMember hm)⟩

end World

namespace Task

variable {K : Custody H} {r : Registry H} {x : String} {t : Task} {w : World H}

/-- A task that assigns neither to `x` nor to a member of it leaves the object of `x` alone. -/
theorem keepsValue (hr : r.IsConfined K) (h : t.Begins K r x (fun _ _ => True) w)
    (hstores : ¬t.StoresIn x) (hroot : ∀ place, t.Executes r w place → place.root? ≠ some x) :
    w.KeepsValue r x (t.after r w) := by
  obtain ⟨A, ⟨z, o, c, -, hw⟩, hin⟩ := h
  have hbegins : t.Begins K r x (fun z' c' => z' = z ∧ c' = c) w :=
    ⟨A, ⟨z, o, c, ⟨rfl, rfl⟩, hw⟩, hin⟩
  have hspares : t.Spares r x (fun z' c' => z' = z ∧ c' = c) w := fun place hplace =>
    ⟨fun h => hroot place hplace (congrArg Place.root? h), fun h => (hroot place hplace h).elim⟩
  obtain ⟨A', z', o', c', ⟨rfl, rfl⟩, hw'⟩ := exists_after hr hbegins hspares hstores
  obtain rfl := Value.object.inj (hw.holds.symm.trans hw'.holds)
  exact ⟨z', o, c', hw.found, hw'.found, hw.holds, hw.isValue, hw.get?, hw'.get?⟩

theorem spares_of_not_executes (h : ¬t.Executes r w (.var x)) :
    t.Spares r x (fun _ _ => True) w := fun _ hplace =>
  ⟨fun hx => h (hx ▸ hplace), fun _ _ _ => trivial⟩

end Task

namespace Turn

variable {K : Custody H} {r : Registry H} {x : String} {t : Turn H}

theorem begins_of_isolates (h : t.before.Isolates K r x) :
    (Task.run [] t.program).Begins K r x (fun _ _ => True) t.before := by
  obtain ⟨A, z, o, c, hw⟩ := h
  exact ⟨A, ⟨z, o, c, trivial, hw⟩, nofun⟩

/-- A statement that does not assign to `x` itself lets nobody get at the object of `x`. -/
theorem isolates_after (hr : r.IsConfined K) (h : t.before.Isolates K r x)
    (hassigns : ¬t.Executes r (.var x)) : (t.after r).Isolates K r x := by
  rw [after_eq]
  obtain ⟨A, z, o, c, -, hw⟩ := Task.exists_after hr (begins_of_isolates h)
    (Task.spares_of_not_executes hassigns) id
  exact ⟨A, z, o, c, hw⟩

end Turn

/-- For any formulas that are evaluated one after the other, if nobody else can get at the object that
`x` holds at first and every statement that assigns to `x` itself leaves `x` with such an object: whatever
is done in a statement before it assigns to `x` itself, be it a call, a read or an assignment to another
place, leaves the object of `x` as it was, unless it comes to an assignment to a member of `x`. -/
theorem Engine.value_isolated {e : Engine H} {K : Custody H} (hr : e.registry.IsConfined K)
    {x : String} {fs : List (String × String)} {s : Session H}
    (hx : s.world.Isolates K e.registry x)
    (hassigned : ∀ t ∈ e.turns fs s, t.Executes e.registry (.var x) →
      (t.after e.registry).Isolates K e.registry x) :
    ∀ t ∈ e.turns fs s, ∀ task w, t.OccursBefore e.registry (.var x) task w → ¬task.StoresIn x →
      (∀ place, task.Executes e.registry w place → place.root? ≠ some x) →
        w.KeepsValue e.registry x (task.after e.registry w) ∧
        ∀ name, w.HasLocalMember e.registry x name → ∀ span d,
          ((Place.member (.var x) name span).Reads e.registry w d ↔
            (Place.member (.var x) name span).Reads e.registry (task.after e.registry w) d) := by
  intro t ht task w hoccurs hstores hroot
  have hbefore : t.before.Isolates K e.registry x := by
    refine (e.path_turns fs s).forall_before hx (fun t ht h => ?_) t ht
    by_cases hassigns : t.Executes e.registry (.var x)
    · exact hassigned t ht hassigns
    · exact Turn.isolates_after hr h hassigns
  have hbegins := Task.begins_of_reaches hr (Turn.begins_of_isolates hbefore)
    (hoccurs.mono fun _ _ => Task.spares_of_not_executes)
  have hkeeps := Task.keepsValue hr hbegins hstores hroot
  have hcopies := Registry.copiesValues_of_types fun t ht => (hr t ht).copiesContents
  exact ⟨hkeeps, fun name hm span d => hkeeps.reads_iff hcopies hm span d⟩

namespace Sample

/-- Lists, and the types of a scene. -/
def album : Engine host :=
  ⟨⟨[Builtin.Sequence.typeDef.toHostType, Scene.typeDef.toHostType, Rect.typeDef.toHostType,
    Point.typeDef.toHostType]⟩, .default⟩

/-- Points, numbered from one, and a list of those with the given numbers. The variable `p` holds the
point with the number `p`, and `q` holds the second one. -/
def albumOf (points : List Point) (listed : List Nat) (p : Nat) : World host where
  memory := ⟨#[.list (listed.map fun i => .object ⟨i, "Point"⟩)] ++
    (points.map fun p => (.host (.point p) : Content host)).toArray, Settings.initialLevel⟩
  bindings := ⟨[.infer "p" (.object ⟨p, "Point"⟩), .infer "q" (.object ⟨2, "Point"⟩),
    .infer "lst" (.object ⟨0, "List"⟩)]⟩

theorem isConfined_album : album.registry.IsConfined custody := by
  simp only [Registry.IsConfined, album, List.forall_mem_cons]
  exact ⟨Builtin.Sequence.isConfined_typeDef.toHostType, isConfined_scene.toHostType,
    isConfined_rect.toHostType, isConfined_point.toHostType, by simp⟩

/-- As long as the list is empty and `p` is not the second point, the points are apart. -/
theorem unshared_albumOf {points : List Point} {p : Nat} (hpos : 0 < p) (hp : p ≤ points.length)
    (hq : 2 ≤ points.length) (hne : p ≠ 2) : (albumOf points [] p).Unshared custody album.registry := by
  have hheld : (albumOf points [] p).holdings custody =
      [.object ⟨p, "Point"⟩, .object ⟨2, "Point"⟩, .object ⟨0, "List"⟩] := by
    simp [World.holdings, albumOf, Variable.infer, Variable.get, Slot.get, custody, Custody.content]
  have hsize : (albumOf points [] p).memory.cells.size = points.length + 1 := by
    simp [albumOf]
  constructor
  · rw [hheld, hsize]
    simp only [List.forall_mem_cons]
    refine ⟨Value.within_object ?_, Value.within_object ?_, Value.within_object ?_, by simp⟩
    · exact Nat.lt_succ_of_le hp
    · exact Nat.lt_succ_of_le hq
    · exact Nat.succ_pos _
  · rw [hheld]
    simp [Value.Apart, hne, hpos.ne']
  · simp [albumOf, Variable.infer, Slot.Settles]

/-- The statement `lst.Get(0).X = 5`. -/
def changeListed : Program :=
  [.assign ⟨0, 16⟩ (.member (.computed [.load ⟨0, 3⟩ "lst",
    .call ⟨0, 10⟩ "Get" [] [[.push ⟨8, 9⟩ (.int 0)]]]) "X" ⟨0, 12⟩) [.push ⟨15, 16⟩ (.int 5)]]

end Sample

open Sample in
/-- A new point is assigned to a variable and put into a list, and there it is changed. The variable keeps
the point as it was. -/
theorem Engine.value_isolated_album :
    let turns := album.turns [("f", "p = q.Scaled(2)"), ("g", "lst.Add(p)"), ("h", "lst.Get(0).X = 5")]
      ⟨albumOf [⟨1, .zero⟩, ⟨2, .zero⟩] [] 1, .empty⟩
    ∃ t ∈ turns, t.before.KeepsValue album.registry "p" (t.after album.registry) ∧
      (Place.member (.var "p") "X" ⟨0, 3⟩).Reads album.registry (t.after album.registry)
        (.shared (.int 4)) ∧
      (t.after album.registry).memory.get? ⟨5, "Point"⟩ = some (.host (.point ⟨5, .zero⟩)) := by
  intro turns
  let assign : Turn host := ⟨[.assign ⟨0, 15⟩ (.var "p") [.load ⟨4, 5⟩ "q",
    .call ⟨4, 15⟩ "Scaled" [] [[.push ⟨13, 14⟩ (.int 2)]]]], albumOf [⟨1, .zero⟩, ⟨2, .zero⟩] [] 1⟩
  let add : Turn host := ⟨[.load ⟨0, 3⟩ "lst", .call ⟨0, 10⟩ "Add" [] [[.load ⟨8, 9⟩ "p"]]],
    albumOf [⟨1, .zero⟩, ⟨2, .zero⟩, ⟨2, .zero⟩, ⟨4, .zero⟩] [] 4⟩
  let change : Turn host := ⟨changeListed,
    albumOf [⟨1, .zero⟩, ⟨2, .zero⟩, ⟨2, .zero⟩, ⟨4, .zero⟩, ⟨4, .zero⟩] [5] 4⟩
  have hturns : turns = [assign, add, change] := by
    unfold turns assign add change
    cbv
  have hroot (t : Turn host) (ht : t ∈ [add, change]) (place : Place)
      (h : t.Executes album.registry place) : place.root? ≠ some "p" := by
    have htargets : ∀ t ∈ [add, change], ∀ place ∈ Program.targets t.program,
        place.root? ≠ some "p" := by decide
    exact htargets t ht place h.mem_targets
  have hafter : assign.after album.registry = add.before := rfl
  have hassigned (t : Turn host) (ht : t ∈ turns) (h : t.Executes album.registry (.var "p")) :
      (t.after album.registry).Isolates custody album.registry "p" := by
    rw [hturns] at ht
    rcases List.mem_cons.mp ht with rfl | ht
    · rw [hafter]
      exact (unshared_albumOf (by decide) (by decide) (by decide) (by decide)).isolates rfl rfl
    · exact (hroot t ht _ h rfl).elim
  have hfirst : (albumOf [⟨1, .zero⟩, ⟨2, .zero⟩] [] 1).Unshared custody album.registry :=
    unshared_albumOf (by decide) (by decide) (by decide) (by decide)
  have hchange : change ∈ turns := hturns ▸ by simp
  obtain ⟨hkeeps, hreads⟩ := Engine.value_isolated isConfined_album (hfirst.isolates rfl rfl) hassigned
    change hchange (.run [] changeListed) _ .here id (hroot change (by simp))
  have hlocal : change.before.HasLocalMember album.registry "p" "X" :=
    ⟨_, ⟨4, "Point"⟩, _, _, rfl, rfl, rfl, Member.isLocal_of_coding (isLawful_int _) "X" .field _⟩
  refine ⟨change, hchange, ?_, ?_, rfl⟩
  · exact hkeeps
  · exact (hreads "X" hlocal ⟨0, 3⟩ _).mp ⟨_, _, rfl, rfl⟩

/-- All code is confined, and at first no object of a value type is shared. Yet a statement that assigns
neither to `x` nor to a member of `x` changes what a member of `x` reads as. -/
def Engine.Disturbs (e : Engine H) (K : Custody H) (x name : String) (fs : List (String × String))
    (s : Session H) : Prop :=
  e.registry.IsConfined K ∧ s.world.Unshared K e.registry ∧ ∃ t ∈ e.turns fs s,
    (∀ place, t.Executes e.registry place → place.root? ≠ some x) ∧
      ∃ span d d', d ≠ d' ∧ (Place.member (.var x) name span).Reads e.registry t.before d ∧
        (Place.member (.var x) name span).Reads e.registry (t.after e.registry) d'

namespace Sample

/-- Scenes that are copied, though not with what is in their slots. -/
def gallery : Engine host :=
  ⟨⟨[((TypeDef.valueType Scene.facet "Scene").readWrite Scene.facet .any "Slot" Scene.slot
    fun s v => { s with slot := v }).toHostType, Point.typeDef.toHostType]⟩, .default⟩

def galleryOf (p : Point) : World host where
  memory := ⟨#[.host (.scene ⟨default, .object ⟨1, "Point"⟩⟩), .host (.point p)], Settings.initialLevel⟩
  bindings := ⟨[.infer "sc" (.object ⟨0, "Scene"⟩)]⟩

theorem isConfined_gallery : gallery.registry.IsConfined custody := by
  have hscene := TypeDef.IsConfined.valueType isLawful_scene isHeld_scene "Scene"
  simp only [Registry.IsConfined, gallery, List.forall_mem_cons]
  refine ⟨TypeDef.IsConfined.toHostType ?_, isConfined_point.toHostType, by simp⟩
  exact hscene.addReadWrite isHeld_scene Coding.isConfined_any (fun _ => List.Subset.refl _)
    fun _ _ => List.subset_append_right _ _

theorem unshared_gallery (p : Point) : (galleryOf p).Unshared custody gallery.registry where
  lt_size := by
    simp [World.holdings, galleryOf, Variable.infer, Variable.get, Slot.get, custody, Custody.content,
      Value.Within]
  apart := by
    simp [World.holdings, galleryOf, Variable.infer, Variable.get, Slot.get, custody, Custody.content,
      Value.Apart]
  settles := by simp [galleryOf, Variable.infer, Slot.Settles]

end Sample

open Sample in
/-- A variable shares the object that is assigned to it with a list, where it is changed. And the object
in a slot is changed by a method, though the scene that it is read from is a copy. -/
theorem Engine.disturbs_value :
    album.Disturbs custody "p" "X" [("f", "lst.Add(q); p = lst.Get(0)"), ("g", "lst.Get(0).X = 5")]
      ⟨albumOf [⟨1, .zero⟩, ⟨2, .zero⟩] [] 1, .empty⟩ ∧
    gallery.Disturbs custody "sc" "Slot" [("f", "sc.Slot.Reset()")] ⟨galleryOf ⟨1, .zero⟩, .empty⟩ := by
  constructor
  · let t : Turn host := ⟨changeListed, albumOf [⟨1, .zero⟩, ⟨2, .zero⟩, ⟨2, .zero⟩] [3] 3⟩
    have ht : (album.turns [("f", "lst.Add(q); p = lst.Get(0)"), ("g", "lst.Get(0).X = 5")]
        ⟨albumOf [⟨1, .zero⟩, ⟨2, .zero⟩] [] 1, .empty⟩)[2]? = some t := by
      unfold t
      cbv
    have htargets : ∀ place ∈ Program.targets t.program, place.root? ≠ some "p" := by decide
    have hunshared : (albumOf [⟨1, .zero⟩, ⟨2, .zero⟩] [] 1).Unshared custody album.registry :=
      unshared_albumOf (by decide) (by decide) (by decide) (by decide)
    refine ⟨isConfined_album, hunshared, t, List.mem_of_getElem? ht,
      fun place h => htargets place h.mem_targets, ⟨0, 3⟩, .shared (.int 2), .shared (.int 5), ?_,
      ⟨_, _, rfl, rfl⟩, ⟨_, _, rfl, rfl⟩⟩
    simp
  · let t : Turn host := ⟨[.load ⟨0, 2⟩ "sc", .get ⟨0, 7⟩ "Slot", .call ⟨0, 15⟩ "Reset" [] []],
      galleryOf ⟨1, .zero⟩⟩
    have ht : (gallery.turns [("f", "sc.Slot.Reset()")] ⟨galleryOf ⟨1, .zero⟩, .empty⟩)[0]? =
        some t := by
      unfold t
      cbv
    have htargets : ∀ place ∈ Program.targets t.program, place.root? ≠ some "sc" := by decide
    refine ⟨isConfined_gallery, unshared_gallery _, t, List.mem_of_getElem? ht,
      fun place h => htargets place h.mem_targets, ⟨0, 7⟩,
      .record "Point" (some (.host (.point ⟨1, .zero⟩))),
      .record "Point" (some (.host (.point ⟨0, .zero⟩))), fun h => ?_,
      ⟨_, _, rfl, rfl⟩, ⟨_, _, rfl, rfl⟩⟩
    obtain ⟨-, hc⟩ := Datum.record.inj h
    obtain ⟨hx, -⟩ := Point.mk.inj (Object.point.inj (Content.host.inj (Option.some.inj hc)))
    exact absurd hx (by decide)

end Formula
