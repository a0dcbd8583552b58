import Formula.Memory
import Mathlib.Data.List.Forall2
import Mathlib.Data.List.Perm.Subperm

/-!
The text of a value is that of its unfolding into a tree. Lists refer to one another in any way, and
an occurrence of a value in the unfolding is reached by the positions of the items on the way to it;
a list that is one of those around the occurrence is marked there, and not unfolded once more.
-/

namespace Formula

variable {H : Host}

/-- What a value unfolds to. -/
inductive Unfolding where
  /-- Stands for a list that stands around it. A list of the one string `...` has the same text, so
  the text by itself does not tell where the marks are. -/
  | mark
  | plain (text : String)
  | list (items : List Unfolding)

namespace Unfolding

def text : Unfolding → String
  | mark => "[...]"
  | plain text => text
  | list items => "[" ++ ", ".intercalate (items.map text) ++ "]"

def at? : Unfolding → List Nat → Option Unfolding
  | t, [] => some t
  | list items, i :: path => items[i]?.bind fun t => t.at? path
  | _, _ :: _ => none

theorem at?_cons_eq_some_iff {t s : Unfolding} {i : Nat} {path : List Nat} :
    t.at? (i :: path) = some s ↔
      ∃ ts t', t = .list ts ∧ ts[i]? = some t' ∧ t'.at? path = some s := by
  cases t with
  | list ts =>
      rw [at?]
      simp [Option.bind_eq_some_iff]
  | _ => simp [at?]

end Unfolding

namespace Memory

variable {m : Memory H} {within within' : List Nat} {u v : Value} {o : ObjectRef} {items : List Value}
  {t : Unfolding} {path : List Nat}

/-! ### Paths -/

/-- The value at a path below one that stands inside the lists `within`, and the lists that it
stands inside itself. Nothing stops a path from going in circles. -/
def occurrence? (m : Memory H) (within : List Nat) : Value → List Nat → Option (List Nat × Value)
  | v, [] => some (within, v)
  | .object o, i :: path => do
      let item ← (← m.items? o)[i]?
      m.occurrence? (o.id :: within) item path
  | _, _ :: _ => none

theorem occurrence?_nil_eq_some_iff :
    m.occurrence? within v [] = some (within', u) ↔ within = within' ∧ v = u := by
  rw [occurrence?, Option.some.injEq, Prod.mk.injEq]

theorem occurrence?_cons_eq_some_iff {i : Nat} :
    m.occurrence? within v (i :: path) = some (within', u) ↔
      ∃ o items item, v = .object o ∧ m.items? o = some items ∧ items[i]? = some item ∧
        m.occurrence? (o.id :: within) item path = some (within', u) := by
  cases v with
  | object o =>
      rw [occurrence?]
      simp [Option.bind_eq_some_iff]
  | _ => simp [occurrence?]

theorem occurrence?_suffix (h : m.occurrence? within v path = some (within', u)) :
    within <:+ within' := by
  induction path generalizing within v with
  | nil => exact (occurrence?_nil_eq_some_iff.mp h).1 ▸ List.suffix_rfl
  | cons i path ih =>
      obtain ⟨o, items, item, -, -, -, h⟩ := occurrence?_cons_eq_some_iff.mp h
      exact (List.suffix_cons o.id within).trans (ih h)

theorem occurrence?_length (h : m.occurrence? within v path = some (within', u)) :
    within'.length = within.length + path.length := by
  induction path generalizing within v with
  | nil => rw [(occurrence?_nil_eq_some_iff.mp h).1, List.length_nil, Nat.add_zero]
  | cons i path ih =>
      obtain ⟨o, items, item, -, -, -, h⟩ := occurrence?_cons_eq_some_iff.mp h
      rw [ih h, List.length_cons, List.length_cons]
      omega

theorem occurrence?_lt_size (h : m.occurrence? within v path = some (within', u))
    (hwithin : ∀ id ∈ within, id < m.cells.size) : ∀ id ∈ within', id < m.cells.size := by
  induction path generalizing within v with
  | nil => exact (occurrence?_nil_eq_some_iff.mp h).1 ▸ hwithin
  | cons i path ih =>
      obtain ⟨o, items, item, -, hitems, -, h⟩ := occurrence?_cons_eq_some_iff.mp h
      exact ih h (List.forall_mem_cons.mpr ⟨lt_size_of_items? hitems, hwithin⟩)

/-! ### Unfolding one value -/

/-- How a value that stands inside the lists `within` is unfolded. -/
inductive Shows (m : Memory H) (within : List Nat) : Value → Unfolding → Prop
  | mark {o : ObjectRef} (h : o.id ∈ within) : Shows m within (.object o) .mark
  | plain {v : Value} (h : ∀ o, v = .object o → o.id ∉ within ∧ m.items? o = none) :
      Shows m within v (.plain v.plainText)
  | list {o : ObjectRef} {items : List Value} {ts : List Unfolding} (h : o.id ∉ within)
      (hitems : m.items? o = some items) (hlength : ts.length = items.length) :
      Shows m within (.object o) (.list ts)

/-- Exactly those occurrences are shown around which no list stands twice. -/
structure Unfolds (m : Memory H) (within : List Nat) (v : Value) (t : Unfolding) : Prop where
  shown : ∀ path within' u, m.occurrence? within v path = some (within', u) → within'.Nodup →
    ∃ s, t.at? path = some s ∧ m.Shows within' u s
  hidden : ∀ path s, t.at? path = some s →
    ∃ within' u, m.occurrence? within v path = some (within', u) ∧ within'.Nodup

theorem exists_shows (m : Memory H) (within : List Nat) (v : Value) : ∃ t, m.Shows within v t := by
  cases v with
  | object o =>
      by_cases h : o.id ∈ within
      · exact ⟨_, .mark h⟩
      · cases hitems : m.items? o with
        | none =>
            refine ⟨_, .plain ?_⟩
            rintro _ ⟨⟩
            exact ⟨h, hitems⟩
        | some items => exact ⟨.list (items.map fun _ => .mark), .list h hitems (by simp)⟩
  | _ => exact ⟨_, .plain nofun⟩

theorem Unfolds.nodup (h : m.Unfolds within v t) : within.Nodup := by
  obtain ⟨within', u, hu, hwithin'⟩ := h.hidden [] t rfl
  obtain ⟨rfl, -⟩ := occurrence?_nil_eq_some_iff.mp hu
  exact hwithin'

theorem Unfolds.shows (h : m.Unfolds within v t) : m.Shows within v t := by
  obtain ⟨s, hs, hshows⟩ := h.shown [] within v rfl h.nodup
  rwa [Option.some.inj hs]

theorem unfolds_mark_iff (h : o.id ∈ within) (hwithin : within.Nodup) :
    m.Unfolds within (.object o) t ↔ t = .mark := by
  constructor
  · intro ht
    cases ht.shows with
    | mark => rfl
    | plain hplain => exact absurd h (hplain o rfl).1
    | list hnot => exact absurd h hnot
  · rintro rfl
    constructor
    · rintro (_ | ⟨i, path⟩) within' u hu hnodup
      · obtain ⟨rfl, rfl⟩ := occurrence?_nil_eq_some_iff.mp hu
        exact ⟨.mark, rfl, .mark h⟩
      · obtain ⟨o', items, item, ⟨⟩, -, -, hu⟩ := occurrence?_cons_eq_some_iff.mp hu
        exact absurd h (List.nodup_cons.mp (hnodup.sublist (occurrence?_suffix hu).sublist)).1
    · rintro (_ | ⟨i, path⟩) s hs
      · exact ⟨within, .object o, rfl, hwithin⟩
      · obtain ⟨ts, t', ⟨⟩, -⟩ := Unfolding.at?_cons_eq_some_iff.mp hs

theorem unfolds_plain_iff (h : ∀ o, v = .object o → o.id ∉ within ∧ m.items? o = none)
    (hwithin : within.Nodup) : m.Unfolds within v t ↔ t = .plain v.plainText := by
  constructor
  · intro ht
    cases ht.shows with
    | mark hmem => exact absurd hmem (h _ rfl).1
    | plain => rfl
    | list _ hitems => cases hitems.symm.trans (h _ rfl).2
  · rintro rfl
    constructor
    · rintro (_ | ⟨i, path⟩) within' u hu hnodup
      · obtain ⟨rfl, rfl⟩ := occurrence?_nil_eq_some_iff.mp hu
        exact ⟨_, rfl, .plain h⟩
      · obtain ⟨o, items, item, rfl, hitems, -⟩ := occurrence?_cons_eq_some_iff.mp hu
        cases hitems.symm.trans (h o rfl).2
    · rintro (_ | ⟨i, path⟩) s hs
      · exact ⟨within, v, rfl, hwithin⟩
      · obtain ⟨ts, t', ⟨⟩, -⟩ := Unfolding.at?_cons_eq_some_iff.mp hs

theorem Unfolds.forall₂_items {ts : List Unfolding} (h : m.Unfolds within (.object o) (.list ts))
    (hitems : m.items? o = some items) : items.Forall₂ (m.Unfolds (o.id :: within)) ts := by
  have hlength : items.length = ts.length := by
    cases h.shows with
    | list _ hitems' hlength => rw [Option.some.inj (hitems.symm.trans hitems'), hlength]
  refine List.forall₂_iff_get.mpr ⟨hlength, fun i hi hi' => ⟨?_, ?_⟩⟩
  · intro path within' u hu hnodup
    obtain ⟨s, hs, hshows⟩ := h.shown (i :: path) within' u
      (occurrence?_cons_eq_some_iff.mpr ⟨o, items, _, rfl, hitems, List.getElem?_eq_getElem hi, hu⟩)
      hnodup
    obtain ⟨_, t', ⟨⟩, ht', hs⟩ := Unfolding.at?_cons_eq_some_iff.mp hs
    obtain ⟨_, rfl⟩ := List.getElem?_eq_some_iff.mp ht'
    exact ⟨s, hs, hshows⟩
  · intro path s hs
    obtain ⟨within', u, hu, hnodup⟩ := h.hidden (i :: path) s
      (Unfolding.at?_cons_eq_some_iff.mpr ⟨ts, _, rfl, List.getElem?_eq_getElem hi', hs⟩)
    obtain ⟨_, items', item, ⟨⟩, hitems', hitem, hu⟩ := occurrence?_cons_eq_some_iff.mp hu
    obtain rfl : items = items' := Option.some.inj (hitems.symm.trans hitems')
    obtain ⟨_, rfl⟩ := List.getElem?_eq_some_iff.mp hitem
    exact ⟨within', u, hu, hnodup⟩

theorem Unfolds.list {ts : List Unfolding} (hts : items.Forall₂ (m.Unfolds (o.id :: within)) ts)
    (hitems : m.items? o = some items) (hwithin : (o.id :: within).Nodup) :
    m.Unfolds within (.object o) (.list ts) := by
  obtain ⟨hlength, hts⟩ := List.forall₂_iff_get.mp hts
  constructor
  · rintro (_ | ⟨i, path⟩) within' u hu hnodup
    · obtain ⟨rfl, rfl⟩ := occurrence?_nil_eq_some_iff.mp hu
      exact ⟨_, rfl, .list (List.nodup_cons.mp hwithin).1 hitems hlength.symm⟩
    · obtain ⟨_, items', item, ⟨⟩, hitems', hitem, hu⟩ := occurrence?_cons_eq_some_iff.mp hu
      obtain rfl : items = items' := Option.some.inj (hitems.symm.trans hitems')
      obtain ⟨hi, rfl⟩ := List.getElem?_eq_some_iff.mp hitem
      obtain ⟨s, hs, hshows⟩ := (hts i hi (hlength ▸ hi)).shown path within' u hu hnodup
      exact ⟨s, Unfolding.at?_cons_eq_some_iff.mpr
        ⟨ts, _, rfl, List.getElem?_eq_getElem _, hs⟩, hshows⟩
  · rintro (_ | ⟨i, path⟩) s hs
    · exact ⟨within, .object o, rfl, (List.nodup_cons.mp hwithin).2⟩
    · obtain ⟨_, t', ⟨⟩, ht', hs⟩ := Unfolding.at?_cons_eq_some_iff.mp hs
      obtain ⟨hi, rfl⟩ := List.getElem?_eq_some_iff.mp ht'
      obtain ⟨within', u, hu, hnodup⟩ := (hts i (hlength ▸ hi) hi).hidden path s hs
      exact ⟨within', u, occurrence?_cons_eq_some_iff.mpr
        ⟨o, items, _, rfl, hitems, List.getElem?_eq_getElem _, hu⟩, hnodup⟩

theorem unfolds_list_iff (hitems : m.items? o = some items) (hwithin : (o.id :: within).Nodup) :
    m.Unfolds within (.object o) t ↔
      ∃ ts, t = .list ts ∧ items.Forall₂ (m.Unfolds (o.id :: within)) ts := by
  obtain ⟨hnot, hwithin'⟩ := List.nodup_cons.mp hwithin
  constructor
  · intro ht
    cases ht.shows with
    | mark hmem => exact absurd hmem hnot
    | plain hplain => cases hitems.symm.trans (hplain o rfl).2
    | list _ _ _ => exact ⟨_, rfl, ht.forall₂_items hitems⟩
  · rintro ⟨ts, rfl, hts⟩
    exact .list hts hitems hwithin

/-! ### The text of a value -/

/-- The text of a value that stands inside the lists `within`. -/
def textWithin (m : Memory H) (within : List Nat) : Value → String
  | .object o => m.objectText within o
  | v => v.plainText

theorem textWithin_nil (m : Memory H) (v : Value) : m.textWithin [] v = m.text v := by
  cases v <;> rfl

theorem itemTexts_eq_map (m : Memory H) (within : List Nat) (vs : List Value) :
    m.itemTexts within vs = vs.map (m.textWithin within) := by
  induction vs with
  | nil => rw [itemTexts, List.map_nil]
  | cons v vs ih => cases v <;> simp only [itemTexts, ih, List.map_cons, textWithin]

theorem objectText_eq (m : Memory H) (within : List Nat) (o : ObjectRef) :
    m.objectText within o =
      if o.id ∈ within then "[...]"
      else (m.items? o).elim o.typeName fun items =>
        "[" ++ ", ".intercalate (items.map (m.textWithin (o.id :: within))) ++ "]" := by
  rw [objectText, dite_eq_ite]
  congr 1
  split
  · next hitems => rw [hitems, Option.elim_none]
  · next items hitems => rw [hitems, Option.elim_some, itemTexts_eq_map]

theorem textWithin_mark (h : o.id ∈ within) : m.textWithin within (.object o) = "[...]" := by
  rw [textWithin, objectText_eq, if_pos h]

theorem textWithin_plain (h : ∀ o, v = .object o → o.id ∉ within ∧ m.items? o = none) :
    m.textWithin within v = v.plainText := by
  cases v with
  | object o =>
      obtain ⟨hnot, hitems⟩ := h o rfl
      rw [textWithin, objectText_eq, if_neg hnot, hitems, Option.elim_none]
      rfl
  | _ => rfl

theorem textWithin_list (h : o.id ∉ within) (hitems : m.items? o = some items) :
    m.textWithin within (.object o) =
      "[" ++ ", ".intercalate (items.map (m.textWithin (o.id :: within))) ++ "]" := by
  rw [textWithin, objectText_eq, if_neg h, hitems, Option.elim_some]

/-- The induction is on the number of objects that are not among the lists around the value. -/
theorem exists_unfolds (m : Memory H) (v : Value) (hwithin : within.Nodup) :
    ∃ t, m.Unfolds within v t ∧ (∀ t', m.Unfolds within v t' → t' = t) ∧
      m.textWithin within v = t.text := by
  induction hn : m.unshown within using Nat.strongRecOn generalizing within v with
  | ind n ih =>
      obtain ⟨s, hs⟩ := m.exists_shows within v
      cases hs with
      | mark h =>
          exact ⟨.mark, (unfolds_mark_iff h hwithin).mpr rfl, fun _ => (unfolds_mark_iff h hwithin).mp,
            by rw [textWithin_mark h, Unfolding.text]⟩
      | plain h =>
          exact ⟨.plain v.plainText, (unfolds_plain_iff h hwithin).mpr rfl,
            fun _ => (unfolds_plain_iff h hwithin).mp, by rw [textWithin_plain h, Unfolding.text]⟩
      | @list o items _ h hitems =>
          have hwithin' : (o.id :: within).Nodup := List.nodup_cons.mpr ⟨h, hwithin⟩
          choose f hf hunique htext using fun item =>
            ih _ (hn ▸ unshown_lt hitems h) item hwithin' rfl
          refine ⟨.list (items.map f), (unfolds_list_iff hitems hwithin').mpr ⟨_, rfl, ?_⟩, ?_, ?_⟩
          · exact List.forall₂_map_right_iff.mpr (List.forall₂_same.mpr fun item _ => hf item)
          · intro t' ht'
            obtain ⟨ts, rfl, hts⟩ := (unfolds_list_iff hitems hwithin').mp ht'
            have heq : items.Forall₂ (fun item t => f item = t) ts :=
              hts.imp fun item t ht => (hunique item t ht).symm
            rw [← List.forall₂_map_left_iff, List.forall₂_eq_eq_eq] at heq
            rw [heq]
          · rw [textWithin_list h hitems, Unfolding.text, List.map_map]
            exact congrArg (fun texts => "[" ++ ", ".intercalate texts ++ "]")
              (List.map_congr_left fun item _ => htext item)

theorem Unfolds.mark_iff (h : m.Unfolds within v t) (hu : m.occurrence? within v path = some (within', u))
    (hwithin' : within'.Nodup) :
    t.at? path = some .mark ↔ ∃ o, u = .object o ∧ o.id ∈ within' := by
  obtain ⟨s, hs, hshows⟩ := h.shown path within' u hu hwithin'
  rw [hs, Option.some.injEq]
  cases hshows with
  | mark hmem => simp [hmem]
  | plain hplain =>
      refine ⟨nofun, ?_⟩
      rintro ⟨o, rfl, hmem⟩
      exact absurd hmem (hplain o rfl).1
  | list hnot => simpa using hnot

/-- What stands at a path of an unfolding is the unfolding of what occurs there. -/
theorem Unfolds.at (h : m.Unfolds within v t) (hu : m.occurrence? within v path = some (within', u))
    {s : Unfolding} (hs : t.at? path = some s) : m.Unfolds within' u s := by
  induction path generalizing within v t with
  | nil =>
      obtain ⟨rfl, rfl⟩ := occurrence?_nil_eq_some_iff.mp hu
      exact Option.some.inj hs ▸ h
  | cons i path ih =>
      obtain ⟨o, items, item, rfl, hitems, hitem, hu⟩ := occurrence?_cons_eq_some_iff.mp hu
      obtain ⟨ts, t', rfl, ht', hs⟩ := Unfolding.at?_cons_eq_some_iff.mp hs
      obtain ⟨hi, rfl⟩ := List.getElem?_eq_some_iff.mp hitem
      obtain ⟨hi', rfl⟩ := List.getElem?_eq_some_iff.mp ht'
      exact ih ((List.forall₂_iff_get.mp (h.forall₂_items hitems)).2 i hi hi') hu hs

theorem Unfolds.depth (h : m.Unfolds [] v t) {s : Unfolding} (hs : t.at? path = some s) :
    path.length ≤ m.cells.size := by
  obtain ⟨within', u, hu, hwithin'⟩ := h.hidden path s hs
  have hlength : within'.length = path.length := by simpa using occurrence?_length hu
  have hsubset : within' ⊆ List.range m.cells.size := fun id hid =>
    List.mem_range.mpr (occurrence?_lt_size hu (by simp) id hid)
  calc path.length = within'.length := hlength.symm
    _ ≤ (List.range m.cells.size).length := (hwithin'.subperm hsubset).length_le
    _ = m.cells.size := List.length_range

/-- The text of a value, by the tree that it is the text of. -/
structure Displays (m : Memory H) (v : Value) (t : Unfolding) : Prop where
  text : m.text v = t.text
  unfolds : m.Unfolds [] v t
  unique : ∀ t', m.Unfolds [] v t' → t' = t
  mark_iff : ∀ path within u, m.occurrence? [] v path = some (within, u) → within.Nodup →
    (t.at? path = some .mark ↔ ∃ o, u = .object o ∧ o.id ∈ within)
  /-- A list is shown with all its items wherever it does not stand around itself. -/
  list : ∀ path within o items, m.occurrence? [] v path = some (within, .object o) →
    m.items? o = some items → (o.id :: within).Nodup →
      ∃ ts, t.at? path = some (.list ts) ∧ items.Forall₂ (m.Unfolds (o.id :: within)) ts
  depth : ∀ path s, t.at? path = some s → path.length ≤ m.cells.size

theorem exists_displays (m : Memory H) (v : Value) : ∃ t, m.Displays v t := by
  obtain ⟨t, ht, hunique, htext⟩ := m.exists_unfolds v List.nodup_nil
  refine ⟨t, ?_⟩
  constructor
  case text => rw [← textWithin_nil, htext]
  case unfolds => exact ht
  case unique => exact hunique
  case mark_iff => exact fun path within u hu hwithin => ht.mark_iff hu hwithin
  case depth => exact fun path s hs => ht.depth hs
  case list =>
    intro path within o items hu hitems hwithin
    obtain ⟨s, hs, -⟩ := ht.shown path within (.object o) hu (List.nodup_cons.mp hwithin).2
    obtain ⟨ts, rfl, hts⟩ := (unfolds_list_iff hitems hwithin).mp (ht.at hu hs)
    exact ⟨ts, hs, hts⟩

/-- A list that holds itself, and one that holds another twice. -/
example :
    let m : Memory ⟨Empty, Unit⟩ := ⟨#[.list [.int 1, .object ⟨0, "List"⟩], .list [.int 2],
      .list [.object ⟨1, "List"⟩, .object ⟨1, "List"⟩]], ()⟩
    m.text (.object ⟨0, "List"⟩) = "[1, [...]]" ∧ m.text (.object ⟨2, "List"⟩) = "[[2], [2]]" := by
  cbv

end Memory

end Formula
