import Formula.Proofs.Coherence
import Formula.Proofs.Signatures
import Mathlib.Data.Set.Card

/-!
A cache over any sequence of calls: what it counts, how much it keeps, and which calls are given the
same formula. A formula is handed out under the number it was given when it was compiled, so that
the numbers tell whether two calls were given one and the same.
-/

namespace Formula

inductive CacheCall where
  | getOrCompile (key : CacheKey) (compile : Unit → CompiledFormula)
  | get (key : CacheKey)
  | clear

namespace CacheCall

def key? : CacheCall → Option CacheKey
  | getOrCompile key _ => some key
  | get key => some key
  | clear => none

def isRequest : CacheCall → Bool
  | getOrCompile .. => true
  | _ => false

@[simp] theorem isRequest_getOrCompile (key : CacheKey) (compile : Unit → CompiledFormula) :
    (getOrCompile key compile).isRequest = true := rfl

@[simp] theorem isRequest_get (key : CacheKey) : (get key).isRequest = false := rfl

@[simp] theorem isRequest_clear : clear.isRequest = false := rfl

/-- The keys that are requested after the last clearing. -/
def requested (calls : List CacheCall) : Set CacheKey :=
  {key | ∃ before compile after,
    calls = before ++ getOrCompile key compile :: after ∧ clear ∉ after}

theorem requested_nil : requested [] = ∅ := by
  ext key
  simp [requested]

theorem mem_requested_concat {calls : List CacheCall} {q : CacheCall} {key : CacheKey} :
    key ∈ requested (calls ++ [q]) ↔
      (∃ compile, q = getOrCompile key compile) ∨ (key ∈ requested calls ∧ q ≠ clear) := by
  constructor
  · rintro ⟨before, compile, after, h, hafter⟩
    rcases List.eq_nil_or_concat after with rfl | ⟨after, last, rfl⟩
    · obtain ⟨-, hlast⟩ := List.append_inj' h rfl
      exact .inl ⟨compile, (List.cons.inj hlast).1⟩
    · rw [List.concat_eq_append, ← List.cons_append, ← List.append_assoc] at h
      obtain ⟨hcalls, hlast⟩ := List.append_inj' h rfl
      obtain ⟨hafter, hclear⟩ : clear ∉ after ∧ clear ≠ last := by simpa using hafter
      exact .inr ⟨⟨before, compile, after, hcalls, hafter⟩,
        (List.cons.inj hlast).1 ▸ hclear.symm⟩
  · rintro (⟨compile, rfl⟩ | ⟨⟨before, compile, after, rfl, hafter⟩, hq⟩)
    · exact ⟨calls, compile, [], rfl, List.not_mem_nil⟩
    · exact ⟨before, compile, after ++ [q], by simp, by simpa [hafter] using hq.symm⟩

end CacheCall

namespace Cache

/-- What a cache answers, and what it is from then on. -/
def answer (c : Cache) : CacheCall → Option SharedFormula × Cache
  | .getOrCompile key compile => ((c.getOrCompile key compile).1, (c.getOrCompile key compile).2)
  | .get key => (c.get? key, c)
  | .clear => (none, c.clear)

def answerAll (c : Cache) (calls : List CacheCall) : Cache :=
  calls.foldl (fun c q => (c.answer q).2) c

theorem answerAll_append (c : Cache) (calls calls' : List CacheCall) :
    c.answerAll (calls ++ calls') = (c.answerAll calls).answerAll calls' :=
  List.foldl_append

/-! ### A call -/

/-- All that a call can do. -/
inductive Answers (c : Cache) : CacheCall → Option SharedFormula → Cache → Prop
  | hit {key : CacheKey} {f : SharedFormula} (compile : Unit → CompiledFormula)
      (h : c.get? key = some f) :
      Answers c (.getOrCompile key compile) (some f) { c with hits := c.hits + 1 }
  | miss {key : CacheKey} (compile : Unit → CompiledFormula) (h : c.get? key = none) :
      Answers c (.getOrCompile key compile) (some ⟨c.issued, compile ()⟩)
        ⟨(key, ⟨c.issued, compile ()⟩) :: c.entries, c.hits, c.misses + 1, c.issued + 1⟩
  | get (key : CacheKey) : Answers c (.get key) (c.get? key) c
  | clear : Answers c .clear none c.clear

theorem answers (c : Cache) (q : CacheCall) : c.Answers q (c.answer q).1 (c.answer q).2 := by
  cases q with
  | getOrCompile key compile =>
      cases h : c.get? key with
      | some f =>
          rw [answer, getOrCompile, h]
          exact .hit compile h
      | none =>
          rw [answer, getOrCompile, h]
          exact .miss compile h
  | get key => exact .get key
  | clear => exact .clear

variable {c c' : Cache} {q : CacheCall} {answer : Option SharedFormula} {f g : SharedFormula}
  {key key' : CacheKey}

/-- A formula that a call is given is kept for the key of the call. -/
theorem Answers.get?_eq (h : c.Answers q answer c') (hf : answer = some f) :
    ∃ key, q.key? = some key ∧ c'.get? key = some f := by
  cases h with
  | hit compile h => exact ⟨_, rfl, hf ▸ h⟩
  | miss compile h => exact ⟨_, rfl, by simpa [get?] using hf⟩
  | get key => exact ⟨key, rfl, hf⟩
  | clear => cases hf

theorem Answers.get?_kept (h : c.Answers q answer c') (hq : q ≠ .clear) (hf : c.get? key = some f) :
    c'.get? key = some f := by
  cases h with
  | hit compile h => exact hf
  | @miss other compile h =>
      have hne : other ≠ key := by
        rintro rfl
        rw [h] at hf
        cases hf
      simpa [get?, hne] using hf
  | get key => exact hf
  | clear => exact absurd rfl hq

/-- One formula to a key, each under a number of its own. -/
structure Kept (c : Cache) : Prop where
  keys : (c.entries.map (·.1)).Nodup
  numbers : (c.entries.map (·.2.number)).Nodup
  issued : ∀ key f, (key, f) ∈ c.entries → f.number < c.issued

theorem kept_empty : empty.Kept := ⟨List.nodup_nil, List.nodup_nil, by simp [empty]⟩

theorem get?_eq_none_iff : c.get? key = none ↔ key ∉ c.entries.map (·.1) := by
  simp only [get?, Option.map_eq_none_iff, List.find?_eq_none, List.mem_map, beq_iff_eq, not_exists,
    not_and]

theorem Answers.kept (h : c.Answers q answer c') (hc : c.Kept) : c'.Kept := by
  cases h with
  | hit compile h => exact ⟨hc.keys, hc.numbers, hc.issued⟩
  | @miss key compile h =>
      have hfresh : c.issued ∉ c.entries.map (·.2.number) := by
        rintro hmem
        obtain ⟨⟨other, f⟩, hf, hnumber⟩ := List.mem_map.mp hmem
        exact (hc.issued other f hf).ne hnumber
      refine ⟨List.nodup_cons.mpr ⟨get?_eq_none_iff.mp h, hc.keys⟩,
        List.nodup_cons.mpr ⟨hfresh, hc.numbers⟩, ?_⟩
      rintro other f (_ | ⟨_, hf⟩)
      · exact Nat.lt_succ_self _
      · exact Nat.lt_succ_of_lt (hc.issued other f hf)
  | get key => exact hc
  | clear => exact ⟨List.nodup_nil, List.nodup_nil, by simp [Cache.clear]⟩

theorem Answers.issued_le (h : c.Answers q answer c') : c.issued ≤ c'.issued := by
  cases h with
  | miss compile h => exact Nat.le_succ _
  | hit | get | clear => exact le_rfl

/-- As many as `n` formulas have been compiled, and those that are kept were compiled later. -/
structure Since (n : Nat) (c : Cache) : Prop where
  issued : n ≤ c.issued
  later : ∀ key f, (key, f) ∈ c.entries → n ≤ f.number

theorem Since.clear {n : Nat} (h : n ≤ c.issued) : c.clear.Since n := ⟨h, by simp [Cache.clear]⟩

theorem Answers.since {n : Nat} (h : c.Answers q answer c') (hc : c.Since n) : c'.Since n := by
  cases h with
  | hit compile h => exact ⟨hc.issued, hc.later⟩
  | miss compile h =>
      refine ⟨Nat.le_succ_of_le hc.issued, ?_⟩
      rintro other f (_ | ⟨_, hf⟩)
      · exact hc.issued
      · exact hc.later other f hf
  | get key => exact hc
  | clear => exact .clear hc.issued

/-! ### A sequence of calls -/

theorem answerAll_induction {P : Cache → Prop} (calls : List CacheCall)
    (hstep : ∀ {c c' q answer}, q ∈ calls → c.Answers q answer c' → P c → P c') (hc : P c) :
    P (c.answerAll calls) :=
  List.foldlRecOn calls _ hc fun c hc q hq => hstep hq (c.answers q) hc

theorem Kept.answerAll (h : c.Kept) (calls : List CacheCall) : (c.answerAll calls).Kept :=
  answerAll_induction calls (fun _ h => h.kept) h

theorem Since.answerAll {n : Nat} (h : c.Since n) (calls : List CacheCall) :
    (c.answerAll calls).Since n :=
  answerAll_induction calls (fun _ h => h.since) h

theorem issued_le_answerAll (c : Cache) (calls : List CacheCall) : c.issued ≤ (c.answerAll calls).issued :=
  answerAll_induction (P := fun c' => c.issued ≤ c'.issued) calls (fun _ h hc => hc.trans h.issued_le) le_rfl

/-- Up to a clearing, a formula stays with its key. -/
theorem get?_answerAll {calls : List CacheCall} (hclear : .clear ∉ calls) (h : c.get? key = some f) :
    (c.answerAll calls).get? key = some f :=
  answerAll_induction (P := fun c => c.get? key = some f) calls
    (fun hq h => h.get?_kept fun heq => hclear (heq ▸ hq)) h

/-- What is kept after a clearing was compiled after it. -/
theorem since_of_clear_mem {calls : List CacheCall} {n : Nat} (hclear : .clear ∈ calls)
    (h : n ≤ c.issued) : (c.answerAll calls).Since n := by
  obtain ⟨before, after, rfl⟩ := List.append_of_mem hclear
  rw [answerAll_append]
  exact (Since.clear (h.trans (c.issued_le_answerAll before))).answerAll after

theorem Kept.entry_eq (h : c.Kept) (hf : c.get? key = some f) (hg : c.get? key' = some g)
    (hnumber : f.number = g.number) : key = key' ∧ f = g :=
  Prod.mk.inj (List.inj_on_of_nodup_map h.numbers (mem_of_get? hf) (mem_of_get? hg) hnumber)

/-- Of two calls that are given a formula, the second is given that of the first exactly if it is
for the same key and no clearing comes between them. -/
theorem number_eq_iff {p : CacheCall} {between : List CacheCall} (hc : c.Kept)
    (hf : (c.answer q).1 = some f) (hg : (((c.answer q).2.answerAll between).answer p).1 = some g) :
    (f.number = g.number ↔ q.key? = p.key? ∧ .clear ∉ between) ∧ (f.number = g.number → f = g) := by
  obtain ⟨key, hq, hkey⟩ := (c.answers q).get?_eq hf
  have hlast := ((c.answer q).2.answerAll between).answers p
  obtain ⟨key', hp, hkey'⟩ := hlast.get?_eq hg
  have hkept : (c.answer q).2.Kept := (c.answers q).kept hc
  rw [hq, hp, Option.some.injEq]
  by_cases hclear : CacheCall.clear ∈ between
  · have hlater := hlast.since (since_of_clear_mem hclear (hkept.issued key f (mem_of_get? hkey)))
    have hne : f.number ≠ g.number := Nat.ne_of_lt (hlater.later key' g (mem_of_get? hkey'))
    simp [hne, hclear]
  · have hp' : p ≠ .clear := by
      rintro rfl
      cases hp
    have hkey := hlast.get?_kept hp' (get?_answerAll hclear hkey)
    have heq := (hlast.kept (hkept.answerAll between)).entry_eq hkey hkey'
    refine ⟨⟨fun hnumber => ⟨(heq hnumber).1, hclear⟩, ?_⟩, fun hnumber => (heq hnumber).2⟩
    rintro ⟨rfl, -⟩
    rw [Option.some.inj (hkey.symm.trans hkey')]

/-! ### What is counted -/

/-- The calls so far are counted, and the keys requested since the last clearing are kept. -/
structure Counted (c : Cache) (calls : List CacheCall) : Prop where
  requests : c.hits + c.misses = calls.countP (·.isRequest)
  compiled : c.issued = c.misses
  keys : ∀ key, key ∈ c.entries.map (·.1) ↔ key ∈ CacheCall.requested calls

theorem counted_empty : empty.Counted [] :=
  ⟨rfl, rfl, fun key => by simp [empty, CacheCall.requested_nil]⟩

theorem Answers.counted {calls : List CacheCall} (h : c.Answers q answer c') (hc : c.Counted calls) :
    c'.Counted (calls ++ [q]) := by
  have hrequests := hc.requests
  have hcompiled := hc.compiled
  cases h with
  | @hit key f compile h =>
      have hmem : key ∈ CacheCall.requested calls :=
        (hc.keys key).mp (List.mem_map_of_mem (mem_of_get? h))
      refine ⟨?_, hcompiled, fun other => ?_⟩
      · simp only [List.countP_append, List.countP_singleton, CacheCall.isRequest_getOrCompile, if_true]
        omega
      · rw [hc.keys, CacheCall.mem_requested_concat]
        constructor
        · exact fun h => .inr ⟨h, by simp⟩
        · rintro (⟨_, heq⟩ | ⟨h, -⟩)
          · cases heq
            exact hmem
          · exact h
  | @miss key compile h =>
      refine ⟨?_, congrArg (· + 1) hcompiled, fun other => ?_⟩
      · simp only [List.countP_append, List.countP_singleton, CacheCall.isRequest_getOrCompile, if_true]
        omega
      · simp [CacheCall.mem_requested_concat, ← hc.keys, eq_comm]
  | get key =>
      refine ⟨?_, hcompiled, fun other => ?_⟩
      · simpa using hrequests
      · simp [CacheCall.mem_requested_concat, ← hc.keys]
  | clear =>
      refine ⟨?_, hcompiled, fun other => ?_⟩
      · simpa [Cache.clear] using hrequests
      · simp [CacheCall.mem_requested_concat, Cache.clear]

theorem counted (calls : List CacheCall) : (empty.answerAll calls).Counted calls := by
  induction calls using List.reverseRecOn with
  | nil => exact counted_empty
  | append_singleton calls q ih =>
      rw [answerAll_append]
      exact ((empty.answerAll calls).answers q).counted ih

theorem encard_requested (calls : List CacheCall) :
    (CacheCall.requested calls).encard = (empty.answerAll calls).size := by
  have hkeys : CacheCall.requested calls =
      ((empty.answerAll calls).entries.map (·.1)).toFinset := by
    ext key
    rw [← (counted calls).keys, List.coe_toFinset, Set.mem_ofPred]
  rw [hkeys, Set.encard_coe_eq_coe_finsetCard,
    List.toFinset_card_of_nodup (kept_empty.answerAll calls).keys, List.length_map, size]

/-- A request is a hit, whatever it would compile, or else a miss and is given a formula that it
compiled itself. -/
def HitOrMiss (c : Cache) (key : CacheKey) (compile : Unit → CompiledFormula) : Prop :=
  let c' := (c.getOrCompile key compile).2
  (c'.hits = c.hits + 1 ∧ c'.misses = c.misses ∧ c'.issued = c.issued ∧
      ∀ compile', c.getOrCompile key compile' = c.getOrCompile key compile) ∨
    (c'.hits = c.hits ∧ c'.misses = c.misses + 1 ∧ c'.issued = c.issued + 1 ∧
      (c.getOrCompile key compile).1 = ⟨c.issued, compile ()⟩)

theorem hitOrMiss (c : Cache) (key : CacheKey) (compile : Unit → CompiledFormula) :
    c.HitOrMiss key compile := by
  cases h : c.get? key with
  | some f =>
      have hsame (compile) : c.getOrCompile key compile = (f, { c with hits := c.hits + 1 }) := by
        rw [getOrCompile, h]
      exact .inl (by simp [hsame])
  | none =>
      have hissued : c.getOrCompile key compile = (⟨c.issued, compile ()⟩,
          ⟨(key, ⟨c.issued, compile ()⟩) :: c.entries, c.hits, c.misses + 1, c.issued + 1⟩) := by
        rw [getOrCompile, h]
        rfl
      exact .inr (by simp [hissued])

/-- What holds of a cache after the calls. -/
structure KeepsBooks (calls : List CacheCall) : Prop where
  requests : (empty.answerAll calls).hits + (empty.answerAll calls).misses = calls.countP (·.isRequest)
  compiled : (empty.answerAll calls).issued = (empty.answerAll calls).misses
  entries : (CacheCall.requested calls).encard = (empty.answerAll calls).size
  next : ∀ key compile, (empty.answerAll calls).HitOrMiss key compile
  same_iff : ∀ before q between p after f g, calls = before ++ q :: between ++ p :: after →
    ((empty.answerAll before).answer q).1 = some f →
    ((empty.answerAll (before ++ q :: between)).answer p).1 = some g →
      (f.number = g.number ↔ q.key? = p.key? ∧ .clear ∉ between) ∧ (f.number = g.number → f = g)

/-- A cache keeps its books, and its keys are equal exactly if the formulas are called from one
place, have one text and find the same names with the same declared types. -/
theorem keepsBooks :
    (∀ calls, KeepsBooks calls) ∧
      (∀ uid uid' formula formula' xs ys,
        (⟨uid, formula, (Bindings.ofList xs).signature⟩ : CacheKey) =
            ⟨uid', formula', (Bindings.ofList ys).signature⟩ ↔
          uid = uid' ∧ formula = formula' ∧
            ∀ name, (Bindings.ofList xs).declared? name = (Bindings.ofList ys).declared? name) ∧
      ∀ xs ys : List Variable, xs.Perm ys → (xs.map (·.name)).Nodup →
        (Bindings.ofList xs).signature = (Bindings.ofList ys).signature := by
  refine ⟨fun calls => ?books, fun uid uid' formula formula' xs ys => ?keys, fun _ _ =>
    Bindings.signature_ofList_of_perm⟩
  case books =>
    refine ⟨(counted calls).requests, (counted calls).compiled, encard_requested calls,
      (empty.answerAll calls).hitOrMiss, ?_⟩
    rintro before q between p after f g - hf hg
    rw [answerAll_append] at hg
    exact number_eq_iff (kept_empty.answerAll before) hf hg
  case keys =>
    rw [CacheKey.mk.injEq,
      (Bindings.distinct_ofList xs).signature_eq_iff (Bindings.distinct_ofList ys)]

end Cache

end Formula
