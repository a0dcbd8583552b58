import Formula.Diagnostic.Snippet
import Formula.Proofs.Layout
import Formula.Proofs.Reporting
import Mathlib

/-!
What is shown below a diagnostic: the line that a label begins on, with marks below the part of the
label's text that stands there. No label begins among the carriage returns at the end of a line, which
are not shown.
-/

namespace Formula

namespace Text

/-- `line` stands behind `above` in the text, from the beginning of a line up to its line feed and the
carriage returns in front of that. -/
structure IsLine (cs above line : List Char) : Prop where
  split : ∃ returns below, cs = above ++ line ++ returns ++ below ∧ (∀ c ∈ returns, c = '\r') ∧
    (below = [] ∨ below.head? = some '\n')
  above : above = [] ∨ above.getLast? = some '\n'
  noFeed : '\n' ∉ line
  noReturn : line.getLast? ≠ some '\r'

theorem exists_of_dropBytes? {n : Nat} {cs rest : List Char} (h : dropBytes? n cs = some rest) :
    ∃ before, cs = before ++ rest ∧ n = bytes before := by
  induction cs generalizing n with
  | nil =>
      cases n with
      | zero => exact ⟨[], by simpa [dropBytes?] using h, rfl⟩
      | succ n => cases h
  | cons c cs ih =>
      cases n with
      | zero => exact ⟨[], by simpa [dropBytes?] using h, rfl⟩
      | succ n =>
          rw [dropBytes?] at h
          split at h
          · obtain ⟨before, hcs, hn⟩ := ih h
            exact ⟨c :: before, by rw [hcs]; rfl, by rw [bytes_cons]; omega⟩
          · cases h

theorem prefix_of_bytes_le {a b cs : List Char} (ha : a <+: cs) (hb : b <+: cs)
    (h : bytes a ≤ bytes b) : a <+: b := by
  rcases List.prefix_or_prefix_of_prefix ha hb with hprefix | ⟨more, rfl⟩
  · exact hprefix
  · cases more with
    | nil => simp
    | cons c cs =>
        have hpos := c.utf8Size_pos
        rw [bytes_append, bytes_cons] at h
        omega

theorem getLast?_rdropWhile {p : Char → Bool} {cs : List Char} {c : Char}
    (h : (cs.rdropWhile p).getLast? = some c) : p c = false := by
  have hhead := List.head?_dropWhile_not p cs.reverse
  rw [List.rdropWhile, List.getLast?_reverse] at h
  rw [h] at hhead
  simpa using hhead

/-- The shorter of two beginnings of a text is what stands before the smaller of their ends. -/
theorem takeBytes?_min {p q cs : List Char} (hp : p <+: cs) (hq : q <+: cs) :
    ∃ part, takeBytes? (min (bytes p) (bytes q)) cs = some part ∧ part <+: q := by
  have taken {p : List Char} (hp : p <+: cs) : takeBytes? (bytes p) cs = some p := by
    obtain ⟨rest, rfl⟩ := hp
    exact takeBytes?_append p rest
  rcases List.prefix_or_prefix_of_prefix hp hq with ⟨more, rfl⟩ | ⟨more, rfl⟩
  · rw [bytes_append, Nat.min_eq_left (Nat.le_add_right ..)]
    exact ⟨p, taken hp, List.prefix_append ..⟩
  · rw [bytes_append, Nat.min_eq_right (Nat.le_add_right ..)]
    exact ⟨q, taken hq, List.prefix_rfl⟩

theorem slice?_behind (before rest : List Char) (n : Nat) :
    slice? (before ++ rest) (bytes before) (bytes before + n) = takeBytes? n rest := by
  rw [slice?, if_pos (Nat.le_add_right ..), dropBytes?_append, Option.bind_some,
    Nat.add_sub_cancel_left]

theorem slice?_of_cut {cs a b c : List Char} {m n : Nat} (hcs : cs = a ++ b ++ c) (hm : m = bytes a)
    (hn : n = bytes a + bytes b) : slice? cs m n = some b := by
  rw [hcs, hm, hn, slice?_middle]

end Text

/-- From one cut of the source to a later one. In front of what follows the first one, or behind what
precedes it, is no gap. -/
theorem Span.StandsIn.exists_cuts {source : String} {t s : Span} (h : StandsIn source t s) :
    ∃ before marked rest, source.toList = before ++ (marked ++ rest) ∧ s = behind before marked ∧
      ((∃ c, (marked ++ rest).head? = some c ∧ Token.isGap c = false) ∨
        ∃ c, before.getLast? = some c ∧ Token.isGap c = false) := by
  obtain ⟨front, body, ⟨after, hafter⟩, hwhole, -, hs⟩ := h
  obtain ⟨a, b, hab, hstart, hhead⟩ := hs.start
  obtain ⟨a', b', hab', hstop⟩ := hs.stop
  obtain ⟨marked, rfl⟩ : a <+: a' := by
    have hle := hs.le
    exact Text.prefix_of_bytes_le (hab ▸ List.prefix_append ..) (hab' ▸ List.prefix_append ..)
      (by omega)
  have hb : b = marked ++ b' := by simpa [hab] using hab'
  refine ⟨front ++ a, marked, b' ++ after, ?_, ?_, ?_⟩
  · rw [← hafter, hab']
    simp only [List.append_assoc]
  · obtain ⟨start, stop⟩ := s
    simp only [behind, Text.bytes_append, mk.injEq] at hstart hstop ⊢
    omega
  · cases b with
    | nil =>
        -- The span begins at the end of the statement, and a statement does not end in a blank.
        right
        obtain rfl : body = a := by simpa using hab
        have hlast := List.getLast?_eq_some_getLast hwhole.ne_nil
        refine ⟨body.getLast hwhole.ne_nil, ?_, ?_⟩
        · rw [List.getLast?_append, hlast, Option.some_or]
        · exact Text.isGap_of_not_isBlank ((Text.trim_eq_self_iff.mp hwhole.trim_eq).2 _ hlast)
    | cons c cs =>
        left
        refine ⟨c, ?_, hhead c rfl⟩
        rw [← List.append_assoc, ← hb]
        rfl

namespace Snippet

open Text

theorem shown_eq (line : List Char) : shown line = line.rdropWhile (· == '\r') := rfl

/-- What is before the last line of a text. -/
def linesAbove (cs : List Char) : List Char := cs.rdropWhile (· != '\n')

theorem count_lastLine (cs : List Char) : (lastLine cs).count '\n' = 0 := by
  refine List.count_eq_zero.mpr fun h => ?_
  exact absurd (List.mem_rtakeWhile_imp (p := (· != '\n')) h) (by decide)

theorem linesAbove_append_lastLine (cs : List Char) : linesAbove cs ++ lastLine cs = cs := by
  rw [linesAbove, lastLine, List.rdropWhile, ← List.reverse_append, List.takeWhile_append_dropWhile,
    List.reverse_reverse]

theorem bytes_linesAbove_add (cs : List Char) :
    bytes (linesAbove cs) + bytes (lastLine cs) = bytes cs := by
  rw [← bytes_append, linesAbove_append_lastLine]

theorem count_linesAbove (cs : List Char) : (linesAbove cs).count '\n' = cs.count '\n' := by
  have h := congrArg (List.count '\n') (linesAbove_append_lastLine cs)
  rwa [List.count_append, count_lastLine, Nat.add_zero] at h

theorem slice?_lastLine (before rest : List Char) :
    slice? (before ++ rest) (bytes (linesAbove before)) (bytes before) = some (lastLine before) :=
  slice?_of_cut (by rw [linesAbove_append_lastLine]) rfl (bytes_linesAbove_add before).symm

/-- `find?` in steps that can be impossible: slices of the source, and a clamp between two bounds. There
is no result if one of them is, and a result without a snippet if the span begins nowhere. -/
def locate? (source : String) (span : Span) : Option (Option Snippet) :=
  let cs := source.toList
  match dropBytes? span.start cs with
  | none => some none
  | some rest => do
    let before ← slice? cs 0 span.start
    let lineStart := bytes (linesAbove before)
    let lineStop := span.start + bytes (rest.takeWhile (· != '\n'))
    let text := shown (← slice? cs lineStart lineStop)
    let limit := lineStart + bytes text
    guard (span.start ≤ limit)
    let stop := max span.start (min span.stop limit)
    let above ← slice? cs 0 lineStart
    let left ← slice? cs lineStart span.start
    return some ⟨above.count '\n' + 1, left.length, ((slice? cs span.start stop).getD []).length, text⟩

section

variable {source : String} {span : Span} {before rest : List Char}
  (hcs : source.toList = before ++ rest) (hstart : span.start = bytes before)

include hcs hstart

theorem find?_of_cut : find? source span = some (between before rest span.length) := by
  rw [find?, hcs, hstart, takeBytes?_append, dropBytes?_append]
  rfl

theorem locate?_of_cut : locate? source span =
    if bytes (lastLine before) ≤ bytes (shown (lastLine before ++ rest.takeWhile (· != '\n'))) then
      some (find? source span)
    else none := by
  have hbefore := linesAbove_append_lastLine before
  have hbytes := bytes_linesAbove_add before
  have hfront : slice? source.toList 0 (bytes before) = some before :=
    slice?_of_cut (a := []) hcs rfl (Nat.zero_add _).symm
  have hline : slice? source.toList (bytes (linesAbove before))
      (bytes before + bytes (rest.takeWhile (· != '\n'))) =
        some (lastLine before ++ rest.takeWhile (· != '\n')) := by
    refine slice?_of_cut (c := rest.dropWhile (· != '\n')) ?_ rfl ?_
    · rw [hcs, ← List.append_assoc, hbefore, List.append_assoc, List.takeWhile_append_dropWhile]
    · rw [bytes_append, ← hbytes, Nat.add_assoc]
  have habove : slice? source.toList 0 (bytes (linesAbove before)) = some (linesAbove before) := by
    refine slice?_of_cut (a := []) (c := lastLine before ++ rest) ?_ rfl (Nat.zero_add _).symm
    rw [hcs, List.nil_append, ← List.append_assoc, hbefore]
  have hleft := slice?_lastLine before rest
  rw [← hcs] at hleft
  have hmarked (n : Nat) : slice? source.toList (bytes before) (max (bytes before) n) =
      takeBytes? (n - bytes before) rest := by
    have hmax : max (bytes before) n = bytes before + (n - bytes before) := by omega
    rw [hmax, hcs, slice?_behind]
  have hdrop : dropBytes? (bytes before) source.toList = some rest := by
    rw [hcs, dropBytes?_append]
  rw [find?_of_cut hcs hstart, locate?, between, hstart]
  simp only [hdrop, hfront, hline, habove, hleft, hmarked, count_linesAbove, Option.bind_eq_bind,
    Option.bind_some]
  generalize shown (lastLine before ++ rest.takeWhile (· != '\n')) = text
  have hwidth : min span.stop (bytes (linesAbove before) + bytes text) - bytes before =
      min span.length (bytes text - bytes (lastLine before)) := by
    rw [Span.length, hstart]
    omega
  have hfits : bytes before ≤ bytes (linesAbove before) + bytes text ↔
      bytes (lastLine before) ≤ bytes text := by omega
  rw [hwidth, guard]
  simp only [hfits]
  split
  · rfl
  · rfl

end

/-- If all steps are possible they find the same snippet. -/
theorem find?_eq_of_locate? {source : String} {span : Span} {s? : Option Snippet}
    (h : locate? source span = some s?) : find? source span = s? := by
  cases hrest : dropBytes? span.start source.toList with
  | none =>
      simp only [locate?, hrest] at h
      obtain rfl := Option.some.inj h
      rw [find?, hrest]
      cases takeBytes? span.start source.toList <;> rfl
  | some rest =>
      obtain ⟨before, hcs, hstart⟩ := exists_of_dropBytes? hrest
      rw [locate?_of_cut hcs hstart] at h
      split at h
      · exact Option.some.inj h
      · cases h

/-- The snippet is the line on which the span begins, and has marks below the part of the span's text
that is on this line. -/
structure Shows (source : String) (span : Span) (s : Snippet) : Prop where
  line : ∃ before, takeBytes? span.start source.toList = some before ∧ s.line = 1 + before.count '\n'
  marks : ∃ above part, IsLine source.toList above s.text ∧
    span.start ≤ bytes above + bytes s.text ∧
    slice? source.toList (bytes above) span.start = some (s.text.take s.column) ∧
    slice? source.toList span.start (min span.stop (bytes above + bytes s.text)) = some part ∧
    (s.text.drop s.column).take s.width = part ∧ part.length = s.width

/-- Carriage returns at the end are at the end of `tail` unless there is nothing else in it and some in
front of it. -/
theorem shown_append {left tail : List Char}
    (h : (∃ c, tail.head? = some c ∧ c ≠ '\r') ∨ left.getLast? ≠ some '\r') :
    shown (left ++ tail) = left ++ shown tail := by
  rw [shown, shown, List.reverse_append, List.dropWhile_append]
  split
  · next hempty =>
    -- Nothing but carriage returns in `tail`, so it is `left` that must not end in one.
    have hreturns : ∀ c ∈ tail, c = '\r' := by simpa using hempty
    have hleft : left.getLast? ≠ some '\r' := by
      rcases h with ⟨c, hc, hne⟩ | h
      · exact absurd (hreturns c (List.mem_of_mem_head? hc)) hne
      · exact h
    rw [List.isEmpty_iff.mp hempty, List.reverse_nil, List.append_nil, ← shown, shown_eq,
      List.rdropWhile_eq_self_iff]
    intro hne heq
    exact hleft (by rw [List.getLast?_eq_some_getLast hne, beq_iff_eq.mp heq])
  · rw [List.reverse_append, List.reverse_reverse]

theorem shown_append_returns (line : List Char) :
    ∃ returns, line = shown line ++ returns ∧ ∀ c ∈ returns, c = '\r' := by
  refine ⟨line.rtakeWhile (· == '\r'), ?_, fun c hc => ?_⟩
  · rw [shown, List.rtakeWhile, ← List.reverse_append, List.takeWhile_append_dropWhile,
      List.reverse_reverse]
  · simpa using List.mem_rtakeWhile_imp (p := (· == '\r')) hc

/-- The line on which a text is cut, up to its carriage returns. -/
theorem isLine_shown (before rest : List Char) :
    IsLine (before ++ rest) (linesAbove before)
      (shown (lastLine before ++ rest.takeWhile (· != '\n'))) where
  split := by
    obtain ⟨returns, hline, hreturns⟩ :=
      shown_append_returns (lastLine before ++ rest.takeWhile (· != '\n'))
    refine ⟨returns, rest.dropWhile (· != '\n'), ?_, hreturns, ?_⟩
    · rw [List.append_assoc (linesAbove before), ← hline, ← List.append_assoc,
        linesAbove_append_lastLine, List.append_assoc, List.takeWhile_append_dropWhile]
    · have hhead := List.head?_dropWhile_not (· != '\n') rest
      cases hbelow : rest.dropWhile (· != '\n') with
      | nil => exact .inl rfl
      | cons c cs =>
          rw [hbelow] at hhead
          right
          simpa using hhead
  above := by
    cases h : (linesAbove before).getLast? with
    | none => exact .inl (List.getLast?_eq_none_iff.mp h)
    | some c =>
        right
        simpa using getLast?_rdropWhile h
  noFeed h := by
    have hmem := (List.rdropWhile_prefix (· == '\r') _).subset (shown_eq _ ▸ h)
    rcases List.mem_append.mp hmem with h | h
    · exact absurd (List.mem_rtakeWhile_imp (p := (· != '\n')) h) (by decide)
    · exact absurd (List.mem_takeWhile_imp (p := (· != '\n')) h) (by decide)
  noReturn h := absurd (getLast?_rdropWhile (shown_eq _ ▸ h)) (by decide)

section

variable {source : String} {before marked rest : List Char}
  (hcs : source.toList = before ++ (marked ++ rest))
  (hsolid : (∃ c, (marked ++ rest).head? = some c ∧ Token.isGap c = false) ∨
    ∃ c, before.getLast? = some c ∧ Token.isGap c = false)

include hsolid in
theorem shown_of_solid : shown (lastLine before ++ (marked ++ rest).takeWhile (· != '\n')) =
    lastLine before ++ shown ((marked ++ rest).takeWhile (· != '\n')) := by
  refine shown_append ?_
  rcases hsolid with ⟨c, hc, hgap⟩ | ⟨c, hc, hgap⟩
  · left
    cases hcut : marked ++ rest with
    | nil => simp [hcut] at hc
    | cons d cs =>
        obtain rfl : d = c := by simpa [hcut] using hc
        have hfeed : (d != '\n') = true := bne_iff_ne.mpr fun h => by simp [h, Token.isGap] at hgap
        refine ⟨d, by rw [List.takeWhile_cons, hfeed]; rfl, ?_⟩
        rintro rfl
        simp [Token.isGap] at hgap
  · right
    intro hreturn
    rw [← linesAbove_append_lastLine before, List.getLast?_append, hreturn] at hc
    obtain rfl := Option.some.inj hc
    simp [Token.isGap] at hgap

include hcs

theorem shows_between {right : List Char} (hright : right <+: marked ++ rest)
    (hshown : shown (lastLine before ++ (marked ++ rest).takeWhile (· != '\n')) =
      lastLine before ++ right) :
    (between before (marked ++ rest) (bytes marked)).Shows source (.behind before marked) := by
  obtain ⟨part, htake, hpart⟩ := takeBytes?_min (List.prefix_append marked rest) hright
  have hbytes := bytes_linesAbove_add before
  have hbetween : between before (marked ++ rest) (bytes marked) =
      ⟨before.count '\n' + 1, (lastLine before).length, part.length, lastLine before ++ right⟩ := by
    simp only [between, hshown, bytes_append, Nat.add_sub_cancel_left, htake, Option.getD_some]
  have hstop : min (bytes before + bytes marked)
      (bytes (linesAbove before) + bytes (lastLine before ++ right)) =
        bytes before + min (bytes marked) (bytes right) := by
    rw [bytes_append]
    omega
  rw [hbetween]
  refine ⟨⟨before, ?_, Nat.add_comm ..⟩, linesAbove before, part, ?_, ?_, ?_, ?_, ?_, rfl⟩
  · rw [hcs]
    exact takeBytes?_append ..
  · rw [hcs, ← hshown]
    exact isLine_shown ..
  · simp only [Span.behind, bytes_append]
    omega
  · rw [List.take_left, hcs]
    exact slice?_lastLine before (marked ++ rest)
  · simp only [Span.behind]
    rw [hstop, hcs, slice?_behind, htake]
  · rw [List.drop_left]
    exact (List.prefix_iff_eq_take.mp hpart).symm

include hsolid

/-- A span with no gap behind or in front of its first cut begins on what is shown of its line. -/
theorem exists_of_cuts : ∃ s, locate? source (.behind before marked) = some (some s) ∧
      find? source (.behind before marked) = some s ∧ s.Shows source (.behind before marked) := by
  have hshown := shown_of_solid hsolid
  have hlength : (Span.behind before marked).length = bytes marked := Nat.add_sub_cancel_left ..
  have hstart : (Span.behind before marked).start = bytes before := rfl
  have hlocate := locate?_of_cut hcs hstart
  rw [if_pos (by rw [hshown, bytes_append]; omega), find?_of_cut hcs hstart] at hlocate
  refine ⟨_, hlocate, find?_eq_of_locate? hlocate, ?_⟩
  rw [hlength]
  refine shows_between hcs ?_ hshown
  exact (List.rdropWhile_prefix (· == '\r') _).trans (List.takeWhile_prefix _)

end

end Snippet

namespace Engine

variable {H : Host}

/-- A diagnostic of compiling or evaluating a formula, among them that of the error that ends the
evaluation. -/
inductive Produces (e : Engine H) (s : Session H) (formula : String) : Diagnostic → Prop
  | compiling {uid f s' c d} : e.compile uid formula s = .ok f s' → c ∈ f.compiled.statements →
      c.outcome = .error d → Produces e s formula d
  | evaluating {uid ev d} : (e.effect uid formula s).1 = .ok ev → d ∈ ev.diagnostics →
      Produces e s formula d
  | failing {uid err} : (e.effect uid formula s).1 = .error err → Produces e s formula err.diagnostic

variable {e : Engine H} {s : Session H} {formula : String} {d : Diagnostic}

theorem Produces.points (h : e.Produces s formula d) (hs : s.cache.Coherent e) :
    ∃ t, d.Points (Span.StandsIn formula t) := by
  have hreports := CompiledFormula.reports e.registry e.config.maxHops
    (.of e.registry.directory s.world.bindings) formula
  cases h with
  | @compiling uid _ _ c _ hf hc hd =>
      obtain ⟨f, cache, hcompile, hcompiled, -⟩ := compile_of_coherent hs uid formula
      obtain ⟨rfl, -⟩ := EStateM.Result.ok.inj (hcompile.symm.trans hf)
      rw [hcompiled] at hc
      exact ⟨_, (hreports c hc).compiling d hd⟩
  | @evaluating uid ev _ hev hd =>
      have hreported := reported_of_reports hs hreports uid
      rw [hev] at hreported
      obtain ⟨c, hpoints⟩ := hreported.points_of_mem hd
      exact ⟨_, hpoints⟩
  | @failing uid err herr =>
      have hreported := reported_of_reports hs hreports uid
      rw [herr] at hreported
      obtain ⟨done, c, rest, ev, w, w', -, -, -, hpoints⟩ := hreported
      exact ⟨_, hpoints⟩

end Engine

end Formula
