import Formula.Proofs.Layout
import Formula.Proofs.Whereabouts

/-!
Splitting a formula loses nothing and invents nothing. Quotes are told from what is outside them without
regard to how a formula is cut.
-/

namespace Formula.Statement

open Token (isQuote quoteAfter_none)

/-- A text with no quote open at its end. A quote opens at a quote character outside quotes and runs to
the next character that is the same. -/
inductive Outside : List Char → Prop
  | nil : Outside []
  | plain {cs : List Char} {c : Char} (h : Outside cs) (hc : isQuote c = false) : Outside (cs ++ [c])
  | quoted {cs body : List Char} {q : Char} (h : Outside cs) (hq : isQuote q = true) (hbody : q ∉ body) :
      Outside (cs ++ q :: (body ++ [q]))

/-- Reading from left to right finds the quote that is open at the end, with all that it holds. -/
theorem exists_of_openQuote (cs : List Char) :
    (openQuote none cs = none → Outside cs) ∧
      ∀ q, openQuote none cs = some q →
        ∃ before body, cs = before ++ q :: body ∧ Outside before ∧ isQuote q = true ∧ q ∉ body := by
  induction cs using List.reverseRecOn with
  | nil => exact ⟨fun _ => .nil, by simp⟩
  | append_singleton cs c ih =>
      obtain ⟨houtside, hquoted⟩ := ih
      rw [openQuote_append, openQuote_cons, openQuote_nil]
      cases ho : openQuote none cs with
      | none =>
          rw [quoteAfter_none]
          split
          · next hc =>
            refine ⟨nofun, fun q hq => ?_⟩
            obtain rfl := Option.some.inj hq
            exact ⟨cs, [], rfl, houtside ho, hc, by simp⟩
          · next hc => exact ⟨fun _ => .plain (houtside ho) (by simpa using hc), nofun⟩
      | some q =>
          obtain ⟨before, body, rfl, hbefore, hq, hbody⟩ := hquoted q ho
          rw [quoteAfter]
          split
          · next hc =>
            subst hc
            exact ⟨fun _ => by simpa using Outside.quoted hbefore hq hbody, nofun⟩
          · next hc =>
            refine ⟨nofun, fun q' hq' => ?_⟩
            obtain rfl := Option.some.inj hq'
            exact ⟨before, body ++ [c], by simp, hbefore, hq, by simpa [hbody] using Ne.symm hc⟩

theorem outside_iff {cs : List Char} : Outside cs ↔ openQuote none cs = none := by
  refine ⟨fun h => ?_, (exists_of_openQuote cs).1⟩
  induction h with
  | nil => rfl
  | plain _ hc ih => rw [openQuote_append, ih, openQuote_cons, quoteAfter_none, if_neg (by simp [hc])]; rfl
  | quoted _ hq hbody ih => rw [openQuote_append, ih, (Token.isClosed_quoted hq hbody).2]

theorem isBlank_of_isQuote {q : Char} (hq : isQuote q = true) : Text.isBlank q = false := by
  simp only [isQuote, Bool.or_eq_true, beq_iff_eq] at hq
  rcases hq with rfl | rfl <;> decide

/-- Blanks neither open a quote nor close one. -/
theorem openQuote_of_trimmed {lead body trail : List Char} (hlead : ∀ c ∈ lead, Text.isBlank c = true)
    (htrail : ∀ c ∈ trail, Text.isBlank c = true)
    (h : openQuote none (lead ++ body ++ trail) = none) : openQuote none body = none := by
  rw [openQuote_append, openQuote_append, openQuote_of_blanks hlead] at h
  cases hopen : openQuote none body with
  | none => rfl
  | some q =>
      obtain ⟨-, -, -, -, hq, -⟩ := (exists_of_openQuote body).2 q hopen
      have hmem : q ∉ trail := fun hmem => by simpa [htrail q hmem] using isBlank_of_isQuote hq
      simp [hopen, (isUndivided_of_not_mem hmem).2] at h

namespace Trims

variable {front p : List Char} {span : Option Span} (h : Trims front p span)

include h

/-- Only blanks of a piece are outside its statement. -/
theorem isBlank_of_not_inside {x y : List Char} {c : Char} (hp : p = x ++ c :: y)
    (houtside : ∀ s ∈ span, ¬(Span.behind (front ++ x) [c]).Inside s) : Text.isBlank c = true := by
  cases h with
  | blank h => exact h c (by simp [hp])
  | whole hlead htrail _ =>
      rw [List.append_assoc] at hp
      rcases Text.append_eq_append_cons hp with ⟨z, rfl⟩ | ⟨x, rfl, hrest⟩
      · exact hlead c (by simp)
      rcases Text.append_eq_append_cons hrest with ⟨z, rfl⟩ | ⟨x, rfl, rfl⟩
      · refine absurd ?_ (houtside _ rfl)
        simp only [Span.Inside, Span.behind, Text.bytes_append, Text.bytes_cons, Text.bytes_nil]
        omega
      · exact htrail c (by simp)

end Trims

namespace Splits

variable {front cs : List Char} {spans : List Span} (h : Splits front cs spans)

include h

theorem le_start : ∀ s ∈ spans, Text.bytes front ≤ s.start := by
  induction h with
  | last _ hspan =>
      intro s hs
      obtain ⟨lead, body, trail, -, -, -, -, rfl⟩ := hspan.mem_cases (Option.mem_toList.mp hs)
      simp [Span.behind]
  | more _ _ hspan _ ih =>
      intro s hs
      rcases List.mem_append.mp hs with hs | hs
      · obtain ⟨lead, body, trail, -, -, -, -, rfl⟩ := hspan.mem_cases (Option.mem_toList.mp hs)
        simp [Span.behind]
      · have hle := ih s hs
        simp only [Text.bytes_append] at hle
        omega

theorem pairwise : spans.Pairwise fun s t => s.stop < t.start := by
  have single (o : Option Span) : o.toList.Pairwise fun s t => s.stop < t.start := by cases o <;> simp
  induction h with
  | last => exact single _
  | @more front p cs span spans _ _ hspan hrest ih =>
      refine List.pairwise_append.mpr ⟨single span, ih, fun s hs t ht => ?_⟩
      obtain ⟨lead, body, trail, rfl, -, -, -, rfl⟩ := hspan.mem_cases (Option.mem_toList.mp hs)
      have hlater := hrest.le_start t ht
      simp only [Span.behind, Text.bytes_append, Text.bytes_cons, Text.utf8Size_separator] at hlater ⊢
      omega

/-- A statement that another one follows leaves no quote open. -/
theorem stands_of_dropLast : ∀ s ∈ spans.dropLast, ∃ before body after,
    front ++ cs = before ++ body ++ after ∧ openQuote none body = none ∧ s = .behind before body := by
  induction h with
  | @last _ _ span => cases span <;> simp
  | @more front p cs span spans _ hopen hspan _ ih =>
      intro s hs
      rcases eq_or_ne spans [] with rfl | hne
      · cases span <;> simp at hs
      rw [List.dropLast_append_of_ne_nil hne] at hs
      rcases List.mem_append.mp hs with hs | hs
      · obtain ⟨lead, body, trail, rfl, hlead, htrail, -, rfl⟩ :=
          hspan.mem_cases (Option.mem_toList.mp hs)
        exact ⟨front ++ lead, body, trail ++ ';' :: cs, by simp,
          openQuote_of_trimmed hlead htrail hopen, rfl⟩
      · simpa using ih s hs

/-- A character outside the statements is blank or a separator outside quotes. -/
theorem separator_of_not_inside (hfront : openQuote none front = none) {x y : List Char} {c : Char}
    (hcs : cs = x ++ c :: y) (houtside : ∀ s ∈ spans, ¬(Span.behind (front ++ x) [c]).Inside s) :
    Text.isBlank c = true ∨ c = ';' ∧ openQuote none (front ++ x) = none := by
  induction h generalizing x with
  | last _ hspan =>
      exact .inl (hspan.isBlank_of_not_inside hcs fun s hs => houtside s (Option.mem_toList.mpr hs))
  | @more front p cs span spans _ hopen hspan _ ih =>
      rcases Text.append_eq_append_cons hcs with ⟨z, hz⟩ | ⟨x, rfl, hrest⟩
      · refine .inl (hspan.isBlank_of_not_inside hz fun s hs => houtside s ?_)
        exact List.mem_append_left _ (Option.mem_toList.mpr hs)
      · cases x with
        | nil =>
            obtain ⟨rfl, -⟩ := List.cons.inj hrest
            exact .inr ⟨rfl, by rw [List.append_nil, openQuote_append, hfront, hopen]⟩
        | cons d x =>
            obtain ⟨rfl, hcs'⟩ := List.cons.inj hrest
            have hnext := ih (openQuote_separator hfront hopen) hcs' fun s hs => by
              simpa using houtside s (List.mem_append_right _ hs)
            simpa using hnext

end Splits

/-- The statements of a formula stand in it in order, apart from each other, without blanks at their ends
and without a separator outside quotes. What is left of the formula is blanks and separators outside
quotes. -/
theorem split_separates (source : String) :
    (split source).Pairwise (fun s t => s.stop < t.start) ∧
      (∀ s ∈ split source, ∃ before body after, source.toList = before ++ body ++ after ∧
        s = .behind before body ∧ body ≠ [] ∧ (∀ c ∈ body.head?, Text.isBlank c = false) ∧
        (∀ c ∈ body.getLast?, Text.isBlank c = false) ∧
        ∀ a b, body = a ++ ';' :: b → ¬Outside (before ++ a)) ∧
      ∀ before c after, source.toList = before ++ c :: after →
        (∀ s ∈ split source, ¬(Span.behind before [c]).Inside s) →
        Text.isBlank c = true ∨ c = ';' ∧ Outside before := by
  have h := splits_split source
  refine ⟨h.pairwise, fun s hs => ?_, fun before c after hsource houtside => ?_⟩
  · obtain ⟨before, body, after, hsource, hbody, hbefore, rfl⟩ := h.stands rfl s hs
    obtain ⟨hhead, hlast⟩ := Text.trim_eq_self_iff.mp hbody.trim_eq
    refine ⟨before, body, after, hsource, rfl, hbody.ne_nil, hhead, hlast, ?_⟩
    rintro a b rfl houtside
    have hopen := outside_iff.mp houtside
    rw [openQuote_append, hbefore] at hopen
    have hseparator := (isUndivided_append.mp hbody.isUndivided).2
    rw [hopen] at hseparator
    exact (isUndivided_cons.mp hseparator).1 ⟨rfl, rfl⟩
  · exact (h.separator_of_not_inside rfl hsource houtside).imp_right (.imp_right outside_iff.mpr)

example : split " a;'b;' ; c" = [⟨1, 2⟩, ⟨3, 7⟩, ⟨10, 11⟩] := by decide +kernel

end Formula.Statement
