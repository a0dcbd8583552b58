import Formula.Proofs.Coverage
import Formula.Proofs.Separation

/-!
What splitting takes for text in quotes, scanning takes for strings. A text that leaves no quote open has
no string without an end.
-/

namespace Formula

namespace Token

open Statement (openQuote openQuote_append openQuote_cons isUndivided_of_not_mem)

theorem Spells.body_of_string {c : Char} {a rest : List Char} {s : String}
    (h : Spells c a rest (.string s)) : isQuote c = true ∧ a = s.toList ++ [c] ∧ c ∉ s.toList := by
  generalize hk : Kind.string s = k at h
  cases h with
  | word => exact absurd hk.symm (Kind.ofWord_ne rfl _)
  | number _ _ hnumber =>
      obtain ⟨n, rfl⟩ | ⟨x, rfl⟩ := Kind.ofNumber_cases hnumber <;> cases hk
  | string hc ha hbody =>
      obtain rfl := Kind.string.inj hk
      rw [String.toList_ofList]
      exact ⟨hc, ha, hbody⟩
  | mark | operator => cases hk

/-- The only quote outside quotes that a token has is its first character. -/
theorem Spells.eq_nil_of_quote {c : Char} {a rest x y : List Char} {q : Char} {k : Kind}
    (h : Spells c a rest k) (ha : c :: a = x ++ q :: y) (hx : openQuote none x = none)
    (hq : isQuote q = true) : x = [] := by
  cases x with
  | nil => rfl
  | cons d x =>
      obtain ⟨rfl, rfl⟩ := List.cons.inj ha
      cases hc : isQuote c with
      | false => simp [(h.plain hc q (by simp)).2] at hq
      | true =>
          obtain ⟨body, hbody, hmem, -⟩ := h.quoted hc
          obtain ⟨z, hz⟩ : x <+: body := by
            refine List.prefix_of_prefix_length_le ⟨_, hbody⟩ (List.prefix_append body [c]) ?_
            have hlength : (x ++ q :: y).length = (body ++ [c]).length := congrArg List.length hbody
            simp only [List.length_append, List.length_cons, List.length_nil] at hlength
            omega
          have hfront : c ∉ x := fun hc => hmem (hz ▸ List.mem_append_left z hc)
          rw [openQuote_cons, quoteAfter_none, if_pos hc, (isUndivided_of_not_mem hfront).2] at hx
          cases hx

namespace Lexes

variable {pos : Nat} {cs : List Char} {ts : List Token}

theorem quoted_of_string (h : Lexes pos cs ts) {s : String} {place : Span}
    (ht : ⟨.string s, place⟩ ∈ ts) :
    ∃ x q y, cs = x ++ q :: (s.toList ++ q :: y) ∧ openQuote none x = none ∧ isQuote q = true ∧
      q ∉ s.toList ∧ place = (Span.behind x (q :: (s.toList ++ [q]))).shift pos := by
  obtain ⟨x, c, a, rest, rfl, hx, -, hspells, hplace⟩ := h.exists_of_mem ht
  obtain ⟨hc, rfl, hbody⟩ := hspells.body_of_string
  exact ⟨x, c, rest, by simp, hx.2, hc, hbody, hplace⟩

/-- A quote outside quotes begins a string. -/
theorem string_of_quoted (h : Lexes pos cs ts) {x y : List Char} {q : Char} (hcs : cs = x ++ q :: y)
    (hx : openQuote none x = none) (hq : isQuote q = true) :
    ∃ body rest, y = body ++ q :: rest ∧ q ∉ body ∧
      ⟨.string (String.ofList body), (Span.behind x (q :: (body ++ [q]))).shift pos⟩ ∈ ts := by
  induction h generalizing x with
  | nil => simp at hcs
  | @gap pos c cs ts hc _ ih =>
      have hquote : isQuote c = false := (not_separator_of_isGap hc).2
      cases x with
      | nil =>
          obtain ⟨rfl, -⟩ := List.cons.inj hcs
          simp [hq] at hquote
      | cons d x =>
          obtain ⟨rfl, hrest⟩ := List.cons.inj hcs
          rw [openQuote_cons, quoteAfter_none, if_neg (by simp [hquote])] at hx
          obtain ⟨body, rest, hy, hbody, ht⟩ := ih hrest hx
          exact ⟨body, rest, hy, hbody, Span.behind_append_shift [c] x _ pos ▸ ht⟩
  | @token pos c a rest kind ts hc hspells _ ih =>
      rcases Text.append_eq_append_cons hcs with ⟨z, hz⟩ | ⟨x, rfl, hrest⟩
      · obtain rfl := hspells.eq_nil_of_quote hz hx hq
        obtain ⟨rfl, rfl⟩ := List.cons.inj hz
        obtain ⟨body, rfl, hbody, rfl⟩ := hspells.quoted hq
        obtain ⟨-, hy⟩ := List.cons.inj hcs
        refine ⟨body, rest, by simpa using hy.symm, hbody, List.mem_cons.mpr (.inl ?_)⟩
        simp [Span.behind, Span.shift, Nat.add_comm]
      · rw [openQuote_append, hspells.isClosed.2] at hx
        obtain ⟨body, rest, hy, hbody, ht⟩ := ih hrest hx
        exact ⟨body, rest, hy, hbody,
          List.mem_cons_of_mem _ (Span.behind_append_shift (c :: a) x _ pos ▸ ht)⟩

end Lexes

theorem not_mem_of_unterminated {c q : Char} {cs : List Char}
    (h : (lexeme c cs).kind = .error (.unterminatedString q)) : isQuote c = true ∧ c ∉ cs := by
  rw [lexeme] at h
  split at h
  · cases h
  split at h
  · simp only [Kind.ofNumber] at h
    split at h
    · split at h <;> cases h
    · split at h <;> cases h
    · cases h
  split at h
  · next hc =>
    split at h
    · cases h
    · next hcs => exact ⟨hc, by simpa using hcs⟩
  · split at h
    · cases h
    · split at h <;> cases h

/-- Where no quote is open at the end, no string is without one. -/
theorem terminated_of_openQuote {pos : Nat} {cs : List Char} {e : ScanError}
    (h : scanFrom pos cs = .error e) (hcs : openQuote none cs = none) (q : Char) :
    e.fault ≠ .unterminatedString q := by
  fun_induction scanFrom pos cs with
  | case1 => cases h
  | case2 pos c cs hc ih =>
      have hquote : isQuote c = false := (not_separator_of_isGap hc).2
      rw [openQuote_cons, quoteAfter_none, if_neg (by simp [hquote])] at hcs
      exact ih h hcs
  | case3 pos c cs hc taken stop fault hfault =>
      obtain rfl := Except.error.inj h
      rintro rfl
      obtain ⟨hquote, hmem⟩ := not_mem_of_unterminated hfault
      rw [openQuote_cons, quoteAfter_none, if_pos hquote, (isUndivided_of_not_mem hmem).2] at hcs
      cases hcs
  | case4 pos c cs hc taken stop kind hkind e' he ih =>
      obtain rfl := Except.error.inj h
      obtain ⟨a, rest, rfl, hlength⟩ := exists_of_lexeme c cs
      have hspells : Spells c a rest kind := spells_of_lexeme (by rw [← hkind, ← hlength])
      refine ih he ?_
      rw [← List.cons_append, openQuote_append, hspells.isClosed.2] at hcs
      rwa [hlength, ← List.cons_append, List.drop_left]
  | case5 => cases h

end Token

namespace Statement

open Token (isQuote)

/-- A stretch of a formula that is in quotes, and what it holds. It begins outside quotes and ends at the
next quote that is the same, or else with the formula. -/
inductive Quotation (cs : List Char) : Span → List Char → Prop
  | closed {before body after : List Char} {q : Char} (hcs : cs = before ++ q :: (body ++ q :: after))
      (hbefore : Outside before) (hq : isQuote q = true) (hbody : q ∉ body) :
      Quotation cs (.behind before (q :: (body ++ [q]))) body
  | unclosed {before body : List Char} {q : Char} (hcs : cs = before ++ q :: body)
      (hbefore : Outside before) (hq : isQuote q = true) (hbody : q ∉ body) :
      Quotation cs (.behind before (q :: body)) body

/-- A quotation begins with a quote outside quotes. -/
theorem Quotation.exists_of_start {cs held : List Char} {place : Span} (h : Quotation cs place held) :
    ∃ before q rest, cs = before ++ q :: rest ∧ Outside before ∧ isQuote q = true ∧
      place.start = Text.bytes before ∧
      ∀ body after, rest = body ++ q :: after → q ∉ body →
        held = body ∧ place = .behind before (q :: (body ++ [q])) := by
  cases h with
  | @closed before _ after q hcs hbefore hq hbody =>
      refine ⟨before, q, held ++ q :: after, hcs, hbefore, hq, rfl, fun body' after' heq hbody' => ?_⟩
      have hsame := congrArg (List.takeWhile (· != q)) heq
      rw [Token.takeWhile_quoted hbody, Token.takeWhile_quoted hbody'] at hsame
      exact ⟨hsame, by rw [hsame]⟩
  | @unclosed before _ q hcs hbefore hq hbody =>
      refine ⟨before, q, held, hcs, hbefore, hq, rfl, fun body' after' heq _ => ?_⟩
      exact absurd (by simp [heq]) hbody

/-- A character whose place is in the text `body` behind `before` is one of `body`. -/
theorem exists_of_start_inside {before body after x y : List Char} {c : Char}
    (h : before ++ body ++ after = x ++ c :: y) (hstart : Text.bytes before ≤ Text.bytes x)
    (hstop : Text.bytes x < Text.bytes before + Text.bytes body) :
    ∃ x' y', x = before ++ x' ∧ body = x' ++ c :: y' ∧ y = y' ++ after := by
  rw [List.append_assoc] at h
  rcases Text.append_eq_append_cons h with ⟨z, rfl⟩ | ⟨x, rfl, hrest⟩
  · have := c.utf8Size_pos
    simp only [Text.bytes_append, Text.bytes_cons] at hstart
    omega
  rcases Text.append_eq_append_cons hrest with ⟨z, rfl⟩ | ⟨x, rfl, -⟩
  · exact ⟨x, z, rfl, rfl, by simpa using hrest.symm⟩
  · simp only [Text.bytes_append] at hstop
    omega

/-- The strings of a text that begins outside quotes are the quotations that begin in it. -/
theorem quotation_iff_of_lexes {before body after : List Char} {ts : List Token}
    (hbefore : openQuote none before = none) (h : Token.Lexes (Text.bytes before) body ts)
    (place : Span) (s : String) :
    ⟨.string s, place⟩ ∈ ts ↔ Quotation (before ++ body ++ after) place s.toList ∧
      Text.bytes before ≤ place.start ∧ place.start < Text.bytes before + Text.bytes body := by
  constructor
  · intro ht
    obtain ⟨x, q, y, rfl, hx, hq, hs, rfl⟩ := h.quoted_of_string ht
    have houtside : Outside (before ++ x) := by rw [outside_iff, openQuote_append, hbefore, hx]
    have hcs : before ++ (x ++ q :: (s.toList ++ q :: y)) ++ after =
        before ++ x ++ q :: (s.toList ++ q :: (y ++ after)) := by
      simp
    have := q.utf8Size_pos
    refine ⟨Span.behind_append .. ▸ .closed hcs houtside hq hs, Nat.le_add_left .., ?_⟩
    simp only [Span.behind, Span.shift, Text.bytes_append, Text.bytes_cons]
    omega
  · rintro ⟨hquotation, hstart, hstop⟩
    obtain ⟨x, q, rest, hcs, hx, hq, hplace, hends⟩ := hquotation.exists_of_start
    rw [hplace] at hstart hstop
    obtain ⟨x, y, rfl, rfl, rfl⟩ := exists_of_start_inside hcs hstart hstop
    rw [outside_iff, openQuote_append, hbefore] at hx
    obtain ⟨held, rest, rfl, hheld, ht⟩ := h.string_of_quoted rfl hx hq
    obtain ⟨rfl, rfl⟩ := hends held (rest ++ after) (by simp) hheld
    rwa [String.ofList_toList, ← Span.behind_append] at ht

/-- No statement but the last has a string without an end. Where the scanner finds tokens in a statement,
the strings among them are the quotations that begin in it. -/
theorem strings_of_scan (source : String) :
    (∀ span ∈ (split source).dropLast, ∀ e, TokenList.scan source span = .error e →
      ∀ q, e.fault ≠ .unterminatedString q) ∧
      ∀ span ∈ split source, ∀ ts, TokenList.scan source span = .ok ts →
        (∀ t ∈ ts.tokens, t.span.Inside span) ∧
        ∀ place s, ⟨.string s, place⟩ ∈ ts.tokens ↔
          Quotation source.toList place s.toList ∧ span.start ≤ place.start ∧ place.start < span.stop := by
  have h := splits_split source
  constructor
  · intro span hspan e he
    obtain ⟨before, body, after, hsource, hbody, rfl⟩ := h.stands_of_dropLast span hspan
    exact Token.terminated_of_openQuote (TokenList.scanFrom_of_scan_error ⟨after, hsource.symm⟩ he) hbody
  · intro span hspan ts hts
    obtain ⟨before, body, after, hsource, -, hbefore, rfl⟩ := h.stands rfl span hspan
    rw [List.nil_append] at hsource
    have hprefix : before ++ body <+: source.toList := ⟨after, hsource.symm⟩
    refine ⟨fun t ht => ((TokenList.placed_of_scan hprefix hts).1 t ht).inside, ?_⟩
    rw [hsource]
    exact quotation_iff_of_lexes hbefore (TokenList.lexes_of_scan hprefix hts)

end Statement

end Formula
