import Formula.Statement
import Mathlib.Data.List.DropRight

/-!
Where a formula is cut. Quotes are read from left to right, so what a separator does depends only on the
text before it.
-/

namespace Formula

namespace Text

/-- A character of two texts is one of the first or of the second. -/
theorem append_eq_append_cons {a b x y : List Char} {c : Char} (h : a ++ b = x ++ c :: y) :
    (∃ z, a = x ++ c :: z) ∨ ∃ x', x = a ++ x' ∧ b = x' ++ c :: y := by
  rcases List.append_eq_append_iff.mp h with ⟨x', hx, hb⟩ | ⟨z, rfl, hz⟩
  · exact .inr ⟨x', hx, hb⟩
  · cases z with
    | nil => exact .inr ⟨[], by simp, hz.symm⟩
    | cons d z =>
        obtain ⟨rfl, -⟩ := List.cons.inj hz
        exact .inl ⟨z, rfl⟩

@[simp]
theorem utf8Size_separator : (';' : Char).utf8Size = 1 := rfl

theorem trimRight_eq (cs : List Char) : trimRight cs = cs.rdropWhile isBlank := rfl

theorem trimLeft_trim (cs : List Char) : trimLeft (trim cs) = trim cs := by
  cases h : trim cs with
  | nil => rfl
  | cons c rest =>
      obtain ⟨more, hmore⟩ : trim cs <+: trimLeft cs := List.rdropWhile_prefix isBlank _
      have hhead := List.head?_dropWhile_not isBlank cs
      rw [← trimLeft, ← hmore, h] at hhead
      exact List.dropWhile_cons_of_neg (by simpa using hhead)

theorem trim_trim (cs : List Char) : trim (trim cs) = trim cs := by
  rw [trim, trimLeft_trim, trim, trimRight_eq, trimRight_eq, List.rdropWhile_idempotent]

/-- A text is its blanks in front, what trimming keeps, and its blanks behind. -/
theorem append_trim_append (cs : List Char) :
    ∃ blanks, cs.takeWhile isBlank ++ trim cs ++ blanks = cs ∧ ∀ c ∈ blanks, isBlank c = true := by
  obtain ⟨blanks, hblanks, hall⟩ := trimRight_append_trimmed (trimLeft cs)
  refine ⟨blanks, ?_, hall⟩
  rw [trim, List.append_assoc, ← hblanks, trimLeft, List.takeWhile_append_dropWhile]

theorem takeWhile_isBlank_trim (cs : List Char) : (trim cs).takeWhile isBlank = [] := by
  have h := List.takeWhile_append_dropWhile (p := isBlank) (l := trim cs)
  rw [← trimLeft, trimLeft_trim] at h
  exact List.append_left_eq_self.mp h

end Text

/-- The span of a text behind another one. -/
def Span.behind (before body : List Char) : Span :=
  ⟨Text.bytes before, Text.bytes before + Text.bytes body⟩

namespace Statement

/-- The quote that is open behind a character, given the one that is open before it. -/
def quoteAfter : Option Char → Char → Option Char
  | some q, c => if c = q then none else some q
  | none, c => if c = '"' ∨ c = '\'' then some c else none

/-- The quote that is open behind a text. -/
def openQuote (q : Option Char) (cs : List Char) : Option Char := cs.foldl quoteAfter q

@[simp]
theorem openQuote_nil (q : Option Char) : openQuote q [] = q := rfl

@[simp]
theorem openQuote_cons (q : Option Char) (c : Char) (cs : List Char) :
    openQuote q (c :: cs) = openQuote (quoteAfter q c) cs := rfl

theorem openQuote_append (q : Option Char) (a b : List Char) :
    openQuote q (a ++ b) = openQuote (openQuote q a) b := List.foldl_append

theorem pieces_cons (q : Option Char) (c : Char) (cs : List Char) :
    pieces q (c :: cs) =
      if q = none ∧ c = ';' then [] :: pieces none cs
      else (pieces (quoteAfter q c) cs).modifyHead (c :: ·) := by
  cases q with
  | some q => simp [pieces, quoteAfter]
  | none => simp [pieces, quoteAfter]

/-- Not cut anywhere. -/
def IsUndivided (q : Option Char) (cs : List Char) : Prop := pieces q cs = [cs]

theorem isUndivided_cons {q : Option Char} {c : Char} {cs : List Char} :
    IsUndivided q (c :: cs) ↔ ¬(q = none ∧ c = ';') ∧ IsUndivided (quoteAfter q c) cs := by
  obtain ⟨p, ps, hp⟩ := List.exists_cons_of_ne_nil (pieces_ne_nil (quoteAfter q c) cs)
  rw [IsUndivided, pieces_cons, IsUndivided, hp]
  split
  · next h => simp [h]
  · next h => simp [h]

theorem isUndivided_append {q : Option Char} {a b : List Char} :
    IsUndivided q (a ++ b) ↔ IsUndivided q a ∧ IsUndivided (openQuote q a) b := by
  induction a generalizing q with
  | nil => simp [IsUndivided, pieces]
  | cons c a ih => rw [List.cons_append, isUndivided_cons, isUndivided_cons, ih, openQuote_cons, and_assoc]

/-- Nothing counts in quotes but the quote that closes them. -/
theorem isUndivided_of_not_mem {q : Char} {cs : List Char} (h : q ∉ cs) :
    IsUndivided (some q) cs ∧ openQuote (some q) cs = some q := by
  induction cs with
  | nil => simp [IsUndivided, pieces]
  | cons c cs ih =>
      obtain ⟨hc, hcs⟩ := List.ne_and_not_mem_of_not_mem_cons h
      have hafter : quoteAfter (some q) c = some q := if_neg (Ne.symm hc)
      rw [isUndivided_cons, openQuote_cons, hafter]
      exact ⟨⟨by simp, (ih hcs).1⟩, (ih hcs).2⟩

/-- A text is cut at the first separator outside quotes, or nowhere. -/
theorem pieces_cases (q : Option Char) (cs : List Char) :
    IsUndivided q cs ∨ ∃ p rest, cs = p ++ ';' :: rest ∧ IsUndivided q p ∧ openQuote q p = none ∧
      pieces q cs = p :: pieces none rest := by
  induction cs generalizing q with
  | nil => exact .inl (by simp [IsUndivided, pieces])
  | cons c cs ih =>
      by_cases hc : q = none ∧ c = ';'
      · obtain ⟨rfl, rfl⟩ := hc
        exact .inr ⟨[], cs, rfl, by simp [IsUndivided, pieces], rfl, by simp [pieces]⟩
      · rcases ih (quoteAfter q c) with h | ⟨p, rest, rfl, hp, hopen, h⟩
        · exact .inl (isUndivided_cons.mpr ⟨hc, h⟩)
        · refine .inr ⟨c :: p, rest, rfl, isUndivided_cons.mpr ⟨hc, hp⟩, hopen, ?_⟩
          rw [pieces_cons, if_neg hc, h]
          rfl

/-- The pieces with separators between them are the text. -/
theorem intercalate_pieces (q : Option Char) (cs : List Char) : [';'].intercalate (pieces q cs) = cs := by
  induction cs generalizing q with
  | nil => rfl
  | cons c cs ih =>
      rw [pieces_cons]
      split
      · next h =>
        obtain ⟨p, ps, hp⟩ := List.exists_cons_of_ne_nil (pieces_ne_nil none cs)
        have := ih none
        rw [hp] at this ⊢
        simp [this, h.2]
      · obtain ⟨p, ps, hp⟩ := List.exists_cons_of_ne_nil (pieces_ne_nil (quoteAfter q c) cs)
        have := ih (quoteAfter q c)
        rw [hp] at this ⊢
        cases ps with
        | nil => simpa using this
        | cons p' ps => simpa using this

/-- A separator behind a text that leaves no quote open is one. -/
theorem pieces_append_separator {q : Option Char} {a b : List Char} (h : openQuote q a = none) :
    pieces q (a ++ ';' :: b) = pieces q a ++ pieces none b := by
  induction a generalizing q with
  | nil =>
      obtain rfl : q = none := h
      simp [pieces]
  | cons c a ih =>
      rw [List.cons_append, pieces_cons, pieces_cons]
      split
      · next hc =>
        have hq : quoteAfter q c = none := by simp [hc, quoteAfter]
        rw [openQuote_cons, hq] at h
        rw [ih h, List.cons_append]
      · obtain ⟨p, ps, hp⟩ := List.exists_cons_of_ne_nil (pieces_ne_nil (quoteAfter q c) a)
        rw [ih h, hp]
        rfl

theorem openQuote_of_blanks {cs : List Char} (h : ∀ c ∈ cs, Text.isBlank c = true) :
    openQuote none cs = none := by
  induction cs with
  | nil => rfl
  | cons c cs ih =>
      obtain ⟨hc, hcs⟩ := List.forall_mem_cons.mp h
      have hquote : quoteAfter none c = none := by
        rw [quoteAfter, if_neg]
        rintro (rfl | rfl)
        · exact absurd hc (by decide)
        · exact absurd hc (by decide)
      rw [openQuote_cons, hquote, ih hcs]

/-- The text of a statement: whole and without blanks around it. -/
structure IsWhole (body : List Char) : Prop where
  isUndivided : IsUndivided none body
  trim_eq : Text.trim body = body
  ne_nil : body ≠ []

theorem spansFrom_cons (pos : Nat) (piece : List Char) (rest : List (List Char)) :
    spansFrom pos (piece :: rest) =
      (trimmedSpan? pos piece).toList ++ spansFrom (pos + Text.bytes piece + 1) rest := by
  rw [spansFrom]
  cases trimmedSpan? pos piece <;> rfl

/-- What the piece `p` behind `front` is: blank, or a statement with blanks around it. -/
inductive Trims (front : List Char) : List Char → Option Span → Prop
  | blank {p : List Char} (h : ∀ c ∈ p, Text.isBlank c = true) : Trims front p none
  | whole {lead body trail : List Char} (hlead : ∀ c ∈ lead, Text.isBlank c = true)
      (htrail : ∀ c ∈ trail, Text.isBlank c = true) (hbody : IsWhole body) :
      Trims front (lead ++ body ++ trail) (some (.behind (front ++ lead) body))

theorem trims_trimmedSpan? (front : List Char) {p : List Char} (hp : IsUndivided none p) :
    Trims front p (trimmedSpan? (Text.bytes front) p) := by
  obtain ⟨trail, hp', htrail⟩ := Text.append_trim_append p
  have hlead : ∀ c ∈ p.takeWhile Text.isBlank, Text.isBlank c = true :=
    List.all_eq_true.mp List.all_takeWhile
  simp only [trimmedSpan?]
  split
  · next hbody =>
    refine .blank fun c hc => ?_
    rw [← hp', List.isEmpty_iff.mp hbody, List.append_nil] at hc
    exact (List.mem_append.mp hc).elim (hlead c) (htrail c)
  · next hbody =>
    have hspan : (⟨Text.bytes front + Text.bytes (p.takeWhile Text.isBlank),
        Text.bytes front + Text.bytes (p.takeWhile Text.isBlank) + Text.bytes (Text.trim p)⟩ : Span) =
        .behind (front ++ p.takeWhile Text.isBlank) (Text.trim p) := by
      simp [Span.behind]
    have hwhole : IsWhole (Text.trim p) := by
      refine ⟨?_, Text.trim_trim p, by simpa using hbody⟩
      rw [← hp', isUndivided_append, isUndivided_append, openQuote_of_blanks hlead] at hp
      exact hp.1.2
    have htrims : Trims front _ _ := .whole hlead htrail hwhole
    rwa [hp', ← hspan] at htrims

/-- The statements of the text `cs` behind `front`: that of what stands in front of the first separator
outside quotes, and those of what follows it. -/
inductive Splits : List Char → List Char → List Span → Prop
  | last {front p : List Char} {span : Option Span} (hp : IsUndivided none p)
      (hspan : Trims front p span) : Splits front p span.toList
  | more {front p cs : List Char} {span : Option Span} {spans : List Span} (hp : IsUndivided none p)
      (hopen : openQuote none p = none) (hspan : Trims front p span)
      (h : Splits (front ++ p ++ [';']) cs spans) :
      Splits front (p ++ ';' :: cs) (span.toList ++ spans)

theorem splits_spansFrom (front cs : List Char) :
    Splits front cs (spansFrom (Text.bytes front) (pieces none cs)) := by
  rcases pieces_cases none cs with h | ⟨p, rest, rfl, hp, hopen, h⟩
  · rw [h, spansFrom_cons, spansFrom, List.append_nil]
    exact .last h (trims_trimmedSpan? front h)
  · have hnext : Text.bytes front + Text.bytes p + 1 = Text.bytes (front ++ p ++ [';']) := by
      simp [Nat.add_assoc]
    rw [h, spansFrom_cons, hnext]
    exact .more hp hopen (trims_trimmedSpan? front hp) (splits_spansFrom _ rest)
termination_by cs.length

theorem Trims.mem_cases {front p : List Char} {span : Option Span} (h : Trims front p span) {s : Span}
    (hs : s ∈ span) :
    ∃ lead body trail, p = lead ++ body ++ trail ∧ (∀ c ∈ lead, Text.isBlank c = true) ∧
      (∀ c ∈ trail, Text.isBlank c = true) ∧ IsWhole body ∧ s = .behind (front ++ lead) body := by
  cases h with
  | blank => cases hs
  | whole hlead htrail hbody =>
      obtain rfl := Option.mem_some.mp hs
      exact ⟨_, _, _, rfl, hlead, htrail, hbody, rfl⟩

theorem Trims.stands {front p : List Char} {span : Option Span} (h : Trims front p span)
    (hfront : openQuote none front = none) {s : Span} (hs : s ∈ span) (rest : List Char) :
    ∃ before body after, front ++ (p ++ rest) = before ++ body ++ after ∧ IsWhole body ∧
      openQuote none before = none ∧ s = .behind before body := by
  obtain ⟨lead, body, trail, rfl, hlead, -, hbody, rfl⟩ := h.mem_cases hs
  refine ⟨front ++ lead, body, trail ++ rest, by simp, hbody, ?_, rfl⟩
  rw [openQuote_append, hfront, openQuote_of_blanks hlead]

theorem openQuote_separator {front p : List Char} (hfront : openQuote none front = none)
    (hp : openQuote none p = none) : openQuote none (front ++ p ++ [';']) = none := by
  rw [openQuote_append, openQuote_append, hfront, hp]
  rfl

/-- Each statement stands outside quotes. -/
theorem Splits.stands {front cs : List Char} {spans : List Span} (h : Splits front cs spans)
    (hfront : openQuote none front = none) : ∀ s ∈ spans, ∃ before body after,
      front ++ cs = before ++ body ++ after ∧ IsWhole body ∧ openQuote none before = none ∧
        s = .behind before body := by
  induction h with
  | last _ hspan =>
      intro s hs
      simpa using hspan.stands hfront (Option.mem_toList.mp hs) []
  | @more front p cs span spans _ hopen hspan _ ih =>
      intro s hs
      rcases List.mem_append.mp hs with hs | hs
      · exact hspan.stands hfront (Option.mem_toList.mp hs) (';' :: cs)
      · simpa using ih (openQuote_separator hfront hopen) s hs

theorem spansFrom_shift (pos n : Nat) (ps : List (List Char)) :
    spansFrom (pos + n) ps = (spansFrom pos ps).map (.shift n) := by
  induction ps generalizing pos with
  | nil => rfl
  | cons p ps ih =>
      have hspan : trimmedSpan? (pos + n) p = (trimmedSpan? pos p).map (.shift n) := by
        simp only [trimmedSpan?]
        split
        · rfl
        · simp only [Option.map_some, Span.shift, Option.some.injEq, Span.mk.injEq]
          omega
      have hnext : pos + n + Text.bytes p + 1 = pos + Text.bytes p + 1 + n := by omega
      rw [spansFrom_cons, spansFrom_cons, List.map_append, hspan, hnext, ih]
      cases trimmedSpan? pos p <;> rfl

/-- The bytes of pieces with a separator behind each. -/
def width : List (List Char) → Nat
  | [] => 0
  | p :: ps => Text.bytes p + 1 + width ps

theorem spansFrom_append (pos : Nat) (ps qs : List (List Char)) :
    spansFrom pos (ps ++ qs) = spansFrom pos ps ++ (spansFrom 0 qs).map (.shift (pos + width ps)) := by
  induction ps generalizing pos with
  | nil => simp [spansFrom, width, ← spansFrom_shift]
  | cons p ps ih =>
      have hwidth : pos + Text.bytes p + 1 + width ps = pos + width (p :: ps) := by
        rw [width]
        omega
      rw [List.cons_append, spansFrom_cons, spansFrom_cons, ih, hwidth, List.append_assoc]

theorem width_eq_bytes_intercalate {ps : List (List Char)} (h : ps ≠ []) :
    width ps = Text.bytes ([';'].intercalate ps) + 1 := by
  induction ps with
  | nil => exact absurd rfl h
  | cons p ps ih =>
      cases ps with
      | nil => simp [width]
      | cons p' ps =>
          rw [width, ih (by simp)]
          simp only [List.intercalate_cons_cons, Text.bytes_append, Text.bytes_cons, Text.bytes_nil,
            Text.utf8Size_separator]
          omega

theorem width_pieces (q : Option Char) (cs : List Char) : width (pieces q cs) = Text.bytes cs + 1 := by
  rw [width_eq_bytes_intercalate (pieces_ne_nil q cs), intercalate_pieces]

/-- The statements of a formula in two parts are those of the parts, if the first part leaves no quote
open. -/
theorem split_append {f g : String} (h : openQuote none f.toList = none) :
    split (f ++ ";" ++ g) = split f ++ (split g).map (.shift (Text.bytes f.toList + 1)) := by
  have hlist : (f ++ ";" ++ g).toList = f.toList ++ ';' :: g.toList := by simp
  rw [split, hlist, pieces_append_separator h, spansFrom_append, width_pieces, Nat.zero_add]
  rfl

theorem splits_split (source : String) : Splits [] source.toList (split source) :=
  splits_spansFrom [] source.toList

/-- A statement stands somewhere in the source, and is a statement by itself. -/
theorem exists_of_mem_split {source : String} {span : Span} (h : span ∈ split source) :
    ∃ before body, before ++ body <+: source.toList ∧ IsWhole body ∧ span = .behind before body := by
  obtain ⟨before, body, after, hsource, hbody, -, hspan⟩ := (splits_split source).stands rfl span h
  exact ⟨before, body, ⟨after, hsource.symm⟩, hbody, hspan⟩

theorem split_of_isWhole {body : List Char} (h : IsWhole body) :
    split (String.ofList body) = [.behind [] body] := by
  have hblank := Text.takeWhile_isBlank_trim body
  rw [h.trim_eq] at hblank
  rw [split, String.toList_ofList, h.isUndivided]
  simp [spansFrom, trimmedSpan?, hblank, h.trim_eq, h.ne_nil, Span.behind]

end Statement

end Formula
