import Formula.Proofs.Isolation
import Formula.Proofs.Relexing
import Mathlib

/-!
Layout does not matter. The gaps between the tokens of a statement may be changed at will, as long as
those that keep two tokens apart do not vanish.
-/

namespace Formula

namespace Text

theorem isBlank_of_isGap {c : Char} (h : Token.isGap c = true) : isBlank c = true := by
  simp only [Token.isGap, Bool.or_eq_true, beq_iff_eq] at h
  rcases h with ((rfl | rfl) | rfl) | rfl <;> decide

theorem isGap_of_not_isBlank {c : Char} (h : isBlank c = false) : Token.isGap c = false := by
  rw [Bool.eq_false_iff]
  intro hgap
  rw [isBlank_of_isGap hgap] at h
  cases h

/-- Trimming keeps a text exactly if no blank stands at either end. -/
theorem trim_eq_self_iff {cs : List Char} :
    trim cs = cs ↔ (∀ c, cs.head? = some c → isBlank c = false) ∧
      ∀ c, cs.getLast? = some c → isBlank c = false := by
  constructor
  · intro h
    constructor
    · intro c hc
      have hhead := List.head?_dropWhile_not isBlank cs
      rw [← trimLeft, ← h, trimLeft_trim, h, hc] at hhead
      simpa using hhead
    · intro c hc
      have hright : cs.rdropWhile isBlank = cs := by
        rw [← h, trim, trimRight_eq, List.rdropWhile_idempotent]
      have hne : cs ≠ [] := by
        rintro rfl
        cases hc
      rw [List.getLast?_eq_some_getLast hne] at hc
      simpa [Option.some.inj hc] using List.rdropWhile_eq_self_iff.mp hright hne
  · rintro ⟨hhead, hlast⟩
    have hleft : trimLeft cs = cs := by
      cases cs with
      | nil => rfl
      | cons c cs => exact List.dropWhile_cons_of_neg (by simp [hhead c rfl])
    rw [trim, hleft, trimRight_eq, List.rdropWhile_eq_self_iff]
    intro hne
    rw [hlast _ (List.getLast?_eq_some_getLast hne)]
    decide

end Text

namespace Token

/-- A text that stands at offset `pos` of the source, cut into tokens and what is between them. -/
inductive Cuts (source : String) : Nat → List Char → List Token → Prop
  | nil (pos : Nat) : Cuts source pos [] []
  | gap {pos : Nat} {c : Char} {cs : List Char} {ts : List Token} (hc : isGap c = true)
      (h : Cuts source (pos + c.utf8Size) cs ts) : Cuts source pos (c :: cs) ts
  | token {pos stop : Nat} {c : Char} {a rest : List Char} {kind : Kind} {ts : List Token}
      (hc : isGap c = false) (hlexeme : lexeme c (a ++ rest) = ⟨.ok kind, (c :: a).length⟩)
      (htext : (Span.slice ⟨pos, stop⟩ source).toList = c :: a) (h : Cuts source stop rest ts) :
      Cuts source pos (c :: a ++ rest) (⟨kind, ⟨pos, stop⟩⟩ :: ts)

theorem Lexes.cuts {source : String} {pos : Nat} {before body : List Char} {ts : List Token}
    (h : Lexes pos body ts) (hpos : pos = Text.bytes before)
    (hbody : before ++ body <+: source.toList) : Cuts source pos body ts := by
  induction h generalizing before with
  | nil => exact .nil _
  | @gap _ c cs _ hc _ ih =>
      have hnext : before ++ [c] ++ cs <+: source.toList := by simpa using hbody
      exact .gap hc (ih (by simp [hpos]) hnext)
  | @token pos c a rest _ _ hc hspells _ ih =>
      subst hpos
      have hnext : before ++ c :: a ++ rest <+: source.toList := by simpa using hbody
      have hprefix : before ++ c :: a <+: source.toList := (List.prefix_append _ rest).trans hnext
      have htext : ((Span.behind before (c :: a)).slice source).toList = c :: a := by
        rw [Span.slice_behind hprefix, String.toList_ofList]
      exact .token hc (lexeme_of_spells hspells) htext (ih (by simp) hnext)

theorem not_separator_of_isGap {c : Char} (h : isGap c = true) : c ≠ ';' ∧ isQuote c = false := by
  simp only [isGap, Bool.or_eq_true, beq_iff_eq] at h
  rcases h with ((rfl | rfl) | rfl) | rfl <;> decide

/-- Without separators that count and without an open quote at the end. -/
def IsClosed (cs : List Char) : Prop :=
  Statement.IsUndivided none cs ∧ Statement.openQuote none cs = none

theorem quoteAfter_none (c : Char) : Statement.quoteAfter none c = if isQuote c then some c else none := by
  simp [Statement.quoteAfter, isQuote]

theorem isClosed_append {a b : List Char} (ha : IsClosed a) (hb : IsClosed b) : IsClosed (a ++ b) := by
  refine ⟨Statement.isUndivided_append.mpr ⟨ha.1, by rw [ha.2]; exact hb.1⟩, ?_⟩
  rw [Statement.openQuote_append, ha.2, hb.2]

theorem isClosed_nil : IsClosed [] := ⟨by simp [Statement.IsUndivided, Statement.pieces], rfl⟩

theorem isClosed_of_forall {cs : List Char} (h : ∀ c ∈ cs, c ≠ ';' ∧ isQuote c = false) :
    IsClosed cs := by
  induction cs with
  | nil => exact isClosed_nil
  | cons c cs ih =>
      obtain ⟨⟨hc, hquote⟩, hcs⟩ := List.forall_mem_cons.mp h
      rw [IsClosed, Statement.isUndivided_cons, Statement.openQuote_cons, quoteAfter_none,
        if_neg (by simp [hquote])]
      exact ⟨⟨by simp [hc], (ih hcs).1⟩, (ih hcs).2⟩

theorem isClosed_quoted {q : Char} {body : List Char} (hq : isQuote q = true) (hbody : q ∉ body) :
    IsClosed (q :: (body ++ [q])) := by
  obtain ⟨hinside, hopen⟩ := Statement.isUndivided_of_not_mem hbody
  rw [IsClosed, Statement.isUndivided_cons, Statement.openQuote_cons, quoteAfter_none, if_pos hq,
    Statement.isUndivided_append, Statement.openQuote_append, hopen]
  refine ⟨⟨?_, hinside, ?_⟩, ?_⟩
  · rintro ⟨-, rfl⟩
    exact absurd hq (by decide)
  · simp [Statement.isUndivided_cons, Statement.quoteAfter, isClosed_nil.1]
  · simp [Statement.quoteAfter]

theorem forall_mem_numberRun (cs : List Char) : ∀ c ∈ numberRun cs, c.isDigit = true ∨ c = '.' := by
  induction cs with
  | nil => simp [numberRun]
  | cons c cs ih =>
      rw [numberRun]
      split
      · next hc =>
        refine List.forall_mem_cons.mpr ⟨?_, ih⟩
        simp only [Bool.or_eq_true, Bool.and_eq_true, beq_iff_eq] at hc
        exact hc.imp_right (·.1)
      · simp

/-- A token that does not begin with a quote has neither quotes nor separators. -/
theorem Spells.plain {c : Char} {a rest : List Char} {k : Kind} (h : Spells c a rest k)
    (hc : isQuote c = false) : ∀ d ∈ c :: a, d ≠ ';' ∧ isQuote d = false := by
  have apart {p : Char → Prop} (hall : ∀ d ∈ c :: a, p d) (hsep : ¬p ';') (hdouble : ¬p '"')
      (hsingle : ¬p '\'') : ∀ d ∈ c :: a, d ≠ ';' ∧ isQuote d = false := by
    refine fun d hd => ⟨?_, ?_⟩
    · rintro rfl
      exact hsep (hall _ hd)
    · rw [Bool.eq_false_iff]
      intro hquote
      simp only [isQuote, Bool.or_eq_true, beq_iff_eq] at hquote
      rcases hquote with rfl | rfl
      · exact hdouble (hall _ hd)
      · exact hsingle (hall _ hd)
  cases h with
  | word _ hrun =>
      obtain ⟨-, hall, -⟩ := takeWhile_append_eq_left (congrArg List.length hrun)
      exact apart hall (by decide) (by decide) (by decide)
  | number _ hrun => exact apart (hrun ▸ forall_mem_numberRun _) (by decide) (by decide) (by decide)
  | string hquote => simp [hquote] at hc
  | @mark m hm ha =>
      refine apart (p := (· = m.char)) (by simp [hm, ha]) ?_ ?_ ?_ <;> cases m <;> decide
  | @operator o hsymbol =>
      exact apart (p := (· ∈ Operator.chars))
        (fun d hd => Operator.mem_chars_of_mem_symbol o (hsymbol ▸ hd)) (by decide) (by decide)
        (by decide)

theorem Spells.quoted {c : Char} {a rest : List Char} {k : Kind} (h : Spells c a rest k)
    (hc : isQuote c = true) : ∃ body, a = body ++ [c] ∧ c ∉ body ∧ k = .string (String.ofList body) := by
  cases h with
  | word hname => simp [(not_isNameStart_of_isQuote hc).1] at hname
  | number hdigit => simp [(not_isNameStart_of_isQuote hc).2] at hdigit
  | string _ ha hbody => exact ⟨_, ha, hbody, rfl⟩
  | @mark m hm => cases m <;> simp [← hm, Mark.char, isQuote] at hc
  | @operator o hsymbol =>
      have hmem := Operator.mem_chars_of_mem_symbol o (c := c) (by simp [hsymbol])
      simp [(only_operator_of_mem_chars hmem).2.2.2.1] at hc

theorem Spells.isClosed {c : Char} {a rest : List Char} {k : Kind} (h : Spells c a rest k) :
    IsClosed (c :: a) := by
  cases hc : isQuote c with
  | false => exact isClosed_of_forall (h.plain hc)
  | true =>
      obtain ⟨body, rfl, hbody, -⟩ := h.quoted hc
      exact isClosed_quoted hc hbody

variable {source : String} {pos : Nat} {body : List Char} {t : Token} {ts : List Token}

/-- The first token stands behind the gap that a text begins with. -/
theorem Cuts.start_eq (h : Cuts source pos body (t :: ts)) :
    t.span.start = pos + Text.bytes (body.takeWhile isGap) := by
  generalize hts : t :: ts = us at h
  induction h with
  | nil => cases hts
  | gap hc _ ih => rw [ih hts, List.takeWhile_cons_of_pos hc, Text.bytes_cons, Nat.add_assoc]
  | token hc =>
      obtain ⟨rfl, -⟩ := List.cons.inj hts
      rw [List.cons_append, List.takeWhile_cons_of_neg (by simp [hc])]
      rfl

theorem Scans.gaps {gap rest : List Char} {ks : List Kind} (hgap : ∀ c ∈ gap, isGap c = true)
    (h : Scans rest ks) : Scans (gap ++ rest) ks := by
  induction gap with
  | nil => exact h
  | cons g gap ih =>
      obtain ⟨hg, hgap⟩ := List.forall_mem_cons.mp hgap
      exact .gap hg (ih hgap)

end Token

/-- A text in which the texts of the tokens stand one behind the other with gaps between them, at least
where there are gaps between them in the source. -/
inductive Respaced (source : String) : List Token → List Char → Prop
  | nil : Respaced source [] []
  | single (t : Token) : Respaced source [t] (t.span.slice source).toList
  | cons {t u : Token} {ts : List Token} {gap rest : List Char}
      (hgap : ∀ c ∈ gap, Token.isGap c = true) (hapart : t.span.stop < u.span.start → gap ≠ [])
      (hrest : Respaced source (u :: ts) rest) :
      Respaced source (t :: u :: ts) ((t.span.slice source).toList ++ (gap ++ rest))

namespace Respaced

open Token

variable {source : String} {pos : Nat} {body new : List Char} {ts : List Token}

/-- What follows a token goes on as the source does up to a gap, whatever gap comes first. -/
theorem follows_of_apart {gap rest : List Char} {u : Token} (h : Cuts source pos body (u :: ts))
    (hgap : ∀ c ∈ gap, isGap c = true) (hapart : pos < u.span.start → gap ≠ [])
    (hrest : Follows (body.dropWhile isGap) rest) : Follows body (gap ++ rest) := by
  cases gap with
  | cons g gap => exact .gap body _ (hgap g (List.mem_cons_self ..))
  | nil =>
      have hnone : body.takeWhile isGap = [] := by
        cases hbody : body.takeWhile isGap with
        | nil => rfl
        | cons c more =>
            have := c.utf8Size_pos
            exact absurd rfl (hapart (by rw [h.start_eq, hbody, Text.bytes_cons]; omega))
      have hsplit := List.takeWhile_append_dropWhile (p := isGap) (l := body)
      rw [hnone, List.nil_append] at hsplit
      rwa [hsplit] at hrest

/-- What is put together from the tokens of a text has tokens of the same kinds, and goes on as the text
does up to the first gap that is new. -/
theorem scans (h : Cuts source pos body ts) (hnew : Respaced source ts new) :
    Scans new (ts.map (·.kind)) ∧ Follows (body.dropWhile isGap) new := by
  induction h generalizing new with
  | nil =>
      cases hnew
      exact ⟨.nil, .stop _⟩
  | gap hc _ ih =>
      rw [List.dropWhile_cons_of_pos hc]
      exact ih hnew
  | @token pos stop c a rest kind tail hc hlexeme htext h ih =>
      rw [List.cons_append, List.dropWhile_cons_of_neg (by simp [hc]), ← List.cons_append]
      have join {more : List Char} (hscans : Scans more (tail.map (·.kind)))
          (hfollows : Follows rest more) :
          Scans (c :: a ++ more) (kind :: tail.map (·.kind)) ∧
            Follows (c :: a ++ rest) (c :: a ++ more) :=
        ⟨.lexeme hc (lexeme_of_follows hfollows hlexeme) hscans, hfollows.append (c :: a)⟩
      cases hnew with
      | single =>
          rw [htext, ← List.append_nil (c :: a)]
          simpa using join .nil (.stop rest)
      | cons hgap hapart hrest =>
          obtain ⟨hscans, hfollows⟩ := ih hrest
          rw [htext]
          exact join (hscans.gaps hgap) (follows_of_apart h hgap hapart hfollows)

theorem isClosed (h : Cuts source pos body ts) (hnew : Respaced source ts new) : IsClosed new := by
  induction h generalizing new with
  | nil => cases hnew; exact isClosed_nil
  | gap _ _ ih => exact ih hnew
  | token hc hlexeme htext _ ih =>
      have htoken := (spells_of_lexeme hlexeme).isClosed
      cases hnew with
      | single => exact htext ▸ htoken
      | cons hgap _ hrest =>
          have hgaps := isClosed_of_forall fun g hg => not_separator_of_isGap (hgap g hg)
          exact htext ▸ isClosed_append htoken (isClosed_append hgaps (ih hrest))

theorem head?_eq (h : Cuts source pos body ts) (hnew : Respaced source ts new) :
    new.head? = (body.dropWhile isGap).head? := by
  induction h generalizing new with
  | nil => cases hnew; rfl
  | gap hc _ ih => rw [List.dropWhile_cons_of_pos hc, ih hnew]
  | token hc _ htext _ _ =>
      rw [List.cons_append, List.dropWhile_cons_of_neg (by simp [hc])]
      cases hnew <;> simp [htext]

theorem getLast?_eq (h : Cuts source pos body ts) (hnew : Respaced source ts new)
    (hlast : ∀ c, body.getLast? = some c → isGap c = false) : new.getLast? = body.getLast? := by
  induction h generalizing new with
  | nil => cases hnew; rfl
  | @gap _ c cs _ hc _ ih =>
      cases cs with
      | nil => simp [hlast c rfl] at hc
      | cons d cs =>
          rw [List.getLast?_cons_cons] at hlast ⊢
          exact ih hnew hlast
  | @token _ _ c a rest _ _ _ _ htext h ih =>
      have hrest : ∀ d, rest.getLast? = some d → isGap d = false := fun d hd =>
        hlast d (by rw [List.getLast?_append, hd]; rfl)
      rw [List.getLast?_append]
      cases hnew with
      | single => rw [htext, ← ih .nil hrest]; rfl
      | cons _ _ hnew =>
          have hsame := ih hnew hrest
          cases rest with
          | nil => cases h
          | cons d rest =>
              rw [htext, List.getLast?_append, List.getLast?_append, hsame, List.getLast?_cons]
              rfl

theorem isWhole (h : Cuts source pos body ts) (hbody : Statement.IsWhole body)
    (hnew : Respaced source ts new) : Statement.IsWhole new := by
  obtain ⟨hhead, hlast⟩ := Text.trim_eq_self_iff.mp hbody.trim_eq
  have hnewLast := hnew.getLast?_eq h fun c hc => Text.isGap_of_not_isBlank (hlast c hc)
  have hnewHead : new.head? = body.head? := by
    rw [hnew.head?_eq h]
    cases body with
    | nil => rfl
    | cons c cs => rw [List.dropWhile_cons_of_neg (by simp [Text.isGap_of_not_isBlank (hhead c rfl)])]
  refine ⟨(hnew.isClosed h).1, Text.trim_eq_self_iff.mpr ⟨?_, ?_⟩, ?_⟩
  · rwa [hnewHead]
  · rwa [hnewLast]
  · rintro rfl
    exact hbody.ne_nil (List.head?_eq_none_iff.mp hnewHead.symm)

end Respaced

theorem Token.relocate_forget {ts us : List Token} (h : ts.map (·.kind) = us.map (·.kind)) :
    ts.map (·.relocate .forget) = us.map (·.relocate .forget) := by
  have hforget (ts : List Token) :
      ts.map (·.relocate .forget) = (ts.map (·.kind)).map fun k => ⟨k, default⟩ := by
    rw [List.map_map]
    rfl
  rw [hforget, hforget, h]

namespace Program

/-- The program that the tokens of a statement make up. -/
def ofTokens (maxHops : Nat) (scope : Scope) (ts : TokenList) : Except ParseError Program := do
  ofExpr scope (← Expr.ofTokens maxHops ts)

theorem ofTokens_relocate (m : Relocation) (maxHops : Nat) (scope : Scope) (ts : TokenList) :
    ofTokens maxHops scope (ts.relocate m) = m.outcome (relocate m) (ofTokens maxHops scope ts) :=
  Relocation.outcome_bind (Expr.ofTokens_relocate m maxHops ts) fun e _ => ofExpr_relocate m scope e

theorem ofSource_of_scan {maxHops : Nat} {scope : Scope} {source : String} {span : Span}
    {ts : TokenList} (h : TokenList.scan source span = .ok ts) :
    ofSource maxHops scope source span = (ofTokens maxHops scope ts).mapError (·.diagnostic) := by
  simp only [ofSource, Expr.ofSource, h, ofTokens]
  cases Expr.ofTokens maxHops ts with
  | error e => rfl
  | ok e =>
      simp only [bind, Except.bind]
      cases ofExpr scope e <;> rfl

/-- One program up to places, or diagnostics with one code and one message. -/
def SameApartFromPlaces : Except Diagnostic Program → Except Diagnostic Program → Prop
  | .ok p, .ok q => relocate .forget p = relocate .forget q
  | .error d, .error e => d.code = e.code ∧ d.message = e.message
  | _, _ => False

theorem sameApartFromPlaces_of_outcome {x y : Except ParseError Program}
    (h : Relocation.forget.outcome (relocate .forget) x = Relocation.forget.outcome (relocate .forget) y) :
    SameApartFromPlaces (x.mapError (·.diagnostic)) (y.mapError (·.diagnostic)) := by
  cases x with
  | ok p =>
      cases y with
      | ok q => exact Except.ok.inj h
      | error e => simp at h
  | error d =>
      cases y with
      | ok q => simp at h
      | error e =>
          have hdiagnostic := congrArg ParseError.diagnostic (Except.error.inj h)
          rw [ParseError.diagnostic_relocate, ParseError.diagnostic_relocate] at hdiagnostic
          have hcode := congrArg Diagnostic.code hdiagnostic
          have hmessage := congrArg Diagnostic.message hdiagnostic
          exact ⟨hcode, hmessage⟩

theorem sameApartFromPlaces_ofSource (maxHops : Nat) (scope : Scope) {source source' : String}
    {span span' : Span} {ts ts' : TokenList} (h : TokenList.scan source span = .ok ts)
    (h' : TokenList.scan source' span' = .ok ts')
    (hkinds : ts.tokens.map (·.kind) = ts'.tokens.map (·.kind)) :
    SameApartFromPlaces (ofSource maxHops scope source span)
      (ofSource maxHops scope source' span') := by
  have hsame : ts.relocate .forget = ts'.relocate .forget := by
    rw [TokenList.relocate, TokenList.relocate, Token.relocate_forget hkinds]
    rfl
  have houtcome := congrArg (ofTokens maxHops scope) hsame
  rw [ofTokens_relocate, ofTokens_relocate] at houtcome
  rw [ofSource_of_scan h, ofSource_of_scan h']
  exact sameApartFromPlaces_of_outcome houtcome

end Program

/-- A statement with other gaps between its tokens is one statement, and wherever it stands it has tokens
of the same kinds and compiles to the same. -/
theorem Statement.compile_respaced (maxHops : Nat) (scope : Scope) {source : String} {span : Span}
    {ts : TokenList} {new : List Char} (hspan : span ∈ split source)
    (hscan : TokenList.scan source span = .ok ts) (hnew : Respaced source ts.tokens new) :
    split (String.ofList new) = [.behind [] new] ∧
      ∀ (source' : String) (before : List Char), before ++ new <+: source'.toList →
        ∃ ts', TokenList.scan source' (.behind before new) = .ok ts' ∧
          ts'.tokens.map (·.kind) = ts.tokens.map (·.kind) ∧
          Program.SameApartFromPlaces (Program.ofSource maxHops scope source span)
            (Program.ofSource maxHops scope source' (.behind before new)) := by
  obtain ⟨front, body, hprefix, hwhole, rfl⟩ := exists_of_mem_split hspan
  rw [TokenList.scan_behind hprefix] at hscan
  cases htokens : Token.scanFrom (Text.bytes front) body with
  | error e => rw [htokens] at hscan; cases hscan
  | ok tokens =>
      rw [htokens] at hscan
      cases hscan
      have hcuts := (Token.lexes_of_scanFrom htokens).cuts rfl hprefix
      refine ⟨split_of_isWhole (hnew.isWhole hcuts hwhole), fun source' before hnewPrefix => ?_⟩
      obtain ⟨tokens', htokens', hkinds⟩ := (hnew.scans hcuts).1 (Text.bytes before)
      have hscan' := TokenList.scan_behind hnewPrefix
      rw [htokens'] at hscan'
      have hscan := TokenList.scan_behind hprefix
      rw [htokens] at hscan
      exact ⟨_, hscan', hkinds,
        Program.sameApartFromPlaces_ofSource maxHops scope hscan hscan' hkinds.symm⟩

/-- The gap of `n =1` may be widened, and there may be one in front of the `1`. -/
theorem Statement.compile_respaced_assignment :
    split "n\t=\r\n1" = [.behind [] "n\t=\r\n1".toList] ∧
      ∀ (source : String) (before : List Char), before ++ "n\t=\r\n1".toList <+: source.toList →
        ∃ ts, TokenList.scan source (.behind before "n\t=\r\n1".toList) = .ok ts ∧
          ts.tokens.map (·.kind) = [.ident "n", .op .assign, .int 1] ∧
          Program.SameApartFromPlaces
            (Program.ofSource 8 ⟨fun _ => true, fun _ => none⟩ "n =1" ⟨0, 4⟩)
            (Program.ofSource 8 ⟨fun _ => true, fun _ => none⟩ source
              (.behind before "n\t=\r\n1".toList)) := by
  have hscan : TokenList.scan "n =1" ⟨0, 4⟩ =
      .ok ⟨[⟨.ident "n", ⟨0, 1⟩⟩, ⟨.op .assign, ⟨2, 3⟩⟩, ⟨.int 1, ⟨3, 4⟩⟩], 4⟩ := by cbv
  have hone : Respaced "n =1" [⟨.int 1, ⟨3, 4⟩⟩] ['1'] := .single _
  have hassign : Respaced "n =1" [⟨.op .assign, ⟨2, 3⟩⟩, ⟨.int 1, ⟨3, 4⟩⟩]
      (['='] ++ (['\r', '\n'] ++ ['1'])) :=
    .cons (by simp [Token.isGap]) (by simp) hone
  have hnew : Respaced "n =1" [⟨.ident "n", ⟨0, 1⟩⟩, ⟨.op .assign, ⟨2, 3⟩⟩, ⟨.int 1, ⟨3, 4⟩⟩]
      (['n'] ++ (['\t'] ++ ['=', '\r', '\n', '1'])) :=
    .cons (by simp [Token.isGap]) (by simp) hassign
  exact compile_respaced 8 ⟨fun _ => true, fun _ => none⟩ (by decide +kernel) hscan hnew

end Formula
