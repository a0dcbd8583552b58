import Formula.Proofs.Layout
import Formula.Proofs.Whereabouts

/-!
Tokens and gaps make up a text. Each token takes as much of the text as a token of its kind can, and what
it is depends on what it takes alone.
-/

namespace Formula

/-- Where a text stands, told by the texts in front of it one after the other. -/
theorem Span.behind_append_shift (front before body : List Char) (pos : Nat) :
    (behind (front ++ before) body).shift pos = (behind before body).shift (pos + Text.bytes front) := by
  simp only [behind, shift, Text.bytes_append, mk.injEq]
  omega

theorem Span.behind_append (front before body : List Char) :
    behind (front ++ before) body = (behind before body).shift (Text.bytes front) :=
  behind_shift (by rw [Text.bytes_append, Nat.add_comm])

namespace Token

namespace Kind

/-- Identifiers and keywords. -/
def isWord : Kind → Bool
  | ident _ | bool _ | null => true
  | _ => false

theorem isWord_ofWord (w : String) : (ofWord w).isWord = true := by
  rw [ofWord.eq_def]
  split <;> rfl

theorem ofWord_ne {k : Kind} (hk : k.isWord = false) (w : String) : ofWord w ≠ k := by
  rintro rfl
  simp [isWord_ofWord] at hk

theorem ofNumber_cases {run : List Char} {k : Kind} (h : ofNumber run = .ok k) :
    (∃ n, k = .int n) ∨ ∃ x, k = .float x := by
  rw [ofNumber.eq_def] at h
  split at h
  · split at h
    · exact .inl ⟨_, (Except.ok.inj h).symm⟩
    · cases h
  · split at h
    · exact .inr ⟨_, (Except.ok.inj h).symm⟩
    · cases h
  · cases h

/-- No token of this kind takes more than `text` of `text ++ rest`. -/
structure Longest (k : Kind) (text rest : List Char) : Prop where
  operator : ∀ o, k = .op o → o.symbol.toList = text ∧ ∀ o' : Operator,
    o'.symbol.toList <+: text ++ rest → o'.symbol.toList.length ≤ text.length
  word : k.isWord = true → (text ++ rest).takeWhile Text.isNameChar = text

end Kind

namespace Spells

variable {c : Char} {a rest : List Char} {k : Kind}

theorem run_of_isWord (h : Spells c a rest k) (hk : k.isWord = true) :
    (c :: a ++ rest).takeWhile Text.isNameChar = c :: a := by
  cases h with
  | word _ hrun => exact hrun
  | number _ _ hnumber =>
      obtain ⟨n, rfl⟩ | ⟨x, rfl⟩ := Kind.ofNumber_cases hnumber <;> cases hk
  | string | mark | operator => cases hk

theorem longestAt?_of_operator {o : Operator} (h : Spells c a rest (.op o)) :
    o.symbol.toList = c :: a ∧ Operator.longestAt? (c :: a ++ rest) = some o := by
  generalize hk : Kind.op o = k at h
  cases h with
  | word => exact absurd hk.symm (Kind.ofWord_ne rfl _)
  | number _ _ hnumber =>
      obtain ⟨n, rfl⟩ | ⟨x, rfl⟩ := Kind.ofNumber_cases hnumber <;> cases hk
  | string | mark => cases hk
  | operator hsymbol hlongest =>
      obtain rfl := Kind.op.inj hk
      exact ⟨hsymbol, hlongest⟩

theorem longest (h : Spells c a rest k) : k.Longest (c :: a) rest where
  operator := by
    rintro o rfl
    obtain ⟨hsymbol, hlongest⟩ := h.longestAt?_of_operator
    exact ⟨hsymbol, fun o' ho' => hsymbol ▸ Operator.length_le_of_longestAt? hlongest ho'⟩
  word := h.run_of_isWord

end Spells

namespace Lexes

variable {pos : Nat} {cs : List Char} {ts : List Token}

/-- Each token stands behind text without open quotes and is what its own text spells there. -/
theorem exists_of_mem (h : Lexes pos cs ts) {t : Token} (ht : t ∈ ts) :
    ∃ x c a rest, cs = x ++ (c :: a ++ rest) ∧ IsClosed x ∧ isGap c = false ∧ Spells c a rest t.kind ∧
      t.span = (Span.behind x (c :: a)).shift pos := by
  induction h with
  | nil => cases ht
  | @gap pos g cs ts hg _ ih =>
      obtain ⟨x, c, a, rest, rfl, hx, hc, hspells, hspan⟩ := ih ht
      have hgap : IsClosed [g] := isClosed_of_forall (by simpa using not_separator_of_isGap hg)
      exact ⟨g :: x, c, a, rest, rfl, isClosed_append hgap hx, hc, hspells,
        hspan.trans (Span.behind_append_shift [g] x _ pos).symm⟩
  | @token pos d b rest kind ts hd hspells' _ ih =>
      rcases List.mem_cons.mp ht with rfl | ht
      · refine ⟨[], d, b, rest, rfl, isClosed_nil, hd, hspells', ?_⟩
        simp [Span.behind, Span.shift, Nat.add_comm]
      · obtain ⟨x, c, a, rest, rfl, hx, hc, hspells, hspan⟩ := ih ht
        exact ⟨d :: b ++ x, c, a, rest, by simp, isClosed_append hspells'.isClosed hx, hc, hspells,
          hspan.trans (Span.behind_append_shift (d :: b) x _ pos).symm⟩

/-- A character that is no gap is part of a token. -/
theorem covered (h : Lexes pos cs ts) {x y : List Char} {d : Char} (hcs : cs = x ++ d :: y) :
    isGap d = true ∨ ∃ t ∈ ts, ((Span.behind x [d]).shift pos).Inside t.span := by
  induction h generalizing x with
  | nil => simp at hcs
  | @gap pos c cs ts hc _ ih =>
      cases x with
      | nil =>
          obtain ⟨rfl, -⟩ := List.cons.inj hcs
          exact .inl hc
      | cons c x =>
          obtain ⟨rfl, rfl⟩ := List.cons.inj hcs
          rcases ih rfl with hd | ⟨t, ht, hinside⟩
          · exact .inl hd
          · exact .inr ⟨t, ht, Span.behind_append_shift [c] x [d] pos ▸ hinside⟩
  | @token pos c a rest kind ts hc hspells _ ih =>
      rcases Text.append_eq_append_cons hcs with ⟨z, hz⟩ | ⟨x, rfl, hrest⟩
      · refine .inr ⟨_, List.mem_cons_self .., ?_⟩
        simp only [hz, Span.Inside, Span.behind, Span.shift, Text.bytes_append, Text.bytes_cons,
          Text.bytes_nil]
        omega
      · rcases ih hrest with hd | ⟨t, ht, hinside⟩
        · exact .inl hd
        · exact .inr ⟨t, List.mem_cons_of_mem _ ht,
            Span.behind_append_shift (c :: a) x [d] pos ▸ hinside⟩

/-- What one token takes has this token alone. -/
theorem single {c : Char} {a rest : List Char} {k : Kind} (hc : isGap c = false)
    (h : Spells c a rest k) : Lexes 0 (c :: a) [⟨k, .behind [] (c :: a)⟩] := by
  have hlexes : Lexes 0 (c :: a ++ []) _ := .token hc (h.of_follows (.stop rest)) (.nil _)
  rwa [List.append_nil] at hlexes

end Lexes

end Token

section

variable {source : String} {before body : List Char} (hbody : before ++ body <+: source.toList)

include hbody

theorem TokenList.lexes_of_scan {ts : TokenList} (h : scan source (.behind before body) = .ok ts) :
    Token.Lexes (Text.bytes before) body ts.tokens := by
  rw [scan_behind hbody] at h
  cases htokens : Token.scanFrom (Text.bytes before) body with
  | error e => rw [htokens] at h; cases h
  | ok tokens =>
      rw [htokens] at h
      obtain rfl := Except.ok.inj h
      exact Token.lexes_of_scanFrom htokens

theorem TokenList.scanFrom_of_scan_error {e : ScanError}
    (h : scan source (.behind before body) = .error e) :
    Token.scanFrom (Text.bytes before) body = .error e := by
  rw [scan_behind hbody] at h
  cases htokens : Token.scanFrom (Text.bytes before) body with
  | error e' =>
      rw [htokens] at h
      exact congrArg Except.error (Except.error.inj h)
  | ok tokens => rw [htokens] at h; cases h

end

/-- The tokens of a stretch of a formula stand in it one behind the other with nothing but gaps between
them. Operators and words are as long as they can be, and each token is the only one of its own text. -/
theorem TokenList.scan_covers {source : String} {before body : List Char} {ts : TokenList}
    (hbody : before ++ body <+: source.toList) (h : scan source (.behind before body) = .ok ts) :
    Token.Ordered ts.tokens ∧
      (∀ t ∈ ts.tokens, ∃ front text rest, body = front ++ text ++ rest ∧ text ≠ [] ∧
        t.span = .behind (before ++ front) text ∧ t.kind.Longest text rest ∧
        scan (String.ofList text) (.behind [] text) =
          .ok ⟨[⟨t.kind, .behind [] text⟩], Text.bytes text⟩) ∧
      ∀ front c rest, body = front ++ c :: rest →
        (∀ t ∈ ts.tokens, ¬(Span.behind (before ++ front) [c]).Inside t.span) → Token.isGap c = true := by
  obtain ⟨-, hordered, -⟩ := placed_of_scan hbody h
  have hlexes := lexes_of_scan hbody h
  refine ⟨hordered, fun t ht => ?_, fun front c rest hsplit houtside => ?_⟩
  · obtain ⟨front, c, a, rest, rfl, -, hc, hspells, hspan⟩ := hlexes.exists_of_mem ht
    refine ⟨front, c :: a, rest, by simp, by simp, hspan.trans (Span.behind_append ..).symm,
      hspells.longest, ?_⟩
    have halone : [] ++ c :: a <+: (String.ofList (c :: a)).toList := by simp
    rw [scan_behind halone, Text.bytes_nil, Token.scanFrom_of_lexes (.single hc hspells)]
    simp [Except.map]
  · refine (hlexes.covered hsplit).resolve_right ?_
    rintro ⟨t, ht, hinside⟩
    exact houtside t ht (Span.behind_append before front [c] ▸ hinside)

theorem TokenList.scan_covers_shift :
    let ts : TokenList := ⟨[⟨.ident "a", ⟨6, 7⟩⟩, ⟨.op .shiftLeftAssign, ⟨8, 11⟩⟩,
      ⟨.ident "b", ⟨11, 12⟩⟩, ⟨.op .equal, ⟨12, 14⟩⟩, ⟨.int 2, ⟨14, 15⟩⟩], 15⟩
    "'é'; ".toList ++ "a <<=b==2".toList <+: "'é'; a <<=b==2".toList ∧
      scan "'é'; a <<=b==2" (.behind "'é'; ".toList "a <<=b==2".toList) = .ok ts ∧
      ∀ t ∈ ts.tokens, ∃ front text rest, "a <<=b==2".toList = front ++ text ++ rest ∧ text ≠ [] ∧
        t.span = .behind ("'é'; ".toList ++ front) text ∧ t.kind.Longest text rest ∧
        scan (String.ofList text) (.behind [] text) =
          .ok ⟨[⟨t.kind, .behind [] text⟩], Text.bytes text⟩ := by
  intro ts
  have hbody : "'é'; ".toList ++ "a <<=b==2".toList <+: "'é'; a <<=b==2".toList := by decide
  have hscan : scan "'é'; a <<=b==2" (.behind "'é'; ".toList "a <<=b==2".toList) = .ok ts := by cbv
  exact ⟨hbody, hscan, (scan_covers hbody hscan).2.1⟩

end Formula
