import Formula.Diagnostic
import Formula.Number.Read
import Formula.Text.Alphabetic
import Formula.Token

/-!
Tokens of a text. Scanning takes the longest token at each place; what it takes and what it leaves
make up the text again.
-/

namespace Formula

inductive ScanFault where
  | unterminatedString (quote : Char)
  | invalidCharacter (c : Char)
  | secondPoint
  | integerTooLarge
deriving DecidableEq, Repr

structure ScanError where
  span : Span
  fault : ScanFault
deriving DecidableEq, Repr

def ScanFault.code : ScanFault → Code
  | unterminatedString _ => .unterminatedString
  | invalidCharacter _ => .invalidCharacter
  | secondPoint | integerTooLarge => .invalidNumber

def ScanError.diagnostic (e : ScanError) : Diagnostic :=
  let report (message label : String) := (Diagnostic.error e.fault.code message).withLabel e.span label
  match e.fault with
  | .unterminatedString quote =>
    (report "unterminated string literal" "string starts here").withSuggestion
      ("add a closing `" ++ quote.toString ++ "`")
  | .invalidCharacter c =>
    report ("invalid character `" ++ Text.shownChar c ++ "`") "not part of any token"
  | .secondPoint => report "invalid number literal" "a number may contain at most one `.`"
  | .integerTooLarge =>
    (report "integer literal is too large" "does not fit in a 64-bit integer").withSuggestion
      "add a decimal point to make it a float"

namespace Token

def isGap (c : Char) : Bool := c == ' ' || c == '\t' || c == '\r' || c == '\n'

def isQuote (c : Char) : Bool := c == '"' || c == '\''

/-- The token that a word is: a keyword or else an identifier. -/
def Kind.ofWord : String → Kind
  | "true" => .bool true
  | "false" => .bool false
  | "null" => .null
  | w => .ident w

/-- Digits and points, each point with a digit after it. -/
def numberRun : List Char → List Char
  | [] => []
  | c :: cs =>
    if c.isDigit || (c == '.' && (cs.head?.map Char.isDigit).getD false) then c :: numberRun cs
    else []

/-- The token that a run of digits and points is. -/
def Kind.ofNumber (run : List Char) : Except ScanFault Kind :=
  match run.count '.' with
  | 0 =>
    match Number.readInt64? run with
    | some n => .ok (.int n)
    | none => .error .integerTooLarge
  | 1 =>
    match Number.readDouble? run with
    | some x => .ok (.float x)
    | none => .error .secondPoint
  | _ => .error .secondPoint

/-- What the first token of a text is, and how many characters it takes. A fault takes the
characters that it is about. -/
structure Lexeme where
  kind : Except ScanFault Kind
  length : Nat

/-- The first token of the text `c :: cs`. -/
def lexeme (c : Char) (cs : List Char) : Lexeme :=
  if Text.isNameStart c then
    let word := (c :: cs).takeWhile Text.isNameChar
    ⟨.ok (.ofWord (String.ofList word)), word.length⟩
  else if c.isDigit then
    let run := numberRun (c :: cs)
    ⟨Kind.ofNumber run, run.length⟩
  else if isQuote c then
    if cs.contains c then
      let body := cs.takeWhile (· != c)
      ⟨.ok (.string (String.ofList body)), body.length + 2⟩
    else ⟨.error (.unterminatedString c), 1⟩
  else
    match Mark.ofChar? c with
    | some m => ⟨.ok (.mark m), 1⟩
    | none =>
      match Operator.longestAt? (c :: cs) with
      | some o => ⟨.ok (.op o), o.symbol.length⟩
      | none => ⟨.error (.invalidCharacter c), 1⟩

theorem length_numberRun_pos {c : Char} (cs : List Char) (h : c.isDigit) :
    0 < (numberRun (c :: cs)).length := by
  simp [numberRun, h]

theorem symbol_length_pos (o : Operator) : 0 < o.symbol.length := by
  cases o <;> decide

theorem lexeme_length_pos (c : Char) (cs : List Char) : 0 < (lexeme c cs).length := by
  unfold lexeme
  split
  · next h => simp [Text.isNameChar_of_isNameStart h]
  split
  · next h => exact length_numberRun_pos cs h
  split
  · split <;> simp
  · split
    · simp
    · split
      · next o _ => exact symbol_length_pos o
      · simp

/-- The tokens of a text that begins at offset `pos`. -/
def scanFrom (pos : Nat) : List Char → Except ScanError (List Token)
  | [] => .ok []
  | c :: cs =>
    if isGap c then scanFrom (pos + c.utf8Size) cs
    else
      let taken := (c :: cs).take (lexeme c cs).length
      let stop := pos + Text.bytes taken
      match (lexeme c cs).kind with
      | .error fault => .error ⟨⟨pos, stop⟩, fault⟩
      | .ok kind =>
        match scanFrom stop ((c :: cs).drop (lexeme c cs).length) with
        | .error e => .error e
        | .ok ts => .ok (⟨kind, ⟨pos, stop⟩⟩ :: ts)
termination_by cs => cs.length
decreasing_by
  · simp
  · have := lexeme_length_pos c cs
    simp only [List.length_drop, List.length_cons]
    omega

end Token

/-- The tokens between two offsets of a source. Offsets beyond the source count as its end. -/
def TokenList.scan (source : String) (span : Span) : Except ScanError TokenList :=
  let cs := source.toList
  let stop := min span.stop (Text.bytes cs)
  let start := min span.start stop
  match Token.scanFrom start ((Text.slice? cs start stop).getD []) with
  | .error e => .error e
  | .ok tokens => .ok ⟨tokens, span.stop⟩

end Formula
