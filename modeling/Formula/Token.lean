import Formula.Literal
import Formula.Operator
import Formula.Span
import Formula.Text.Quoted

/-!
The words of a statement.
-/

namespace Formula

namespace Token

inductive Mark where
  | leftParen | rightParen | dot | comma | question | colon
deriving DecidableEq, Repr

namespace Mark

def all : List Mark := [leftParen, rightParen, dot, comma, question, colon]

def char : Mark → Char
  | leftParen => '('
  | rightParen => ')'
  | dot => '.'
  | comma => ','
  | question => '?'
  | colon => ':'

def name : Mark → String
  | leftParen => "LParen"
  | rightParen => "RParen"
  | dot => "Dot"
  | comma => "Comma"
  | question => "Question"
  | colon => "Colon"

def ofChar? (c : Char) : Option Mark := all.find? (·.char == c)

end Mark

inductive Kind where
  | int (n : Int64)
  | float (x : Number.Double)
  | string (s : String)
  | bool (b : Bool)
  | null
  | ident (name : String)
  | op (o : Operator)
  | mark (m : Mark)
deriving Inhabited

namespace Kind

/-- A token as written, except that a string always stands in double quotes. -/
def text : Kind → String
  | int n => toString n.toInt
  | float x => Number.Format.literal.text x
  | string s => "\"" ++ s ++ "\""
  | bool b => if b then "true" else "false"
  | null => "null"
  | ident name => name
  | op o => o.symbol
  | mark m => m.char.toString

def describe : Kind → String
  | int n => "integer `" ++ toString n.toInt ++ "`"
  | float x => "float `" ++ Number.Format.literal.text x ++ "`"
  | string s => "string \"" ++ s ++ "\""
  | ident name => "identifier `" ++ name ++ "`"
  | k => "`" ++ k.text ++ "`"

def listed : Kind → String
  | int n => "Int(" ++ toString n.toInt ++ ")"
  | float x => "Float(" ++ Number.Format.literal.text x ++ ")"
  | string s => "Str(" ++ Text.quoted s ++ ")"
  | bool b => if b then "True" else "False"
  | null => "Null"
  | ident name => "Ident(Name(" ++ Text.quoted name ++ "))"
  | op o => "Op(" ++ o.name ++ ")"
  | mark m => m.name

end Kind

end Token

structure Token where
  kind : Token.Kind
  span : Span
deriving Inhabited

/-- The tokens of one statement, and the offset at which the statement ends. -/
structure TokenList where
  tokens : List Token
  stop : Nat
deriving Inhabited

namespace TokenList

/-- One line of a listing: what is shown, and where it stands. -/
def listedAt (shown : String) (span : Span) : String := shown ++ " @ " ++ span.text

/-- What a message calls the place after the last token. -/
def endDescription : String := "end of statement"

/-- A listing with one line for each token and one for the end: how the token is listed, its text,
and what messages call it. -/
def listing (ts : TokenList) : List (String × String × String) :=
  ts.tokens.map (fun t => (listedAt t.kind.listed t.span, t.kind.text, t.kind.describe)) ++
    [(listedAt "Eof" (.point ts.stop), "<eof>", endDescription)]

end TokenList

end Formula
