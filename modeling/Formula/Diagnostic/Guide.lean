import Formula.Diagnostic.Code

/-!
The long description of each code: what it means, a formula that shows it, and how to mend it.
-/

namespace Formula

structure Guide where
  about : List String
  sample : List String
  fix : List String
  remark : List String

namespace Guide

/-- A heading with a block of formula text below it, if there is any. -/
def block (heading : String) (lines : List String) : List String :=
  if lines.isEmpty then [] else ["", "## " ++ heading, "", "```text"] ++ lines ++ ["```"]

def lines (g : Guide) : List String :=
  g.about ++ block "Example" g.sample ++ block "Fix" g.fix ++
    if g.remark.isEmpty then [] else "" :: g.remark

end Guide

namespace Code

def guide : Code → Guide
  | unterminatedString => {
    about := [
      "A quoted literal was opened with `\"` or `'` but the statement ended before the",
      "matching quote."]
    sample := ["name == \"Alice"]
    fix := ["name == \"Alice\""]
    remark := [
      "Strings have no escape sequences. Use the other quote character to embed a",
      "quote: `'say \"hi\"'`."] }
  | invalidCharacter => {
    about := ["The lexer found a character that is not part of any token."]
    sample := ["price $ 2"]
    fix := ["price * 2"]
    remark := [] }
  | invalidNumber => {
    about := [
      "A numeric literal is malformed (more than one `.`) or an integer literal does",
      "not fit in a 64-bit signed integer."]
    sample := ["1.2.3 + 99999999999999999999"]
    fix := ["1.23 + 99999999999.0"]
    remark := [] }
  | unexpectedToken => {
    about := ["The parser found a token that cannot appear at this position."]
    sample := ["A +* B"]
    fix := ["A + B * C"]
    remark := [] }
  | expectedExpression => {
    about := ["An operand was expected but the statement ended or an operator followed."]
    sample := ["x = "]
    fix := ["x = 1"]
    remark := [] }
  | unclosedDelimiter => {
    about := ["A `(` has no matching `)` before the end of the statement."]
    sample := ["(1 + 2"]
    fix := ["(1 + 2)"]
    remark := [] }
  | chainTooLong => {
    about := [
      "A single `a.b.c...` chain has more hops than the configured limit (100 by",
      "default). Chains this long are treated as malformed or cyclic.",
      "",
      "Split the chain across statements using intermediate bindings."]
    sample := []
    fix := []
    remark := [] }
  | invalidTarget => {
    about := [
      "Only a variable or a field/property access can appear on the left of `=` or a",
      "compound assignment."]
    sample := ["1 = x"]
    fix := ["x = 1"]
    remark := [] }
  | unmatchedClose => {
    about := ["A `)` appears without a matching `(`."]
    sample := ["1 + 2)"]
    fix := ["(1 + 2)"]
    remark := [] }
  | unknownVariable => {
    about := [
      "The identifier is not one of the bindings supplied with the formula, and it is",
      "not a registered type followed by `.`."]
    sample := ["totl + 1"]
    fix := ["total + 1"]
    remark := [] }
  | unknownType => {
    about := [
      "A static type root or generic type argument names a type that is neither a",
      "primitive (`int`, `float`, `bool`, `string`) nor registered with the host."]
    sample := ["Convert.To<integer>(x)"]
    fix := ["Convert.To<int>(x)"]
    remark := [] }
  | unknownMember => {
    about := [
      "The receiver's type has no field or property with this name. Names are",
      "case-sensitive."]
    sample := ["list.count"]
    fix := ["list.Count"]
    remark := [] }
  | unknownMethod => {
    about := ["The receiver's type has no method with this name. Names are case-sensitive."]
    sample := ["name.toUpper()"]
    fix := ["name.ToUpper()"]
    remark := [] }
  | unknownVariant => {
    about := [
      "A string passed where an enum is expected, or a static enum access, does not",
      "name a variant of that enum."]
    sample := ["Axis.W"]
    fix := ["Axis.X"]
    remark := [] }
  | unregisteredType => {
    about := [
      "Values and members are only reachable through types on the host's allow-list.",
      "A member returned or accepted a type that was never registered."]
    sample := []
    fix := []
    remark := [] }
  | conditionNotBool => {
    about := ["The condition of `cond ? a : b` must evaluate to `true` or `false`."]
    sample := ["count ? 1 : 2"]
    fix := ["count > 0 ? 1 : 2"]
    remark := [] }
  | notReadable => {
    about := ["The property exists but only has a setter."]
    sample := []
    fix := []
    remark := [] }
  | notWritable => {
    about := [
      "The target of an assignment is a read-only property, such as `Count` on a",
      "list or `Length` on a string."]
    sample := ["list.Count = 3"]
    fix := ["list.Clear()"]
    remark := [] }
  | notConvertible => {
    about := [
      "Assignments convert the value to the declared type of the binding, or to the",
      "current runtime type of the member. The conversion failed, for example a",
      "non-numeric string assigned to an `int` binding."]
    sample := ["count = \"many\""]
    fix := ["count = \"12\""]
    remark := [] }
  | zeroDivision => {
    about := [
      "An integer division or modulo had a zero divisor. Floating-point division by",
      "zero yields infinity or NaN instead."]
    sample := ["total / 0"]
    fix := ["total / 0.0"]
    remark := [] }
  | integerOverflow => {
    about := [
      "An integer operation produced a value outside the 64-bit signed range.",
      "",
      "Use a float operand to promote the computation."]
    sample := []
    fix := []
    remark := [] }
  | invalidOperands => {
    about := [
      "The operator is not defined for the runtime types of its operands, such as",
      "`&&` applied to integers or `-` applied to strings."]
    sample := ["\"a\" - 1"]
    fix := ["\"a\" + 1"]
    remark := [] }
  | noOverload => {
    about := [
      "The method exists, but no overload accepts the runtime types of the",
      "arguments. Arguments are matched exactly; an `int` does not match a `float`",
      "parameter."]
    sample := ["Math.Sqrt(4)"]
    fix := ["Math.Sqrt(4.0)"]
    remark := [] }
  | hostFailure => {
    about := [
      "A host-provided getter, setter or method reported a failure, such as an index",
      "out of range."]
    sample := ["list.Get(10)"]
    fix := []
    remark := [] }
  | shiftOutOfRange => {
    about := ["Shift amounts must be integers between 0 and 63."]
    sample := ["1 << 64"]
    fix := ["1 << 63"]
    remark := [] }
  | loopLimit => {
    about := [
      "A host-level loop (`run_while`) ran more iterations than the configured",
      "limit (1000 by default) without its condition becoming false."]
    sample := []
    fix := []
    remark := [] }
  | assertionFailed => {
    about := ["A `check` formula produced a statement result other than `true`."]
    sample := []
    fix := []
    remark := [] }
  | malformedProgram => {
    about := [
      "The evaluator found a compiled program it cannot run, such as an operator",
      "with too few operands on the stack. This indicates a compiler bug."]
    sample := []
    fix := []
    remark := [] }

def explanation (c : Code) : String :=
  "\n".intercalate (("# " ++ c.summary) :: "" :: c.guide.lines) ++ "\n"

end Code

end Formula
