import CodeGraph.Syntax.Grammar.Element
import CodeGraph.Syntax.Grammar.Statement

/-!
# The grammar

The form of every rule, and the reading of a whole source into a syntax tree.
-/

namespace CodeGraph

namespace Grammar

/-- The form of a rule in a dialect. -/
def forms (d : Dialect) : Rule → F
  | .statement => statementForm d
  | .declaration => declarationForm d
  | .exportStatement => exportForm d
  | .importStatement => importForm d
  | .block operand => blockForm operand
  | .classBody => classBodyForm d
  | .semicolon => semicolonForm
  | .lexicalDeclaration header => lexicalForm d header
  | .variableDeclaration => variableForm d
  | .expressions m => expressionsForm m
  | .expression m => expressionForm d m
  | .binary level m => binaryForm d level m
  | .operand m => operandForm d m
  | .postfixed m => postfixedForm d m
  | .primary m => primaryForm d m
  | .newExpression => newForm d
  | .arguments => argumentsForm
  | .parenthesized => parenthesizedForm d
  | .object => objectForm d
  | .array => arrayForm
  | .string => stringForm
  | .template => templateForm
  | .decorator => decoratorForm d
  | .propertyName => propertyNameForm
  | .method member => methodForm d member
  | .pattern => patternForm
  | .destructuring => destructuringForm d
  | .parameters => parametersForm d
  | .signature withReturn => signatureForm d withReturn
  | .element => elementForm d
  | .type m => typeForm m
  | .union m => joined "union_type" "|" (Form.rule (.intersection m))
  | .intersection m => joined "intersection_type" "&" (Form.rule (.typeOperand m))
  | .typeOperand m => typeOperandForm m
  | .primaryType m => primaryTypeForm m
  | .typeArguments => typeArgumentsForm
  | .typeParameters => typeParametersForm
  | .objectType kind => objectTypeForm kind
  | .statedType m => statedTypeForm m

/-- A bound on the depth of a reading, generous enough for every source: a rule is entered at most
a few dozen levels deep before a character is taken. -/
def depth (source : List Char) : Nat :=
  256 * (source.length + 16)

end Grammar

/-- The syntax tree of a source, if the grammar can read all of it. The root runs from the first
token or comment to the end of the source. -/
def parseText (d : Dialect) (source : List Char) : Option Node :=
  if source.contains '\x00' then none
  else
    let begin : Reading := ⟨source, 0, 0, false, []⟩
    match Form.read d (Grammar.forms d) (Grammar.depth source) Grammar.program begin with
    | some s =>
      if s.rest.isEmpty then
        let children := s.out.reverse
        let start := match children with
          | first :: _ => first.start
          | [] => s.offset
        some ⟨"program", true, none, start, s.offset, children⟩
      else none
    | none => none

end CodeGraph
