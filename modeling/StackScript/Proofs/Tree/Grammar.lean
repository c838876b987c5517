import StackScript.Token.Basic
import StackScript.Tree.Basic

set_option autoImplicit false

/-!
# Trees written as tokens

`tokens` writes a tree as a sequence of tokens. It writes no parentheses but those of the `paren`
nodes, so a tree can be got back from its tokens only if it has such nodes where the levels of its
operators call for them. These trees are the canonical ones.
-/
namespace StackScript

def UnaryOperator.symbol : UnaryOperator → Symbol
  | .negate => .minus
  | .not => .bang
  | .bitwiseNot => .tilde
  | .increment => .plusPlus
  | .decrement => .minusMinus

namespace BinaryOperator

def symbol : BinaryOperator → Symbol
  | .add => .plus
  | .subtract => .minus
  | .multiply => .star
  | .divide => .slash
  | .integerDivide => .slashSlash
  | .modulo => .percent
  | .power => .caret
  | .bitwiseAnd => .ampersand
  | .bitwiseOr => .pipe
  | .bitwiseXor => .tilde
  | .shiftLeft => .lessLess
  | .shiftRight => .greaterGreater
  | .logicalAnd => .ampersandAmpersand
  | .logicalOr => .pipePipe
  | .equal => .equalEqual
  | .notEqual => .bangEqual
  | .less => .less
  | .lessEqual => .lessEqual
  | .greater => .greater
  | .greaterEqual => .greaterEqual

def tightness : BinaryOperator → Nat
  | .logicalOr => 1
  | .logicalAnd => 2
  | .bitwiseOr => 3
  | .bitwiseXor => 4
  | .bitwiseAnd => 5
  | .equal | .notEqual => 6
  | .less | .lessEqual | .greater | .greaterEqual => 7
  | .shiftLeft | .shiftRight => 8
  | .add | .subtract => 9
  | .multiply | .divide | .integerDivide | .modulo => 10
  | .power => 11

/-- Comparisons cannot be combined with an assignment. -/
def assignSymbol? : BinaryOperator → Option Symbol
  | .add => some .plusEqual
  | .subtract => some .minusEqual
  | .multiply => some .starEqual
  | .divide => some .slashEqual
  | .integerDivide => some .slashSlashEqual
  | .modulo => some .percentEqual
  | .power => some .caretEqual
  | .bitwiseAnd => some .ampersandEqual
  | .bitwiseOr => some .pipeEqual
  | .bitwiseXor => some .tildeEqual
  | .shiftLeft => some .lessLessEqual
  | .shiftRight => some .greaterGreaterEqual
  | .logicalAnd => some .ampersandAmpersandEqual
  | .logicalOr => some .pipePipeEqual
  | .equal | .notEqual | .less | .lessEqual | .greater | .greaterEqual => none

end BinaryOperator

def assignmentSymbol? : Option BinaryOperator → Option Symbol
  | none => some .equal
  | some operator => operator.assignSymbol?

def Literal.token : Literal → TokenKind
  | .none => .keyword .noneK
  | .bool value => .bool value
  | .int value => .int value
  | .float value => .float value
  | .char value => .char value
  | .string value => .string value

def typeToken (name : String) : TokenKind :=
  match TokenKind.ofWord? name with
  | some (.keyword word) => if word.isType then .keyword word else .identifier name
  | _ => .identifier name

def separated (separator : Symbol) : List (List TokenKind) → List TokenKind
  | [] => []
  | [piece] => piece
  | piece :: next :: rest => piece ++ .symbol separator :: separated separator (next :: rest)

def separatedTail (separator : Symbol) : List (List TokenKind) → List TokenKind
  | [] => []
  | next :: rest => .symbol separator :: separated separator (next :: rest)

theorem separated_cons (separator : Symbol) (piece : List TokenKind)
    (pieces : List (List TokenKind)) :
    separated separator (piece :: pieces) = piece ++ separatedTail separator pieces := by
  cases pieces with
  | nil => exact (List.append_nil piece).symm
  | cons next rest => rfl

def TypeRef.tokens : TypeRef → List TokenKind
  | .named name => [typeToken name.text]
  | .union members _ => separated .pipe (members.map fun name => [typeToken name.text])

def annotationTokens : Option TypeRef → List TokenKind
  | none => []
  | some type => .symbol .colon :: type.tokens

def Parameter.tokens (parameter : Parameter) : List TokenKind :=
  .identifier parameter.name.text :: annotationTokens parameter.type

namespace Expression

mutual

def tokens : Expression → List TokenKind
  | .literal _ value => [value.token]
  | .name _ text => [.identifier text]
  | .paren _ inner => .symbol .leftParen :: tokens inner ++ [.symbol .rightParen]
  | .unary _ operator operand => .symbol operator.symbol :: tokens operand
  | .binary _ operator left right => tokens left ++ .symbol operator.symbol :: tokens right
  | .assign _ operator target value =>
    tokens target ++ (assignmentSymbol? operator).toList.map .symbol ++ tokens value
  | .object _ properties =>
    .symbol .leftBrace :: separated .comma (entryTokens properties) ++ [.symbol .rightBrace]
  | .call _ callee arguments =>
    tokens callee ++ .symbol .leftParen :: separated .comma (listTokens arguments) ++
      [.symbol .rightParen]
  | .member _ inner label => tokens inner ++ [.symbol .dot, .identifier label.text]
  | .element _ inner index =>
    tokens inner ++ .symbol .leftBracket :: tokens index ++ [.symbol .rightBracket]
  | .hole _ => []
termination_by structural e => e

def listTokens : List Expression → List (List TokenKind)
  | [] => []
  | e :: rest => tokens e :: listTokens rest
termination_by structural es => es

def entryTokens : List (Expression × Expression) → List (List TokenKind)
  | [] => []
  | (.paren _ inner, value) :: rest =>
    (.symbol .leftBracket :: tokens inner ++ .symbol .rightBracket :: .symbol .colon ::
      tokens value) :: entryTokens rest
  | (key, value) :: rest => (tokens key ++ .symbol .colon :: tokens value) :: entryTokens rest
termination_by structural entries => entries

end

def keyTokens : Expression → List TokenKind
  | .paren _ inner => .symbol .leftBracket :: inner.tokens ++ [.symbol .rightBracket]
  | key => key.tokens

theorem entryTokens_cons (key value : Expression) (rest : List (Expression × Expression)) :
    entryTokens ((key, value) :: rest) =
      (keyTokens key ++ .symbol .colon :: tokens value) :: entryTokens rest := by
  cases key <;> simp [entryTokens, keyTokens]

end Expression

def optionalTokens (before : List TokenKind) : Option Expression → List TokenKind
  | none => []
  | some e => before ++ e.tokens

namespace Statement

mutual

def tokens : Statement → List TokenKind
  | .expression _ value => value.tokens ++ [.symbol .semicolon]
  | .letDecl _ isMutable name type initial =>
    .keyword .letK :: (if isMutable then [.keyword .mutK] else []) ++
      .identifier name.text :: annotationTokens type ++ optionalTokens [.symbol .equal] initial ++
      [.symbol .semicolon]
  | .fnDecl _ name parameters result body =>
    .keyword .fnK :: .identifier name.text :: .symbol .leftParen ::
      separated .comma (parameters.map Parameter.tokens) ++ .symbol .rightParen ::
      annotationTokens result ++ .symbol .leftBrace :: listTokens body ++
      [.symbol .rightBrace, .symbol .semicolon]
  | .block _ body => .symbol .leftBrace :: listTokens body ++ [.symbol .rightBrace]
  | .branch _ condition body otherwise =>
    .keyword .ifK :: condition.tokens ++ tokens body ++
      (match otherwise with
        | some other => .keyword .elseK :: tokens other
        | none => [])
  | .giveBack _ value => .keyword .returnK :: optionalTokens [] value ++ [.symbol .semicolon]
  | .hole _ => []
termination_by structural s => s

def listTokens : List Statement → List TokenKind
  | [] => []
  | s :: rest => tokens s ++ listTokens rest
termination_by structural ss => ss

end

def elseTokens : Option Statement → List TokenKind
  | some other => .keyword .elseK :: other.tokens
  | none => []

theorem tokens_branch (node : Node) (condition : Expression) (body : Statement)
    (otherwise : Option Statement) :
    (Statement.branch node condition body otherwise).tokens =
      .keyword .ifK :: (condition.tokens ++ (body.tokens ++ elseTokens otherwise)) := by
  cases otherwise <;> simp [tokens, elseTokens]

end Statement

namespace Expression

def tightness : Expression → Nat
  | .assign _ _ _ _ => 0
  | .binary _ operator _ _ => operator.tightness
  | .unary _ _ _ => 12
  | .call _ _ _ | .member _ _ _ | .element _ _ _ => 13
  | .literal _ _ | .name _ _ | .paren _ _ | .object _ _ | .hole _ => 14

/-- What may stand as a key of an object; a `paren` node is a computed key. -/
def isKey : Expression → Bool
  | .literal _ _ | .name _ _ | .paren _ _ | .object _ _ => true
  | _ => false

inductive Canonical : Expression → Prop where
  | literal (node : Node) (value : Literal) : Canonical (.literal node value)
  | name (node : Node) (text : String) : Canonical (.name node text)
  | paren (node : Node) {inner : Expression} (inside : Canonical inner) :
      Canonical (.paren node inner)
  | unary (node : Node) (operator : UnaryOperator) {operand : Expression}
      (inside : Canonical operand) (tight : 12 ≤ operand.tightness) :
      Canonical (.unary node operator operand)
  /-- Left associative: the operator may stand again on the left. -/
  | binary (node : Node) {operator : BinaryOperator} {left right : Expression}
      (leftward : operator ≠ .power) (first : Canonical left) (second : Canonical right)
      (tightFirst : operator.tightness ≤ left.tightness)
      (tightSecond : operator.tightness < right.tightness) :
      Canonical (.binary node operator left right)
  | power (node : Node) {left right : Expression} (first : Canonical left)
      (second : Canonical right) (tightFirst : 12 ≤ left.tightness)
      (tightSecond : 11 ≤ right.tightness) : Canonical (.binary node .power left right)
  | assign (node : Node) {operator : Option BinaryOperator} {target value : Expression}
      (spelled : (assignmentSymbol? operator).isSome) (first : Canonical target)
      (second : Canonical value) (tight : 1 ≤ target.tightness) :
      Canonical (.assign node operator target value)
  | object (node : Node) {properties : List (Expression × Expression)}
      (keyed : ∀ entry ∈ properties, entry.1.isKey)
      (keys : ∀ entry ∈ properties, Canonical entry.1)
      (values : ∀ entry ∈ properties, Canonical entry.2) : Canonical (.object node properties)
  | call (node : Node) {callee : Expression} {arguments : List Expression}
      (first : Canonical callee) (others : ∀ argument ∈ arguments, Canonical argument)
      (tight : 13 ≤ callee.tightness) : Canonical (.call node callee arguments)
  | member (node : Node) {object : Expression} (label : Name) (inside : Canonical object)
      (tight : 13 ≤ object.tightness) : Canonical (.member node object label)
  | element (node : Node) {object index : Expression} (first : Canonical object)
      (second : Canonical index) (tight : 13 ≤ object.tightness) :
      Canonical (.element node object index)

end Expression

def TypeRef.Canonical : TypeRef → Prop
  | .named _ => True
  | .union members _ => 2 ≤ members.length

namespace Statement

def isBlock : Statement → Bool
  | .block _ _ => true
  | _ => false

def isBranch : Statement → Bool
  | .branch _ _ _ _ => true
  | _ => false

inductive Canonical : Statement → Prop where
  | expression (node : Node) {value : Expression} (inside : value.Canonical)
      (unbraced : value.tokens.head? ≠ some (.symbol .leftBrace)) :
      Canonical (.expression node value)
  | letDecl (node : Node) (isMutable : Bool) (name : Name) {type : Option TypeRef}
      {initial : Option Expression} (annotated : ∀ t ∈ type, t.Canonical)
      (inside : ∀ e ∈ initial, e.Canonical) : Canonical (.letDecl node isMutable name type initial)
  | fnDecl (node : Node) (name : Name) {parameters : List Parameter} {result : Option TypeRef}
      {body : List Statement} (taken : ∀ parameter ∈ parameters, ∀ t ∈ parameter.type, t.Canonical)
      (annotated : ∀ t ∈ result, t.Canonical) (inside : ∀ s ∈ body, Canonical s) :
      Canonical (.fnDecl node name parameters result body)
  | block (node : Node) {body : List Statement} (inside : ∀ s ∈ body, Canonical s) :
      Canonical (.block node body)
  | branch (node : Node) {condition : Expression} {body : Statement} {otherwise : Option Statement}
      (tested : condition.Canonical) (taken : Canonical body) (braced : body.isBlock)
      (other : ∀ s ∈ otherwise, Canonical s)
      (chained : ∀ s ∈ otherwise, s.isBlock ∨ s.isBranch) :
      Canonical (.branch node condition body otherwise)
  | giveBack (node : Node) {value : Option Expression} (inside : ∀ e ∈ value, e.Canonical) :
      Canonical (.giveBack node value)

end Statement

def SyntaxTree.Canonical (tree : SyntaxTree) : Prop := ∀ s ∈ tree.statements, s.Canonical

def SyntaxTree.tokens (tree : SyntaxTree) : List TokenKind := Statement.listTokens tree.statements

end StackScript
