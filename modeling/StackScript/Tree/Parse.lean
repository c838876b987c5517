import StackScript.Tree.Basic
import StackScript.Token.Scan

set_option autoImplicit false

/-!
# Reading a syntax tree from tokens

The reader is a recursive descent over the tokens with one token of lookahead, two where a brace may
open a block or an object. It never gives up: a missing token is reported and skipped over, and
where no expression can be read the tree has a hole. Binary operators are read by precedence
climbing.

The functions of the descent take a bound on their depth. A reader that goes as deep as the tokens
allow needs some levels per token, so `SyntaxTree.read` starts with more than enough.
-/
namespace StackScript

inductive SyntaxFault where
  | expected (what : String) (found : TokenKind)
  | unexpected (found : TokenKind)

def SyntaxFault.code : SyntaxFault → DiagnosticCode
  | .expected _ _ => .expectedToken
  | .unexpected _ => .unexpectedToken

def SyntaxFault.message : SyntaxFault → String
  | .expected what found => s!"Expected {what}, found '{found.display}'"
  | .unexpected found => s!"Unexpected token '{found.display}'"

/-- Where the reader is: the tokens ahead, the last of which is the end of the text, the span of the
token before them, the next number for a node, and what was reported. -/
structure Reader where
  ahead : List Token
  previous : Option Span := none
  nextId : Nat := 0
  diagnostics : Array Diagnostic := #[]

abbrev ReadM := StateM Reader

namespace ReadM

def tokenAhead (r : Reader) : Token := r.ahead.headD ⟨.endOfFile, ⟨0, 0⟩⟩

def current : ReadM Token := return tokenAhead (← get)

def kind : ReadM TokenKind := return (← current).kind

/-- The kind of the token that many places ahead, the end of the text if there are fewer. -/
def kindAt (offset : Nat) : ReadM TokenKind := do
  return ((← get).ahead[offset]?.map (·.kind)).getD .endOfFile

/-- Steps over the current token, unless it is the end of the text. -/
def skip (r : Reader) : Reader :=
  match r.ahead with
  | [] => r
  | token :: rest =>
    if token.kind.isEndOfFile then r else { r with ahead := rest, previous := some token.span }

def advance : ReadM Token := do
  let token ← current
  modify skip
  return token

def atEnd : ReadM Bool := return (← kind).isEndOfFile

def isSymbol (s : Symbol) : TokenKind → Bool
  | .symbol t => t == s
  | _ => false

def isKeyword (k : Keyword) : TokenKind → Bool
  | .keyword l => l == k
  | _ => false

def check (s : Symbol) : ReadM Bool := return isSymbol s (← kind)

def eatIf (p : TokenKind → Bool) : ReadM Bool := do
  if p (← kind) then
    modify skip
    return true
  else return false

def eat (s : Symbol) : ReadM Bool := eatIf (isSymbol s)

def eatKeyword (k : Keyword) : ReadM Bool := eatIf (isKeyword k)

def report (fault : SyntaxFault) (span : Span) : ReadM Unit :=
  modify fun r => { r with
    diagnostics := r.diagnostics.push ⟨fault.code, .error, fault.message, span⟩ }

def reportExpected (what : String) : ReadM Unit := do
  let token ← current
  report (.expected what token.kind) token.span

def expect (s : Symbol) : ReadM Unit := do
  if !(← eat s) then reportExpected s!"'{s.text}'"

/-- The span of the last token read, or of the first one if none was. -/
def previousSpan : ReadM Span := do
  let r ← get
  return r.previous.getD (tokenAhead r).span

def node (span : Span) : ReadM Node := do
  let r ← get
  set { r with nextId := r.nextId + 1 }
  return ⟨r.nextId, span⟩

/-- A node that reaches from `start` to the last token read. -/
def nodeFrom (start : Span) : ReadM Node := do
  node (start.merge (← previousSpan))

def expectName : ReadM Name := do
  let token ← current
  match token.kind with
  | .identifier name =>
    modify skip
    return ⟨name, token.span⟩
  | _ =>
    reportExpected "an identifier"
    return ⟨"", token.span⟩

/-- One type name. Where there is none the annotation admits everything. -/
def typeName : ReadM Name := do
  let token ← current
  let name? := match token.kind with
    | .identifier name => some name
    | kind => if kind.isType then some kind.display else none
  match name? with
  | some name =>
    modify skip
    return ⟨name, token.span⟩
  | none =>
    reportExpected "a type"
    return ⟨"any", token.span⟩

def typeNames : Nat → ReadM (List Name)
  | 0 => return []
  | depth + 1 => do
    if ← eat .pipe then
      let name ← typeName
      return name :: (← typeNames depth)
    else return []

def typeRef (depth : Nat) : ReadM TypeRef := do
  let first ← typeName
  let others ← typeNames depth
  match others.getLast? with
  | none => return .named first
  | some last => return .union (first :: others) (first.span.merge last.span)

def annotated (depth : Nat) : ReadM (Option TypeRef) := do
  if ← eat .colon then return some (← typeRef depth) else return none

def unaryOperator? : TokenKind → Option UnaryOperator
  | .symbol .minus => some .negate
  | .symbol .bang => some .not
  | .symbol .tilde => some .bitwiseNot
  | .symbol .plusPlus => some .increment
  | .symbol .minusMinus => some .decrement
  | _ => none

/-- The left associative binary operators; `^` is read apart from them. -/
def binaryOperator? : TokenKind → Option BinaryOperator
  | .symbol .pipePipe => some .logicalOr
  | .symbol .ampersandAmpersand => some .logicalAnd
  | .symbol .pipe => some .bitwiseOr
  | .symbol .tilde => some .bitwiseXor
  | .symbol .ampersand => some .bitwiseAnd
  | .symbol .equalEqual => some .equal
  | .symbol .bangEqual => some .notEqual
  | .symbol .less => some .less
  | .symbol .lessEqual => some .lessEqual
  | .symbol .greater => some .greater
  | .symbol .greaterEqual => some .greaterEqual
  | .symbol .lessLess => some .shiftLeft
  | .symbol .greaterGreater => some .shiftRight
  | .symbol .plus => some .add
  | .symbol .minus => some .subtract
  | .symbol .star => some .multiply
  | .symbol .slash => some .divide
  | .symbol .slashSlash => some .integerDivide
  | .symbol .percent => some .modulo
  | _ => none

def level : BinaryOperator → Nat
  | .logicalOr => 1
  | .logicalAnd => 2
  | .bitwiseOr => 3
  | .bitwiseXor => 4
  | .bitwiseAnd => 5
  | .equal | .notEqual => 6
  | .less | .lessEqual | .greater | .greaterEqual => 7
  | .shiftLeft | .shiftRight => 8
  | .add | .subtract => 9
  | .multiply | .divide | .integerDivide | .modulo => 10
  | .power => 11

/-- The assignment operators: none for a plain assignment, else the operator applied first. -/
def assignment? : TokenKind → Option (Option BinaryOperator)
  | .symbol .equal => some none
  | .symbol .plusEqual => some (some .add)
  | .symbol .minusEqual => some (some .subtract)
  | .symbol .starEqual => some (some .multiply)
  | .symbol .slashEqual => some (some .divide)
  | .symbol .slashSlashEqual => some (some .integerDivide)
  | .symbol .percentEqual => some (some .modulo)
  | .symbol .caretEqual => some (some .power)
  | .symbol .ampersandEqual => some (some .bitwiseAnd)
  | .symbol .pipeEqual => some (some .bitwiseOr)
  | .symbol .tildeEqual => some (some .bitwiseXor)
  | .symbol .lessLessEqual => some (some .shiftLeft)
  | .symbol .greaterGreaterEqual => some (some .shiftRight)
  | .symbol .ampersandAmpersandEqual => some (some .logicalAnd)
  | .symbol .pipePipeEqual => some (some .logicalOr)
  | _ => none

def literal? : TokenKind → Option Literal
  | .int value => some (.int value)
  | .float value => some (.float value)
  | .string value => some (.string value)
  | .char value => some (.char value)
  | .bool value => some (.bool value)
  | .keyword .noneK => some .none
  | _ => none

def binaryNode (operator : BinaryOperator) (left right : Expression) : ReadM Expression := do
  return .binary (← node (left.span.merge right.span)) operator left right

/-- What is left when the depth is used up. -/
def placeholder : ReadM Expression := do
  let token ← current
  report (.unexpected token.kind) token.span
  return .hole (← node token.span)

mutual

/-- Assignment, the loosest level, is right associative. -/
def expression : Nat → ReadM Expression
  | 0 => placeholder
  | depth + 1 => do
    let target ← binary depth 1
    match assignment? (← kind) with
    | none => return target
    | some operator =>
      modify skip
      let value ← expression depth
      return .assign (← node (target.span.merge value.span)) operator target value

/-- An operand and the operators of at least the given level behind it. -/
def binary : Nat → Nat → ReadM Expression
  | 0, _ => placeholder
  | depth + 1, least => do
    let left ← power depth
    climb depth least left

def climb : Nat → Nat → Expression → ReadM Expression
  | 0, _, left => return left
  | depth + 1, least, left => do
    match binaryOperator? (← kind) with
    | none => return left
    | some operator =>
      if least ≤ level operator then
        modify skip
        let right ← binary depth (level operator + 1)
        let whole ← binaryNode operator left right
        climb depth least whole
      else return left

/-- Powers bind tighter than the other binary operators and are right associative. -/
def power : Nat → ReadM Expression
  | 0 => placeholder
  | depth + 1 => do
    let left ← unary depth
    if ← eat .caret then
      let right ← power depth
      binaryNode .power left right
    else return left

def unary : Nat → ReadM Expression
  | 0 => placeholder
  | depth + 1 => do
    match unaryOperator? (← kind) with
    | none =>
      let first ← primary depth
      postfixes depth first
    | some operator =>
      let start := (← advance).span
      let operand ← unary depth
      return .unary (← node (start.merge operand.span)) operator operand

def postfixes : Nat → Expression → ReadM Expression
  | 0, e => return e
  | depth + 1, e => do
    match ← kind with
    | .symbol .leftParen =>
      modify skip
      let arguments ← arguments depth
      let call := Expression.call (← nodeFrom e.span) e arguments
      postfixes depth call
    | .symbol .dot =>
      modify skip
      let name ← expectName
      let member := Expression.member (← node (e.span.merge name.span)) e name
      postfixes depth member
    | .symbol .leftBracket =>
      modify skip
      let index ← expression depth
      expect .rightBracket
      let element := Expression.element (← nodeFrom e.span) e index
      postfixes depth element
    | _ => return e

def arguments : Nat → ReadM (List Expression)
  | 0 => return []
  | depth + 1 => do
    if (← check .rightParen) || (← atEnd) then
      expect .rightParen
      return []
    else
      let first ← expression depth
      if ← eat .comma then return first :: (← arguments depth)
      else
        expect .rightParen
        return [first]

def primary : Nat → ReadM Expression
  | 0 => placeholder
  | depth + 1 => do
    let token ← current
    match literal? token.kind with
    | some value =>
      modify skip
      return .literal (← node token.span) value
    | none =>
      match token.kind with
      | .identifier name =>
        modify skip
        return .name (← node token.span) name
      | .symbol .leftParen =>
        modify skip
        let inner ← expression depth
        expect .rightParen
        return .paren (← nodeFrom token.span) inner
      | .symbol .leftBrace =>
        modify skip
        let properties ← properties depth
        return .object (← nodeFrom token.span) properties
      | kind =>
        report (.unexpected kind) token.span
        modify skip
        return .hole (← node token.span)

def properties : Nat → ReadM (List (Expression × Expression))
  | 0 => return []
  | depth + 1 => do
    if (← check .rightBrace) || (← atEnd) then
      expect .rightBrace
      return []
    else
      let key ← propertyKey depth
      expect .colon
      let value ← expression depth
      if ← eat .comma then return (key, value) :: (← properties depth)
      else
        expect .rightBrace
        return [(key, value)]

/-- A computed key stands in brackets and becomes a parenthesized expression. -/
def propertyKey : Nat → ReadM Expression
  | 0 => placeholder
  | depth + 1 => do
    if ← check .leftBracket then
      let start := (← advance).span
      let inner ← expression depth
      expect .rightBracket
      return .paren (← nodeFrom start) inner
    else primary depth

end

def parameters : Nat → ReadM (List Parameter)
  | 0 => return []
  | depth + 1 => do
    if (← check .rightParen) || (← atEnd) then return []
    else
      let before := (← get).ahead.length
      let name ← expectName
      let type ← annotated depth
      if ← eat .comma then return ⟨name, type⟩ :: (← parameters depth)
      else
        if (← get).ahead.length == before then modify skip
        return [⟨name, type⟩]

/-- An opening brace starts an object, not a block, if a bracket or a key with a colon follows. -/
def objectAhead : ReadM Bool := do
  match ← kindAt 1 with
  | .symbol .leftBracket => return true
  | .identifier _ | .string _ | .int _ | .char _ | .bool _ | .keyword .noneK =>
    return isSymbol .colon (← kindAt 2)
  | _ => return false

def letDeclaration (depth : Nat) : ReadM Statement := do
  let start := (← advance).span
  let isMutable ← eatKeyword .mutK
  let name ← expectName
  let type ← annotated depth
  let initial ← if ← eat .equal then some <$> expression depth else pure none
  return .letDecl (← nodeFrom start) isMutable name type initial

def returnStatement (depth : Nat) : ReadM Statement := do
  let start := (← advance).span
  let value ←
    if (← check .semicolon) || (← check .rightBrace) || (← atEnd) then pure none
    else some <$> expression depth
  return .giveBack (← nodeFrom start) value

def expressionStatement (depth : Nat) : ReadM Statement := do
  let value ← expression depth
  return .expression (← node value.span) value

def endOfStatement (s : Statement) : ReadM Statement := do
  let _ ← eat .semicolon
  return s

def semicolons : Nat → ReadM Unit
  | 0 => return ()
  | depth + 1 => do
    if ← eat .semicolon then semicolons depth

mutual

def statement : Nat → ReadM Statement
  | 0 => return .hole (← node (← current).span)
  | depth + 1 => do
    match ← kind with
    | .keyword .letK => endOfStatement (← letDeclaration depth)
    | .keyword .fnK => endOfStatement (← fnDeclaration depth)
    | .keyword .ifK => branch depth
    | .keyword .returnK => endOfStatement (← returnStatement depth)
    | .symbol .leftBrace =>
      if ← objectAhead then endOfStatement (← expressionStatement depth)
      else
        let start := (← current).span
        let body ← block depth
        return .block (← nodeFrom start) body
    | _ => endOfStatement (← expressionStatement depth)

/-- A function: its body is a block, or an arrow and the expression that it gives back. -/
def fnDeclaration : Nat → ReadM Statement
  | 0 => return .hole (← node (← current).span)
  | depth + 1 => do
    let start := (← advance).span
    let name ← expectName
    let parameters ←
      if ← eat .leftParen then
        let parameters ← parameters depth
        expect .rightParen
        pure parameters
      else pure []
    let result ← annotated depth
    let body ←
      if ← check .arrow then
        let arrow := (← advance).span
        let value ← expression depth
        pure [.giveBack (← nodeFrom arrow) (some value)]
      else if ← check .leftBrace then block depth
      else
        reportExpected "'->' or '\x7b'"
        pure []
    return .fnDecl (← nodeFrom start) name parameters result body

def branch : Nat → ReadM Statement
  | 0 => return .hole (← node (← current).span)
  | depth + 1 => do
    let start := (← advance).span
    let condition ← expression depth
    let body ← statement depth
    let otherwise ← if ← eatKeyword .elseK then some <$> statement depth else pure none
    return .branch (← nodeFrom start) condition body otherwise

def block : Nat → ReadM (List Statement)
  | 0 => return []
  | depth + 1 => do
    expect .leftBrace
    let body ← statements (isSymbol .rightBrace) depth
    expect .rightBrace
    return body

/-- Statements up to the end of the text or a token that ends the list. A token that no statement
can use is skipped. -/
def statements (isEnd : TokenKind → Bool) : Nat → ReadM (List Statement)
  | 0 => return []
  | depth + 1 => do
    semicolons depth
    if isEnd (← kind) || (← atEnd) then return []
    else
      let before := (← get).ahead.length
      let first ← statement depth
      if (← get).ahead.length == before then modify skip
      return first :: (← statements isEnd depth)

end

end ReadM

structure ReadTree where
  tree : SyntaxTree
  diagnostics : List Diagnostic

/-- The tree of a list of tokens; invalid ones have been reported already and are left out. -/
def SyntaxTree.ofTokens (tokens : List Token) (span : Span) : ReadTree :=
  let ahead := tokens.filter fun t => !t.kind.isInvalid
  let depth := 16 * (ahead.length + 1)
  let (statements, reader) := (ReadM.statements (fun _ => false) depth).run { ahead }
  { tree := { statements, span }, diagnostics := reader.diagnostics.toList }

/-- The tree of a source text, with the diagnostics of its tokens and then of the tree. -/
def SyntaxTree.read (source : String) : ReadTree :=
  let scanned := tokenize source
  let read := ofTokens scanned.tokens ⟨0, source.utf8ByteSize⟩
  { read with diagnostics := scanned.diagnostics ++ read.diagnostics }

end StackScript
