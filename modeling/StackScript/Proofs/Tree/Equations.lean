import StackScript.Tree.Parse

set_option autoImplicit false

/-!
# The reader in equations

What the small actions of the reader do with it, and the longer functions as they are taken apart in
the proofs about them: with one look at the token ahead, and with names for their parts.
-/
namespace StackScript

def Reader.kinds (r : Reader) : List TokenKind := r.ahead.map (·.kind)

namespace ReadM

variable {α β : Type}

theorem diagnostics_skip (r : Reader) : (skip r).diagnostics = r.diagnostics := by
  unfold skip
  split
  · rfl
  · split <;> rfl

theorem eq_of_isSymbol {s : Symbol} {kind : TokenKind} (h : isSymbol s kind = true) :
    kind = .symbol s := by
  unfold isSymbol at h
  split at h
  · rw [eq_of_beq h]
  · simp at h

theorem kind_tokenAhead (r : Reader) :
    (tokenAhead r).kind = r.kinds.head?.getD .endOfFile := by
  rw [tokenAhead, Reader.kinds, List.headD_eq_head?_getD, List.head?_map]
  cases r.ahead.head? <;> rfl

theorem kinds_skip {r : Reader} {kind : TokenKind} {tail : List TokenKind}
    (h : r.kinds = kind :: tail) (hinside : kind.isEndOfFile = false) :
    (skip r).kinds = tail := by
  obtain ⟨token, rest, hahead, hkind, htail⟩ := List.map_eq_cons_iff.mp h
  simp only [skip, hahead, hkind, hinside, Bool.false_eq_true, if_false]
  exact htail

theorem nextId_skip (r : Reader) : (skip r).nextId = r.nextId := by
  unfold skip
  split
  · rfl
  · split <;> rfl

theorem eatIf_bind (accepts : TokenKind → Bool) (f : Bool → ReadM β) :
    eatIf accepts >>= f = kind >>= fun kind =>
      if accepts kind then modify skip >>= fun _ => f true else f false := by
  rw [eatIf, bind_assoc]
  congr 1
  funext kind
  split <;> rfl

theorem run_expect {s : Symbol} {r : Reader} (h : (tokenAhead r).kind = .symbol s) :
    (expect s).run r = ((), skip r) := by
  have hsymbol : isSymbol s (tokenAhead r).kind = true := by simp [h, isSymbol]
  have heat : (eat s).run r = (true, skip r) := by
    change StateT.run (if isSymbol s (tokenAhead r).kind then _ else _) r = _
    rw [if_pos hsymbol]
    rfl
  rw [expect, StateT.run_bind, heat]
  rfl

theorem run_kindAt (place : Nat) (r : Reader) :
    (kindAt place).run r = (r.kinds[place]?.getD .endOfFile, r) := by
  change ((r.ahead[place]?.map (·.kind)).getD .endOfFile, r) = _
  rw [Reader.kinds, List.getElem?_map]

/-- Whether these two tokens behind a brace are the first ones of an object. -/
def opensObject (first second : TokenKind) : Bool :=
  match first with
  | .symbol .leftBracket => true
  | .identifier _ | .string _ | .int _ | .char _ | .bool _ | .keyword .noneK =>
    isSymbol .colon second
  | _ => false

theorem run_objectAhead (r : Reader) :
    objectAhead.run r =
      (opensObject (r.kinds[1]?.getD .endOfFile) (r.kinds[2]?.getD .endOfFile), r) := by
  have hsecond : ∀ f : TokenKind → ReadM Bool, ∀ place,
      (kindAt place >>= f).run r = (f (r.kinds[place]?.getD .endOfFile)).run r := by
    intro f place
    change (f ((kindAt place).run r).1).run ((kindAt place).run r).2 = _
    rw [run_kindAt]
  rw [objectAhead, hsecond]
  cases hfirst : r.kinds[1]?.getD .endOfFile with
  | symbol s => cases s <;> rfl
  | keyword k => cases k <;> first | rfl | exact hsecond _ _
  | identifier name => exact hsecond _ _
  | string value => exact hsecond _ _
  | int value => exact hsecond _ _
  | char value => exact hsecond _ _
  | bool value => exact hsecond _ _
  | _ => rfl

theorem ite_bind (c : Bool) (first second : ReadM α) (f : α → ReadM β) :
    (if c then first else second) >>= f = if c then first >>= f else second >>= f := by
  cases c <;> rfl

def functionBody (depth : Nat) : ReadM (List Statement) := do
  let kind ← kind
  if isSymbol .arrow kind then
    let arrow ← advance
    let value ← expression depth
    let node ← nodeFrom arrow.span
    return [.giveBack node (some value)]
  else if isSymbol .leftBrace kind then block depth
  else
    reportExpected "'->' or '\x7b'"
    return []

def functionRest (start : Span) (name : Name) (depth : Nat) (parameters : List Parameter) :
    ReadM Statement := do
  let result ← annotated depth
  let body ← functionBody depth
  let node ← nodeFrom start
  return .fnDecl node name parameters result body

theorem fnDeclaration_eq (depth : Nat) : fnDeclaration (depth + 1) = (do
    let start ← advance
    let name ← expectName
    if ← eat .leftParen then
      let x ← parameters depth
      expect .rightParen
      functionRest start.span name depth x
    else functionRest start.span name depth []) := by
  have hbody : ∀ f : List Statement → ReadM Statement,
      (check .arrow >>= fun arrow => check .leftBrace >>= fun brace =>
        if arrow then advance >>= fun arrow => expression depth >>= fun value =>
          nodeFrom arrow.span >>= fun node => f [.giveBack node (some value)]
        else if brace then block depth >>= f
        else reportExpected "'->' or '\x7b'" >>= fun _ => f []) = functionBody depth >>= f := by
    intro f
    simp only [functionBody, bind_assoc, ite_bind, pure_bind]
    rfl
  unfold fnDeclaration functionRest
  simp only [pure_bind, ← hbody]

/-- A statement; a token that no statement can use is skipped. -/
def nextStatement (depth : Nat) : ReadM Statement := do
  let before ← get
  let first ← statement depth
  let r ← get
  if r.ahead.length == before.ahead.length then modify skip
  return first

theorem statements_eq (isEnd : TokenKind → Bool) (depth : Nat) :
    statements isEnd (depth + 1) = (do
      semicolons depth
      let kind ← kind
      if isEnd kind || kind.isEndOfFile then return []
      else
        let first ← nextStatement depth
        let rest ← statements isEnd depth
        return first :: rest) := by
  conv =>
    lhs
    unfold statements
  simp only [nextStatement, bind_assoc, ite_bind, pure_bind]
  rfl

end ReadM

end StackScript
