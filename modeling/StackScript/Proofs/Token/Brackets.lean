import StackScript.Token.Basic

set_option autoImplicit false

/-!
# Brackets among tokens

`Brackets.closes` goes over the brackets of a text with a stack of those that are still to be
closed. It answers at once where a bracket closes another one than the last opened, and at the end
by what is left on the stack.
-/
namespace StackScript

namespace Symbol

def closer? : Symbol → Option Symbol
  | .leftParen => some .rightParen
  | .leftBracket => some .rightBracket
  | .leftBrace => some .rightBrace
  | _ => none

def brackets : List Symbol :=
  [.leftParen, .rightParen, .leftBracket, .rightBracket, .leftBrace, .rightBrace]

def isBracket (s : Symbol) : Bool := brackets.contains s

end Symbol

def TokenKind.bracket? : TokenKind → Option Symbol
  | .symbol s => if s.isBracket then some s else none
  | _ => none

namespace Brackets

theorem isBracket_of_bracket? {kind : TokenKind} {s : Symbol} (h : kind.bracket? = some s) :
    s.isBracket = true := by
  unfold TokenKind.bracket? at h
  split at h
  · split at h
    · cases h
      assumption
    · cases h
  · cases h

/-- The brackets among tokens of these kinds. -/
def of (kinds : List TokenKind) : List Symbol := kinds.filterMap (·.bracket?)

/-- Whether all brackets are closed, those in `awaited` being still open. A bracket that closes
another one than the last opened makes them count as closed. -/
def closes : List Symbol → List Symbol → Bool
  | awaited, [] => awaited.isEmpty
  | awaited, bracket :: rest =>
    match bracket.closer? with
    | some closer => closes (closer :: awaited) rest
    | none =>
      match awaited with
      | [] => true
      | expected :: awaited => if expected == bracket then closes awaited rest else true

section Closes

variable {s : Symbol} {rest : List Symbol}

theorem closes_opener {closer : Symbol} (h : s.closer? = some closer) (awaited : List Symbol) :
    closes awaited (s :: rest) = closes (closer :: awaited) rest := by
  rw [closes.eq_def]
  simp only [h]

theorem closes_unexpected (h : s.closer? = none) : closes [] (s :: rest) = true := by
  rw [closes.eq_def]
  simp only [h]

theorem closes_closer (h : s.closer? = none) (expected : Symbol) (awaited : List Symbol) :
    closes (expected :: awaited) (s :: rest) =
      if expected == s then closes awaited rest else true := by
  rw [closes.eq_def]
  simp only [h]

end Closes

/-- A token of this kind takes what is awaited from the one to the other. -/
def Passes (kind : TokenKind) (awaited awaited' : List Symbol) : Prop :=
  ∀ rest, closes awaited (of (kind :: rest)) = closes awaited' (of rest)

variable {awaited : List Symbol}

theorem passes_plain {kind : TokenKind} (h : kind.bracket? = none) :
    Passes kind awaited awaited := by
  intro rest
  rw [of, List.filterMap_cons_none h]
  rfl

theorem passes_opener {s closer : Symbol} (h : s.closer? = some closer) :
    Passes (.symbol s) awaited (closer :: awaited) := by
  intro rest
  have hbracket : (TokenKind.symbol s).bracket? = some s := by
    cases s <;> first | rfl | cases h
  rw [of, List.filterMap_cons_some hbracket, closes_opener h]
  rfl

theorem passes_closer {s : Symbol} (h : s.closer? = none) (hs : s.isBracket = true) :
    Passes (.symbol s) (s :: awaited) awaited := by
  intro rest
  have hbracket : (TokenKind.symbol s).bracket? = some s := if_pos hs
  rw [of, List.filterMap_cons_some hbracket, closes_closer h, beq_self_eq_true, if_pos rfl]
  rfl

end Brackets

end StackScript
