import StackScript.Proofs.Tree.Grammar
import StackScript.Proofs.Tree.Holes
import StackScript.Proofs.Tree.Likeness

set_option autoImplicit false

/-!
# Expressions that are read back

Main statement: `ReadM.readable_of_canonical`. Before the tokens of a canonical expression each
function of the descent that may be called there reads that expression and stops behind it, unless
what follows goes on with it.

A loop of the descent reads the inner parts of an expression that nests to the left before the outer
ones. So what is shown of the loops is that behind the tokens of an expression they go on as if that
expression had been handed to them.
-/
namespace StackScript

/-- The same tree, but for places and numbers. -/
abbrev Expression.Same : Expression → Expression → Prop := Expression.Like fun _ _ => True

namespace ReadM

variable {α β : Type} {before middle after kinds : List TokenKind} {Q : α → Prop} {T : β → Prop}
  {token : TokenKind}

/-- Before the tokens `before` the action stops before the tokens `after`. It reports nothing and
has a result in `Q`. -/
def Takes (before : List TokenKind) (action : ReadM α) (Q : α → Prop) (after : List TokenKind) :
    Prop :=
  ∀ r : Reader, r.kinds = before →
    (action.run r).2.kinds = after ∧ (action.run r).2.diagnostics = r.diagnostics ∧
      Q (action.run r).1

namespace Takes

theorem pure {x : α} (h : Q x) : Takes kinds (pure x) Q kinds := fun _ hr => ⟨hr, rfl, h⟩

theorem bind {action : ReadM α} {f : α → ReadM β} (h : Takes before action Q middle)
    (hf : ∀ x, Q x → Takes middle (f x) T after) : Takes before (action >>= f) T after := by
  intro r hr
  obtain ⟨hkinds, hreports, hresult⟩ := h r hr
  obtain ⟨hkinds', hreports', hresult'⟩ := hf _ hresult _ hkinds
  exact ⟨hkinds', hreports'.trans hreports, hresult'⟩

theorem map {action : ReadM α} {f : α → β} (h : Takes before action Q after)
    (hf : ∀ x, Q x → T (f x)) : Takes before (f <$> action) T after :=
  fun r hr => ⟨(h r hr).1, (h r hr).2.1, hf _ (h r hr).2.2⟩

theorem current {f : Token → ReadM β}
    (h : ∀ span, Takes (token :: kinds) (f ⟨token, span⟩) T after) :
    Takes (token :: kinds) (ReadM.current >>= f) T after := by
  intro r hr
  have hkind : (tokenAhead r).kind = token := by rw [kind_tokenAhead, hr]; rfl
  have hrun := h (tokenAhead r).span r hr
  rw [← hkind] at hrun
  exact hrun

theorem kind {f : TokenKind → ReadM β}
    (h : Takes kinds (f (kinds.head?.getD .endOfFile)) T after) :
    Takes kinds (ReadM.kind >>= f) T after := by
  intro r hr
  have hrun := h r hr
  rw [← hr, ← kind_tokenAhead] at hrun
  exact hrun

theorem kindAt {offset : Nat} {f : TokenKind → ReadM β}
    (h : Takes kinds (f (kinds[offset]?.getD .endOfFile)) T after) :
    Takes kinds (ReadM.kindAt offset >>= f) T after := by
  intro r hr
  have hkind : r.kinds[offset]? = r.ahead[offset]?.map (·.kind) := List.getElem?_map
  have hrun := h r hr
  rw [← hr, hkind] at hrun
  exact hrun

theorem check {s : Symbol} {f : Bool → ReadM β}
    (h : Takes kinds (f (isSymbol s (kinds.head?.getD .endOfFile))) T after) :
    Takes kinds (ReadM.check s >>= f) T after := by
  have hkind : Takes kinds (ReadM.kind >>= fun kind => f (isSymbol s kind)) T after := .kind h
  exact hkind

theorem atEnd {f : Bool → ReadM β}
    (h : Takes kinds (f (kinds.head?.getD .endOfFile).isEndOfFile) T after) :
    Takes kinds (ReadM.atEnd >>= f) T after := by
  have hkind : Takes kinds (ReadM.kind >>= fun kind => f kind.isEndOfFile) T after := .kind h
  exact hkind

theorem skip {f : Unit → ReadM β} (hinside : token.isEndOfFile = false)
    (h : Takes kinds (f ()) T after) : Takes (token :: kinds) (modify ReadM.skip >>= f) T after := by
  intro r hr
  obtain ⟨hkinds, hreports, hresult⟩ := h (ReadM.skip r) (kinds_skip hr hinside)
  exact ⟨hkinds, hreports.trans (diagnostics_skip r), hresult⟩

theorem advance {f : Token → ReadM β} (hinside : token.isEndOfFile = false)
    (h : ∀ span, Takes kinds (f ⟨token, span⟩) T after) :
    Takes (token :: kinds) (ReadM.advance >>= f) T after := by
  have hcurrent : Takes (token :: kinds)
      (ReadM.current >>= fun t => modify ReadM.skip >>= fun _ => f t) T after :=
    .current fun span => .skip hinside (h span)
  exact hcurrent

theorem node {span : Span} {f : Node → ReadM β} (h : ∀ node, Takes kinds (f node) T after) :
    Takes kinds (ReadM.node span >>= f) T after := by
  intro r hr
  exact h ⟨r.nextId, span⟩ { r with nextId := r.nextId + 1 } hr

theorem nodeFrom {start : Span} {f : Node → ReadM β} (h : ∀ node, Takes kinds (f node) T after) :
    Takes kinds (ReadM.nodeFrom start >>= f) T after :=
  fun r hr => Takes.node h r hr

theorem eatIf {accepts : TokenKind → Bool} {f : Bool → ReadM β} (hend : accepts .endOfFile = false)
    (h : accepts token = true) (hf : Takes kinds (f true) T after) :
    Takes (token :: kinds) (ReadM.eatIf accepts >>= f) T after := by
  have hinside : token.isEndOfFile = false := by
    cases token with
    | endOfFile => rw [hend] at h; cases h
    | _ => rfl
  rw [ReadM.eatIf, bind_assoc]
  refine .kind ?_
  rw [List.head?_cons, Option.getD_some, h]
  have hskip : Takes (token :: kinds) (modify ReadM.skip >>= fun _ => f true) T after :=
    .skip hinside hf
  exact hskip

theorem eatIfNot {accepts : TokenKind → Bool} {f : Bool → ReadM β}
    (h : accepts (kinds.head?.getD .endOfFile) = false) (hf : Takes kinds (f false) T after) :
    Takes kinds (ReadM.eatIf accepts >>= f) T after := by
  rw [ReadM.eatIf, bind_assoc]
  refine .kind ?_
  rw [h]
  exact hf

theorem eat {s : Symbol} {f : Bool → ReadM β} (hf : Takes kinds (f true) T after) :
    Takes (.symbol s :: kinds) (ReadM.eat s >>= f) T after :=
  .eatIf rfl (by simp [isSymbol]) hf

theorem eatNot {s : Symbol} {f : Bool → ReadM β}
    (h : isSymbol s (kinds.head?.getD .endOfFile) = false) (hf : Takes kinds (f false) T after) :
    Takes kinds (ReadM.eat s >>= f) T after :=
  .eatIfNot h hf

theorem expect {s : Symbol} {f : Unit → ReadM β} (hf : Takes kinds (f ()) T after) :
    Takes (.symbol s :: kinds) (ReadM.expect s >>= f) T after := by
  rw [ReadM.expect, bind_assoc]
  exact .eat hf

theorem expectName {text : String} {f : Name → ReadM β}
    (h : ∀ name : Name, name.text = text → Takes kinds (f name) T after) :
    Takes (.identifier text :: kinds) (ReadM.expectName >>= f) T after := by
  rw [ReadM.expectName, bind_assoc]
  refine .current fun span => ?_
  have hskip : Takes (.identifier text :: kinds)
      (modify ReadM.skip >>= fun _ => f ⟨text, span⟩) T after := .skip rfl (h ⟨text, span⟩ rfl)
  exact hskip

end Takes

theorem isSymbol_of_passes {p : TokenKind → Bool} {s : Symbol} (h : p token = true)
    (hs : p (.symbol s) = false) : isSymbol s token = false := by
  cases hsymbol : isSymbol s token with
  | false => rfl
  | true =>
    rw [eq_of_isSymbol hsymbol, hs] at h
    cases h

theorem isEndOfFile_of_passes {p : TokenKind → Bool} (h : p token = true)
    (hend : p .endOfFile = false) : token.isEndOfFile = false := by
  cases token with
  | endOfFile => rw [hend] at h; cases h
  | _ => rfl

theorem level_eq (operator : BinaryOperator) : level operator = operator.tightness := by
  cases operator <;> rfl

theorem tightness_of_ne_power {operator : BinaryOperator} (h : operator ≠ .power) :
    1 ≤ operator.tightness ∧ operator.tightness < 11 := by
  cases operator with
  | power => exact absurd rfl h
  | _ => decide

theorem unaryOperator?_symbol (operator : UnaryOperator) :
    unaryOperator? (.symbol operator.symbol) = some operator := by
  cases operator <;> rfl

theorem binaryOperator?_symbol {operator : BinaryOperator} (h : operator ≠ .power) :
    binaryOperator? (.symbol operator.symbol) = some operator := by
  cases operator with
  | power => exact absurd rfl h
  | _ => rfl

theorem assignment?_symbol {operator : Option BinaryOperator} {s : Symbol}
    (h : assignmentSymbol? operator = some s) : assignment? (.symbol s) = some operator := by
  cases operator with
  | none => cases h; rfl
  | some operator => cases operator <;> cases h <;> rfl

theorem literal?_token (value : Literal) : literal? value.token = some value := by
  cases value <;> rfl

/-- The level at which a token behind an expression goes on with it. -/
def goesOn? : TokenKind → Option Nat
  | .symbol .leftParen | .symbol .dot | .symbol .leftBracket => some 13
  | .symbol .caret => some 11
  | kind =>
    match binaryOperator? kind with
    | some operator => some operator.tightness
    | none => (assignment? kind).map fun _ => 0

/-- The first token goes on only with expressions of lower levels. -/
def Stops (level : Nat) (kinds : List TokenKind) : Prop :=
  ∀ n, goesOn? (kinds.head?.getD .endOfFile) = some n → n < level

theorem Stops.mono {n m : Nat} (h : Stops n kinds) (hle : n ≤ m) : Stops m kinds :=
  fun k hk => Nat.lt_of_lt_of_le (h k hk) hle

theorem stops_of_none {level : Nat} (h : goesOn? token = none) : Stops level (token :: kinds) := by
  intro n hn
  rw [List.head?_cons, Option.getD_some, h] at hn
  cases hn

theorem stops_of_some {level n : Nat} (h : goesOn? token = some n) (hlt : n < level) :
    Stops level (token :: kinds) := by
  intro m hm
  rw [List.head?_cons, Option.getD_some, h] at hm
  exact Option.some.inj hm ▸ hlt

theorem goesOn?_symbol (operator : BinaryOperator) :
    goesOn? (.symbol operator.symbol) = some operator.tightness := by
  cases operator <;> rfl

theorem goesOn?_assignmentSymbol {operator : Option BinaryOperator} {s : Symbol}
    (h : assignmentSymbol? operator = some s) : goesOn? (.symbol s) = some 0 := by
  cases operator with
  | none => cases h; rfl
  | some operator => cases operator <;> cases h <;> rfl

theorem goesOn?_of_binaryOperator? {operator : BinaryOperator}
    (h : binaryOperator? token = some operator) :
    goesOn? token = some operator.tightness := by
  unfold binaryOperator? at h
  split at h <;> cases h <;> rfl

theorem goesOn?_of_assignment? {operator : Option BinaryOperator}
    (h : assignment? token = some operator) : goesOn? token = some 0 := by
  unfold assignment? at h
  split at h <;> cases h <;> rfl

theorem Stops.assignment? (h : Stops 0 kinds) :
    assignment? (kinds.head?.getD .endOfFile) = none := by
  cases hassign : ReadM.assignment? (kinds.head?.getD .endOfFile) with
  | none => rfl
  | some operator => exact absurd (h 0 (goesOn?_of_assignment? hassign)) (Nat.lt_irrefl 0)

theorem Stops.tightness_lt {n : Nat} (h : Stops n kinds) {operator : BinaryOperator}
    (hoperator : binaryOperator? (kinds.head?.getD .endOfFile) = some operator) :
    operator.tightness < n :=
  h _ (goesOn?_of_binaryOperator? hoperator)

theorem Stops.caret (h : Stops 11 kinds) :
    isSymbol .caret (kinds.head?.getD .endOfFile) = false := by
  cases hcaret : isSymbol .caret (kinds.head?.getD .endOfFile) with
  | false => rfl
  | true =>
    have hkind : kinds.head?.getD .endOfFile = .symbol .caret := eq_of_isSymbol hcaret
    exact absurd (h 11 (by rw [hkind]; rfl)) (Nat.lt_irrefl 11)

theorem takes_climb_of_stops {least depth : Nat} {e : Expression} {Q : Expression → Prop}
    (h : Stops least kinds) (hresult : Q e) : Takes kinds (climb depth least e) Q kinds := by
  -- No loop goes on where an operator of a lower level stands.
  cases depth with
  | zero => exact .pure hresult
  | succ depth =>
    rw [climb]
    refine .kind ?_
    split
    · exact .pure hresult
    · rename_i operator hoperator
      have hlt := h.tightness_lt hoperator
      rw [level_eq, if_neg (by omega)]
      exact .pure hresult

theorem takes_postfixes_of_stops {depth : Nat} {e : Expression} {Q : Expression → Prop}
    (h : Stops 13 kinds) (hresult : Q e) : Takes kinds (postfixes depth e) Q kinds := by
  cases depth with
  | zero => exact .pure hresult
  | succ depth =>
    rw [postfixes]
    refine .kind ?_
    split
    · rename_i hkind
      exact absurd (h 13 (by rw [hkind]; rfl)) (Nat.lt_irrefl 13)
    · rename_i hkind
      exact absurd (h 13 (by rw [hkind]; rfl)) (Nat.lt_irrefl 13)
    · rename_i hkind
      exact absurd (h 13 (by rw [hkind]; rfl)) (Nat.lt_irrefl 13)
    · exact .pure hresult

def opens : TokenKind → Bool
  | .identifier _ | .symbol .leftParen | .symbol .leftBrace => true
  | kind => (literal? kind).isSome || (unaryOperator? kind).isSome

theorem opens_unaryOperator (operator : UnaryOperator) : opens (.symbol operator.symbol) = true := by
  cases operator <;> rfl

theorem opens_literal (value : Literal) : opens value.token = true := by
  cases value <;> rfl

theorem unaryOperator?_literal (value : Literal) : unaryOperator? value.token = none := by
  cases value <;> rfl

theorem exists_head {e : Expression} (h : e.Canonical) : ∃ kind rest, e.tokens = kind :: rest ∧
    opens kind = true ∧ (13 ≤ e.tightness → unaryOperator? kind = none) := by
  induction h with
  | literal node value => exact ⟨_, _, rfl, opens_literal value, fun _ => unaryOperator?_literal value⟩
  | name node text => exact ⟨_, _, rfl, rfl, fun _ => rfl⟩
  | paren node inside ih => exact ⟨_, _, rfl, rfl, fun _ => rfl⟩
  | unary node operator inside tight ih =>
    exact ⟨_, _, rfl, opens_unaryOperator operator,
      fun h => absurd h (by simp [Expression.tightness])⟩
  | @binary node operator left right leftward first second tightFirst tightSecond ih _ =>
    obtain ⟨kind, rest, htokens, hopens, -⟩ := ih
    refine ⟨kind, _, by rw [Expression.tokens, htokens, List.cons_append], hopens, fun h => ?_⟩
    have hle : operator.tightness ≤ 11 := by cases operator <;> decide
    exact absurd h (by simp only [Expression.tightness]; omega)
  | power node first second tightFirst tightSecond ih _ =>
    obtain ⟨kind, rest, htokens, hopens, -⟩ := ih
    exact ⟨kind, _, by rw [Expression.tokens, htokens, List.cons_append], hopens,
      fun h => absurd h (by simp [Expression.tightness, BinaryOperator.tightness])⟩
  | assign node spelled first second tight ih _ =>
    obtain ⟨kind, rest, htokens, hopens, -⟩ := ih
    exact ⟨kind, _, by rw [Expression.tokens, htokens, List.cons_append, List.cons_append], hopens,
      fun h => absurd h (by simp [Expression.tightness])⟩
  | object node keyed keys values => exact ⟨_, _, rfl, rfl, fun _ => rfl⟩
  | call node first others tight ih _ =>
    obtain ⟨kind, rest, htokens, hopens, hunary⟩ := ih
    exact ⟨kind, _, by rw [Expression.tokens, htokens, List.cons_append, List.cons_append], hopens,
      fun _ => hunary tight⟩
  | member node label inside tight ih =>
    obtain ⟨kind, rest, htokens, hopens, hunary⟩ := ih
    exact ⟨kind, _, by rw [Expression.tokens, htokens, List.cons_append], hopens,
      fun _ => hunary tight⟩
  | element node first second tight ih _ =>
    obtain ⟨kind, rest, htokens, hopens, hunary⟩ := ih
    exact ⟨kind, _, by rw [Expression.tokens, htokens, List.cons_append, List.cons_append], hopens,
      fun _ => hunary tight⟩

theorem tokens_pos {e : Expression} (h : e.Canonical) : 0 < e.tokens.length := by
  obtain ⟨kind, rest, htokens, -⟩ := exists_head h
  rw [htokens]
  exact Nat.succ_pos _

theorem opens_head {e : Expression} (h : e.Canonical) (rest : List TokenKind) :
    opens ((e.tokens ++ rest).head?.getD .endOfFile) = true := by
  obtain ⟨kind, tail, htokens, hopens, -⟩ := exists_head h
  rw [htokens]
  exact hopens

-- Five functions lie between an expression and its first token, so each token has eight levels of
-- depth to spend.
section

variable (e : Expression)

def Primary : Prop :=
  ∀ ⦃depth : Nat⦄ ⦃rest : List TokenKind⦄, 8 * e.tokens.length ≤ depth + 4 →
    Takes (e.tokens ++ rest) (primary depth) e.Same rest

/-- Behind the tokens of the expression the loop goes on with it. -/
def Postfixed : Prop :=
  ∀ ⦃depth : Nat⦄ ⦃rest after : List TokenKind⦄ ⦃Q : Expression → Prop⦄,
    8 * e.tokens.length ≤ depth + 4 →
    (∀ e' depth', e.Same e' → depth ≤ depth' + 8 * e.tokens.length →
      Takes rest (postfixes depth' e') Q after) →
    Takes (e.tokens ++ rest) (primary depth >>= postfixes depth) Q after

def Prefixed : Prop :=
  ∀ ⦃depth : Nat⦄ ⦃rest : List TokenKind⦄, 8 * e.tokens.length ≤ depth + 3 → Stops 12 rest →
    Takes (e.tokens ++ rest) (unary depth) e.Same rest

def Powered : Prop :=
  ∀ ⦃depth : Nat⦄ ⦃rest : List TokenKind⦄, 8 * e.tokens.length ≤ depth + 2 → Stops 11 rest →
    Takes (e.tokens ++ rest) (power depth) e.Same rest

def Combined : Prop :=
  ∀ ⦃least depth : Nat⦄ ⦃rest after : List TokenKind⦄ ⦃Q : Expression → Prop⦄,
    least ≤ e.tightness → 8 * e.tokens.length ≤ depth + 1 → Stops 11 rest →
    Stops (e.tightness + 1) rest →
    (∀ e' depth', e.Same e' → depth ≤ depth' + 8 * e.tokens.length →
      Takes rest (climb depth' least e') Q after) →
    Takes (e.tokens ++ rest) (binary depth least) Q after

def Whole : Prop :=
  ∀ ⦃depth : Nat⦄ ⦃rest : List TokenKind⦄, 8 * e.tokens.length ≤ depth → Stops 0 rest →
    Takes (e.tokens ++ rest) (expression depth) e.Same rest

def Keyed : Prop :=
  ∀ ⦃depth : Nat⦄ ⦃rest : List TokenKind⦄, 8 * e.tokens.length ≤ depth + 3 →
    Takes (e.keyTokens ++ rest) (propertyKey depth) e.Same rest

end

/-- Each function that may be called before the expression reads it. -/
structure Readable (e : Expression) : Prop where
  postfixed : 13 ≤ e.tightness → Postfixed e
  prefixed : 12 ≤ e.tightness → Prefixed e
  powered : 11 ≤ e.tightness → Powered e
  combined : 1 ≤ e.tightness → Combined e
  whole : Whole e
  keyed : e.isKey → Keyed e

variable {e : Expression}

theorem Primary.postfixed (h : Primary e) : Postfixed e := by
  intro depth rest after Q hdepth hloop
  exact (h hdepth).bind fun e' he' => hloop e' depth he' (Nat.le_add_right _ _)

theorem Postfixed.prefixed (h : Postfixed e) (hcanonical : e.Canonical)
    (htight : 13 ≤ e.tightness) : Prefixed e := by
  intro depth rest hdepth hstops
  have hpos := tokens_pos hcanonical
  obtain ⟨depth, rfl⟩ : ∃ d, depth = d + 1 := ⟨depth - 1, by omega⟩
  rw [unary]
  refine .kind ?_
  obtain ⟨kind, tail, htokens, -, hunary⟩ := exists_head hcanonical
  have hhead : (e.tokens ++ rest).head?.getD .endOfFile = kind := by rw [htokens]; rfl
  simp only [hhead, hunary htight]
  exact h (by omega) fun e' depth' he' _ =>
    takes_postfixes_of_stops (hstops.mono (by omega)) he'

theorem Prefixed.powered (h : Prefixed e) (hcanonical : e.Canonical) : Powered e := by
  intro depth rest hdepth hstops
  have hpos := tokens_pos hcanonical
  obtain ⟨depth, rfl⟩ : ∃ d, depth = d + 1 := ⟨depth - 1, by omega⟩
  rw [power]
  refine (h (by omega) (hstops.mono (by omega))).bind fun e' he' => ?_
  exact .eatNot hstops.caret (.pure he')

theorem Powered.combined (h : Powered e) (hcanonical : e.Canonical) : Combined e := by
  intro least depth rest after Q _ hdepth hstops _ hloop
  have hpos := tokens_pos hcanonical
  obtain ⟨depth, rfl⟩ : ∃ d, depth = d + 1 := ⟨depth - 1, by omega⟩
  rw [binary]
  exact (h (by omega) hstops).bind fun e' he' => hloop e' depth he' (by omega)

theorem Combined.operand (h : Combined e) {least depth : Nat} {rest : List TokenKind}
    (hleast : least ≤ e.tightness) (hdepth : 8 * e.tokens.length ≤ depth + 1)
    (hstops : Stops 11 rest) (hleft : Stops least rest) :
    Takes (e.tokens ++ rest) (binary depth least) e.Same rest :=
  h hleast hdepth hstops (hleft.mono (by omega)) fun _ _ he' _ => takes_climb_of_stops hleft he'

theorem Combined.whole (h : Combined e) (hcanonical : e.Canonical) (htight : 1 ≤ e.tightness) :
    Whole e := by
  intro depth rest hdepth hstops
  have hpos := tokens_pos hcanonical
  obtain ⟨depth, rfl⟩ : ∃ d, depth = d + 1 := ⟨depth - 1, by omega⟩
  rw [expression]
  refine (h.operand htight (by omega) (hstops.mono (by omega))
    (hstops.mono (by omega))).bind fun e' he' => ?_
  refine .kind ?_
  rw [hstops.assignment?]
  exact .pure he'

namespace Readable

theorem ofWhole (h : Whole e) (htight : e.tightness = 0) (hkey : e.isKey = false) :
    Readable e where
  postfixed := by omega
  prefixed := by omega
  powered := by omega
  combined := by omega
  whole := h
  keyed hkeyed := by simp [hkey] at hkeyed

theorem ofCombined (h : Combined e) (hcanonical : e.Canonical) (htight : 1 ≤ e.tightness)
    (hlow : e.tightness < 11) (hkey : e.isKey = false) : Readable e where
  postfixed := by omega
  prefixed := by omega
  powered := by omega
  combined _ := h
  whole := h.whole hcanonical htight
  keyed hkeyed := by simp [hkey] at hkeyed

theorem ofPowered (h : Powered e) (hcanonical : e.Canonical) (htight : e.tightness = 11)
    (hkey : e.isKey = false) : Readable e where
  postfixed := by omega
  prefixed := by omega
  powered _ := h
  combined _ := h.combined hcanonical
  whole := (h.combined hcanonical).whole hcanonical (by omega)
  keyed hkeyed := by simp [hkey] at hkeyed

theorem ofPrefixed (h : Prefixed e) (hcanonical : e.Canonical) (htight : e.tightness = 12)
    (hkey : e.isKey = false) : Readable e where
  postfixed := by omega
  prefixed _ := h
  powered _ := h.powered hcanonical
  combined _ := (h.powered hcanonical).combined hcanonical
  whole := ((h.powered hcanonical).combined hcanonical).whole hcanonical (by omega)
  keyed hkeyed := by simp [hkey] at hkeyed

theorem ofPostfixed (h : Postfixed e) (hcanonical : e.Canonical) (htight : 13 ≤ e.tightness)
    (hkeyed : e.isKey → Keyed e) : Readable e :=
  have hprefixed := h.prefixed hcanonical htight
  have hcombined := (hprefixed.powered hcanonical).combined hcanonical
  { postfixed := fun _ => h
    prefixed := fun _ => hprefixed
    powered := fun _ => hprefixed.powered hcanonical
    combined := fun _ => hcombined
    whole := hcombined.whole hcanonical (by omega)
    keyed := hkeyed }

end Readable

theorem Primary.keyed (h : Primary e) (hcanonical : e.Canonical) (hkey : e.keyTokens = e.tokens) :
    Keyed e := by
  intro depth rest hdepth
  have hpos := tokens_pos hcanonical
  obtain ⟨depth, rfl⟩ : ∃ d, depth = d + 1 := ⟨depth - 1, by omega⟩
  rw [hkey, propertyKey]
  refine .check ?_
  rw [isSymbol_of_passes (opens_head hcanonical rest) rfl]
  exact h (by omega)

theorem primary_literal (node : Node) (value : Literal) : Primary (.literal node value) := by
  intro depth rest hdepth
  simp only [Expression.tokens, List.length_singleton] at hdepth
  obtain ⟨depth, rfl⟩ : ∃ d, depth = d + 1 := ⟨depth - 1, by omega⟩
  rw [primary]
  refine .current fun span => ?_
  dsimp only
  rw [literal?_token]
  exact .skip (isEndOfFile_of_passes (opens_literal value) rfl)
    (.node fun node' => .pure (.literal trivial))

theorem primary_name (node : Node) (text : String) : Primary (.name node text) := by
  intro depth rest hdepth
  simp only [Expression.tokens, List.length_singleton] at hdepth
  obtain ⟨depth, rfl⟩ : ∃ d, depth = d + 1 := ⟨depth - 1, by omega⟩
  rw [primary]
  refine .current fun span => ?_
  exact .skip rfl (.node fun node' => .pure (.name trivial))

theorem primary_paren (node : Node) (h : Whole e) : Primary (.paren node e) := by
  intro depth rest hdepth
  simp only [Expression.tokens, List.length_append, List.length_cons, List.length_nil] at hdepth
  obtain ⟨depth, rfl⟩ : ∃ d, depth = d + 1 := ⟨depth - 1, by omega⟩
  simp only [Expression.tokens, List.cons_append, List.append_assoc, List.nil_append]
  rw [primary]
  refine .current fun span => ?_
  refine .skip rfl ?_
  refine (h (by omega) (stops_of_none rfl)).bind fun e' he' => ?_
  exact .expect (.nodeFrom fun node' => .pure (.paren trivial he'))

theorem keyed_paren (node : Node) (h : Whole e) : Keyed (.paren node e) := by
  intro depth rest hdepth
  simp only [Expression.tokens, List.length_append, List.length_cons, List.length_nil] at hdepth
  obtain ⟨depth, rfl⟩ : ∃ d, depth = d + 1 := ⟨depth - 1, by omega⟩
  simp only [Expression.keyTokens, List.cons_append, List.append_assoc, List.nil_append]
  rw [propertyKey]
  refine .check ?_
  refine .advance rfl fun span => ?_
  refine (h (by omega) (stops_of_none rfl)).bind fun e' he' => ?_
  exact .expect (.nodeFrom fun node' => .pure (.paren trivial he'))

theorem length_keyTokens (e : Expression) : e.keyTokens.length = e.tokens.length := by
  cases e <;> simp [Expression.keyTokens, Expression.tokens]

theorem exists_keyHead (hcanonical : e.Canonical) : ∃ kind rest, e.keyTokens = kind :: rest ∧
    (opens kind = true ∨ kind = .symbol .leftBracket) := by
  have hplain : e.keyTokens = e.tokens → ∃ kind rest, e.keyTokens = kind :: rest ∧
      (opens kind = true ∨ kind = .symbol .leftBracket) := by
    intro hkey
    obtain ⟨kind, rest, htokens, hopens, -⟩ := exists_head hcanonical
    exact ⟨kind, rest, hkey.trans htokens, .inl hopens⟩
  cases e with
  | paren node inner => exact ⟨_, _, rfl, .inr rfl⟩
  | _ => exact hplain rfl

theorem stops_separatedTail {s : Symbol} {level : Nat} (pieces : List (List TokenKind))
    {rest : List TokenKind} (hs : goesOn? (.symbol s) = none) (hrest : Stops level rest) :
    Stops level (separatedTail s pieces ++ rest) := by
  cases pieces with
  | nil => exact hrest
  | cons piece pieces => exact stops_of_none hs

theorem takes_properties {properties : List (Expression × Expression)}
    (hcanonical : ∀ entry ∈ properties, entry.1.Canonical)
    (hkeys : ∀ entry ∈ properties, Keyed entry.1) (hvalues : ∀ entry ∈ properties, Whole entry.2)
    {depth : Nat} {rest : List TokenKind}
    (hdepth : 8 * (separated .comma (Expression.entryTokens properties)).length < depth) :
    Takes (separated .comma (Expression.entryTokens properties) ++ .symbol .rightBrace :: rest)
      (ReadM.properties depth) (Expression.EntriesLike (fun _ _ => True) properties) rest := by
  induction properties generalizing depth with
  | nil =>
    obtain ⟨depth, rfl⟩ : ∃ d, depth = d + 1 := ⟨depth - 1, by omega⟩
    rw [ReadM.properties]
    exact .check (.atEnd (.expect (.pure .nil)))
  | cons entry others ih =>
    obtain ⟨key, value⟩ := entry
    obtain ⟨depth, rfl⟩ : ∃ d, depth = d + 1 := ⟨depth - 1, by omega⟩
    obtain ⟨kind, tail, hkind, hhead⟩ := exists_keyHead (hcanonical _ List.mem_cons_self)
    have hbrace : isSymbol .rightBrace kind = false := by
      obtain hopens | rfl := hhead
      · exact isSymbol_of_passes hopens rfl
      · rfl
    have hend : kind.isEndOfFile = false := by
      obtain hopens | rfl := hhead
      · exact isEndOfFile_of_passes hopens rfl
      · rfl
    have hkey : Keyed key := hkeys _ List.mem_cons_self
    have hvalue : Whole value := hvalues _ List.mem_cons_self
    rw [Expression.entryTokens_cons, separated_cons] at hdepth ⊢
    simp only [List.length_append, List.length_cons, length_keyTokens] at hdepth
    simp only [List.append_assoc, List.cons_append]
    rw [ReadM.properties]
    refine .check (.atEnd ?_)
    simp only [hkind, List.cons_append, List.head?_cons, Option.getD_some, hbrace, hend,
      Bool.or_self, Bool.false_eq_true, if_false]
    rw [← List.cons_append, ← hkind]
    refine (hkey (by omega)).bind fun key' hkey' => .expect ?_
    refine (hvalue (by omega) (stops_separatedTail _ rfl (stops_of_none rfl))).bind
      fun value' hvalue' => ?_
    cases others with
    | nil => exact .eatNot rfl (.expect (.pure (.cons hkey' hvalue' .nil)))
    | cons next others =>
      obtain ⟨nextKey, nextValue⟩ := next
      rw [Expression.entryTokens_cons] at ih hdepth ⊢
      simp only [separatedTail, List.length_cons] at hdepth
      refine .eat ((ih (fun entry h => hcanonical entry (List.mem_cons_of_mem _ h))
        (fun entry h => hkeys entry (List.mem_cons_of_mem _ h))
        (fun entry h => hvalues entry (List.mem_cons_of_mem _ h)) ?_).bind fun rest' hrest' =>
          .pure (.cons hkey' hvalue' hrest'))
      omega

theorem primary_object (node : Node) {properties : List (Expression × Expression)}
    (hcanonical : ∀ entry ∈ properties, entry.1.Canonical)
    (hkeys : ∀ entry ∈ properties, Keyed entry.1) (hvalues : ∀ entry ∈ properties, Whole entry.2) :
    Primary (.object node properties) := by
  intro depth rest hdepth
  simp only [Expression.tokens, List.length_append, List.length_cons, List.length_nil] at hdepth
  obtain ⟨depth, rfl⟩ : ∃ d, depth = d + 1 := ⟨depth - 1, by omega⟩
  simp only [Expression.tokens, List.cons_append, List.append_assoc, List.nil_append]
  rw [primary]
  refine .current fun span => ?_
  refine .skip rfl ?_
  refine (takes_properties hcanonical hkeys hvalues (by omega)).bind fun properties' hlike => ?_
  exact .nodeFrom fun node' => .pure (.object trivial hlike)

theorem takes_arguments {arguments : List Expression}
    (hcanonical : ∀ argument ∈ arguments, argument.Canonical)
    (hwhole : ∀ argument ∈ arguments, Whole argument) {depth : Nat} {rest : List TokenKind}
    (hdepth : 8 * (separated .comma (Expression.listTokens arguments)).length < depth) :
    Takes (separated .comma (Expression.listTokens arguments) ++ .symbol .rightParen :: rest)
      (ReadM.arguments depth) (Expression.ListLike (fun _ _ => True) arguments) rest := by
  induction arguments generalizing depth with
  | nil =>
    obtain ⟨depth, rfl⟩ : ∃ d, depth = d + 1 := ⟨depth - 1, by omega⟩
    rw [ReadM.arguments]
    exact .check (.atEnd (.expect (.pure .nil)))
  | cons argument others ih =>
    obtain ⟨depth, rfl⟩ : ∃ d, depth = d + 1 := ⟨depth - 1, by omega⟩
    have hargument : Whole argument := hwhole argument List.mem_cons_self
    have hopens := opens_head (hcanonical argument List.mem_cons_self)
      (separatedTail .comma (Expression.listTokens others) ++ .symbol .rightParen :: rest)
    rw [Expression.listTokens, separated_cons] at hdepth ⊢
    rw [List.length_append] at hdepth
    rw [List.append_assoc, ReadM.arguments]
    have hparen := isSymbol_of_passes (s := .rightParen) hopens rfl
    refine .check (.atEnd ?_)
    simp only [hparen, isEndOfFile_of_passes hopens rfl, Bool.or_self, Bool.false_eq_true, if_false]
    refine (hargument (by omega) (stops_separatedTail _ rfl (stops_of_none rfl))).bind
      fun argument' hlike => ?_
    cases others with
    | nil => exact .eatNot rfl (.expect (.pure (.cons hlike .nil)))
    | cons next others =>
      rw [Expression.listTokens] at ih hdepth ⊢
      simp only [separatedTail, List.length_cons] at hdepth
      refine .eat ((ih (fun a h => hcanonical a (List.mem_cons_of_mem _ h))
        (fun a h => hwhole a (List.mem_cons_of_mem _ h)) ?_).bind fun rest' hrest' =>
          .pure (.cons hlike hrest'))
      omega

theorem postfixed_call (node : Node) {callee : Expression} {arguments : List Expression}
    (h : Postfixed callee) (hcanonical : ∀ argument ∈ arguments, argument.Canonical)
    (hwhole : ∀ argument ∈ arguments, Whole argument) : Postfixed (.call node callee arguments) := by
  intro depth rest after Q hdepth hloop
  simp only [Expression.tokens, List.length_append, List.length_cons, List.length_nil] at hdepth hloop
  simp only [Expression.tokens, List.cons_append, List.append_assoc, List.nil_append]
  refine h (by omega) fun callee' depth' hcallee hdepth' => ?_
  obtain ⟨depth', rfl⟩ : ∃ d, depth' = d + 1 := ⟨depth' - 1, by omega⟩
  rw [ReadM.postfixes]
  refine .kind ?_
  refine .skip rfl ?_
  refine (takes_arguments hcanonical hwhole (by omega)).bind fun arguments' harguments => ?_
  exact .nodeFrom fun node' => hloop _ depth' (.call trivial hcallee harguments) (by omega)

theorem postfixed_member (node : Node) (label : Name) (h : Postfixed e) :
    Postfixed (.member node e label) := by
  intro depth rest after Q hdepth hloop
  simp only [Expression.tokens, List.length_append, List.length_cons, List.length_nil] at hdepth hloop
  simp only [Expression.tokens, List.cons_append, List.append_assoc, List.nil_append]
  refine h (by omega) fun e' depth' he' hdepth' => ?_
  obtain ⟨depth', rfl⟩ : ∃ d, depth' = d + 1 := ⟨depth' - 1, by omega⟩
  rw [ReadM.postfixes]
  refine .kind ?_
  refine .skip rfl (.expectName fun label' hlabel => ?_)
  exact .node fun node' => hloop _ depth' (.member trivial he' hlabel.symm) (by omega)

theorem postfixed_element (node : Node) {index : Expression} (h : Postfixed e)
    (hindex : Whole index) : Postfixed (.element node e index) := by
  intro depth rest after Q hdepth hloop
  simp only [Expression.tokens, List.length_append, List.length_cons, List.length_nil] at hdepth hloop
  simp only [Expression.tokens, List.cons_append, List.append_assoc, List.nil_append]
  refine h (by omega) fun e' depth' he' hdepth' => ?_
  obtain ⟨depth', rfl⟩ : ∃ d, depth' = d + 1 := ⟨depth' - 1, by omega⟩
  rw [ReadM.postfixes]
  refine .kind ?_
  refine .skip rfl ?_
  refine (hindex (by omega) (stops_of_none rfl)).bind fun index' hindex' => .expect ?_
  exact .nodeFrom fun node' => hloop _ depth' (.element trivial he' hindex') (by omega)

theorem prefixed_unary (node : Node) (operator : UnaryOperator) (h : Prefixed e) :
    Prefixed (.unary node operator e) := by
  intro depth rest hdepth hstops
  simp only [Expression.tokens, List.length_cons] at hdepth
  obtain ⟨depth, rfl⟩ : ∃ d, depth = d + 1 := ⟨depth - 1, by omega⟩
  simp only [Expression.tokens, List.cons_append]
  rw [ReadM.unary]
  refine .kind ?_
  simp only [List.head?_cons, Option.getD_some, unaryOperator?_symbol]
  refine .advance rfl fun span => ?_
  refine (h (by omega) hstops).bind fun e' he' => ?_
  exact .node fun node' => .pure (.unary trivial he')

theorem powered_power (node : Node) {left right : Expression} (hleft : Prefixed left)
    (hright : Powered right) : Powered (.binary node .power left right) := by
  intro depth rest hdepth hstops
  simp only [Expression.tokens, List.length_append, List.length_cons] at hdepth
  obtain ⟨depth, rfl⟩ : ∃ d, depth = d + 1 := ⟨depth - 1, by omega⟩
  simp only [Expression.tokens, List.append_assoc, List.cons_append]
  rw [ReadM.power]
  refine (hleft (by omega) (stops_of_some rfl (by decide))).bind fun left' hlike => .eat ?_
  refine (hright (by omega) hstops).bind fun right' hlike' => ?_
  exact .node fun node' => .pure (.binary trivial hlike hlike')

/-- The left operand is read by the same loop as the whole, the right one by a call of its own,
which leaves an operator of the same level to that loop. -/
theorem combined_binary (node : Node) {operator : BinaryOperator} {left right : Expression}
    (hoperator : operator ≠ .power) (hleft : Combined left) (hright : Combined right)
    (htight : operator.tightness ≤ left.tightness)
    (htight' : operator.tightness < right.tightness) :
    Combined (.binary node operator left right) := by
  intro least depth rest after Q hleast hdepth hstops hrest hloop
  simp only [Expression.tokens, List.length_append, List.length_cons] at hdepth hloop
  simp only [Expression.tokens, List.append_assoc, List.cons_append]
  change least ≤ operator.tightness at hleast
  change Stops (operator.tightness + 1) rest at hrest
  have hlow := (tightness_of_ne_power hoperator).2
  have hgoes := goesOn?_symbol operator
  refine hleft (by omega) (by omega) (stops_of_some hgoes hlow) (stops_of_some hgoes (by omega))
    fun left' depth' hlike hdepth' => ?_
  obtain ⟨depth', rfl⟩ : ∃ d, depth' = d + 1 := ⟨depth' - 1, by omega⟩
  rw [ReadM.climb]
  refine .kind ?_
  simp only [List.head?_cons, Option.getD_some, binaryOperator?_symbol hoperator, level_eq,
    if_pos hleast]
  refine .skip rfl ?_
  refine (hright.operand (by omega) (by omega) hstops hrest).bind fun right' hlike' => ?_
  rw [binaryNode, bind_assoc]
  exact .node fun node' => hloop _ depth' (.binary trivial hlike hlike') (by omega)

theorem whole_assign (node : Node) {operator : Option BinaryOperator} {target value : Expression}
    (hspelled : (assignmentSymbol? operator).isSome) (htarget : Combined target)
    (htight : 1 ≤ target.tightness) (hvalue : Whole value) :
    Whole (.assign node operator target value) := by
  intro depth rest hdepth hstops
  obtain ⟨s, hs⟩ := Option.isSome_iff_exists.mp hspelled
  simp only [Expression.tokens, hs, Option.toList_some, List.map_cons, List.map_nil,
    List.length_append, List.length_cons, List.length_nil] at hdepth
  obtain ⟨depth, rfl⟩ : ∃ d, depth = d + 1 := ⟨depth - 1, by omega⟩
  simp only [Expression.tokens, hs, Option.toList_some, List.map_cons, List.map_nil,
    List.append_assoc, List.cons_append, List.nil_append]
  have hgoes := goesOn?_assignmentSymbol hs
  rw [ReadM.expression]
  refine (htarget.operand htight (by omega) (stops_of_some hgoes (by omega))
    (stops_of_some hgoes (by omega))).bind fun target' hlike => .kind ?_
  simp only [List.head?_cons, Option.getD_some, assignment?_symbol hs]
  refine .skip rfl ?_
  refine (hvalue (by omega) hstops).bind fun value' hlike' => ?_
  exact .node fun node' => .pure (.assign trivial hlike hlike')

theorem readable_of_canonical (h : e.Canonical) : Readable e := by
  induction h with
  | literal node value =>
    have hprimary := primary_literal node value
    exact .ofPostfixed hprimary.postfixed (.literal node value) (Nat.le_succ 13)
      fun _ => hprimary.keyed (.literal node value) rfl
  | name node text =>
    have hprimary := primary_name node text
    exact .ofPostfixed hprimary.postfixed (.name node text) (Nat.le_succ 13)
      fun _ => hprimary.keyed (.name node text) rfl
  | paren node inside ih =>
    exact .ofPostfixed (primary_paren node ih.whole).postfixed (.paren node inside)
      (Nat.le_succ 13) fun _ => keyed_paren node ih.whole
  | unary node operator inside tight ih =>
    exact .ofPrefixed (prefixed_unary node operator (ih.prefixed tight))
      (.unary node operator inside tight) rfl rfl
  | @binary node operator left right leftward first second tightFirst tightSecond ih ih' =>
    obtain ⟨hpos, hlow⟩ := tightness_of_ne_power leftward
    have hcombined := combined_binary node leftward (ih.combined (by omega))
      (ih'.combined (by omega)) tightFirst tightSecond
    exact .ofCombined hcombined (.binary node leftward first second tightFirst tightSecond) hpos hlow
      rfl
  | power node first second tightFirst tightSecond ih ih' =>
    exact .ofPowered (powered_power node (ih.prefixed tightFirst) (ih'.powered tightSecond))
      (.power node first second tightFirst tightSecond) rfl rfl
  | assign node spelled first second tight ih ih' =>
    exact .ofWhole (whole_assign node spelled (ih.combined tight) tight ih'.whole) rfl rfl
  | object node keyed keys values ih ih' =>
    have hprimary := primary_object node keys (fun entry h => (ih entry h).keyed (keyed entry h))
      fun entry h => (ih' entry h).whole
    exact .ofPostfixed hprimary.postfixed (.object node keyed keys values)
      (Nat.le_succ 13) fun _ => hprimary.keyed (.object node keyed keys values) rfl
  | call node first others tight ih ih' =>
    have hpostfixed := postfixed_call node (ih.postfixed tight) others fun a h => (ih' a h).whole
    exact .ofPostfixed hpostfixed (.call node first others tight) (Nat.le_refl 13) nofun
  | member node label inside tight ih =>
    exact .ofPostfixed (postfixed_member node label (ih.postfixed tight))
      (.member node label inside tight) (Nat.le_refl 13) nofun
  | element node first second tight ih ih' =>
    exact .ofPostfixed (postfixed_element node (ih.postfixed tight) ih'.whole)
      (.element node first second tight) (Nat.le_refl 13) nofun

end ReadM

end StackScript
