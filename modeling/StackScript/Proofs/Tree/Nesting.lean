import StackScript.Proofs.Token.Brackets
import StackScript.Proofs.Tree.Joining

set_option autoImplicit false

/-!
# Brackets of a tree

Main statement: `SyntaxTree.closes_of_read`. Whatever the reader reads without a report, it has
closed the brackets that it opened, and no others. So tokens about which nothing is reported are
well nested.

The argument follows the check of the brackets along the tokens: the tokens ahead are to be found
closed or not, given what is awaited at this place, and each function of the reader hands that
question on. Lists of arguments, properties and statements end early where the depth is used up, so
there must be depth enough for the tokens ahead.
-/
namespace StackScript

open Brackets (Passes passes_plain passes_opener passes_closer)

structure Reader.Before (kinds : List TokenKind) (r : Reader) : Prop where
  ahead : r.kinds = kinds ++ [.endOfFile]
  inside : ∀ kind ∈ kinds, kind.isEndOfFile = false

namespace ReadM

abbrev Stand := List TokenKind → Prop

/-- From a reader before tokens in `p` the action, if it reports nothing, leads to one before tokens
in `q`. -/
def Leads {α : Type} (p : Stand) (action : ReadM α) (q : Stand) : Prop :=
  Quiet action ∧ ∀ kinds r, p kinds → r.Before kinds → (action.run r).2.diagnostics = #[] →
    ∃ kinds', (action.run r).2.Before kinds' ∧ q kinds'

/-- Less than `n` tokens are ahead, and the check of their brackets gives this answer. -/
def due (awaited : List Symbol) (answer : Bool) (n : Nat) : Stand :=
  fun kinds => kinds.length < n ∧ Brackets.closes awaited (Brackets.of kinds) = answer

def dueAt (kind : TokenKind) (awaited : List Symbol) (answer : Bool) (n : Nat) : Stand :=
  fun kinds => ∃ tail, kinds = kind :: tail ∧ due awaited answer n kinds

variable {α β : Type} {p p' q q' : Stand} {awaited awaited' : List Symbol} {answer : Bool}
  {n m : Nat} {token : TokenKind}

theorem due_mono (h : n ≤ m) {kinds : List TokenKind} (hdue : due awaited answer n kinds) :
    due awaited answer m kinds := ⟨Nat.lt_of_lt_of_le hdue.1 h, hdue.2⟩

theorem due_of_dueAt {kinds : List TokenKind} (h : dueAt token awaited answer n kinds) :
    due awaited answer n kinds := by
  obtain ⟨tail, -, hdue⟩ := h
  exact hdue

namespace Leads

theorem pure {x : α} (h : ∀ kinds, p kinds → q kinds) : Leads p (pure x) q :=
  ⟨.pure trivial, fun kinds _ hp hbefore _ => ⟨kinds, hbefore, h kinds hp⟩⟩

theorem stay {x : α} : Leads p (Pure.pure x) p := .pure fun _ hp => hp

theorem ofPure {x : α} {f : α → ReadM β} (h : Leads p (f x) q) : Leads p (Pure.pure x >>= f) q := h

theorem bind {action : ReadM α} {f : α → ReadM β} (h : Leads p action q)
    (hf : ∀ x, Leads q (f x) q') : Leads p (action >>= f) q' := by
  refine ⟨h.1.andThen fun x => (hf x).1, fun kinds r hp hbefore hclean => ?_⟩
  have hmiddle := ((hf (action.run r).1).1 _ hclean).1
  obtain ⟨kinds', hbefore', hq⟩ := h.2 kinds r hp hbefore hmiddle
  exact (hf _).2 kinds' _ hq hbefore' hclean

theorem map {action : ReadM α} {f : α → β} (h : Leads p action q) : Leads p (f <$> action) q :=
  ⟨h.1.map fun _ _ => trivial, h.2⟩

theorem before {action : ReadM α} (h : Leads p action q) (hp : ∀ kinds, p' kinds → p kinds) :
    Leads p' action q := by
  refine ⟨h.1, fun kinds r hstand hbefore hclean => ?_⟩
  exact h.2 kinds r (hp kinds hstand) hbefore hclean

theorem after {action : ReadM α} (h : Leads p action q) (hq : ∀ kinds, q kinds → q' kinds) :
    Leads p action q' := by
  refine ⟨h.1, fun kinds r hstand hbefore hclean => ?_⟩
  obtain ⟨kinds', hbefore', hstand'⟩ := h.2 kinds r hstand hbefore hclean
  exact ⟨kinds', hbefore', hq kinds' hstand'⟩

theorem ofReport {action : ReadM α} (h : Reads (fun _ => False) action) : Leads p action q :=
  ⟨h.mono fun _ hfalse => hfalse.elim, fun _ r _ _ hclean => (h r hclean).2.elim⟩

theorem ofQuiet {action : ReadM α} (h : Quiet action) (hp : ∀ kinds, ¬ p kinds) :
    Leads p action q :=
  ⟨h, fun kinds _ hstand => absurd hstand (hp kinds)⟩

theorem ofLooking {action : ReadM α} (h : Quiet action)
    (hsame : ∀ r, (action.run r).2.ahead = r.ahead) :
    Leads p action p := by
  refine ⟨h, fun kinds r hp hbefore _ => ⟨kinds, ⟨?_, hbefore.inside⟩, hp⟩⟩
  rw [Reader.kinds, hsame]
  exact hbefore.ahead

end Leads

theorem leads_node (span : Span) : Leads p (node span) p :=
  .ofLooking (evolving_node span).quiet fun _ => rfl

theorem leads_nodeFrom (start : Span) : Leads p (nodeFrom start) p :=
  .ofLooking (evolving_nodeFrom start).quiet fun _ => rfl

theorem leads_current : Leads p current p := .ofLooking passing_current.quiet fun _ => rfl

theorem leads_objectAhead : Leads p objectAhead p :=
  .ofLooking passing_objectAhead.quiet fun r => by rw [run_objectAhead]

theorem Leads.current {f : Token → ReadM β}
    (hsome : ∀ kind span, Leads (dueAt kind awaited answer n) (f ⟨kind, span⟩) q)
    (hend : ∀ span, Leads (due awaited answer n) (f ⟨.endOfFile, span⟩) q) :
    Leads (due awaited answer n) (ReadM.current >>= f) q := by
  refine ⟨passing_current.quiet.andThen fun token => (hsome token.kind token.span).1, ?_⟩
  intro kinds r hdue hbefore hclean
  have hkind : (tokenAhead r).kind = (kinds ++ [TokenKind.endOfFile]).head?.getD .endOfFile := by
    rw [kind_tokenAhead, hbefore.ahead]
  change ((f (tokenAhead r)).run r).2.diagnostics = #[] at hclean
  change ∃ kinds', ((f (tokenAhead r)).run r).2.Before kinds' ∧ q kinds'
  generalize tokenAhead r = token at *
  obtain ⟨_, span⟩ := token
  subst hkind
  cases kinds with
  | nil => exact (hend span).2 [] r hdue hbefore hclean
  | cons kind tail =>
    exact (hsome kind span).2 (kind :: tail) r ⟨tail, rfl, hdue⟩ hbefore hclean

theorem Leads.kind {f : TokenKind → ReadM β}
    (hsome : ∀ kind, Leads (dueAt kind awaited answer n) (f kind) q)
    (hend : Leads (due awaited answer n) (f .endOfFile) q) :
    Leads (due awaited answer n) (ReadM.kind >>= f) q := by
  have hcurrent : Leads (due awaited answer n) (ReadM.current >>= fun token => f token.kind) q :=
    .current (fun kind _ => hsome kind) fun _ => hend
  exact hcurrent

theorem leads_skip (h : Passes token awaited awaited') :
    Leads (dueAt token awaited answer n) (modify skip) (due awaited' answer (n - 1)) := by
  refine ⟨passing_skip.quiet, fun kinds r hdue hbefore _ => ?_⟩
  obtain ⟨tail, rfl, hlength, hanswer⟩ := hdue
  rw [List.length_cons] at hlength
  refine ⟨tail, ⟨kinds_skip hbefore.ahead (hbefore.inside token List.mem_cons_self), ?_⟩,
    by omega, (h tail).symm.trans hanswer⟩
  exact fun kind hkind => hbefore.inside kind (List.mem_cons_of_mem _ hkind)

theorem leads_advance (h : Passes token awaited awaited') :
    Leads (dueAt token awaited answer n) advance (due awaited' answer (n - 1)) :=
  leads_current.bind fun _ => (leads_skip h).bind fun _ => .stay

theorem Leads.eatIf {accepts : TokenKind → Bool} {f : Bool → ReadM β}
    (hend : accepts .endOfFile = false)
    (hpasses : ∀ kind, accepts kind = true → Passes kind awaited awaited')
    (htrue : Leads (due awaited' answer (n - 1)) (f true) q)
    (hfalse : Leads (due awaited answer n) (f false) q) :
    Leads (due awaited answer n) (ReadM.eatIf accepts >>= f) q := by
  rw [eatIf_bind]
  refine Leads.kind (fun kind => ?_) ?_
  · cases haccepts : accepts kind with
    | true => exact (leads_skip (hpasses kind haccepts)).bind fun _ => htrue
    | false => exact hfalse.before fun _ => due_of_dueAt
  · rw [hend]
    exact hfalse

theorem Leads.eat {s : Symbol} {f : Bool → ReadM β} (hpasses : Passes (.symbol s) awaited awaited')
    (htrue : Leads (due awaited' answer (n - 1)) (f true) q)
    (hfalse : Leads (due awaited answer n) (f false) q) :
    Leads (due awaited answer n) (ReadM.eat s >>= f) q :=
  .eatIf rfl (fun _ hkind => eq_of_isSymbol hkind ▸ hpasses) htrue hfalse

theorem eq_of_isKeyword {k : Keyword} {kind : TokenKind} (h : isKeyword k kind = true) :
    kind = .keyword k := by
  unfold isKeyword at h
  split at h
  · rw [eq_of_beq h]
  · simp at h

theorem Leads.eatKeyword {k : Keyword} {f : Bool → ReadM β}
    (htrue : Leads (due awaited answer (n - 1)) (f true) q)
    (hfalse : Leads (due awaited answer n) (f false) q) :
    Leads (due awaited answer n) (ReadM.eatKeyword k >>= f) q :=
  .eatIf rfl (fun _ hkind => eq_of_isKeyword hkind ▸ passes_plain rfl) htrue hfalse

theorem leads_expect {s : Symbol} (hpasses : Passes (.symbol s) awaited awaited') :
    Leads (due awaited answer n) (expect s) (due awaited' answer (n - 1)) :=
  .eat hpasses .stay (.ofReport (reads_reportExpected _))

theorem Leads.check {s : Symbol} {f : Bool → ReadM β}
    (htrue : Leads (dueAt (.symbol s) awaited answer n) (f true) q)
    (hfalse : Leads (due awaited answer n) (f false) q) :
    Leads (due awaited answer n) (ReadM.check s >>= f) q := by
  have hkind : ReadM.check s >>= f = ReadM.kind >>= fun kind => f (isSymbol s kind) := rfl
  rw [hkind]
  refine .kind (fun kind => ?_) hfalse
  cases hsymbol : isSymbol s kind with
  | true => exact eq_of_isSymbol hsymbol ▸ htrue
  | false => exact hfalse.before fun _ => due_of_dueAt

theorem Leads.unlessClosed {s : Symbol} {close more : ReadM β}
    (hclose : Leads (due awaited answer n) close q) (hmore : Leads (due awaited answer n) more q) :
    Leads (due awaited answer n) (do if (← ReadM.check s) || (← atEnd) then close else more) q := by
  have hkind : (do if (← ReadM.check s) || (← atEnd) then close else more) =
      ReadM.kind >>= fun kind => if isSymbol s kind || kind.isEndOfFile then close else more := rfl
  rw [hkind]
  refine .kind (fun kind => ?_) hclose
  split
  · exact hclose.before fun _ => due_of_dueAt
  · exact hmore.before fun _ => due_of_dueAt

theorem reported_expected (what : String) (x : α) : Reads (fun _ => False) (do
    reportExpected what
    return x) :=
  (reads_reportExpected what).bind fun _ => .pure False.elim

theorem leads_expectName :
    Leads (due awaited answer n) expectName (due awaited answer (n - 1)) := by
  refine .current (fun kind span => ?_) fun span => ?_
  · dsimp only
    split
    · exact (leads_skip (passes_plain rfl)).bind fun _ => .stay
    · exact .ofReport (reported_expected _ _)
  · exact .ofReport (reported_expected _ _)

theorem leads_typeName : Leads (due awaited answer n) typeName (due awaited answer (n - 1)) := by
  refine .current (fun kind span => ?_) fun span => ?_
  · cases kind with
    | identifier name => exact (leads_skip (passes_plain rfl)).bind fun _ => .stay
    | keyword word =>
      dsimp only
      split
      · exact (leads_skip (passes_plain rfl)).bind fun _ => .stay
      · exact .ofReport (reported_expected _ _)
    | _ => exact .ofReport (reported_expected _ _)
  · exact .ofReport (reported_expected _ _)

theorem leads_typeNames (depth : Nat) :
    Leads (due awaited answer n) (typeNames depth) (due awaited answer n) := by
  induction depth generalizing n with
  | zero => exact .stay
  | succ depth ih =>
    refine .eat (passes_plain rfl) ?_ .stay
    exact leads_typeName.bind fun name => ih.bind fun names =>
      .pure fun _ => due_mono (by omega)

theorem leads_annotated (depth : Nat) :
    Leads (due awaited answer n) (annotated depth) (due awaited answer n) := by
  have htype : Leads (due awaited answer (n - 1)) (typeRef depth) (due awaited answer n) := by
    refine leads_typeName.bind fun first => (leads_typeNames depth).bind fun others => ?_
    split <;> exact .pure fun _ => due_mono (by omega)
  exact .eat (passes_plain rfl) (htype.bind fun _ => .stay) .stay

/-- The action takes at least one token and closes what is to be closed, if it has some depth for
each token that is ahead and a little more: as much as the functions need that are called before a
token is taken. -/
def NestsAt (closing : List Symbol) (rank : Nat) (action : ReadM α) (depth : Nat) : Prop :=
  ∀ ⦃awaited : List Symbol⦄ ⦃answer : Bool⦄ ⦃n : Nat⦄, 16 * n + rank ≤ depth + 16 →
    Leads (due (closing ++ awaited) answer n) action (due awaited answer (n - 1))

def NestsOn (action : Expression → ReadM Expression) (depth : Nat) : Prop :=
  ∀ ⦃awaited : List Symbol⦄ ⦃answer : Bool⦄ ⦃n : Nat⦄ (e : Expression), 16 * n + 1 ≤ depth + 16 →
    Leads (due awaited answer n) (action e) (due awaited answer n)

structure NestsParts (depth : Nat) : Prop where
  expression : NestsAt [] 5 (expression depth) depth
  binary (least : Nat) : NestsAt [] 4 (binary depth least) depth
  climb (least : Nat) : NestsOn (climb depth least) depth
  power : NestsAt [] 3 (power depth) depth
  unary : NestsAt [] 2 (unary depth) depth
  postfixes : NestsOn (postfixes depth) depth
  arguments : NestsAt [.rightParen] 6 (arguments depth) depth
  primary : NestsAt [] 1 (primary depth) depth
  properties : NestsAt [.rightBrace] 6 (properties depth) depth
  propertyKey : NestsAt [] 2 (propertyKey depth) depth

theorem reported_placeholder : Reads (fun _ => False) placeholder :=
  passing_current.quiet.andThen fun _ => (reads_report _ _).bind fun _ =>
    (evolving_node _).quiet.andThen fun _ => .pure False.elim

theorem not_due_zero (hn : n = 0) {kinds : List TokenKind} : ¬ due awaited answer n kinds :=
  fun h => Nat.not_lt_zero _ (hn ▸ h.1)

theorem nestsParts_zero : NestsParts 0 where
  expression _ _ _ _ := .ofReport reported_placeholder
  binary _ _ _ _ _ := .ofReport reported_placeholder
  climb _ _ _ _ _ _ := .stay
  power _ _ _ _ := .ofReport reported_placeholder
  unary _ _ _ _ := .ofReport reported_placeholder
  postfixes _ _ _ _ _ := .stay
  arguments _ _ _ hd := .ofQuiet (.pure trivial) fun _ => not_due_zero (by omega)
  primary _ _ _ _ := .ofReport reported_placeholder
  properties _ _ _ hd := .ofQuiet (.pure trivial) fun _ => not_due_zero (by omega)
  propertyKey _ _ _ _ := .ofReport reported_placeholder

theorem passes_unaryOperator {operator : UnaryOperator} (h : unaryOperator? token = some operator) :
    Passes token awaited awaited := by
  refine passes_plain ?_
  unfold unaryOperator? at h
  split at h <;> first | rfl | simp at h

theorem passes_binaryOperator {operator : BinaryOperator}
    (h : binaryOperator? token = some operator) : Passes token awaited awaited := by
  refine passes_plain ?_
  unfold binaryOperator? at h
  split at h <;> first | rfl | simp at h

theorem passes_assignment {operator : Option BinaryOperator}
    (h : assignment? token = some operator) :
    Passes token awaited awaited := by
  refine passes_plain ?_
  unfold assignment? at h
  split at h <;> first | rfl | simp at h

theorem passes_literal {value : Literal} (h : literal? token = some value) :
    Passes token awaited awaited := by
  refine passes_plain ?_
  unfold literal? at h
  split at h <;> first | rfl | simp at h

theorem leads_binaryNode (operator : BinaryOperator) (left right : Expression) :
    Leads p (binaryNode operator left right) p :=
  (leads_node _).bind fun _ => .stay

namespace NestsParts

variable {depth : Nat}

theorem expression_succ (h : NestsParts depth) : NestsAt [] 5 (ReadM.expression (depth + 1))
    (depth + 1) := by
  intro awaited answer n hd
  refine (h.binary 1 (by omega)).bind fun target => .kind (fun kind => ?_) .stay
  cases hassign : assignment? kind with
  | none => exact .pure fun _ => due_of_dueAt
  | some operator =>
    exact (leads_skip (passes_assignment hassign)).bind fun _ => (h.expression (by omega)).bind
      fun value => (leads_node _).bind fun _ => .pure fun _ => due_mono (by omega)

theorem binary_succ (h : NestsParts depth) (least : Nat) :
    NestsAt [] 4 (ReadM.binary (depth + 1) least) (depth + 1) :=
  fun _ _ _ hd => (h.power (by omega)).bind fun left => h.climb least left (by omega)

theorem climb_succ (h : NestsParts depth) (least : Nat) :
    NestsOn (ReadM.climb (depth + 1) least) (depth + 1) := by
  intro awaited answer n e hd
  refine .kind (fun kind => ?_) .stay
  cases hoperator : binaryOperator? kind with
  | none => exact .pure fun _ => due_of_dueAt
  | some operator =>
    dsimp only
    split
    · refine (leads_skip (passes_binaryOperator hoperator)).bind fun _ =>
        (h.binary _ (by omega)).bind fun right => (leads_binaryNode _ _ _).bind fun whole => ?_
      exact (h.climb least whole (by omega)).after fun _ => due_mono (by omega)
    · exact .pure fun _ => due_of_dueAt

theorem power_succ (h : NestsParts depth) : NestsAt [] 3 (ReadM.power (depth + 1)) (depth + 1) := by
  intro awaited answer n hd
  refine (h.unary (by omega)).bind fun left => .eat (passes_plain rfl) ?_ .stay
  exact (h.power (by omega)).bind fun right =>
    (leads_binaryNode _ _ _).after fun _ => due_mono (by omega)

theorem unary_succ (h : NestsParts depth) : NestsAt [] 2 (ReadM.unary (depth + 1)) (depth + 1) := by
  intro awaited answer n hd
  have hplain : Leads (due awaited answer n) (ReadM.primary depth >>= ReadM.postfixes depth)
      (due awaited answer (n - 1)) :=
    (h.primary (by omega)).bind fun first => h.postfixes first (by omega)
  refine .kind (fun kind => ?_) hplain
  cases hoperator : unaryOperator? kind with
  | none => exact hplain.before fun _ => due_of_dueAt
  | some operator =>
    exact (leads_advance (passes_unaryOperator hoperator)).bind fun _ => (h.unary (by omega)).bind
      fun operand => (leads_node _).bind fun _ => .pure fun _ => due_mono (by omega)

theorem postfixes_succ (h : NestsParts depth) :
    NestsOn (ReadM.postfixes (depth + 1)) (depth + 1) := by
  -- A parenthesis or a bracket behind an expression is closed before the next one.
  intro awaited answer n e hd
  refine .kind (fun kind => ?_) .stay
  dsimp only
  split
  · refine (leads_skip (passes_opener rfl)).bind fun _ => (h.arguments (by omega)).bind
      fun arguments => (leads_nodeFrom _).bind fun node => ?_
    exact (h.postfixes _ (by omega)).after fun _ => due_mono (by omega)
  · refine (leads_skip (passes_plain rfl)).bind fun _ => leads_expectName.bind fun name =>
      (leads_node _).bind fun node => ?_
    exact (h.postfixes _ (by omega)).after fun _ => due_mono (by omega)
  · refine (leads_skip (passes_opener rfl)).bind fun _ => (h.expression (by omega)).bind
      fun index => (leads_expect (passes_closer rfl rfl)).bind fun _ =>
        (leads_nodeFrom _).bind fun node => ?_
    exact (h.postfixes _ (by omega)).after fun _ => due_mono (by omega)
  · exact .pure fun _ => due_of_dueAt

theorem arguments_succ (h : NestsParts depth) :
    NestsAt [.rightParen] 6 (ReadM.arguments (depth + 1)) (depth + 1) := by
  intro awaited answer n hd
  refine .unlessClosed ((leads_expect (passes_closer rfl rfl)).bind fun _ => .stay) ?_
  refine (h.expression (by omega)).bind fun first => .eat (passes_plain rfl) ?_ ?_
  · exact (h.arguments (by omega)).bind fun rest => .pure fun _ => due_mono (by omega)
  · exact (leads_expect (passes_closer rfl rfl)).bind fun _ => .pure fun _ => due_mono (by omega)

theorem primary_succ (h : NestsParts depth) :
    NestsAt [] 1 (ReadM.primary (depth + 1)) (depth + 1) := by
  intro awaited answer n hd
  have hunexpected : ∀ fault span, Reads (fun _ => False) (do
      report fault span
      modify skip
      return Expression.hole (← node span)) := fun _ _ =>
    (reads_report _ _).bind fun _ => passing_skip.quiet.andThen fun _ =>
      (evolving_node _).quiet.andThen fun _ => .pure False.elim
  refine .current (fun kind span => ?_) fun span => .ofReport (hunexpected _ _)
  dsimp only
  cases hliteral : literal? kind with
  | some value =>
    exact (leads_skip (passes_literal hliteral)).bind fun _ => (leads_node _).bind fun _ => .stay
  | none =>
    dsimp only
    split
    · exact (leads_skip (passes_plain rfl)).bind fun _ => (leads_node _).bind fun _ => .stay
    · exact (leads_skip (passes_opener rfl)).bind fun _ => (h.expression (by omega)).bind
        fun inner => (leads_expect (passes_closer rfl rfl)).bind fun _ =>
          (leads_nodeFrom _).bind fun _ => .pure fun _ => due_mono (by omega)
    · exact (leads_skip (passes_opener rfl)).bind fun _ => (h.properties (by omega)).bind
        fun properties => (leads_nodeFrom _).bind fun _ => .pure fun _ => due_mono (by omega)
    · exact .ofReport (hunexpected _ _)

theorem properties_succ (h : NestsParts depth) :
    NestsAt [.rightBrace] 6 (ReadM.properties (depth + 1)) (depth + 1) := by
  intro awaited answer n hd
  refine .unlessClosed ((leads_expect (passes_closer rfl rfl)).bind fun _ => .stay) ?_
  refine (h.propertyKey (by omega)).bind fun key => (leads_expect (passes_plain rfl)).bind fun _ =>
    (h.expression (by omega)).bind fun value => .eat (passes_plain rfl) ?_ ?_
  · exact (h.properties (by omega)).bind fun rest => .pure fun _ => due_mono (by omega)
  · exact (leads_expect (passes_closer rfl rfl)).bind fun _ => .pure fun _ => due_mono (by omega)

theorem propertyKey_succ (h : NestsParts depth) :
    NestsAt [] 2 (ReadM.propertyKey (depth + 1)) (depth + 1) := by
  intro awaited answer n hd
  refine .check ?_ (h.primary (by omega))
  exact (leads_advance (passes_opener rfl)).bind fun _ =>
    (h.expression (by omega)).bind fun inner =>
    (leads_expect (passes_closer rfl rfl)).bind fun _ => (leads_nodeFrom _).bind fun _ =>
      .pure fun _ => due_mono (by omega)

end NestsParts

theorem nestsParts (depth : Nat) : NestsParts depth := by
  induction depth with
  | zero => exact nestsParts_zero
  | succ depth h =>
    exact ⟨h.expression_succ, h.binary_succ, h.climb_succ, h.power_succ, h.unary_succ,
      h.postfixes_succ, h.arguments_succ, h.primary_succ, h.properties_succ, h.propertyKey_succ⟩

theorem length_of_before {kinds : List TokenKind} {r : Reader} (h : r.Before kinds) :
    r.ahead.length = kinds.length + 1 := by
  have hlength := congrArg List.length h.ahead
  rwa [Reader.kinds, List.length_map, List.length_append] at hlength

theorem Leads.count {f : Reader → ReadM β} (hquiet : ∀ r, Quiet (f r))
    (h : ∀ count < n, ∀ r : Reader, r.ahead.length = count + 1 →
      Leads (due awaited answer (count + 1)) (f r) q) :
    Leads (due awaited answer n) (get >>= f) q := by
  refine ⟨passing_get.quiet.andThen hquiet, fun kinds r hdue hbefore hclean => ?_⟩
  exact (h kinds.length hdue.1 r (length_of_before hbefore)).2 kinds r
    ⟨Nat.lt_succ_self _, hdue.2⟩ hbefore hclean

theorem Leads.counted {count before : Nat} {f : Unit → ReadM β} (hbefore : before = count + 1)
    (h : Leads (due awaited answer count) (f ()) q) :
    Leads (due awaited answer count)
      (get >>= fun r => if r.ahead.length == before then modify ReadM.skip >>= f else f ()) q := by
  refine ⟨passing_get.quiet.andThen fun _ => .guarded passing_skip.quiet fun _ => h.1, ?_⟩
  intro kinds r hdue hstand
  have hother : (r.ahead.length == before) = false := by
    have hlength := length_of_before hstand
    have hlt := hdue.1
    exact beq_false_of_ne (by omega)
  change
    ((if r.ahead.length == before then modify ReadM.skip >>= f else f ()).run r).2.diagnostics =
    #[] → ∃ kinds', ((if r.ahead.length == before then modify ReadM.skip >>= f
      else f ()).run r).2.Before kinds' ∧ q kinds'
  rw [hother]
  exact h.2 kinds r hdue hstand

theorem leads_parameters (depth : Nat) :
    Leads (due awaited answer n) (parameters depth) (due awaited answer n) := by
  induction depth generalizing n with
  | zero => exact .stay
  | succ depth ih =>
    refine .unlessClosed .stay (.count (fun r => ?_) fun count hcount r hr => ?_)
    · refine walks_expectName.quiet.andThen fun name =>
        (walks_annotated depth).quiet.andThen fun type =>
          (passing_eat _).quiet.andThen fun eaten => ?_
      split
      · exact (walks_parameters depth).quiet.andThen fun _ => .pure trivial
      · exact passing_get.quiet.andThen fun _ => .guarded passing_skip.quiet fun _ => .pure trivial
    · refine leads_expectName.bind fun name => (leads_annotated depth).bind fun type =>
        .eat (passes_plain rfl) ?_ ?_
      · exact ih.bind fun rest => .pure fun _ => due_mono (by omega)
      · exact .counted hr (.pure fun _ => due_mono (by omega))

theorem leads_someExpression {depth : Nat} (hd : 16 * n + 5 ≤ depth + 16) :
    Leads (due awaited answer n) (some <$> expression depth) (due awaited answer (n - 1)) :=
  ((nestsParts depth).expression hd).map

theorem leads_letDeclaration {depth : Nat} (hd : 16 * n + 5 ≤ depth + 16) :
    Leads (dueAt (.keyword .letK) awaited answer n) (letDeclaration depth)
      (due awaited answer (n - 1)) := by
  refine (leads_advance (passes_plain rfl)).bind fun start => ?_
  have hname : ∀ isMutable : Bool, Leads (due awaited answer (n - 1)) (do
      let name ← expectName
      let type ← annotated depth
      let initial ← if ← eat .equal then some <$> expression depth else pure none
      return Statement.letDecl (← nodeFrom start.span) isMutable name type initial)
      (due awaited answer (n - 1)) := by
    intro isMutable
    refine leads_expectName.bind fun name => (leads_annotated depth).bind fun type =>
      .eat (passes_plain rfl) ?_ ?_
    · exact (leads_someExpression (by omega)).bind fun initial => (leads_nodeFrom _).bind fun _ =>
        .pure fun _ => due_mono (by omega)
    · exact .ofPure ((leads_nodeFrom _).bind fun _ => .pure fun _ => due_mono (by omega))
  exact .eatKeyword ((hname true).before fun _ => due_mono (by omega))
    (hname false)

theorem leads_returnStatement {depth : Nat} (hd : 16 * n + 5 ≤ depth + 16) :
    Leads (dueAt (.keyword .returnK) awaited answer n) (returnStatement depth)
      (due awaited answer (n - 1)) := by
  refine (leads_advance (passes_plain rfl)).bind fun start => ?_
  have hvalue : (do
      let value ←
        if (← check .semicolon) || (← check .rightBrace) || (← atEnd) then pure none
        else some <$> expression depth
      return Statement.giveBack (← nodeFrom start.span) value) =
      ReadM.kind >>= fun kind =>
        if isSymbol .semicolon kind || isSymbol .rightBrace kind || kind.isEndOfFile then
          nodeFrom start.span >>= fun node => pure (.giveBack node none)
        else
          some <$> expression depth >>= fun value =>
            nodeFrom start.span >>= fun node => pure (.giveBack node value) := rfl
  rw [hvalue]
  have hnone : Leads (due awaited answer (n - 1))
      (nodeFrom start.span >>= fun node => pure (Statement.giveBack node none))
      (due awaited answer (n - 1)) := (leads_nodeFrom _).bind fun _ => .stay
  refine .kind (fun kind => ?_) hnone
  split
  · exact hnone.before fun _ => due_of_dueAt
  · have hsome : Leads (due awaited answer (n - 1)) (some <$> expression depth)
        (due awaited answer (n - 1)) :=
      (leads_someExpression (by omega)).after fun _ => due_mono (by omega)
    exact (hsome.before fun _ => due_of_dueAt).bind fun value => (leads_nodeFrom _).bind fun _ =>
      .stay

theorem leads_expressionStatement {depth : Nat} (hd : 16 * n + 5 ≤ depth + 16) :
    Leads (due awaited answer n) (expressionStatement depth) (due awaited answer (n - 1)) :=
  ((nestsParts depth).expression hd).bind fun _ => (leads_node _).bind fun _ => .stay

theorem leads_endOfStatement (s : Statement) :
    Leads (due awaited answer n) (endOfStatement s) (due awaited answer n) :=
  .eat (passes_plain rfl) (.pure fun _ => due_mono (by omega)) .stay

theorem leads_semicolons (depth : Nat) :
    Leads (due awaited answer n) (semicolons depth) (due awaited answer n) := by
  induction depth generalizing n with
  | zero => exact .stay
  | succ depth ih => exact .eat (passes_plain rfl) (ih.after fun _ => due_mono (by omega)) .stay

def dueEnd (isEnd : TokenKind → Bool) (awaited : List Symbol) (answer : Bool) (n : Nat) : Stand :=
  fun kinds => due awaited answer n kinds ∧ ∀ kind ∈ kinds.head?, isEnd kind = true

theorem Leads.unlessEnded {isEnd : TokenKind → Bool} {nothing : β} {more : ReadM β}
    (h : Leads (due awaited answer n) more (dueEnd isEnd awaited answer n)) :
    Leads (due awaited answer n)
      (ReadM.kind >>= fun kind =>
        if isEnd kind || kind.isEndOfFile then Pure.pure nothing else more)
      (dueEnd isEnd awaited answer n) := by
  refine ⟨passing_kind.quiet.andThen fun kind => ?_, fun kinds r hdue hbefore hclean => ?_⟩
  · split
    · exact .pure trivial
    · exact h.1
  · have hkind : (tokenAhead r).kind = (kinds ++ [TokenKind.endOfFile]).head?.getD .endOfFile := by
      rw [kind_tokenAhead, hbefore.ahead]
    change ((if isEnd (tokenAhead r).kind || (tokenAhead r).kind.isEndOfFile then Pure.pure nothing
      else more : ReadM β).run r).2.diagnostics = #[] at hclean
    change ∃ kinds', ((if isEnd (tokenAhead r).kind || (tokenAhead r).kind.isEndOfFile then
      Pure.pure nothing else more : ReadM β).run r).2.Before kinds' ∧ dueEnd _ _ _ _ kinds'
    rw [hkind] at hclean ⊢
    split at hclean
    case isFalse hmore =>
      rw [if_neg hmore]
      exact h.2 kinds r hdue hbefore hclean
    case isTrue hended =>
      rw [if_pos hended]
      refine ⟨kinds, hbefore, hdue, fun kind hfirst => ?_⟩
      obtain ⟨tail, rfl⟩ := List.head?_eq_some_iff.mp hfirst
      have hinside := hbefore.inside kind List.mem_cons_self
      simpa [hinside] using hended

structure NestsStatements (depth : Nat) : Prop where
  statement : NestsAt [] 7 (statement depth) depth
  fnDeclaration ⦃awaited : List Symbol⦄ ⦃answer : Bool⦄ ⦃n : Nat⦄ : 16 * n + 6 ≤ depth + 16 →
    Leads (dueAt (.keyword .fnK) awaited answer n) (fnDeclaration depth)
      (due awaited answer (n - 1))
  branch ⦃awaited : List Symbol⦄ ⦃answer : Bool⦄ ⦃n : Nat⦄ : 16 * n + 6 ≤ depth + 16 →
    Leads (dueAt (.keyword .ifK) awaited answer n) (branch depth) (due awaited answer (n - 1))
  block : NestsAt [] 6 (block depth) depth
  statements (isEnd : TokenKind → Bool) ⦃awaited : List Symbol⦄ ⦃answer : Bool⦄ ⦃n : Nat⦄ :
    16 * n + 8 ≤ depth + 16 →
      Leads (due awaited answer n) (statements isEnd depth) (dueEnd isEnd awaited answer n)

namespace NestsStatements

variable {depth : Nat}

theorem statement_succ (h : NestsStatements depth) :
    NestsAt [] 7 (ReadM.statement (depth + 1)) (depth + 1) := by
  intro awaited answer n hd
  have hexpression : Leads (due awaited answer n) (expressionStatement depth >>= endOfStatement)
      (due awaited answer (n - 1)) :=
    (leads_expressionStatement (by omega)).bind leads_endOfStatement
  refine .kind (fun kind => ?_) hexpression
  dsimp only
  split
  · exact (leads_letDeclaration (by omega)).bind leads_endOfStatement
  · exact (h.fnDeclaration (by omega)).bind leads_endOfStatement
  · exact h.branch (by omega)
  · exact (leads_returnStatement (by omega)).bind leads_endOfStatement
  · refine leads_objectAhead.bind fun isObject => ?_
    split
    · exact hexpression.before fun _ => due_of_dueAt
    · exact leads_current.bind fun start => ((h.block (by omega)).before fun _ =>
        due_of_dueAt).bind fun body => (leads_nodeFrom _).bind fun _ => .stay
  · exact hexpression.before fun _ => due_of_dueAt

theorem branch_succ (h : NestsStatements depth) (hd : 16 * n + 6 ≤ depth + 17) :
    Leads (dueAt (.keyword .ifK) awaited answer n) (ReadM.branch (depth + 1))
      (due awaited answer (n - 1)) := by
  refine (leads_advance (passes_plain rfl)).bind fun start =>
    ((nestsParts depth).expression (by omega)).bind fun condition =>
      (h.statement (by omega)).bind fun body => .eatKeyword ?_ ?_
  · exact (h.statement (by omega)).map.bind fun otherwise => (leads_nodeFrom _).bind fun _ =>
      .pure fun _ => due_mono (by omega)
  · exact .ofPure ((leads_nodeFrom _).bind fun _ => .pure fun _ => due_mono (by omega))

theorem functionBody (h : NestsStatements depth) (hd : 16 * n + 6 ≤ depth + 16) :
    Leads (due awaited answer n) (ReadM.functionBody depth) (due awaited answer n) := by
  refine .kind (fun kind => ?_) (.ofReport (reported_expected _ _))
  cases harrow : isSymbol .arrow kind with
  | true =>
    rw [eq_of_isSymbol harrow]
    exact (leads_advance (passes_plain rfl)).bind fun arrow =>
      ((nestsParts depth).expression (by omega)).bind fun value => (leads_nodeFrom _).bind fun _ =>
        .pure fun _ => due_mono (by omega)
  | false =>
    cases isSymbol .leftBrace kind with
    | true =>
      exact ((h.block hd).before fun _ => due_of_dueAt).after fun _ => due_mono (by omega)
    | false => exact .ofReport (reported_expected _ _)

theorem fnDeclaration_succ (h : NestsStatements depth) (hd : 16 * n + 6 ≤ depth + 17) :
    Leads (dueAt (.keyword .fnK) awaited answer n) (ReadM.fnDeclaration (depth + 1))
      (due awaited answer (n - 1)) := by
  rw [fnDeclaration_eq]
  refine (leads_advance (passes_plain rfl)).bind fun start => leads_expectName.bind fun name => ?_
  have hrest : ∀ parameters : List Parameter, Leads (due awaited answer (n - 1 - 1))
      (functionRest start.span name depth parameters)
      (due awaited answer (n - 1)) := fun parameters =>
    (leads_annotated depth).bind fun result => (h.functionBody (by omega)).bind fun body =>
      (leads_nodeFrom _).bind fun _ => .pure fun _ => due_mono (by omega)
  refine .eat (passes_opener rfl) ?_ (hrest [])
  exact (leads_parameters depth).bind fun parameters =>
    (leads_expect (passes_closer rfl rfl)).bind fun _ =>
      (hrest parameters).before fun _ => due_mono (by omega)

theorem block_succ (h : NestsStatements depth) :
    NestsAt [] 6 (ReadM.block (depth + 1)) (depth + 1) := by
  intro awaited answer n hd
  refine (leads_expect (passes_opener rfl)).bind fun _ =>
    (h.statements (isSymbol .rightBrace) (by omega)).bind fun body => ?_
  exact ((leads_expect (passes_closer rfl rfl)).before fun _ hend => hend.1).bind fun _ =>
    .pure fun _ => due_mono (by omega)

theorem nextStatement (h : NestsStatements depth) (hd : 16 * n + 7 ≤ depth + 16) :
    Leads (due awaited answer n) (ReadM.nextStatement depth) (due awaited answer (n - 1)) := by
  refine .count (fun r => ?_) fun count hcount r hr => ?_
  · exact (buildsStatements depth).statement.quiet.andThen fun _ =>
      passing_get.quiet.andThen fun _ => .guarded passing_skip.quiet fun _ => .pure trivial
  · exact (h.statement (by omega)).bind fun first =>
      .counted hr (.pure fun _ => due_mono (by omega))

theorem statements_succ (h : NestsStatements depth) (isEnd : TokenKind → Bool)
    (hd : 16 * n + 8 ≤ depth + 17) :
    Leads (due awaited answer n) (ReadM.statements isEnd (depth + 1))
      (dueEnd isEnd awaited answer n) := by
  rw [statements_eq]
  refine (leads_semicolons depth).bind fun _ => .unlessEnded ?_
  exact (h.nextStatement (by omega)).bind fun first => (h.statements isEnd (by omega)).bind
    fun rest => .pure fun _ hend => ⟨due_mono (by omega) hend.1, hend.2⟩

end NestsStatements

theorem nestsStatements_zero : NestsStatements 0 where
  statement _ _ _ hd := .ofQuiet (buildsStatements 0).statement.quiet
    fun _ => not_due_zero (by omega)
  fnDeclaration _ _ _ hd := .ofQuiet (buildsStatements 0).fnDeclaration.quiet
    fun _ hdue => not_due_zero (by omega) (due_of_dueAt hdue)
  branch _ _ _ hd := .ofQuiet (buildsStatements 0).branch.quiet
    fun _ hdue => not_due_zero (by omega) (due_of_dueAt hdue)
  block _ _ _ hd := .ofQuiet (buildsStatements 0).block.quiet
    fun _ => not_due_zero (by omega)
  statements _ _ _ _ hd := .ofQuiet ((buildsStatements 0).statements _).quiet
    fun _ => not_due_zero (by omega)

theorem nestsStatements (depth : Nat) : NestsStatements depth := by
  induction depth with
  | zero => exact nestsStatements_zero
  | succ depth h =>
    exact ⟨h.statement_succ, fun _ _ _ => h.fnDeclaration_succ, fun _ _ _ => h.branch_succ,
      h.block_succ, fun isEnd _ _ _ => h.statements_succ isEnd⟩

end ReadM

theorem SyntaxTree.closes_of_read {source : String} {kinds : List TokenKind}
    (hlex : Lexes source.toList kinds) (hclean : (read source).diagnostics = []) :
    Brackets.closes [] (Brackets.of kinds) = true := by
  obtain ⟨r, r', hread⟩ := exists_readBy hlex
  have hbefore : r.Before kinds := by
    refine ⟨hread.ahead, fun kind hkind => ?_⟩
    have hproper := hlex.isProper kind hkind
    simp only [TokenKind.isProper, Bool.and_eq_true, Bool.not_eq_true'] at hproper
    exact hproper.1
  have hquiet : ((ReadM.statements (fun _ => false) (16 * (kinds.length + 2))).run
      r).2.diagnostics = #[] := by
    rw [hread.run]
    exact Array.toList_eq_nil_iff.mp (hread.diagnostics.symm.trans hclean)
  obtain ⟨rest, -, hdue, hend⟩ := ((ReadM.nestsStatements _).statements _ (by omega)).2 kinds r
    ⟨Nat.lt_succ_self _, rfl⟩ hbefore hquiet
  -- no token ends the list, so it ends with the text
  cases rest with
  | nil => exact hdue.2.symm
  | cons kind rest => exact absurd (hend kind rfl) Bool.false_ne_true

end StackScript
