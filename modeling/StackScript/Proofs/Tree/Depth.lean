import StackScript.Proofs.Tree.Building

set_option autoImplicit false

/-!
# Depth enough

Main statement: `SyntaxTree.isFilled_ofTokens`. A statement has a hole in its place only where the
reader has used up its depth. From one statement to the next inside it there are at most three
calls, and a token is read on the way, so three levels for each token and two more are enough.
-/
namespace StackScript

namespace Statement

mutual

/-- No hole stands in place of a statement. -/
def isFilled : Statement → Bool
  | .expression _ _ | .letDecl _ _ _ _ _ | .giveBack _ _ => true
  | .fnDecl _ _ _ _ body => listFilled body
  | .block _ body => listFilled body
  | .branch _ _ body otherwise =>
    let other := match otherwise with
      | some s => isFilled s
      | none => true
    isFilled body && other
  | .hole _ => false
termination_by structural s => s

def listFilled : List Statement → Bool
  | [] => true
  | s :: rest => isFilled s && listFilled rest
termination_by structural ss => ss

end

end Statement

namespace Reader

def AtMost (count : Nat) (r : Reader) : Prop := r.ahead.length ≤ count

/-- A token of the given kind is ahead, and no more than `count` behind it. -/
def Facing (kind : TokenKind) (count : Nat) (r : Reader) : Prop :=
  (ReadM.tokenAhead r).kind = kind ∧ r.AtMost (count + 1)

theorem length_skip {r : Reader} (h : (ReadM.tokenAhead r).kind.isEndOfFile = false) :
    (ReadM.skip r).ahead.length + 1 = r.ahead.length := by
  unfold ReadM.skip ReadM.tokenAhead at *
  cases hahead : r.ahead with
  | nil => simp [hahead, TokenKind.isEndOfFile] at h
  | cons token rest =>
    rw [hahead, List.headD_cons] at h
    simp [h]

theorem Facing.atMost_skip {kind : TokenKind} {count : Nat} {r : Reader} (h : r.Facing kind count)
    (hkind : kind.isEndOfFile = false) : (ReadM.skip r).AtMost count := by
  have hlength := length_skip (h.1 ▸ hkind)
  have hcount := h.2
  unfold AtMost at *
  omega

theorem AtMost.facing {kind : TokenKind} {count : Nat} {r : Reader} (h : r.AtMost count)
    (hahead : (ReadM.tokenAhead r).kind = kind) (hkind : kind.isEndOfFile = false) :
    ∃ fewer, count = fewer + 1 ∧ r.Facing kind fewer := by
  have hlength := length_skip (hahead ▸ hkind)
  obtain ⟨fewer, rfl⟩ : ∃ fewer, count = fewer + 1 := ⟨count - 1, by unfold AtMost at h; omega⟩
  exact ⟨fewer, rfl, hahead, h⟩

end Reader

namespace ReadM

open Reader (AtMost Facing)

variable {α β : Type} {pre mid post : Reader → Prop} {Q : α → Prop} {R : β → Prop} {count : Nat}

/-- From a reader in `pre` the action leads to one in `post`, with a result in `Q`. -/
def Meets (pre post : Reader → Prop) (Q : α → Prop) (action : ReadM α) : Prop :=
  ∀ r, pre r → post (action.run r).2 ∧ Q (action.run r).1

theorem Meets.pure {x : α} (h : Q x) : Meets pre pre Q (pure x) := fun _ hr => ⟨hr, h⟩

theorem Meets.ofPure {x : α} {f : α → ReadM β} (h : Meets pre post R (f x)) :
    Meets pre post R (Pure.pure x >>= f) := h

theorem Meets.bind {action : ReadM α} {f : α → ReadM β} (h : Meets pre mid Q action)
    (hf : ∀ x, Q x → Meets mid post R (f x)) : Meets pre post R (action >>= f) :=
  fun r hr => hf _ (h r hr).2 _ (h r hr).1

theorem Meets.andThen {action : ReadM α} {f : α → ReadM β} (h : Meets pre mid Q action)
    (hf : ∀ x, Meets mid post R (f x)) : Meets pre post R (action >>= f) :=
  h.bind fun x _ => hf x

theorem Meets.weaken {pre' : Reader → Prop} {action : ReadM α} (hpre : ∀ r, pre' r → pre r)
    (h : Meets pre post Q action) : Meets pre' post Q action :=
  fun r hr => h r (hpre r hr)

theorem Meets.kind {f : TokenKind → ReadM β}
    (h : ∀ kind, Meets (fun r => pre r ∧ (tokenAhead r).kind = kind) post R (f kind)) :
    Meets pre post R (ReadM.kind >>= f) :=
  fun r hr => h _ r ⟨hr, rfl⟩

theorem Meets.atEnd {f : Bool → ReadM β}
    (h : ∀ ended, Meets (fun r => pre r ∧ (tokenAhead r).kind.isEndOfFile = ended) post R
      (f ended)) :
    Meets pre post R (ReadM.atEnd >>= f) :=
  fun r hr => h _ r ⟨hr, rfl⟩

theorem Meets.get {f : Reader → ReadM β}
    (h : ∀ before, pre before → Meets (· = before) post R (f before)) :
    Meets pre post R (get >>= f) :=
  fun r hr => h r hr r rfl

theorem meets_current : Meets pre pre (fun _ => True) current := fun _ hr => ⟨hr, trivial⟩

theorem meets_kindAt (offset : Nat) : Meets pre pre (fun _ => True) (kindAt offset) :=
  fun _ hr => ⟨hr, trivial⟩

theorem meets_objectAhead : Meets pre pre (fun _ => True) objectAhead := by
  refine (meets_kindAt 1).andThen fun kind => ?_
  split
  case h_1 => exact .pure trivial
  case h_8 => exact .pure trivial
  all_goals exact (meets_kindAt 2).andThen fun _ => .pure trivial

theorem Evolving.keeps {action : ReadM α} (h : Evolving action) :
    Meets (AtMost count) (AtMost count) (fun _ => True) action :=
  fun r hr => ⟨Nat.le_trans (h r).suffix.length_le hr, trivial⟩

theorem Walks.keeps {row : α → List Piece} {action : ReadM α} (h : Walks row action) :
    Meets (AtMost count) (AtMost count) (fun _ => True) action :=
  h.evolving.keeps

theorem meets_advance {kind : TokenKind} (hkind : kind.isEndOfFile = false) :
    Meets (Facing kind count) (AtMost count) (fun _ => True) advance :=
  fun _ hr => ⟨hr.atMost_skip hkind, trivial⟩

theorem Meets.succ {action : ReadM α} (h : Meets pre (AtMost count) Q action) :
    Meets pre (AtMost (count + 1)) Q action :=
  fun r hr => ⟨Nat.le_succ_of_le (h r hr).1, (h r hr).2⟩

theorem Meets.facing {kind : TokenKind} {action : ReadM α} (hkind : kind.isEndOfFile = false)
    (h : ∀ fewer, count = fewer + 1 → Meets (Facing kind fewer) (AtMost fewer) Q action) :
    Meets (fun r => AtMost count r ∧ (tokenAhead r).kind = kind) (AtMost count) Q action := by
  intro r hr
  obtain ⟨fewer, rfl, hfacing⟩ := hr.1.facing hr.2 hkind
  exact (h fewer rfl).succ r hfacing

theorem meets_skipIfStuck {before : Reader} {rest : Unit → ReadM β}
    (hinside : (tokenAhead before).kind.isEndOfFile = false) (hbefore : before.AtMost (count + 1))
    (hrest : ∀ x, Meets (AtMost count) (AtMost count) R (rest x)) :
    Meets (fun r => r.ahead <:+ before.ahead) (AtMost count) R (MonadState.get >>= fun after =>
      if (after.ahead.length == before.ahead.length) = true then modify skip >>= rest
      else rest ()) := by
  intro r hsuffix
  by_cases hstuck : (r.ahead.length == before.ahead.length) = true
  · have hahead : r.ahead = before.ahead := hsuffix.eq_of_length (eq_of_beq hstuck)
    have hskipped : (skip r).ahead.length + 1 = r.ahead.length :=
      Reader.length_skip (by rwa [tokenAhead, hahead])
    have hfewer : (skip r).AtMost count := by
      rw [hahead] at hskipped
      unfold AtMost at *
      omega
    have hmeets := hrest () (skip r) hfewer
    refine (?_ : StateT.run _ r = StateT.run (rest ()) (skip r)) ▸ hmeets
    change StateT.run (if _ then _ else _) r = _
    rw [if_pos hstuck]
    rfl
  · have hfewer : r.AtMost count := by
      have hle := hsuffix.length_le
      have hne : r.ahead.length ≠ before.ahead.length := fun h => hstuck (beq_iff_eq.mpr h)
      unfold AtMost at *
      omega
    have hmeets := hrest () r hfewer
    refine (?_ : StateT.run _ r = StateT.run (rest ()) r) ▸ hmeets
    change StateT.run (if _ then _ else _) r = _
    rw [if_neg hstuck]

structure FillsStatements (depth : Nat) : Prop where
  statement {count : Nat} (h : 3 * count + 1 ≤ depth) :
    Meets (AtMost count) (AtMost count) (·.isFilled) (statement depth)
  fnDeclaration {count : Nat} (h : 3 * count + 3 ≤ depth) :
    Meets (Facing (.keyword .fnK) count) (AtMost count) (·.isFilled) (fnDeclaration depth)
  branch {count : Nat} (h : 3 * count + 3 ≤ depth) :
    Meets (Facing (.keyword .ifK) count) (AtMost count) (·.isFilled) (branch depth)
  block {count : Nat} (h : 3 * count + 3 ≤ depth) :
    Meets (Facing (.symbol .leftBrace) count) (AtMost count) (fun body => Statement.listFilled body)
      (block depth)
  statements {count : Nat} (isEnd : TokenKind → Bool) (h : 3 * count + 2 ≤ depth) :
    Meets (AtMost count) (AtMost count) (fun body => Statement.listFilled body)
      (statements isEnd depth)

theorem fillsStatements_zero : FillsStatements 0 :=
  ⟨fun h => by omega, fun h => by omega, fun h => by omega, fun h => by omega,
    fun _ h => by omega⟩

variable {depth : Nat}

theorem Meets.endOfStatement {action : ReadM Statement}
    (h : Meets pre (AtMost count) (·.isFilled) action) :
    Meets pre (AtMost count) (·.isFilled) (action >>= ReadM.endOfStatement) :=
  h.bind fun _ hs => (passing_eat _).keeps.andThen fun _ => .pure hs

theorem fills_letDeclaration (depth : Nat)
    (hadvance : Meets pre (AtMost count) (fun _ => True) advance) :
    Meets pre (AtMost count) (·.isFilled) (letDeclaration depth) := by
  refine hadvance.andThen fun start => (passing_eatIf _).keeps.andThen
    fun isMutable => walks_expectName.keeps.andThen fun name =>
      (walks_annotated depth).keeps.andThen fun type =>
        (passing_eat _).keeps.andThen fun eaten => ?_
  dsimp only
  split
  · exact (walks_someExpression depth).keeps.andThen fun _ =>
      (evolving_nodeFrom _).keeps.andThen fun _ => .pure rfl
  · exact .ofPure ((evolving_nodeFrom _).keeps.andThen fun _ => .pure rfl)

theorem fills_returnStatement (depth : Nat)
    (hadvance : Meets pre (AtMost count) (fun _ => True) advance) :
    Meets pre (AtMost count) (·.isFilled) (returnStatement depth) := by
  refine hadvance.andThen fun start => (passing_check _).keeps.andThen
    fun semicolon => (passing_check _).keeps.andThen fun brace => passing_atEnd.keeps.andThen
      fun atEnd => ?_
  dsimp only
  split
  · exact .ofPure ((evolving_nodeFrom _).keeps.andThen fun _ => .pure rfl)
  · exact (walks_someExpression depth).keeps.andThen fun _ =>
      (evolving_nodeFrom _).keeps.andThen fun _ => .pure rfl

theorem fills_expressionStatement (depth : Nat) :
    Meets (AtMost count) (AtMost count) (·.isFilled) (expressionStatement depth) :=
  (buildsParts depth).expression.keeps.andThen fun _ =>
    (evolving_node _).keeps.andThen fun _ => .pure rfl

namespace FillsStatements

theorem statement_succ (h : FillsStatements depth) (hcount : 3 * count + 1 ≤ depth + 1) :
    Meets (AtMost count) (AtMost count) (·.isFilled) (ReadM.statement (depth + 1)) := by
  have hadvance : Meets (AtMost count) (AtMost count) (fun _ => True) advance :=
    passing_advance.keeps
  refine .kind fun kind => ?_
  split
  · exact (fills_letDeclaration depth hadvance).endOfStatement.weaken fun _ hr => hr.1
  · exact (Meets.facing rfl fun fewer hfewer => h.fnDeclaration (by omega)).endOfStatement
  · exact .facing rfl fun fewer hfewer => h.branch (by omega)
  · exact (fills_returnStatement depth hadvance).endOfStatement.weaken fun _ hr => hr.1
  · refine meets_objectAhead.andThen fun isObject => ?_
    split
    · exact (fills_expressionStatement depth).endOfStatement.weaken fun _ hr => hr.1
    · refine meets_current.andThen fun start => ?_
      exact Meets.bind (.facing rfl fun fewer hfewer => h.block (by omega)) fun body hbody =>
        (evolving_nodeFrom _).keeps.andThen fun _ => .pure hbody
  · exact (fills_expressionStatement depth).endOfStatement.weaken fun _ hr => hr.1

theorem functionBody (h : FillsStatements depth) (hcount : 3 * count ≤ depth) :
    Meets (AtMost count) (AtMost count) (fun body => Statement.listFilled body)
      (ReadM.functionBody depth) := by
  refine .kind fun kind => ?_
  split
  · refine .weaken (fun _ hr => hr.1) ?_
    exact passing_advance.keeps.andThen fun arrow =>
      (buildsParts depth).expression.keeps.andThen fun value =>
        (evolving_nodeFrom _).keeps.andThen fun _ => .pure rfl
  · split
    · rename_i hbrace
      obtain rfl := eq_of_isSymbol hbrace
      exact .facing rfl fun fewer hfewer => h.block (by omega)
    · refine .weaken (fun _ hr => hr.1) ?_
      exact (passing_reportExpected _).keeps.andThen fun _ => .pure rfl

theorem fnDeclaration_succ (h : FillsStatements depth) (hcount : 3 * count + 3 ≤ depth + 1) :
    Meets (Facing (.keyword .fnK) count) (AtMost count) (·.isFilled)
      (ReadM.fnDeclaration (depth + 1)) := by
  rw [fnDeclaration_eq]
  refine (meets_advance rfl).andThen fun start => walks_expectName.keeps.andThen
    fun name => (passing_eat _).keeps.andThen fun eaten => ?_
  have hrest : ∀ parameters, Meets (AtMost count) (AtMost count) (·.isFilled)
      (functionRest start.span name depth parameters) := fun parameters =>
    (walks_annotated depth).keeps.andThen fun result =>
      (h.functionBody (by omega)).bind fun body hbody =>
        (evolving_nodeFrom _).keeps.andThen fun _ => .pure hbody
  split
  · exact (walks_parameters depth).keeps.andThen fun parameters =>
      (passing_expect _).keeps.andThen fun _ => hrest parameters
  · exact hrest []

theorem branch_succ (h : FillsStatements depth) (hcount : 3 * count + 3 ≤ depth + 1) :
    Meets (Facing (.keyword .ifK) count) (AtMost count) (·.isFilled)
      (ReadM.branch (depth + 1)) := by
  refine (meets_advance rfl).andThen fun start =>
    (buildsParts depth).expression.keeps.andThen fun condition =>
      (h.statement (by omega)).bind fun body hbody =>
        (passing_eatIf _).keeps.andThen fun eaten => ?_
  dsimp only
  split
  · have hother : Meets (AtMost count) (AtMost count)
        (fun other => ∃ s : Statement, other = some s ∧ s.isFilled)
        (some <$> ReadM.statement depth) := fun r hr =>
      ⟨(h.statement (by omega) r hr).1, _, rfl, (h.statement (by omega) r hr).2⟩
    refine hother.bind fun otherwise hsome => (evolving_nodeFrom _).keeps.andThen fun _ => .pure ?_
    obtain ⟨s, rfl, hs⟩ := hsome
    simp [Statement.isFilled, hbody, hs]
  · refine .ofPure ((evolving_nodeFrom _).keeps.andThen fun _ => .pure ?_)
    simp [Statement.isFilled, hbody]

theorem block_succ (h : FillsStatements depth) (hcount : 3 * count + 3 ≤ depth + 1) :
    Meets (Facing (.symbol .leftBrace) count) (AtMost count) (fun body => Statement.listFilled body)
      (ReadM.block (depth + 1)) := by
  have hopen : Meets (Facing (.symbol .leftBrace) count) (AtMost count) (fun _ => True)
      (expect .leftBrace) := by
    intro r hr
    rw [run_expect hr.1]
    exact ⟨hr.atMost_skip rfl, trivial⟩
  exact hopen.andThen fun _ => (h.statements _ (by omega)).bind fun _ hbody =>
    (passing_expect _).keeps.andThen fun _ => .pure hbody

theorem statements_succ (h : FillsStatements depth) (isEnd : TokenKind → Bool)
    (hcount : 3 * count + 2 ≤ depth + 1) :
    Meets (AtMost count) (AtMost count) (fun body => Statement.listFilled body)
      (ReadM.statements isEnd (depth + 1)) := by
  refine (passing_semicolons depth).keeps.andThen fun _ => .kind fun kind => .atEnd fun ended => ?_
  split
  · exact .weaken (fun _ hr => hr.1.1) (.pure rfl)
  · rename_i hgoes
    refine .get fun before hbefore => ?_
    have hinside : (tokenAhead before).kind.isEndOfFile = false := by
      rw [Bool.not_eq_true, Bool.or_eq_false_iff] at hgoes
      exact hbefore.2.trans hgoes.2
    -- A token is ahead, and after the statement, or the skip behind it, it is gone.
    obtain ⟨fewer, rfl, hfacing⟩ := hbefore.1.1.facing rfl hinside
    have hfirst : Meets (· = before) (fun r => r.ahead <:+ before.ahead) (·.isFilled)
        (ReadM.statement depth) := by
      rintro r rfl
      exact ⟨((buildsStatements depth).statement r).evolves.suffix,
        (h.statement (by omega) r hbefore.1.1).2⟩
    refine hfirst.bind fun first hfilled => .succ ?_
    refine meets_skipIfStuck hinside hbefore.1.1 fun _ => ?_
    refine (h.statements isEnd (by omega)).bind fun rest hrest => .pure ?_
    simp [Statement.listFilled, hfilled, hrest]

end FillsStatements

theorem fillsStatements (depth : Nat) : FillsStatements depth := by
  induction depth with
  | zero => exact fillsStatements_zero
  | succ depth h =>
    exact ⟨h.statement_succ, h.fnDeclaration_succ, h.branch_succ, h.block_succ, h.statements_succ⟩

end ReadM

theorem SyntaxTree.isFilled_ofTokens (tokens : List Token) (span : Span) :
    Statement.listFilled (SyntaxTree.ofTokens tokens span).tree.statements := by
  let ahead := tokens.filter fun t => !t.kind.isInvalid
  have hdepth : 3 * ahead.length + 2 ≤ 16 * (ahead.length + 1) := by omega
  exact ((ReadM.fillsStatements _).statements (fun _ => false) hdepth { ahead } (Nat.le_refl _)).2

end StackScript
