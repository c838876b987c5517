import StackScript.Proofs.Token.Tiling
import StackScript.Proofs.Tree.Settling
import StackScript.Proofs.Tree.Tally

set_option autoImplicit false

/-!
# The reader gets on

Main statement: `reading_makes_progress`. Whatever the tokens are, the reader comes to the end of the
text and no further, and each statement on the way takes a token. The depth that bounds its descent
has no part in this: with any depth that is enough it does the same.
-/
namespace StackScript

namespace ReadM

open Reader (AtMost Facing)

variable {depth count : Nat} {kind : TokenKind}

/-- The functions that may move the reader, whatever they are called with. -/
inductive IsCall : {α : Type} → ReadM α → Prop where
  | advance : IsCall advance
  | eatIf (accepts : TokenKind → Bool) : IsCall (eatIf accepts)
  | expect (s : Symbol) : IsCall (expect s)
  | expectName : IsCall expectName
  | typeName : IsCall typeName
  | typeNames (depth : Nat) : IsCall (typeNames depth)
  | typeRef (depth : Nat) : IsCall (typeRef depth)
  | annotated (depth : Nat) : IsCall (annotated depth)
  | expression (depth : Nat) : IsCall (expression depth)
  | binary (depth least : Nat) : IsCall (binary depth least)
  | climb (depth least : Nat) (left : Expression) : IsCall (climb depth least left)
  | power (depth : Nat) : IsCall (power depth)
  | unary (depth : Nat) : IsCall (unary depth)
  | postfixes (depth : Nat) (first : Expression) : IsCall (postfixes depth first)
  | arguments (depth : Nat) : IsCall (arguments depth)
  | primary (depth : Nat) : IsCall (primary depth)
  | properties (depth : Nat) : IsCall (properties depth)
  | propertyKey (depth : Nat) : IsCall (propertyKey depth)
  | parameters (depth : Nat) : IsCall (parameters depth)
  | letDeclaration (depth : Nat) : IsCall (letDeclaration depth)
  | returnStatement (depth : Nat) : IsCall (returnStatement depth)
  | expressionStatement (depth : Nat) : IsCall (expressionStatement depth)
  | endOfStatement (s : Statement) : IsCall (endOfStatement s)
  | semicolons (depth : Nat) : IsCall (semicolons depth)
  | statement (depth : Nat) : IsCall (statement depth)
  | fnDeclaration (depth : Nat) : IsCall (fnDeclaration depth)
  | branch (depth : Nat) : IsCall (branch depth)
  | block (depth : Nat) : IsCall (block depth)
  | statements (isEnd : TokenKind → Bool) (depth : Nat) : IsCall (statements isEnd depth)

theorem IsCall.evolves {α : Type} {action : ReadM α} (h : IsCall action) (r : Reader) :
    r.Evolves (action.run r).2 := by
  cases h with
  | advance => exact passing_advance.evolving r
  | eatIf accepts => exact (passing_eatIf accepts).evolving r
  | expect s => exact (passing_expect s).evolving r
  | expectName => exact walks_expectName.evolving r
  | typeName => exact walks_typeName.evolving r
  | typeNames depth => exact (walks_typeNames depth).evolving r
  | typeRef depth => exact (walks_typeRef depth).evolving r
  | annotated depth => exact (walks_annotated depth).evolving r
  | expression depth => exact (buildsParts depth).expression.evolving r
  | binary depth least => exact ((buildsParts depth).binary least).evolving r
  | climb depth least left => exact evolving_climb depth least left r
  | power depth => exact (buildsParts depth).power.evolving r
  | unary depth => exact (buildsParts depth).unary.evolving r
  | postfixes depth first => exact evolving_postfixes depth first r
  | arguments depth => exact (buildsParts depth).arguments.evolving r
  | primary depth => exact (buildsParts depth).primary.evolving r
  | properties depth => exact (buildsParts depth).properties.evolving r
  | propertyKey depth => exact (buildsParts depth).propertyKey.evolving r
  | parameters depth => exact (walks_parameters depth).evolving r
  | letDeclaration depth => exact (walks_letDeclaration depth).evolving r
  | returnStatement depth => exact (walks_returnStatement depth).evolving r
  | expressionStatement depth => exact (walks_expressionStatement depth).evolving r
  | endOfStatement s => exact (evolving_endOfStatement s) r
  | semicolons depth => exact (passing_semicolons depth).evolving r
  | statement depth => exact (buildsStatements depth).statement.evolving r
  | fnDeclaration depth => exact (buildsStatements depth).fnDeclaration.evolving r
  | branch depth => exact (buildsStatements depth).branch.evolving r
  | block depth => exact (buildsStatements depth).block.evolving r
  | statements isEnd depth => exact ((buildsStatements depth).statements isEnd).evolving r

theorem takes_skip (hkind : kind.isEndOfFile = false) :
    Meets (Facing kind count) (AtMost count) (fun _ => True) (modify skip) :=
  fun _ hr => ⟨hr.atMost_skip hkind, trivial⟩

theorem takes_primary (hkind : kind.isEndOfFile = false) :
    Meets (Facing kind count) (AtMost count) (fun _ => True) (primary (depth + 1)) := by
  -- Even where no expression begins, the token is taken.
  have hreport : ∀ fault span, Meets (Facing kind count) (Facing kind count) (fun _ => True)
      (report fault span) := fun _ _ _ hr => ⟨hr, trivial⟩
  refine meets_current.andThen fun token => ?_
  split
  · exact (takes_skip hkind).andThen fun _ =>
      (evolving_node _).keeps.andThen fun _ => .pure trivial
  · split
    · exact (takes_skip hkind).andThen fun _ =>
        (evolving_node _).keeps.andThen fun _ => .pure trivial
    · exact (takes_skip hkind).andThen fun _ => (buildsParts depth).expression.keeps.andThen
        fun inner => (passing_expect _).keeps.andThen fun _ =>
          (evolving_nodeFrom _).keeps.andThen fun _ => .pure trivial
    · exact (takes_skip hkind).andThen fun _ => (buildsParts depth).properties.keeps.andThen
        fun _ => (evolving_nodeFrom _).keeps.andThen fun _ => .pure trivial
    · exact (hreport _ _).andThen fun _ => (takes_skip hkind).andThen fun _ =>
        (evolving_node _).keeps.andThen fun _ => .pure trivial

theorem takes_unary (hkind : kind.isEndOfFile = false) :
    Meets (Facing kind count) (AtMost count) (fun _ => True) (unary (depth + 2)) := by
  refine .kind fun operator => .weaken (fun _ hr => hr.1) ?_
  split
  · exact (takes_primary hkind).andThen fun first =>
      (evolving_postfixes (depth + 1) first).keeps
  · exact (meets_advance hkind).andThen fun start =>
      (buildsParts (depth + 1)).unary.keeps.andThen fun _ =>
        (evolving_node _).keeps.andThen fun _ => .pure trivial

theorem takes_power (hkind : kind.isEndOfFile = false) :
    Meets (Facing kind count) (AtMost count) (fun _ => True) (power (depth + 3)) := by
  refine (takes_unary hkind).andThen fun left => (passing_eat _).keeps.andThen fun eaten => ?_
  split
  · exact (buildsParts (depth + 2)).power.keeps.andThen fun _ =>
      (evolving_node _).keeps.andThen fun _ => .pure trivial
  · exact .pure trivial

theorem takes_binary (hkind : kind.isEndOfFile = false) (least : Nat) :
    Meets (Facing kind count) (AtMost count) (fun _ => True) (binary (depth + 4) least) :=
  (takes_power hkind).andThen fun left => (evolving_climb (depth + 3) least left).keeps

theorem takes_expression (hkind : kind.isEndOfFile = false) :
    Meets (Facing kind count) (AtMost count) (fun _ => True) (expression (depth + 5)) := by
  refine (takes_binary hkind 1).andThen fun target => passing_kind.keeps.andThen fun kind => ?_
  split
  · exact .pure trivial
  · exact passing_skip.keeps.andThen fun _ =>
      (buildsParts (depth + 4)).expression.keeps.andThen fun _ =>
        (evolving_node _).keeps.andThen fun _ => .pure trivial

theorem takes_expressionStatement (hkind : kind.isEndOfFile = false) :
    Meets (Facing kind count) (AtMost count) (·.isFilled) (expressionStatement (depth + 5)) :=
  (takes_expression hkind).andThen fun _ => (evolving_node _).keeps.andThen fun _ => .pure rfl

theorem takes_statement (hkind : kind.isEndOfFile = false) (hdepth : 3 * count + 8 ≤ depth) :
    Meets (Facing kind count) (AtMost count) (·.isFilled) (statement depth) := by
  obtain ⟨depth, rfl⟩ : ∃ d, depth = d + 6 := ⟨depth - 6, by omega⟩
  refine .kind fun found => ?_
  have hforget : ∀ r, (Facing kind count r ∧ (tokenAhead r).kind = found) → Facing found count r :=
    fun r hr => ⟨hr.2, hr.1.2⟩
  have hexpression : Meets (Facing kind count) (AtMost count) (·.isFilled)
      (expressionStatement (depth + 5)) := takes_expressionStatement hkind
  split
  · exact .weaken hforget (fills_letDeclaration _ (meets_advance rfl)).endOfStatement
  · exact .weaken hforget ((fillsStatements _).fnDeclaration (by omega)).endOfStatement
  · exact .weaken hforget ((fillsStatements _).branch (by omega))
  · exact .weaken hforget (fills_returnStatement _ (meets_advance rfl)).endOfStatement
  · refine meets_objectAhead.andThen fun isObject => ?_
    split
    · exact hexpression.endOfStatement.weaken fun _ hr => hr.1
    · refine .weaken hforget (meets_current.andThen fun start => ?_)
      exact ((fillsStatements _).block (by omega)).bind fun body hbody =>
        (evolving_nodeFrom _).keeps.andThen fun _ => .pure hbody
  · exact hexpression.endOfStatement.weaken fun _ hr => hr.1

theorem stops_statements (isEnd : TokenKind → Bool) (hdepth : count < depth) :
    Meets (AtMost count) (fun r => isEnd (tokenAhead r).kind || (tokenAhead r).kind.isEndOfFile)
      (fun _ => True) (statements isEnd depth) := by
  induction depth generalizing count with
  | zero => omega
  | succ depth ih =>
    rw [statements_eq]
    refine (passing_semicolons depth).keeps.andThen fun _ => .kind fun kind => ?_
    split
    · rename_i hend
      rintro r ⟨-, rfl⟩
      exact ⟨hend, trivial⟩
    · rename_i hgoes
      have hinside : kind.isEndOfFile = false := by
        rw [Bool.not_eq_true, Bool.or_eq_false_iff] at hgoes
        exact hgoes.2
      rintro r ⟨hr, rfl⟩
      obtain ⟨fewer, rfl, hfacing⟩ := hr.facing rfl hinside
      have hnext : (((nextStatement depth).run r).2).AtMost fewer :=
        takes_nextStatement hinside hr
      exact ⟨(ih (by omega) _ hnext).1, trivial⟩

theorem eq_of_endsOnce {r : Reader} (h : EndsOnce r.ahead)
    (hend : (tokenAhead r).kind.isEndOfFile = true) : ∃ span, r.ahead = [⟨.endOfFile, span⟩] := by
  unfold tokenAhead at hend
  generalize r.ahead = tokens at h hend
  cases h with
  | last span => exact ⟨span, rfl⟩
  | cons inside tail => cases inside.symm.trans hend

theorem exists_program {tokens : List Token} (h : EndsOnce tokens) :
    ∃ program final, (∀ depth ≥ 16 * (tokens.length + 1),
        (statements (fun _ => false) depth).run { ahead := tokens } = (program, final)) ∧
      (∃ span, final.ahead = [⟨.endOfFile, span⟩]) ∧
      Expression.holes (Statement.listParts program) =
        Diagnostic.unexpected final.diagnostics.toList := by
  let depth := 16 * (tokens.length + 1)
  let result := (statements (fun _ => false) depth).run { ahead := tokens }
  obtain ⟨hevolves, hbuilds⟩ :=
    (buildsStatements depth).statements (fun _ => false) { ahead := tokens }
  refine ⟨result.1, result.2, fun depth' hdepth => ?_, ?_, ?_⟩
  · have hsame := (settledStatements depth).statements (fun _ => false)
      (show 16 * tokens.length + 7 ≤ depth by omega)
      (show 16 * tokens.length + 7 ≤ depth' by omega)
    exact (hsame { ahead := tokens } (Nat.le_refl _)).symm
  · have hstops := stops_statements (fun _ => false) (show tokens.length < depth by omega)
    exact eq_of_endsOnce (hevolves.endsOnce h) (hstops { ahead := tokens } (Nat.le_refl _)).1
  · rw [Statement.listParts_eq]
    exact (Nat.zero_add _).symm.trans hbuilds.unexpected.symm

theorem exists_statement {r : Reader} (hinside : (tokenAhead r).kind.isEndOfFile = false) :
    ∃ s after, (∀ depth ≥ 16 * r.ahead.length + 6, (statement depth).run r = (s, after)) ∧
      after.ahead.length < r.ahead.length := by
  let depth := 16 * r.ahead.length + 6
  obtain ⟨fewer, hfewer, hfacing⟩ := AtMost.facing (Nat.le_refl r.ahead.length) rfl hinside
  refine ⟨((statement depth).run r).1, ((statement depth).run r).2, fun depth' hdepth => ?_, ?_⟩
  · exact ((settledStatements depth).statement (Nat.le_refl _) hdepth r (Nat.le_refl _)).symm
  · have hfewerAfter := (takes_statement hinside (show 3 * fewer + 8 ≤ depth by omega) r hfacing).1
    exact hfewer ▸ Nat.lt_succ_of_le hfewerAfter

end ReadM

/-- The tokens of a source that a tree is read from. -/
def validTokens (source : String) : List Token :=
  (tokenize source).tokens.filter fun token => !token.kind.isInvalid

theorem Tiles.endsOnce {position : Nat} {text : List Char} {tokens : List Token}
    (h : Tiles position text tokens) : EndsOnce tokens := by
  induction h with
  | done layout => exact .last _
  | token layout nonempty inside tail ih => exact .cons inside ih

theorem endsOnce_validTokens (source : String) : EndsOnce (validTokens source) :=
  (tiles_tokenize source).endsOnce.filter fun _ => rfl

theorem unexpected_tokenize (source : String) :
    Diagnostic.unexpected (tokenize source).diagnostics = 0 := by
  rw [Diagnostic.unexpected, List.countP_eq_zero]
  intro d hd
  obtain ⟨scanned, -, hscanned⟩ := List.mem_filterMap.mp hd
  obtain ⟨fault, -, rfl⟩ := Option.map_eq_some_iff.mp hscanned
  cases fault <;> exact Bool.false_ne_true

open ReadM (IsCall tokenAhead)

/-- From every list of tokens that has the end of the text as its last one and nowhere else, the
reader gets to that end and leaves it ahead, with one report of an unexpected token for each hole in
the program. On the way no function of the reader takes the end of the text, and a statement that
begins before it takes a token. -/
theorem reading_makes_progress :
    (∀ tokens, EndsOnce tokens →
      ∃ program final, (∀ depth ≥ 16 * (tokens.length + 1),
          (ReadM.statements (fun _ => false) depth).run { ahead := tokens } = (program, final)) ∧
        (∃ span, final.ahead = [⟨.endOfFile, span⟩]) ∧
        Expression.holes (Statement.listParts program) =
          Diagnostic.unexpected final.diagnostics.toList) ∧
      (∀ r : Reader, EndsOnce r.ahead →
        (∀ (α : Type) (action : ReadM α), IsCall action →
          EndsOnce (action.run r).2.ahead ∧ (action.run r).2.ahead <:+ r.ahead) ∧
        ((tokenAhead r).kind.isEndOfFile = false →
          ∃ s after, (∀ depth ≥ 16 * r.ahead.length + 6, (ReadM.statement depth).run r = (s, after)) ∧
            after.ahead.length < r.ahead.length)) ∧
      ∀ source, EndsOnce (validTokens source) ∧
        Expression.holes (SyntaxTree.read source).tree.expressions =
          Diagnostic.unexpected (SyntaxTree.read source).diagnostics := by
  refine ⟨fun tokens h => ReadM.exists_program h, fun r hends => ⟨fun α action hcall => ?_,
    ReadM.exists_statement⟩, fun source => ⟨endsOnce_validTokens source, ?_⟩⟩
  · exact ⟨(hcall.evolves r).endsOnce hends, (hcall.evolves r).suffix⟩
  · obtain ⟨program, final, hrun, -, hholes⟩ :=
      ReadM.exists_program (endsOnce_validTokens source)
    have hread := hrun _ (Nat.le_refl _)
    have hstatements : (SyntaxTree.read source).tree.statements = program :=
      congrArg Prod.fst hread
    have hdiagnostics : (SyntaxTree.read source).diagnostics =
        (tokenize source).diagnostics ++ final.diagnostics.toList :=
      congrArg (fun result : List Statement × Reader =>
        (tokenize source).diagnostics ++ result.2.diagnostics.toList) hread
    rw [SyntaxTree.expressions, hstatements, hdiagnostics, hholes, Diagnostic.unexpected_append,
      unexpected_tokenize, Nat.zero_add]

/-- A parenthesis that nothing opened: the statement takes it and leaves a hole. -/
theorem reading_makes_progress_at_stray_parenthesis :
    let tokens : List Token := [⟨.symbol .rightParen, ⟨0, 1⟩⟩, ⟨.endOfFile, ⟨1, 1⟩⟩]
    (∃ program final,
      (ReadM.statements (fun _ => false) 48).run { ahead := tokens } = (program, final) ∧
        (∃ span, final.ahead = [⟨.endOfFile, span⟩]) ∧
        Expression.holes (Statement.listParts program) = 1 ∧
        Diagnostic.unexpected final.diagnostics.toList = 1) ∧
      (∃ s after, (ReadM.statement 38).run { ahead := tokens } = (s, after) ∧
        after.ahead.length < tokens.length) ∧
      EndsOnce ((ReadM.block 38).run { ahead := tokens }).2.ahead := by
  intro tokens
  have hends : EndsOnce tokens := .cons rfl (.last _)
  obtain ⟨hprogram, hcalls, -⟩ := reading_makes_progress
  obtain ⟨program, final, hrun, hfinal, hholes⟩ := hprogram tokens hends
  obtain ⟨s, after, hstatement, hfewer⟩ := (hcalls { ahead := tokens } hends).2 rfl
  have hone : Expression.holes (Statement.listParts program) = 1 := by
    have hread : program = ((ReadM.statements (fun _ => false) 48).run { ahead := tokens }).1 := by
      rw [hrun 48 (Nat.le_refl _)]
    rw [hread]
    decide
  exact ⟨⟨program, final, hrun 48 (Nat.le_refl _), hfinal, hone, hholes ▸ hone⟩,
    ⟨s, after, hstatement 38 (Nat.le_refl _), hfewer⟩,
    ((hcalls { ahead := tokens } hends).1 _ _ (.block 38)).1⟩

end StackScript
