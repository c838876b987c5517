import StackScript.Proofs.Token.Tiling
import StackScript.Proofs.Tree.Layout
import StackScript.Proofs.Tree.Spans

set_option autoImplicit false

/-!
# How the pieces of a tree lie: statements

Main statement: `tree_spans_are_sound`. A statement may be followed by a semicolon that is not part
of it, so statements lie somewhere between two places, in order. A block that the depth was not
enough for would reach back to the token before it. The reader has three levels for each token
ahead and a little more, which is enough.
-/
namespace StackScript

variable {tokens : List Token}

namespace ReadM

variable {α β : Type} {i j : Nat} {c : Prop} {depth : Nat}

theorem Lays.endOfStatement {action : ReadM Statement}
    (h : Lays tokens i (fun s j => c → Laid tokens i j (.statement s)) action) :
    Lays tokens i (fun s j => c → Row tokens i j [.statement s])
      (action >>= ReadM.endOfStatement) := by
  refine h.bind fun s j hij => .eat (fun k hjk => ?_) ?_
  · exact .pure fun hs hc => .cons (Nat.le_refl i) (hs hc) (.nil hjk)
  · exact .pure fun hs hc => .single (hs hc)

section

variable (ho : InOrder tokens)

include ho

theorem lays_someExpression (depth i : Nat) :
    Lays tokens i (fun value j => Row tokens i j (Piece.ofValue value))
      (some <$> expression depth) :=
  ((laysParts ho depth).expression i).map fun _ _ => .single

theorem lays_letDeclaration (depth : Nat) (hlet : (tokenAt tokens i).kind = .keyword .letK) :
    Lays tokens i (fun s j => Laid tokens i j (.statement s)) (letDeclaration depth) := by
  refine .advance (hlet ▸ rfl) fun hi => ?_
  have hdeclared : ∀ isMutable (j : Nat), i + 1 ≤ j → Lays tokens j
      (fun s k => Laid tokens i k (.statement s)) (do
        let name ← expectName
        let type ← annotated depth
        let initial ← if ← eat .equal then some <$> expression depth else pure none
        return Statement.letDecl (← nodeFrom (tokenAt tokens i).span) isMutable name type
          initial) := by
    intro isMutable j hj
    refine (lays_expectName ho).bind fun name k hjk => (lays_annotated ho depth).bind
      fun type m hkm => .eat (fun n hmn => ?_) ?_
    · refine (lays_someExpression ho depth n).bind fun initial o hno => .nodeFrom fun node =>
        .pure fun hupTo hinitial htype hname => ?_
      exact laid_of_row ho (hupTo.spans ho (.token hi) (by omega))
        (.cons (by omega) hname (htype.append (hinitial.before hmn)))
    · refine .ofPure (.nodeFrom fun node => .pure fun hupTo htype hname => ?_)
      exact laid_of_row ho (hupTo.spans ho (.token hi) (by omega))
        (.cons (by omega) hname (htype.append (.nil (Nat.le_refl _))))
  exact .eatIf (fun j hj => hdeclared true j hj) (hdeclared false (i + 1) (Nat.le_refl _))

theorem lays_returnStatement (depth : Nat)
    (hreturn : (tokenAt tokens i).kind = .keyword .returnK) :
    Lays tokens i (fun s j => Laid tokens i j (.statement s)) (returnStatement depth) := by
  refine .advance (hreturn ▸ rfl) fun hi => .check fun semicolon _ => .check fun brace _ =>
    .atEnd fun ended => ?_
  dsimp only
  split
  · refine .ofPure (.nodeFrom fun node => .pure fun hupTo => ?_)
    exact laid_of_row ho (hupTo.spans ho (.token hi) (Nat.le_refl _)) (.nil (Nat.le_succ i))
  · refine (lays_someExpression ho depth (i + 1)).bind fun value j hij => .nodeFrom fun node =>
      .pure fun hupTo hvalue => ?_
    exact laid_of_row ho (hupTo.spans ho (.token hi) hij) (hvalue.before (Nat.le_succ i))

theorem lays_expressionStatement (depth i : Nat) :
    Lays tokens i (fun s j => Laid tokens i j (.statement s)) (expressionStatement depth) :=
  ((laysParts ho depth).expression i).bind fun _ _ _ => .node fun _ => .pure fun hvalue =>
    laid_of_row ho hvalue.spans (.single hvalue)

end

structure LaysStatements (tokens : List Token) (depth : Nat) : Prop where
  statement (i : Nat) :
    Lays tokens i (fun s j => 3 * (tokens.length - i) + 1 ≤ depth →
      Row tokens i j [.statement s]) (statement depth)
  fnDeclaration (i : Nat) (h : (tokenAt tokens i).kind = .keyword .fnK) :
    Lays tokens i (fun s j => 3 * (tokens.length - i) ≤ depth →
      Laid tokens i j (.statement s)) (fnDeclaration depth)
  branch (i : Nat) (h : (tokenAt tokens i).kind = .keyword .ifK) :
    Lays tokens i (fun s j => 3 * (tokens.length - i) ≤ depth →
      Laid tokens i j (.statement s)) (branch depth)
  block (i : Nat) (h : (tokenAt tokens i).kind = .symbol .leftBrace) :
    Lays tokens i (fun body j => 3 * (tokens.length - i) ≤ depth →
      Row tokens (i + 1) j (body.map .statement)) (block depth)
  statements (isEnd : TokenKind → Bool) (i : Nat) :
    Lays tokens i (fun body j => 3 * (tokens.length - i) + 2 ≤ depth →
      Row tokens i j (body.map .statement)) (statements isEnd depth)

theorem laysStatements_zero : LaysStatements tokens 0 := by
  have hstarted : ∀ {i kind}, (tokenAt tokens i).kind = kind → kind.isEndOfFile = false →
      ¬ 3 * (tokens.length - i) ≤ 0 := by
    intro i kind hkind hinside
    have hi := lt_of_inside (hkind ▸ hinside : (tokenAt tokens i).kind.isEndOfFile = false)
    omega
  refine ⟨fun i => ?_, fun i h => ?_, fun i h => ?_, fun i h => ?_, fun _ i => ?_⟩
  · exact .current (.node fun _ => .pure fun hd => by omega)
  · exact .current (.node fun _ => .pure fun hd => absurd hd (hstarted h rfl))
  · exact .current (.node fun _ => .pure fun hd => absurd hd (hstarted h rfl))
  · exact .pure fun hd => absurd hd (hstarted h rfl)
  · exact .pure fun hd => by omega

section

variable (ho : InOrder tokens)

include ho

namespace LaysStatements

theorem statement_succ (h : LaysStatements tokens depth) (i : Nat) :
    Lays tokens i (fun s j => 3 * (tokens.length - i) + 1 ≤ depth + 1 →
      Row tokens i j [.statement s]) (ReadM.statement (depth + 1)) := by
  have hends : ∀ {action : ReadM Statement},
      Lays tokens i (fun s j => Laid tokens i j (.statement s)) action →
      Lays tokens i (fun s j => 3 * (tokens.length - i) + 1 ≤ depth + 1 →
        Row tokens i j [.statement s]) (action >>= endOfStatement) :=
    fun haction => (haction.mono fun _ _ hs _ => hs).endOfStatement
  refine .kind ?_
  split
  · rename_i hkind
    exact hends (lays_letDeclaration ho depth hkind)
  · rename_i hkind
    exact ((h.fnDeclaration i hkind).mono fun _ _ hs hd => hs (by omega)).endOfStatement
  · rename_i hkind
    exact (h.branch i hkind).mono fun _ _ hs hd => .single (hs (by omega))
  · rename_i hkind
    exact hends (lays_returnStatement ho depth hkind)
  · rename_i hkind
    refine .objectAhead fun isObject => ?_
    split
    · exact hends (lays_expressionStatement ho depth i)
    · refine .current ((h.block i hkind).bind fun body j hij => .nodeFrom fun node =>
        .pure fun hupTo hbody hd => .single ?_)
      have hrow := hbody (by omega)
      have hi := lt_of_inside (hkind ▸ rfl : (tokenAt tokens i).kind.isEndOfFile = false)
      exact laid_of_row ho (hupTo.spans ho (.token hi) hrow.le) (hrow.before (Nat.le_succ i))
  · exact hends (lays_expressionStatement ho depth i)

theorem functionBody (h : LaysStatements tokens depth) (i : Nat) :
    Lays tokens i (fun body j => 3 * (tokens.length - i) ≤ depth →
      Row tokens i j (body.map .statement)) (ReadM.functionBody depth) := by
  refine .kind ?_
  split
  · rename_i harrow
    refine .advance (inside_of_isSymbol harrow) fun hi =>
      ((laysParts ho depth).expression (i + 1)).bind fun value j hij => .nodeFrom fun node =>
        .pure fun hupTo hvalue _ => .single ?_
    exact laid_of_row ho (hupTo.spans ho (.token hi) hij)
      ((Row.single hvalue).before (Nat.le_succ i))
  · split
    · rename_i hbrace
      exact (h.block i (eq_of_isSymbol hbrace)).mono fun _ _ hbody hd =>
        (hbody hd).before (Nat.le_succ i)
    · exact (lays_reportExpected _).bind fun _ _ _ => .pure False.elim

theorem fnDeclaration_succ (h : LaysStatements tokens depth) (i : Nat)
    (hfn : (tokenAt tokens i).kind = .keyword .fnK) :
    Lays tokens i (fun s j => 3 * (tokens.length - i) ≤ depth + 1 →
      Laid tokens i j (.statement s)) (ReadM.fnDeclaration (depth + 1)) := by
  rw [fnDeclaration_eq]
  refine .advance (hfn ▸ rfl) fun hi => (lays_expectName ho).bind fun name j hij => ?_
  have hrest : ∀ parameters (k : Nat), j ≤ k →
      Lays tokens k (fun s m => Row tokens j k (Piece.ofParameters parameters) →
        Laid tokens (i + 1) j (.name name) → 3 * (tokens.length - i) ≤ depth + 1 →
        Laid tokens i m (.statement s))
        (functionRest (tokenAt tokens i).span name depth parameters) := by
    intro parameters k hjk
    refine (lays_annotated ho depth).bind fun result m hkm => (h.functionBody ho m).bind
      fun body n hmn => .nodeFrom fun node => .pure ?_
    intro hupTo hbody hresult hparameters hname hd
    exact laid_of_row ho (hupTo.spans ho (.token hi) (by omega)) (.cons (Nat.le_succ i) hname
      (hparameters.append (hresult.append (hbody (by omega)))))
  refine .eat (fun k hjk => ?_) ?_
  · exact (lays_parameters ho depth).bind fun parameters m hkm => (lays_expect _).bind
      fun _ n hmn => (hrest parameters n (by omega)).mono fun _ _ hs _ hparameters hname hd =>
        hs ((hparameters.before hjk).after hmn) hname hd
  · exact (hrest [] j (Nat.le_refl j)).mono fun _ _ hs hname hd =>
      hs (.nil (Nat.le_refl j)) hname hd

theorem branch_succ (h : LaysStatements tokens depth) (i : Nat)
    (hif : (tokenAt tokens i).kind = .keyword .ifK) :
    Lays tokens i (fun s j => 3 * (tokens.length - i) ≤ depth + 1 →
      Laid tokens i j (.statement s)) (ReadM.branch (depth + 1)) := by
  refine .advance (hif ▸ rfl) fun hi => ((laysParts ho depth).expression (i + 1)).bind
    fun condition j hij => (h.statement j).bind fun body k hjk => ?_
  have hbranch : ∀ otherwise (m : Nat), k ≤ m → Lays tokens m
      (fun s n => Row tokens k m (otherwise.toList.map .statement) →
        (3 * (tokens.length - j) + 1 ≤ depth → Row tokens j k [.statement body]) →
        Laid tokens (i + 1) j (.expression condition) → 3 * (tokens.length - i) ≤ depth + 1 →
        Laid tokens i n (.statement s))
      (do return Statement.branch (← nodeFrom (tokenAt tokens i).span) condition body otherwise) := by
    refine fun otherwise m hkm => .nodeFrom fun node => .pure ?_
    intro hupTo hother hbody hcondition hd
    exact laid_of_row ho (hupTo.spans ho (.token hi) (by omega))
      (.cons (Nat.le_succ i) hcondition ((hbody (by omega)).append hother))
  refine .eatIf (fun m hkm => ?_) ?_
  · have hother : Lays tokens m (fun otherwise n => 3 * (tokens.length - m) + 1 ≤ depth →
        Row tokens m n (otherwise.toList.map .statement)) (some <$> ReadM.statement depth) :=
      (h.statement m).map fun _ _ hs => hs
    exact hother.bind fun otherwise n hmn => (hbranch otherwise n (by omega)).mono
      fun _ _ hs hotherwise hbody hcondition hd =>
        hs ((hotherwise (by omega)).before hkm) hbody hcondition hd
  · exact (hbranch none k (Nat.le_refl k)).mono fun _ _ hs => hs (.nil (Nat.le_refl k))

omit ho in
theorem block_succ (h : LaysStatements tokens depth) (i : Nat)
    (hbrace : (tokenAt tokens i).kind = .symbol .leftBrace) :
    Lays tokens i (fun body j => 3 * (tokens.length - i) ≤ depth + 1 →
      Row tokens (i + 1) j (body.map .statement)) (ReadM.block (depth + 1)) := by
  refine .expect hbrace fun hi => (h.statements _ (i + 1)).bind fun body k hjk =>
    (lays_expect _).bind fun _ m hkm => .pure fun _ hbody hd => ?_
  exact (hbody (by omega)).after hkm

omit ho in
theorem statements_succ (h : LaysStatements tokens depth) (isEnd : TokenKind → Bool) (i : Nat) :
    Lays tokens i (fun body j => 3 * (tokens.length - i) + 2 ≤ depth + 1 →
      Row tokens i j (body.map .statement)) (ReadM.statements isEnd (depth + 1)) := by
  rw [statements_eq]
  refine (lays_semicolons depth).bind fun _ j hij => .kind ?_
  split
  · exact .pure fun _ _ => .nil hij
  · have hnext : Lays tokens j (fun s k => 3 * (tokens.length - j) + 1 ≤ depth →
        Row tokens j k [.statement s]) (nextStatement depth) :=
      .get fun before => (h.statement j).bind fun first k hjk => .get fun after =>
        .guarded fun m hkm => .pure fun hfirst hd => (hfirst hd).after hkm
    refine hnext.bind fun first k hjk => (h.statements isEnd k).bind fun rest m hkm =>
      .pure fun hrest hfirst _ hd => ?_
    have hrow := hfirst (by omega)
    have hlt := hrow.lt
    exact (hrow.append (hrest (by omega))).before hij

end LaysStatements

theorem laysStatements (depth : Nat) : LaysStatements tokens depth := by
  induction depth with
  | zero => exact laysStatements_zero
  | succ depth h =>
    exact ⟨h.statement_succ ho, h.fnDeclaration_succ ho, h.branch_succ ho, h.block_succ,
      h.statements_succ⟩

end

end ReadM

theorem inOrder_tokenize (source : String) :
    InOrder ((tokenize source).tokens.filter fun token => !token.kind.isInvalid) :=
  ⟨(tiles_tokenize source).pairwise.filter _, fun token htoken =>
    ((liesIn_of_mem_tokenize source).1 token (List.mem_filter.mp htoken).1).start_le⟩

theorem SyntaxTree.liesIn_of_hasPiece {source : String} {p : Piece}
    (h : (SyntaxTree.read source).tree.HasPiece p) : p.span.LiesIn source :=
  SyntaxTree.within_pieces (Span.mergeable_liesIn source) (liesIn_of_mem_tokenize source).1
    (Span.liesIn_whole source) h

theorem SyntaxTree.neat_of_read {source : String}
    (h : (SyntaxTree.read source).diagnostics = []) :
    (Piece.program (SyntaxTree.read source).tree).All Piece.Neat := by
  let ahead := (tokenize source).tokens.filter fun token => !token.kind.isInvalid
  have ho : InOrder ahead := inOrder_tokenize source
  have hstart : Reader.At ahead 0 { ahead } := ⟨rfl, nofun, Nat.zero_le _⟩
  obtain ⟨j, -, -, hquiet⟩ :=
    (ReadM.laysStatements ho (16 * (ahead.length + 1))).statements (fun _ => false) 0 _ hstart
  have hclean := Array.toList_eq_nil_iff.mp (List.append_eq_nil_iff.mp h).2
  have hrow := (hquiet hclean).2 (by omega)
  refine ⟨⟨fun q hq => ?_, hrow.pairwise ho⟩, fun q hq => ?_⟩
  · have hlies := SyntaxTree.liesIn_of_hasPiece (Relation.ReflTransGen.single hq)
    exact ⟨Nat.zero_le _, hlies.stop_le⟩
  · obtain ⟨a, b, -, -, hlaid⟩ := hrow.exists_laid hq
    exact hlaid.neat

/-- Every piece of the tree of a source lies in the source, between characters. If nothing is
reported, it contains the pieces that it is made of, which do not overlap and come in the order of
the source. -/
theorem tree_spans_are_sound (source : String) :
    (∀ p, (SyntaxTree.read source).tree.HasPiece p → p.span.LiesIn source) ∧
      ((SyntaxTree.read source).diagnostics = [] →
        ∀ p, (SyntaxTree.read source).tree.HasPiece p →
          (∀ q ∈ p.inner, p.span.Covers q.span) ∧
          p.inner.Pairwise fun first second => first.span.stop ≤ second.span.start) :=
  ⟨fun _ hp => SyntaxTree.liesIn_of_hasPiece hp, fun hclean _ hp =>
    have hneat := hp.of_all (SyntaxTree.neat_of_read hclean)
    ⟨hneat.covers, hneat.apart⟩⟩

/-- The semicolon is part of neither statement. -/
theorem tree_spans_are_sound_of_declaration :
    let tree := (SyntaxTree.read "let a: b | c = d; e").tree
    (SyntaxTree.read "let a: b | c = d; e").diagnostics = [] ∧
      (Piece.program tree).inner.map (·.span) = [⟨0, 16⟩, ⟨18, 19⟩] ∧
      (∀ q ∈ (Piece.program tree).inner, q.span.LiesIn "let a: b | c = d; e") ∧
      (Piece.program tree).inner.Pairwise fun first second =>
        first.span.stop ≤ second.span.start := by
  intro tree
  have hclean : (SyntaxTree.read "let a: b | c = d; e").diagnostics = [] := by decide +kernel
  have hspans : (Piece.program tree).inner.map (·.span) = [⟨0, 16⟩, ⟨18, 19⟩] := by decide +kernel
  obtain ⟨hlies, hneat⟩ := tree_spans_are_sound "let a: b | c = d; e"
  exact ⟨hclean, hspans, fun q hq => hlies q (.single hq), (hneat hclean _ .refl).2⟩

end StackScript
