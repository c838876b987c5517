import StackScript.Proofs.Tree.Likeness
import StackScript.Proofs.Tree.LockstepStatements
import StackScript.Proofs.Tree.Numbering

set_option autoImplicit false

/-!
# Texts that are joined

Main statement: `SyntaxTree.read_joined`. If nothing is reported about two texts, nothing is reported
about the text in which a semicolon stands between them, and its tree has the statements of the
first and then those of the second. The nodes of the first keep their numbers, those of the second
come after them.
-/
namespace StackScript

namespace ReadM

variable {α β : Type} {offset : Nat} {after : List TokenKind}

theorem run_semicolons_of_semicolon {r : Reader} {kinds : List TokenKind}
    (h : r.kinds = .symbol .semicolon :: kinds) (depth : Nat) :
    (semicolons (depth + 1)).run r = (semicolons depth).run (skip r) := by
  have hkind : (tokenAhead r).kind = .symbol .semicolon := by rw [kind_tokenAhead, h]; rfl
  rw [← bind_pure (semicolons (depth + 1)), semicolons_succ]
  change (if isSymbol .semicolon (tokenAhead r).kind then
    modify skip >>= fun _ => semicolons depth >>= pure else pure ()).run r = _
  rw [hkind]
  rfl

theorem run_semicolons_of_le {r : Reader} {depth depth' : Nat} (h : r.kinds.length ≤ depth)
    (h' : r.kinds.length ≤ depth') : (semicolons depth).run r = (semicolons depth').run r := by
  induction depth generalizing r depth' with
  | zero =>
    have hnone : isSymbol .semicolon (tokenAhead r).kind = false := by
      rw [kind_tokenAhead, List.eq_nil_of_length_eq_zero (Nat.le_zero.mp h)]
      rfl
    rw [← bind_pure (semicolons depth'), run_semicolons_of_ne hnone]
    rfl
  | succ depth ih =>
    cases hsemicolon : isSymbol .semicolon (tokenAhead r).kind with
    | false =>
      rw [← bind_pure (semicolons depth'), ← bind_pure (semicolons (depth + 1)),
        run_semicolons_of_ne hsemicolon, run_semicolons_of_ne hsemicolon]
    | true =>
      rw [kind_tokenAhead] at hsemicolon
      cases hkinds : r.kinds with
      | nil => simp [hkinds, isSymbol] at hsemicolon
      | cons kind kinds =>
        rw [hkinds] at hsemicolon h h'
        obtain rfl : kind = .symbol .semicolon := eq_of_isSymbol hsemicolon
        cases depth' with
        | zero => simp at h'
        | succ depth' =>
          have hskip : (skip r).kinds = kinds := kinds_skip hkinds rfl
          rw [run_semicolons_of_semicolon hkinds, run_semicolons_of_semicolon hkinds]
          exact ih (by simpa [hskip] using h) (by simpa [hskip] using h')

theorem run_statements_of_semicolon {isEnd : TokenKind → Bool} {r : Reader} {depth : Nat}
    {kinds : List TokenKind} (h : r.kinds = .symbol .semicolon :: kinds)
    (hdepth : kinds.length < depth) :
    (statements isEnd (depth + 1)).run r = (statements isEnd (depth + 1)).run (skip r) := by
  obtain ⟨depth, rfl⟩ : ∃ d, depth = d + 1 := ⟨depth - 1, by omega⟩
  have hskip : (skip r).kinds = kinds := kinds_skip h rfl
  have hsemicolons : (semicolons (depth + 1)).run r = (semicolons (depth + 1)).run (skip r) := by
    rw [run_semicolons_of_semicolon h]
    exact run_semicolons_of_le (by rw [hskip]; omega) (by rw [hskip]; omega)
  have hbind : ∀ f : Unit → ReadM (List Statement), (semicolons (depth + 1) >>= f).run r =
      (semicolons (depth + 1) >>= f).run (skip r) := by
    intro f
    change (f ((semicolons (depth + 1)).run r).1).run ((semicolons (depth + 1)).run r).2 = _
    rw [hsemicolons]
    rfl
  rw [statements_eq]
  exact hbind _

theorem exists_run_behind_semicolon {isEnd : TokenKind → Bool} {r : Reader} {depth : Nat}
    {kinds : List TokenKind} (h : r.kinds = .symbol .semicolon :: kinds ∨ r.kinds = kinds)
    (hdepth : 16 * (r.kinds.length + 1) ≤ depth) :
    ∃ r' : Reader, r'.kinds = kinds ∧ r'.diagnostics = r.diagnostics ∧ r'.nextId = r.nextId ∧
      16 * (kinds.length + 1) ≤ depth ∧
      (statements isEnd depth).run r = (statements isEnd depth).run r' := by
  obtain h | h := h
  · rw [h, List.length_cons] at hdepth
    obtain ⟨depth, rfl⟩ : ∃ d, depth = d + 1 := ⟨depth - 1, by omega⟩
    exact ⟨skip r, kinds_skip h rfl, diagnostics_skip r, nextId_skip r, by omega,
      run_statements_of_semicolon h (by omega)⟩
  · exact ⟨r, h, rfl, rfl, h ▸ hdepth, rfl⟩

theorem run_statements_cons {r : Reader} {depth : Nat} {kind : TokenKind} {kinds : List TokenKind}
    (h : r.kinds = kind :: kinds) (hsemicolon : isSymbol .semicolon kind = false)
    (hend : kind.isEndOfFile = false) :
    (statements (fun _ => false) (depth + 1)).run r =
      (((nextStatement depth).run r).1 ::
          ((statements (fun _ => false) depth).run ((nextStatement depth).run r).2).1,
        ((statements (fun _ => false) depth).run ((nextStatement depth).run r).2).2) := by
  have hkind : (tokenAhead r).kind = kind := by rw [kind_tokenAhead, h]; rfl
  rw [statements_eq, run_semicolons_of_ne (by rw [hkind, hsemicolon])]
  change (if false || (tokenAhead r).kind.isEndOfFile then pure [] else (do
    let first ← nextStatement depth
    let rest ← statements (fun _ => false) depth
    return first :: rest) : ReadM (List Statement)).run r = _
  rw [hkind, hend]
  rfl

/-- The second reader reads what the first one reads, and goes on with what follows. -/
theorem run_statements_joined (hafter : Follows after) {kinds rest : List TokenKind}
    {r r' : Reader} {depth depth' : Nat} (hbeside : Beside offset kinds rest r r')
    (hplace : loose after (kinds.length + 1) kinds rest) (hdepth : 16 * (kinds.length + 2) ≤ depth)
    (hdepth' : 16 * (kinds.length + rest.length + 1) ≤ depth')
    (hclean : ((statements (fun _ => false) depth).run r).2.diagnostics = #[]) :
    ∃ body' r'' depth'', (r''.kinds = after ∨ r''.kinds = after.tail) ∧
      r''.diagnostics = #[] ∧
      r''.nextId = ((statements (fun _ => false) depth).run r).2.nextId + offset ∧
      16 * (r''.kinds.length + 1) ≤ depth'' ∧
      Statement.bareList offset ((statements (fun _ => false) depth).run r).1 =
        Statement.bareList 0 body' ∧
      (statements (fun _ => false) depth').run r' =
        (body' ++ ((statements (fun _ => false) depth'').run r'').1,
          ((statements (fun _ => false) depth'').run r'').2) := by
  induction hsize : kinds.length using Nat.strongRecOn generalizing kinds rest r r' depth
    depth' with
  | _ size ih =>
    obtain ⟨depth, rfl⟩ : ∃ d, depth = d + 1 := ⟨depth - 1, by omega⟩
    obtain ⟨depth', rfl⟩ : ∃ d, depth' = d + 1 := ⟨depth' - 1, by omega⟩
    subst hsize
    cases kinds with
    | nil =>
      rw [run_statements_of_ended (ahead_of_ended hbeside.left)]
      refine ⟨[], r', depth' + 1, ?_, hbeside.clean, hbeside.nextId, ?_, rfl, rfl⟩
      · obtain ⟨-, hrest | ⟨-, hrest⟩⟩ := hplace
        · exact .inl (hbeside.right.trans hrest)
        · exact .inr (hbeside.right.trans hrest)
      · rw [hbeside.right, List.nil_append]
        simpa using hdepth'
    | cons kind tail =>
      obtain rfl : rest = after := by
        obtain ⟨-, hrest | ⟨hnil, -⟩⟩ := hplace
        · exact hrest
        · exact absurd hnil (List.cons_ne_nil kind tail)
      simp only [List.length_cons] at hdepth hdepth'
      cases hsemicolon : isSymbol .semicolon kind with
      | true =>
        obtain rfl := eq_of_isSymbol hsemicolon
        rw [run_statements_of_semicolon hbeside.left (by simp; omega)] at hclean ⊢
        rw [run_statements_of_semicolon hbeside.right (by simp; omega)]
        exact ih tail.length (by simp) hbeside.skip ⟨Nat.lt_succ_self _, .inl rfl⟩ (by omega)
          (by omega) hclean rfl
      | false =>
        have hend := hbeside.inside kind List.mem_cons_self
        rw [run_statements_cons hbeside.left hsemicolon hend] at hclean ⊢
        rw [run_statements_cons hbeside.right hsemicolon hend]
        have hfirst := ((buildsStatements depth).statements _).quiet _ hclean |>.1
        have hnextStatement : Alike offset True (upto rest (tail.length + 2))
            (fun x x' => x.bare offset = x'.bare 0) (fun _ => loose rest (tail.length + 2 - 1))
            (nextStatement depth) (nextStatement depth') :=
          (alikeStatements hafter depth).nextStatement (by omega) (by omega)
        obtain ⟨kinds₁, rest₁, hbeside₁, hsame, hlt, hrest⟩ :=
          hnextStatement.2 _ _ r r' trivial ⟨by simp, rfl⟩ hbeside hfirst
        have hshort : rest₁.length ≤ rest.length := by
          obtain rfl | ⟨-, rfl⟩ := hrest
          · exact Nat.le_refl _
          · rw [List.length_tail]
            exact Nat.sub_le _ 1
        have hbound : 16 * (kinds₁.length + rest₁.length + 1) ≤ depth' := by omega
        obtain ⟨body', r'', depth'', hkinds, hclean'', hnext, hdepth'', hbody, hrun⟩ :=
          ih kinds₁.length (by simp; omega) hbeside₁ ⟨Nat.lt_succ_self _, hrest⟩ (by omega) hbound
            hclean rfl
        refine ⟨((nextStatement depth').run r').1 :: body', r'', depth'', hkinds, hclean'', hnext,
          hdepth'', ?_, ?_⟩
        · simp only [Statement.bareList, hsame, hbody]
        · rw [hrun]
          rfl

/-- The action reports something, if nothing was reported before. -/
def Reports (r : Reader) (action : ReadM α) : Prop := (action.run r).2.diagnostics ≠ #[]

theorem Reports.bind {r : Reader} {action : ReadM α} {f : α → ReadM β} (h : Reports r action)
    (hf : ∀ x, Quiet (f x)) : Reports r (action >>= f) :=
  fun hclean => h (hf _ _ hclean).1

theorem Reports.current {r : Reader} {f : Token → ReadM β} (h : Reports r (f (tokenAhead r))) :
    Reports r (ReadM.current >>= f) := h

theorem Reports.kind {r : Reader} {f : TokenKind → ReadM β} (h : Reports r (f (tokenAhead r).kind)) :
    Reports r (ReadM.kind >>= f) := h

theorem Reports.of_reads {r : Reader} {action : ReadM α} (h : Reads (fun _ => False) action) :
    Reports r action := fun hclean => (h r hclean).2

theorem reports_placeholder (r : Reader) : Reports r placeholder :=
  .of_reads (passing_current.quiet.andThen fun _ => (reads_report _ _).bind fun _ =>
    (evolving_node _).quiet.andThen fun _ => .pure False.elim)

variable {r : Reader} (helse : (tokenAhead r).kind = .keyword .elseK)

include helse

theorem reports_primary (depth : Nat) : Reports r (primary depth) := by
  cases depth with
  | zero => exact reports_placeholder r
  | succ depth =>
    refine .current ?_
    rw [helse]
    exact .of_reads ((reads_report _ _).bind fun _ => passing_skip.quiet.andThen fun _ =>
      (evolving_node _).quiet.andThen fun _ => .pure False.elim)

theorem reports_unary (depth : Nat) : Reports r (unary depth) := by
  cases depth with
  | zero => exact reports_placeholder r
  | succ depth =>
    refine .kind ?_
    rw [helse]
    exact (reports_primary helse depth).bind fun first =>
      (evolving_postfixes depth first).quiet

theorem reports_power (depth : Nat) : Reports r (power depth) := by
  cases depth with
  | zero => exact reports_placeholder r
  | succ depth =>
    refine (reports_unary helse depth).bind fun left =>
      (passing_eat _).quiet.andThen fun eaten => ?_
    split
    · exact (buildsParts depth).power.quiet.andThen fun right =>
        (evolving_node _).quiet.andThen fun _ => .pure trivial
    · exact .pure trivial

theorem reports_binary (depth least : Nat) : Reports r (binary depth least) := by
  cases depth with
  | zero => exact reports_placeholder r
  | succ depth => exact (reports_power helse depth).bind fun left =>
      (evolving_climb depth least left).quiet

theorem reports_expression (depth : Nat) : Reports r (expression depth) := by
  cases depth with
  | zero => exact reports_placeholder r
  | succ depth =>
    refine (reports_binary helse depth 1).bind fun target =>
      passing_kind.quiet.andThen fun kind => ?_
    split
    · exact .pure trivial
    · exact passing_skip.quiet.andThen fun _ => (buildsParts depth).expression.quiet.andThen
        fun value => (evolving_node _).quiet.andThen fun _ => .pure trivial

theorem reports_nextStatement (depth : Nat) : Reports r (nextStatement (depth + 1)) := by
  have hstatement : Reports r (statement (depth + 1)) := by
    refine .kind ?_
    rw [helse]
    exact ((reports_expression helse depth).bind fun value =>
      (evolving_node _).quiet.andThen fun _ => .pure trivial).bind fun s =>
        (passing_eat _).quiet.andThen fun _ => .pure trivial
  exact hstatement.bind fun _ => passing_get.quiet.andThen fun _ =>
    .guarded passing_skip.quiet fun _ => .pure trivial

omit helse

theorem head_ne_else {depth : Nat} (hdepth : 1 < depth)
    (hclean : ((statements (fun _ => false) depth).run r).2.diagnostics = #[]) :
    r.kinds.head? ≠ some (.keyword .elseK) := by
  intro hhead
  obtain ⟨depth, rfl⟩ : ∃ d, depth = d + 2 := ⟨depth - 2, by omega⟩
  obtain ⟨kinds, hkinds⟩ : ∃ kinds, r.kinds = .keyword .elseK :: kinds := by
    cases hkinds : r.kinds with
    | nil => simp [hkinds] at hhead
    | cons kind kinds => exact ⟨kinds, by simpa [hkinds] using hhead⟩
  rw [run_statements_cons hkinds rfl rfl] at hclean
  have helse : (tokenAhead r).kind = .keyword .elseK := by rw [kind_tokenAhead, hkinds]; rfl
  exact reports_nextStatement helse depth (((buildsStatements _).statements _).quiet _ hclean).1

end ReadM

open ReadM (run_statements_joined run_statements_of_ended)

namespace SyntaxTree

def size (tree : SyntaxTree) : Nat := (Statement.listIds tree.statements).length

/-- What reading a text comes to whose tokens are in order: the reader starts at `r` and ends at
`r'`. -/
structure ReadBy (source : String) (kinds : List TokenKind) (r r' : Reader) : Prop where
  ahead : r.kinds = kinds ++ [.endOfFile]
  nextId : r.nextId = 0
  clean : r.diagnostics = #[]
  run : (ReadM.statements (fun _ => false) (16 * (kinds.length + 2))).run r =
    ((read source).tree.statements, r')
  diagnostics : (read source).diagnostics = r'.diagnostics.toList

theorem exists_readBy {source : String} {kinds : List TokenKind} (h : Lexes source.toList kinds) :
    ∃ r r', ReadBy source kinds r r' := by
  obtain ⟨hclean, hkinds⟩ := h.tokenized
  have hproper : (tokenize source).tokens.filter (fun t => !t.kind.isInvalid) =
      (tokenize source).tokens := by
    refine List.filter_eq_self.mpr fun token htoken => ?_
    have hkind : token.kind ∈ kinds ++ [.endOfFile] := hkinds ▸ List.mem_map_of_mem htoken
    obtain hin | hend := List.mem_append.mp hkind
    · have hisProper := h.isProper token.kind hin
      simp only [TokenKind.isProper, Bool.and_eq_true] at hisProper
      exact hisProper.2
    · rw [List.mem_singleton.mp hend]
      rfl
  have hlength : (tokenize source).tokens.length = kinds.length + 1 := by
    simpa using congrArg List.length hkinds
  refine ⟨{ ahead := (tokenize source).tokens },
    ((ReadM.statements (fun _ => false) (16 * (kinds.length + 2))).run
      { ahead := (tokenize source).tokens }).2, hkinds, rfl, rfl, ?_, ?_⟩
  · simp only [read, ofTokens, hproper, hlength]
    rfl
  · simp only [read, ofTokens, hproper, hlength, hclean, List.nil_append]
    rfl

namespace ReadBy

variable {source : String} {kinds : List TokenKind} {r r' : Reader}

theorem numbers (h : ReadBy source kinds r r') :
    Statement.listIds (read source).tree.statements = List.range r'.nextId := by
  have hbuilds :=
    ((ReadM.buildsStatements (16 * (kinds.length + 2))).statements (fun _ => false) r).result
  rw [h.run] at hbuilds
  exact hbuilds.listIds h.nextId

theorem nextId_eq (h : ReadBy source kinds r r') : r'.nextId = (read source).tree.size := by
  rw [size, h.numbers, List.length_range]

theorem lt_size (h : ReadBy source kinds r r') :
    ∀ id ∈ Statement.listIds (read source).tree.statements, id < (read source).tree.size := by
  intro id hid
  rw [h.numbers] at hid
  rw [← h.nextId_eq]
  exact List.mem_range.mp hid

theorem clean_iff (h : ReadBy source kinds r r') :
    (read source).diagnostics = [] ↔ r'.diagnostics = #[] := by
  rw [h.diagnostics, Array.toList_eq_nil_iff]

theorem head_ne_else (h : ReadBy source kinds r r') (hclean : r'.diagnostics = #[]) :
    (kinds ++ [TokenKind.endOfFile]).head? ≠ some (.keyword .elseK) := by
  rw [← h.ahead]
  refine @ReadM.head_ne_else r (16 * (kinds.length + 2)) (by omega) ?_
  rw [h.run]
  exact hclean

theorem joins (h : ReadBy source kinds r r') (hclean : r'.diagnostics = #[])
    (hlex : Lexes source.toList kinds) {after : List TokenKind} (hafter : Follows after) {s : Reader}
    {depth : Nat} (hkinds : s.kinds = kinds ++ after) (hs : s.diagnostics = #[])
    (hdepth : 16 * (kinds.length + after.length + 1) ≤ depth) :
    ∃ body t rest, (t.kinds = after ∨ t.kinds = after.tail) ∧ t.diagnostics = #[] ∧
      t.nextId = s.nextId + (read source).tree.size ∧ 16 * (t.kinds.length + 1) ≤ rest ∧
      Statement.ListLike (Apart s.nextId (read source).tree.size) (read source).tree.statements
        body ∧
      (ReadM.statements (fun _ => false) depth).run s =
        (body ++ ((ReadM.statements (fun _ => false) rest).run t).1,
          ((ReadM.statements (fun _ => false) rest).run t).2) := by
  have hbeside : ReadM.Beside s.nextId kinds after r s := by
    refine ⟨h.ahead, hkinds, fun kind hkind => ?_, by rw [h.nextId, Nat.zero_add], hs⟩
    have hproper := hlex.isProper kind hkind
    simp only [TokenKind.isProper, Bool.and_eq_true, Bool.not_eq_true'] at hproper
    exact hproper.1
  have hrun := run_statements_joined hafter hbeside ⟨Nat.lt_succ_self _, .inl rfl⟩ (Nat.le_refl _)
    hdepth (by rw [h.run]; exact hclean)
  rw [h.run] at hrun
  obtain ⟨body, t, rest, ht, htclean, hnext, hrest, hbody, hjoined⟩ := hrun
  refine ⟨body, t, rest, ht, htclean, ?_, hrest, ?_, hjoined⟩
  · rw [hnext, h.nextId_eq, Nat.add_comm]
  · exact Statement.listLike_of_bare _ _ hbody fun id hid => ⟨rfl, h.lt_size id hid⟩

end ReadBy

theorem read_joined {first second : String} (hfirst : (read first).diagnostics = [])
    (hsecond : (read second).diagnostics = []) :
    (read (first ++ "\n;\n" ++ second)).diagnostics = [] ∧
    ∃ body body', (read (first ++ "\n;\n" ++ second)).tree.statements = body ++ body' ∧
      Statement.ListLike (Apart 0 (read first).tree.size) (read first).tree.statements body ∧
      Statement.ListLike (Apart (read first).tree.size (read second).tree.size)
        (read second).tree.statements body' := by
  obtain ⟨kinds, hlex⟩ := lexes_of_tokenize (List.append_eq_nil_iff.mp hfirst).1
  obtain ⟨kinds', hlex'⟩ := lexes_of_tokenize (List.append_eq_nil_iff.mp hsecond).1
  obtain ⟨r, last, hread⟩ := exists_readBy hlex
  obtain ⟨r', last', hread'⟩ := exists_readBy hlex'
  obtain ⟨s, final, hjoined⟩ := exists_readBy (hlex.joined hlex')
  have hclean := hread.clean_iff.mp hfirst
  have hclean' := hread'.clean_iff.mp hsecond
  have hahead : s.kinds = kinds ++ .symbol .semicolon :: (kinds' ++ [.endOfFile]) := by
    rw [hjoined.ahead, List.append_assoc, List.cons_append]
  have hdepth : 16 * (kinds.length +
      (TokenKind.symbol .semicolon :: (kinds' ++ [.endOfFile])).length + 1) ≤
        16 * ((kinds ++ TokenKind.symbol .semicolon :: kinds').length + 2) := by
    simp only [List.length_append, List.length_cons, List.length_nil]
    omega
  obtain ⟨body, t, rest, ht, htclean, htnext, hrest, hbody, hrun⟩ :=
    hread.joins hclean hlex (.more (hread'.head_ne_else hclean')) hahead hjoined.clean hdepth
  rw [hjoined.nextId, Nat.zero_add] at htnext
  rw [hjoined.nextId] at hbody
  obtain ⟨u, hu, huclean, hunext, hroom, hskip⟩ := ReadM.exists_run_behind_semicolon ht hrest
  have hroom' : 16 * (kinds'.length + [TokenKind.endOfFile].length + 1) ≤ rest := by
    rwa [List.length_append] at hroom
  obtain ⟨body', v, rest', hv, hvclean, -, -, hbody', hrun'⟩ :=
    hread'.joins hclean' hlex' .nothing hu (huclean.trans htclean) hroom'
  have hend : (ReadM.tokenAhead v).kind = .endOfFile := by
    obtain hv | hv := hv <;> rw [ReadM.kind_tokenAhead, hv] <;> rfl
  rw [run_statements_of_ended hend, List.append_nil] at hrun'
  rw [hskip, hrun', hjoined.run] at hrun
  obtain ⟨htree, rfl⟩ := Prod.mk.inj hrun
  refine ⟨hjoined.clean_iff.mpr hvclean, body, body', htree, hbody, ?_⟩
  rw [hunext, htnext] at hbody'
  exact hbody'

end SyntaxTree

end StackScript
