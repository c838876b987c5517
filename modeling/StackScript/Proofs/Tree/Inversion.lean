import StackScript.Proofs.Tree.ReadBack

set_option autoImplicit false

/-!
# Programs that are read back

Main statement: `reading_inverts_writing`. Nothing is reported about the tokens of a canonical tree,
and the tree that is read from them is that tree, but for the places and numbers of its nodes.
-/
namespace StackScript

abbrev Statement.Same : Statement → Statement → Prop := Statement.Like fun _ _ => True

/-- The same tree, but for places and numbers. -/
def SyntaxTree.Same (tree tree' : SyntaxTree) : Prop :=
  Statement.ListLike (fun _ _ => True) tree.statements tree'.statements

namespace ReadM

variable {α β : Type} {kinds after rest : List TokenKind} {T : β → Prop} {depth : Nat}

namespace Takes

theorem get {f : Reader → ReadM β}
    (h : ∀ r : Reader, r.ahead.length = kinds.length → Takes kinds (f r) T after) :
    Takes kinds (MonadState.get >>= f) T after := by
  intro r hr
  exact h r (by rw [← hr, Reader.kinds, List.length_map]) r hr

theorem eatKeyword {k : Keyword} {f : Bool → ReadM β} (hf : Takes kinds (f true) T after) :
    Takes (.keyword k :: kinds) (ReadM.eatKeyword k >>= f) T after :=
  .eatIf rfl (by simp [isKeyword]) hf

theorem eatKeywordNot {k : Keyword} {f : Bool → ReadM β}
    (h : isKeyword k (kinds.head?.getD .endOfFile) = false) (hf : Takes kinds (f false) T after) :
    Takes kinds (ReadM.eatKeyword k >>= f) T after :=
  .eatIfNot h hf

end Takes

theorem text_of_ofWord? {text : String} {word : Keyword}
    (h : TokenKind.ofWord? text = some (.keyword word)) : word.text = text := by
  unfold TokenKind.ofWord? at h
  split at h <;> cases h <;> rfl

theorem takes_typeName (text : String) :
    Takes (typeToken text :: rest) typeName (fun name => name.text = text) rest := by
  unfold typeToken
  split
  · rename_i word hword
    split
    · rename_i htype
      refine .current fun span => ?_
      simp only [TokenKind.isType, htype, if_true]
      exact .skip rfl (.pure (text_of_ofWord? hword))
    · exact .current fun span => .skip rfl (.pure rfl)
  · exact .current fun span => .skip rfl (.pure rfl)

def endsType : TokenKind → Bool
  | .symbol .colon | .symbol .pipe => false
  | _ => true

theorem takes_typeNames (names : List Name) (hdepth : names.length ≤ depth)
    (hrest : endsType (rest.head?.getD .endOfFile) = true) :
    Takes (separatedTail .pipe (names.map fun name => [typeToken name.text]) ++ rest)
      (typeNames depth) (fun names' => names'.map Name.bare = names.map Name.bare) rest := by
  induction names generalizing depth with
  | nil =>
    cases depth with
    | zero => exact .pure rfl
    | succ depth =>
      rw [typeNames]
      exact .eatNot (isSymbol_of_passes hrest rfl) (.pure rfl)
  | cons name others ih =>
    rw [List.length_cons] at hdepth
    obtain ⟨depth, rfl⟩ : ∃ d, depth = d + 1 := ⟨depth - 1, by omega⟩
    rw [typeNames, List.map_cons, separatedTail, separated_cons, List.cons_append, List.append_assoc]
    refine .eat ((takes_typeName name.text).bind fun name' hname => ?_)
    refine (ih (by omega)).bind fun others' hothers => .pure ?_
    rw [List.map_cons, List.map_cons, hothers, Name.bare, hname, Name.bare]

theorem length_le_typeTokens (names : List Name) :
    names.length ≤ (separatedTail .pipe (names.map fun name => [typeToken name.text])).length := by
  induction names with
  | nil => exact Nat.zero_le _
  | cons name names ih =>
    rw [List.map_cons, separatedTail, List.length_cons, List.length_cons, separated_cons,
      List.length_append]
    omega

theorem takes_typeRef {type : TypeRef} (h : type.Canonical) (hdepth : type.tokens.length ≤ depth)
    (hrest : endsType (rest.head?.getD .endOfFile) = true) :
    Takes (type.tokens ++ rest) (typeRef depth) (fun type' => type'.bare = type.bare) rest := by
  unfold typeRef
  cases type with
  | named name =>
    refine (takes_typeName name.text).bind fun first hfirst => ?_
    refine (takes_typeNames [] (Nat.zero_le _) hrest).bind fun others hothers => ?_
    rw [List.map_eq_nil_iff.mp hothers]
    exact .pure (by simp only [TypeRef.bare, Name.bare, hfirst])
  | union members span =>
    match members, h with
    | name :: next :: names, _ =>
      have hlength := length_le_typeTokens (next :: names)
      rw [TypeRef.tokens, List.map_cons, separated_cons] at hdepth ⊢
      rw [List.length_append] at hdepth
      rw [List.append_assoc]
      refine (takes_typeName name.text).bind fun first hfirst => ?_
      refine (takes_typeNames (next :: names) (by omega) hrest).bind fun others hothers => ?_
      cases others with
      | nil => cases hothers
      | cons other others =>
        rw [List.getLast?_cons]
        refine .pure ?_
        simp only [TypeRef.bare, List.map_cons (a := first), List.map_cons (a := name), hothers,
          Name.bare, hfirst]

theorem takes_annotated {type : Option TypeRef} (h : ∀ t ∈ type, t.Canonical)
    (hdepth : (annotationTokens type).length ≤ depth)
    (hrest : endsType (rest.head?.getD .endOfFile) = true) :
    Takes (annotationTokens type ++ rest) (annotated depth)
      (fun type' => type.map TypeRef.bare = type'.map TypeRef.bare) rest := by
  unfold annotated
  cases type with
  | none => exact .eatNot (isSymbol_of_passes hrest rfl) (.pure rfl)
  | some type =>
    rw [annotationTokens, List.length_cons] at hdepth
    refine .eat ((takes_typeRef (h type rfl) (by omega) hrest).bind fun type' htype => .pure ?_)
    rw [Option.map_some, Option.map_some, htype]

theorem takes_parameters {parameters : List Parameter}
    (h : ∀ parameter ∈ parameters, ∀ t ∈ parameter.type, t.Canonical)
    (hdepth : (separated .comma (parameters.map Parameter.tokens)).length < depth) :
    Takes (separated .comma (parameters.map Parameter.tokens) ++ .symbol .rightParen :: rest)
      (ReadM.parameters depth)
      (fun parameters' => parameters.map Parameter.bare = parameters'.map Parameter.bare)
      (.symbol .rightParen :: rest) := by
  induction parameters generalizing depth with
  | nil =>
    obtain ⟨depth, rfl⟩ : ∃ d, depth = d + 1 := ⟨depth - 1, by omega⟩
    rw [ReadM.parameters]
    exact .check (.atEnd (.pure rfl))
  | cons parameter others ih =>
    obtain ⟨depth, rfl⟩ : ∃ d, depth = d + 1 := ⟨depth - 1, by omega⟩
    rw [List.map_cons, separated_cons, Parameter.tokens] at hdepth ⊢
    simp only [List.length_append, List.length_cons] at hdepth
    rw [List.append_assoc, List.cons_append, ReadM.parameters]
    refine .check (.atEnd (.get fun r hr => ?_))
    refine .expectName fun name hname => ?_
    have hends : endsType ((separatedTail .comma (others.map Parameter.tokens) ++
        .symbol .rightParen :: rest).head?.getD .endOfFile) = true := by cases others <;> rfl
    refine (takes_annotated (h parameter List.mem_cons_self) (by omega) hends).bind
      fun type htype => ?_
    have hbare : parameter.bare = (⟨name, type⟩ : Parameter).bare := by
      simp only [Parameter.bare, Name.bare, hname, htype]
    cases others with
    | nil =>
      refine .eatNot rfl (.get fun r' hr' => ?_)
      have hmoved : (r'.ahead.length == r.ahead.length) = false := by
        simp only [List.map_nil, separatedTail, List.nil_append, List.length_cons,
          List.length_append] at hr hr'
        rw [beq_eq_false_iff_ne]
        omega
      rw [hmoved]
      exact .pure (congrArg (· :: []) hbare)
    | cons next others =>
      rw [List.map_cons] at ih hdepth ⊢
      simp only [separatedTail, List.length_cons] at hdepth
      refine .eat ((ih (fun p hp => h p (List.mem_cons_of_mem _ hp)) (by omega)).bind
        fun others' hothers => .pure ?_)
      change parameter.bare :: _ = Parameter.bare _ :: _
      rw [hbare, hothers]

def begins : TokenKind → Bool
  | .keyword .letK | .keyword .fnK | .keyword .ifK | .keyword .returnK => true
  | kind => opens kind

theorem begins_of_opens {kind : TokenKind} (h : opens kind = true) : begins kind = true := by
  unfold begins
  split
  iterate 4 rfl
  exact h

theorem isElse_of_begins {kind : TokenKind} (h : begins kind = true) :
    isKeyword .elseK kind = false := by
  cases kind with
  | keyword word => cases word <;> first | rfl | cases h
  | _ => rfl

theorem exists_beginning {s : Statement} (h : s.Canonical) :
    ∃ kind rest, s.tokens = kind :: rest ∧ begins kind = true := by
  cases h with
  | expression node inside unbraced =>
    obtain ⟨kind, tail, htokens, hopens, -⟩ := exists_head inside
    exact ⟨kind, _, by rw [Statement.tokens, htokens, List.cons_append], begins_of_opens hopens⟩
  | letDecl => exact ⟨.keyword .letK, _, rfl, rfl⟩
  | fnDecl => exact ⟨.keyword .fnK, _, rfl, rfl⟩
  | block => exact ⟨.symbol .leftBrace, _, rfl, rfl⟩
  | branch => exact ⟨.keyword .ifK, _, Statement.tokens_branch _ _ _ _, rfl⟩
  | giveBack => exact ⟨.keyword .returnK, _, rfl, rfl⟩

theorem not_colon_of_goesOn? {kind : TokenKind} {n : Nat} (h : goesOn? kind = some n) :
    isSymbol .colon kind = false :=
  isSymbol_of_passes (p := fun kind => (goesOn? kind).isSome) (by rw [h]; rfl) rfl

/-- No expression has a colon behind its first token, so a block is never taken for an object. -/
theorem second_ne_colon {e : Expression} (h : e.Canonical) {rest : List TokenKind}
    (hrest : isSymbol .colon (rest.head?.getD .endOfFile) = false) :
    isSymbol .colon ((e.tokens ++ rest).tail.head?.getD .endOfFile) = false := by
  induction h generalizing rest with
  | literal node value => exact hrest
  | name node text => exact hrest
  | paren node inside _ =>
    rw [Expression.tokens, List.cons_append, List.cons_append, List.tail_cons, List.append_assoc]
    exact isSymbol_of_passes (opens_head inside _) rfl
  | unary node operator inside tight _ =>
    rw [Expression.tokens, List.cons_append, List.tail_cons]
    exact isSymbol_of_passes (opens_head inside _) rfl
  | binary node leftward first second tightFirst tightSecond ih _ =>
    rw [Expression.tokens, List.append_assoc]
    exact ih (not_colon_of_goesOn? (goesOn?_symbol _))
  | power node first second tightFirst tightSecond ih _ =>
    rw [Expression.tokens, List.append_assoc]
    exact ih rfl
  | assign node spelled first second tight ih _ =>
    obtain ⟨s, hs⟩ := Option.isSome_iff_exists.mp spelled
    rw [Expression.tokens, List.append_assoc, List.append_assoc, hs]
    exact ih (not_colon_of_goesOn? (goesOn?_assignmentSymbol hs))
  | @object node properties keyed keys values _ _ =>
    rw [Expression.tokens, List.cons_append, List.cons_append, List.tail_cons, List.append_assoc]
    cases properties with
    | nil => rfl
    | cons entry others =>
      obtain ⟨kind, tail, hkind, hhead⟩ := exists_keyHead (keys entry List.mem_cons_self)
      rw [Expression.entryTokens_cons, separated_cons, hkind]
      obtain hopens | rfl := hhead
      · exact isSymbol_of_passes hopens rfl
      · rfl
  | call node first others tight ih _ =>
    rw [Expression.tokens, List.append_assoc, List.append_assoc]
    exact ih rfl
  | member node label inside tight ih =>
    rw [Expression.tokens, List.append_assoc]
    exact ih rfl
  | element node first second tight ih _ =>
    rw [Expression.tokens, List.append_assoc, List.append_assoc]
    exact ih rfl

theorem begins_head {body : List Statement} (h : ∀ s ∈ body, s.Canonical)
    {p : TokenKind → Bool} (hp : ∀ kind, begins kind = true → p kind = true)
    (hrest : p (rest.head?.getD .endOfFile) = true) :
    p ((Statement.listTokens body ++ rest).head?.getD .endOfFile) = true := by
  cases body with
  | nil => exact hrest
  | cons s others =>
    obtain ⟨kind, tail, htokens, hbegins⟩ := exists_beginning (h s List.mem_cons_self)
    rw [Statement.listTokens, htokens]
    exact hp kind hbegins

theorem statement_second_ne_colon {s : Statement} (h : s.Canonical) (rest : List TokenKind) :
    isSymbol .colon ((s.tokens ++ rest).tail.head?.getD .endOfFile) = false := by
  cases h with
  | expression node inside unbraced =>
    rw [Statement.tokens, List.append_assoc]
    exact second_ne_colon inside rfl
  | letDecl node isMutable name annotated inside => cases isMutable <;> rfl
  | fnDecl => rfl
  | @block node body inside =>
    rw [Statement.tokens, List.cons_append, List.cons_append, List.tail_cons, List.append_assoc]
    have hnot : ∀ kind, begins kind = true → (!isSymbol .colon kind) = true := by
      intro kind hkind
      rw [isSymbol_of_passes hkind rfl]
      rfl
    have hhead : (!isSymbol .colon ((Statement.listTokens body ++
        ([TokenKind.symbol .rightBrace] ++ rest)).head?.getD .endOfFile)) = true :=
      begins_head inside hnot rfl
    rwa [Bool.not_eq_true'] at hhead
  | branch node tested taken braced other chained =>
    rw [Statement.tokens_branch, List.cons_append, List.tail_cons, List.append_assoc]
    exact isSymbol_of_passes (opens_head tested _) rfl
  | @giveBack node value inside =>
    cases value with
    | none => rfl
    | some e =>
      rw [Statement.tokens, List.cons_append, List.cons_append, List.tail_cons, optionalTokens,
        List.nil_append, List.append_assoc]
      exact isSymbol_of_passes (opens_head (inside e rfl) _) rfl

/-- The statement is read. Behind a conditional no `else` may follow, which would belong to it. -/
def Stated (s : Statement) : Prop :=
  ∀ ⦃depth : Nat⦄ ⦃rest : List TokenKind⦄, 8 * s.tokens.length ≤ depth →
    (s.isBranch → isKeyword .elseK (rest.head?.getD .endOfFile) = false) →
    Takes (s.tokens ++ rest) (statement depth) s.Same rest

theorem takes_endOfStatement {s s' : Statement} (h : s.Same s') :
    Takes (.symbol .semicolon :: rest) (endOfStatement s') s.Same rest :=
  .eat (.pure h)

theorem stated_expression (node : Node) {e : Expression} (h : e.Canonical)
    (hbrace : e.tokens.head? ≠ some (.symbol .leftBrace)) : Stated (.expression node e) := by
  intro depth rest hdepth _
  simp only [Statement.tokens, List.length_append, List.length_cons, List.length_nil] at hdepth
  obtain ⟨depth, rfl⟩ : ∃ d, depth = d + 1 := ⟨depth - 1, by omega⟩
  have hstatement : Takes (e.tokens ++ .symbol .semicolon :: rest)
      (expressionStatement depth >>= endOfStatement) (Statement.expression node e).Same rest := by
    rw [expressionStatement, bind_assoc]
    refine ((readable_of_canonical h).whole (by omega) (stops_of_none rfl)).bind fun e' he' => ?_
    rw [bind_assoc]
    exact .node fun node' => takes_endOfStatement (.expression trivial he')
  obtain ⟨kind, tail, htokens, hopens, -⟩ := exists_head h
  have hhead : (e.tokens ++ .symbol .semicolon :: rest).head?.getD .endOfFile = kind := by
    rw [htokens]
    rfl
  rw [Statement.tokens, List.append_assoc, List.cons_append, List.nil_append, statement]
  refine .kind ?_
  rw [hhead]
  split
  iterate 4 cases hopens
  · rw [htokens] at hbrace
    exact absurd rfl hbrace
  · exact hstatement

theorem takes_initial {initial : Option Expression} {f : Option Expression → ReadM β}
    (h : ∀ e ∈ initial, e.Canonical)
    (hdepth : 8 * (optionalTokens [.symbol .equal] initial).length ≤ depth)
    (hf : ∀ initial', Statement.OptionalLike (fun _ _ => True) initial initial' →
      Takes (.symbol .semicolon :: rest) (f initial') T after) :
    Takes (optionalTokens [.symbol .equal] initial ++ .symbol .semicolon :: rest)
      (do
        let initial ← if ← eat .equal then some <$> expression depth else pure none
        f initial) T after := by
  cases initial with
  | none => exact .eatNot rfl (hf none .none)
  | some e =>
    simp only [optionalTokens, List.length_append, List.length_cons, List.length_nil] at hdepth
    refine .eat ?_
    have hread : Takes (e.tokens ++ .symbol .semicolon :: rest) (expression depth) e.Same
        (.symbol .semicolon :: rest) :=
      (readable_of_canonical (h e rfl)).whole (by omega) (stops_of_none rfl)
    exact (hread.map fun e' he' => .some he').bind hf

theorem takes_mutability (isMutable : Bool) {f : Bool → ReadM β}
    (hkinds : isKeyword .mutK (kinds.head?.getD .endOfFile) = false)
    (hf : Takes kinds (f isMutable) T after) :
    Takes ((if isMutable then [.keyword .mutK] else []) ++ kinds) (eatKeyword .mutK >>= f) T
      after := by
  cases isMutable with
  | false => exact .eatKeywordNot hkinds hf
  | true => exact .eatKeyword hf

theorem stated_letDecl (node : Node) (isMutable : Bool) (name : Name) {type : Option TypeRef}
    {initial : Option Expression} (htype : ∀ t ∈ type, t.Canonical)
    (hinitial : ∀ e ∈ initial, e.Canonical) :
    Stated (.letDecl node isMutable name type initial) := by
  intro depth rest hdepth _
  simp only [Statement.tokens, List.length_append, List.length_cons, List.length_nil] at hdepth
  obtain ⟨depth, rfl⟩ : ∃ d, depth = d + 1 := ⟨depth - 1, by omega⟩
  have hends : endsType ((optionalTokens [.symbol .equal] initial ++
      .symbol .semicolon :: rest).head?.getD .endOfFile) = true := by cases initial <;> rfl
  have hlet : Takes (.keyword .letK :: ((if isMutable then [.keyword .mutK] else []) ++
        .identifier name.text :: (annotationTokens type ++
          (optionalTokens [.symbol .equal] initial ++ .symbol .semicolon :: rest))))
      (letDeclaration depth) (Statement.letDecl node isMutable name type initial).Same
      (.symbol .semicolon :: rest) := by
    refine .advance rfl fun start => takes_mutability isMutable rfl ?_
    refine .expectName fun name' hname => ?_
    refine (takes_annotated htype (by omega) hends).bind fun type' htype' => ?_
    refine takes_initial hinitial (by omega) fun initial' hinitial' => ?_
    exact .nodeFrom fun node' => .pure (.letDecl trivial hname.symm htype' hinitial')
  simp only [Statement.tokens, List.cons_append, List.append_assoc, List.nil_append]
  rw [statement]
  exact .kind (hlet.bind fun s hs => takes_endOfStatement hs)

theorem stated_giveBack (node : Node) {value : Option Expression}
    (hvalue : ∀ e ∈ value, e.Canonical) : Stated (.giveBack node value) := by
  intro depth rest hdepth _
  simp only [Statement.tokens, List.length_append, List.length_cons, List.length_nil] at hdepth
  obtain ⟨depth, rfl⟩ : ∃ d, depth = d + 1 := ⟨depth - 1, by omega⟩
  have hreturn : Takes (.keyword .returnK :: (optionalTokens [] value ++ .symbol .semicolon :: rest))
      (returnStatement depth) (Statement.giveBack node value).Same (.symbol .semicolon :: rest) := by
    refine .advance rfl fun start => .check (.check (.atEnd ?_))
    cases value with
    | none =>
      simp only [optionalTokens, List.nil_append, List.head?_cons, Option.getD_some,
        isSymbol, BEq.rfl, Bool.true_or, if_true, pure_bind]
      exact .nodeFrom fun node' => .pure (.giveBack trivial .none)
    | some e =>
      have hopens := opens_head (hvalue e rfl) (.symbol .semicolon :: rest)
      simp only [optionalTokens, List.nil_append] at hdepth ⊢
      simp only [isSymbol_of_passes (s := .semicolon) hopens rfl,
        isSymbol_of_passes (s := .rightBrace) hopens rfl, isEndOfFile_of_passes hopens rfl,
        Bool.or_self, Bool.false_eq_true, if_false]
      have hread : Takes (e.tokens ++ .symbol .semicolon :: rest) (expression depth) e.Same
          (.symbol .semicolon :: rest) :=
        (readable_of_canonical (hvalue e rfl)).whole (by omega) (stops_of_none rfl)
      refine (hread.map (f := some) (T := Statement.OptionalLike (fun _ _ => True) (some e))
        fun e' he' => .some he').bind fun value' hvalue' => ?_
      exact .nodeFrom fun node' => .pure (.giveBack trivial hvalue')
  simp only [Statement.tokens, List.cons_append, List.append_assoc, List.nil_append]
  rw [statement]
  exact .kind (hreturn.bind fun s hs => takes_endOfStatement hs)

theorem takes_semicolons {f : Unit → ReadM β}
    (h : isSymbol .semicolon (kinds.head?.getD .endOfFile) = false) (hf : Takes kinds (f ()) T after) :
    Takes kinds (semicolons depth >>= f) T after := by
  cases depth with
  | zero => exact hf
  | succ depth =>
    rw [semicolons, bind_assoc]
    exact .eatNot h hf

structure EndsList (isEnd : TokenKind → Bool) (rest : List TokenKind) : Prop where
  ends : (isEnd (rest.head?.getD .endOfFile) || (rest.head?.getD .endOfFile).isEndOfFile) = true
  noSemicolon : isSymbol .semicolon (rest.head?.getD .endOfFile) = false
  noElse : isKeyword .elseK (rest.head?.getD .endOfFile) = false

theorem takes_statements {isEnd : TokenKind → Bool} {body : List Statement}
    (hinside : ∀ kind, begins kind = true → isEnd kind = false)
    (hcanonical : ∀ s ∈ body, s.Canonical) (hstated : ∀ s ∈ body, Stated s)
    (hends : EndsList isEnd rest) (hdepth : 8 * (Statement.listTokens body).length < depth) :
    Takes (Statement.listTokens body ++ rest) (statements isEnd depth)
      (Statement.ListLike (fun _ _ => True) body) rest := by
  induction body generalizing depth with
  | nil =>
    obtain ⟨depth, rfl⟩ : ∃ d, depth = d + 1 := ⟨depth - 1, by omega⟩
    rw [statements]
    refine takes_semicolons hends.noSemicolon (.kind (.atEnd ?_))
    rw [Statement.listTokens, List.nil_append, hends.ends]
    exact .pure .nil
  | cons s others ih =>
    obtain ⟨depth, rfl⟩ : ∃ d, depth = d + 1 := ⟨depth - 1, by omega⟩
    obtain ⟨kind, tail, htokens, hbegins⟩ := exists_beginning (hcanonical s List.mem_cons_self)
    have hhead : (s.tokens ++ (Statement.listTokens others ++ rest)).head?.getD .endOfFile = kind := by
      rw [htokens]
      rfl
    have hpos : 0 < s.tokens.length := by rw [htokens]; exact Nat.succ_pos _
    -- the next statement starts with no `else`, and no list ends before one
    have helse : isKeyword .elseK ((Statement.listTokens others ++ rest).head?.getD .endOfFile) =
        false := by
      cases others with
      | nil => exact hends.noElse
      | cons next others =>
        obtain ⟨kind, tail, htokens, hbegins⟩ := exists_beginning
          (hcanonical next (List.mem_cons_of_mem _ List.mem_cons_self))
        rw [Statement.listTokens, htokens]
        exact isElse_of_begins hbegins
    rw [Statement.listTokens] at hdepth ⊢
    rw [List.length_append] at hdepth
    rw [List.append_assoc, statements]
    refine takes_semicolons (by rw [hhead]; exact isSymbol_of_passes hbegins rfl) (.kind (.atEnd ?_))
    rw [hhead, hinside kind hbegins, isEndOfFile_of_passes hbegins rfl]
    refine .get fun r hr => ?_
    refine (hstated s List.mem_cons_self (by omega) fun _ => helse).bind fun s' hs' => ?_
    refine .get fun r' hr' => ?_
    have hmoved : (r'.ahead.length == r.ahead.length) = false := by
      rw [List.length_append] at hr
      rw [beq_eq_false_iff_ne]
      omega
    rw [hmoved]
    refine (ih (fun s hs => hcanonical s (List.mem_cons_of_mem _ hs))
      (fun s hs => hstated s (List.mem_cons_of_mem _ hs)) (by omega)).bind fun others' hothers => ?_
    exact .pure (.cons hs' hothers)

theorem takes_block {body : List Statement} (hcanonical : ∀ s ∈ body, s.Canonical)
    (hstated : ∀ s ∈ body, Stated s) (hdepth : 8 * (Statement.listTokens body).length + 1 < depth) :
    Takes (.symbol .leftBrace :: (Statement.listTokens body ++ .symbol .rightBrace :: rest))
      (block depth) (Statement.ListLike (fun _ _ => True) body) rest := by
  obtain ⟨depth, rfl⟩ : ∃ d, depth = d + 1 := ⟨depth - 1, by omega⟩
  have hinside : ∀ kind, begins kind = true → isSymbol .rightBrace kind = false :=
    fun kind hkind => isSymbol_of_passes hkind rfl
  rw [block]
  refine .expect ?_
  refine (takes_statements hinside hcanonical hstated ⟨rfl, rfl, rfl⟩ (by omega)).bind
    fun body' hbody => ?_
  exact .expect (.pure hbody)

theorem takes_objectAhead {body : List Statement} (h : ∀ s ∈ body, s.Canonical) {f : Bool → ReadM β}
    (hf : Takes (.symbol .leftBrace :: (Statement.listTokens body ++ .symbol .rightBrace :: rest))
      (f false) T after) :
    Takes (.symbol .leftBrace :: (Statement.listTokens body ++ .symbol .rightBrace :: rest))
      (objectAhead >>= f) T after := by
  rw [objectAhead, bind_assoc]
  refine .kindAt ?_
  rw [List.getElem?_cons_succ, ← List.head?_eq_getElem?]
  cases body with
  | nil => exact hf
  | cons s others =>
    obtain ⟨kind, tail, htokens, hbegins⟩ := exists_beginning (h s List.mem_cons_self)
    have hhead : (Statement.listTokens (s :: others) ++ .symbol .rightBrace :: rest).head?.getD
        .endOfFile = kind := by
      rw [Statement.listTokens, htokens]
      rfl
    have hcolon : Takes (.symbol .leftBrace :: (Statement.listTokens (s :: others) ++
        .symbol .rightBrace :: rest)) (kindAt 2 >>= fun kind => f (isSymbol .colon kind)) T after := by
      refine .kindAt ?_
      rw [List.getElem?_cons_succ, ← List.head?_tail, Statement.listTokens, List.append_assoc,
        statement_second_ne_colon (h s List.mem_cons_self), ← List.append_assoc,
        ← Statement.listTokens]
      exact hf
    rw [hhead]
    split
    · cases hbegins
    iterate 6 exact hcolon
    · exact hf

theorem stated_block (node : Node) {body : List Statement} (hcanonical : ∀ s ∈ body, s.Canonical)
    (hstated : ∀ s ∈ body, Stated s) : Stated (.block node body) := by
  intro depth rest hdepth _
  simp only [Statement.tokens, List.length_append, List.length_cons, List.length_nil] at hdepth
  obtain ⟨depth, rfl⟩ : ∃ d, depth = d + 1 := ⟨depth - 1, by omega⟩
  simp only [Statement.tokens, List.cons_append, List.append_assoc, List.nil_append]
  rw [statement]
  refine .kind (takes_objectAhead hcanonical (.current fun start => ?_))
  refine (takes_block hcanonical hstated (by omega)).bind fun body' hbody => ?_
  exact .nodeFrom fun node' => .pure (.block trivial hbody)

theorem stated_fnDecl (node : Node) (name : Name) {parameters : List Parameter}
    {result : Option TypeRef} {body : List Statement}
    (htaken : ∀ parameter ∈ parameters, ∀ t ∈ parameter.type, t.Canonical)
    (hresult : ∀ t ∈ result, t.Canonical) (hcanonical : ∀ s ∈ body, s.Canonical)
    (hstated : ∀ s ∈ body, Stated s) : Stated (.fnDecl node name parameters result body) := by
  intro depth rest hdepth _
  simp only [Statement.tokens, List.length_append, List.length_cons, List.length_nil] at hdepth
  obtain ⟨depth, rfl⟩ : ∃ d, depth = d + 2 := ⟨depth - 2, by omega⟩
  have hfn : Takes (.keyword .fnK :: .identifier name.text :: .symbol .leftParen ::
        (separated .comma (parameters.map Parameter.tokens) ++ .symbol .rightParen ::
          (annotationTokens result ++ .symbol .leftBrace ::
            (Statement.listTokens body ++ .symbol .rightBrace :: .symbol .semicolon :: rest))))
      (fnDeclaration (depth + 1)) (Statement.fnDecl node name parameters result body).Same
      (.symbol .semicolon :: rest) := by
    rw [fnDeclaration]
    refine .advance rfl fun start => .expectName fun name' hname => .eat ?_
    refine (takes_parameters htaken (by omega)).bind fun parameters' hparameters => .expect ?_
    rw [pure_bind]
    refine (takes_annotated hresult (by omega) rfl).bind fun result' hresult' => ?_
    refine .check (.check ?_)
    refine (takes_block hcanonical hstated (by omega)).bind fun body' hbody => ?_
    exact .nodeFrom fun node' => .pure (.fnDecl trivial hname.symm hparameters hresult' hbody)
  simp only [Statement.tokens, List.cons_append, List.append_assoc, List.nil_append]
  rw [statement]
  exact .kind (hfn.bind fun s hs => takes_endOfStatement hs)

theorem stated_branch (node : Node) {condition : Expression} {body : Statement}
    {otherwise : Option Statement} (hcondition : condition.Canonical) (hbody : Stated body)
    (hblock : body.isBlock) (hotherwise : ∀ s ∈ otherwise, Stated s) :
    Stated (.branch node condition body otherwise) := by
  intro depth rest hdepth helse
  rw [Statement.tokens_branch] at hdepth ⊢
  simp only [List.length_append, List.length_cons] at hdepth
  obtain ⟨depth, rfl⟩ : ∃ d, depth = d + 2 := ⟨depth - 2, by omega⟩
  have hstops : Stops 0 (body.tokens ++ (Statement.elseTokens otherwise ++ rest)) := by
    cases body with
    | block node body => exact stops_of_none rfl
    | _ => cases hblock
  have hplain : body.isBranch = false := by
    cases body with
    | block node body => rfl
    | _ => cases hblock
  simp only [List.cons_append, List.append_assoc]
  rw [statement]
  refine .kind ?_
  rw [branch]
  refine .advance rfl fun start => ?_
  refine ((readable_of_canonical hcondition).whole (by omega) hstops).bind
    fun condition' hcondition' => ?_
  refine (hbody (by omega) (by simp [hplain])).bind fun body' hbody' => ?_
  cases otherwise with
  | none =>
    refine .eatKeywordNot (helse rfl) ?_
    simp only [Bool.false_eq_true, if_false, pure_bind]
    exact .nodeFrom fun node' => .pure (.branch trivial hcondition' hbody')
  | some other =>
    simp only [Statement.elseTokens, List.length_cons] at hdepth
    have hother : Takes (other.tokens ++ rest) (statement depth) other.Same rest :=
      hotherwise other rfl (by omega) fun _ => helse rfl
    refine .eatKeyword ?_
    refine (hother.map (f := some) (T := fun s => ∃ other', s = some other' ∧ other.Same other')
      fun other' hother' => ⟨other', rfl, hother'⟩).bind ?_
    rintro _ ⟨other', rfl, hother'⟩
    exact .nodeFrom fun node' => .pure (.branchElse trivial hcondition' hbody' hother')

theorem stated_of_canonical {s : Statement} (h : s.Canonical) : Stated s := by
  induction h with
  | expression node inside unbraced => exact stated_expression node inside unbraced
  | letDecl node isMutable name annotated inside =>
    exact stated_letDecl node isMutable name annotated inside
  | fnDecl node name taken annotated inside ih =>
    exact stated_fnDecl node name taken annotated inside ih
  | block node inside ih => exact stated_block node inside ih
  | branch node tested taken braced other chained ih ih' =>
    exact stated_branch node tested ih braced ih'
  | giveBack node inside => exact stated_giveBack node inside

end ReadM

/-- The reader leaves none of the tokens out. -/
def Valid (kinds : List TokenKind) : Prop := ∀ kind ∈ kinds, kind.isInvalid = false

namespace Valid

variable {kind : TokenKind} {kinds kinds' : List TokenKind}

theorem nil : Valid [] := nofun

theorem cons (h : kind.isInvalid = false) (hkinds : Valid kinds) : Valid (kind :: kinds) :=
  List.forall_mem_cons.mpr ⟨h, hkinds⟩

theorem append (h : Valid kinds) (h' : Valid kinds') : Valid (kinds ++ kinds') :=
  List.forall_mem_append.mpr ⟨h, h'⟩

theorem separated {s : Symbol} {pieces : List (List TokenKind)}
    (h : ∀ piece ∈ pieces, Valid piece) : Valid (StackScript.separated s pieces) := by
  induction pieces with
  | nil => exact nil
  | cons piece pieces ih =>
    have hpiece := h piece List.mem_cons_self
    have hothers := ih fun p hp => h p (List.mem_cons_of_mem _ hp)
    cases pieces with
    | nil => exact hpiece
    | cons next others => exact hpiece.append (.cons rfl hothers)

end Valid

theorem valid_typeToken (text : String) : (typeToken text).isInvalid = false := by
  unfold typeToken
  split
  · split <;> rfl
  · rfl

theorem valid_annotationTokens (type : Option TypeRef) : Valid (annotationTokens type) := by
  cases type with
  | none => exact .nil
  | some type =>
    refine .cons rfl ?_
    cases type with
    | named name => exact .cons (valid_typeToken _) .nil
    | union members span =>
      refine .separated fun piece hpiece => ?_
      obtain ⟨name, -, rfl⟩ := List.mem_map.mp hpiece
      exact .cons (valid_typeToken _) .nil

namespace Expression

theorem valid_keyTokens {e : Expression} (h : Valid e.tokens) : Valid e.keyTokens := by
  cases e with
  | paren node inner =>
    have hinner : Valid inner.tokens := fun kind hkind => h kind (by simp [tokens, hkind])
    exact (Valid.cons rfl hinner).append (.cons rfl .nil)
  | _ => exact h

mutual

theorem valid_tokens : (e : Expression) → Valid e.tokens
  | .literal _ value => .cons (by cases value <;> rfl) .nil
  | .name _ _ => .cons rfl .nil
  | .paren _ inner => (Valid.cons rfl (valid_tokens inner)).append (.cons rfl .nil)
  | .unary _ _ operand => .cons rfl (valid_tokens operand)
  | .binary _ _ left right => (valid_tokens left).append (.cons rfl (valid_tokens right))
  | .assign _ operator target value => by
    have hsymbol : Valid ((assignmentSymbol? operator).toList.map .symbol) := by
      cases assignmentSymbol? operator with
      | none => exact .nil
      | some s => exact .cons rfl .nil
    exact ((valid_tokens target).append hsymbol).append (valid_tokens value)
  | .object _ properties =>
    (Valid.cons rfl (.separated (valid_entryTokens properties))).append (.cons rfl .nil)
  | .call _ callee arguments =>
    ((valid_tokens callee).append (.cons rfl (.separated (valid_listTokens arguments)))).append
      (.cons rfl .nil)
  | .member _ inner _ => (valid_tokens inner).append (.cons rfl (.cons rfl .nil))
  | .element _ inner index =>
    ((valid_tokens inner).append (.cons rfl (valid_tokens index))).append (.cons rfl .nil)
  | .hole _ => .nil
termination_by structural e => e

theorem valid_listTokens : (es : List Expression) → ∀ piece ∈ listTokens es, Valid piece
  | [] => nofun
  | e :: rest => List.forall_mem_cons.mpr ⟨valid_tokens e, valid_listTokens rest⟩
termination_by structural es => es

theorem valid_entryTokens :
    (entries : List (Expression × Expression)) → ∀ piece ∈ entryTokens entries, Valid piece
  | [] => nofun
  | (key, value) :: rest => by
    rw [entryTokens_cons]
    refine List.forall_mem_cons.mpr ⟨?_, valid_entryTokens rest⟩
    exact (valid_keyTokens (valid_tokens key)).append (.cons rfl (valid_tokens value))
termination_by structural entries => entries

end

end Expression

theorem valid_optionalTokens {before : List TokenKind} (h : Valid before)
    (value : Option Expression) : Valid (optionalTokens before value) := by
  cases value with
  | none => exact .nil
  | some e => exact h.append e.valid_tokens

namespace Statement

mutual

theorem valid_tokens : (s : Statement) → Valid s.tokens
  | .expression _ value => value.valid_tokens.append (.cons rfl .nil)
  | .letDecl _ isMutable name type initial => by
    have hmutable : Valid (if isMutable then [.keyword .mutK] else []) := by
      cases isMutable with
      | false => exact .nil
      | true => exact .cons rfl .nil
    have hinitial := valid_optionalTokens (.cons rfl .nil : Valid [.symbol .equal]) initial
    exact ((((Valid.cons rfl hmutable).append
      (.cons rfl (valid_annotationTokens type)))).append hinitial).append (.cons rfl .nil)
  | .fnDecl _ name parameters result body => by
    have hparameters : Valid (separated .comma (parameters.map Parameter.tokens)) := by
      refine .separated fun piece hpiece => ?_
      obtain ⟨parameter, -, rfl⟩ := List.mem_map.mp hpiece
      exact .cons rfl (valid_annotationTokens _)
    have hbody := valid_listTokens body
    exact ((((Valid.cons rfl (.cons rfl (.cons rfl hparameters))).append
      (.cons rfl (valid_annotationTokens result))).append (.cons rfl hbody))).append
        (.cons rfl (.cons rfl .nil))
  | .block _ body => (Valid.cons rfl (valid_listTokens body)).append (.cons rfl .nil)
  | .branch _ condition body none => by
    rw [tokens_branch]
    exact .cons rfl (condition.valid_tokens.append ((valid_tokens body).append .nil))
  | .branch _ condition body (some other) => by
    rw [tokens_branch]
    exact .cons rfl (condition.valid_tokens.append ((valid_tokens body).append
      (.cons rfl (valid_tokens other))))
  | .giveBack _ value => (Valid.cons rfl (valid_optionalTokens .nil value)).append (.cons rfl .nil)
  | .hole _ => .nil
termination_by structural s => s

theorem valid_listTokens : (ss : List Statement) → Valid (listTokens ss)
  | [] => .nil
  | s :: rest => (valid_tokens s).append (valid_listTokens rest)
termination_by structural ss => ss

end

end Statement

/-- Reading inverts writing: the tokens of a canonical tree, wherever they stand, are read as that
tree, and nothing is reported. -/
theorem reading_inverts_writing (tree : SyntaxTree) (h : tree.Canonical) (tokens : List Token)
    (htokens : tokens.map (·.kind) = tree.tokens ++ [.endOfFile]) (span : Span) :
    (SyntaxTree.ofTokens tokens span).diagnostics = [] ∧
      tree.Same (SyntaxTree.ofTokens tokens span).tree := by
  have hvalid : Valid (tree.tokens ++ [.endOfFile]) :=
    (Statement.valid_listTokens tree.statements).append (.cons rfl .nil)
  have hall : (tokens.filter fun t => !t.kind.isInvalid) = tokens := by
    refine List.filter_eq_self.mpr fun token htoken => ?_
    rw [hvalid token.kind (htokens ▸ List.mem_map_of_mem htoken)]
    rfl
  have hlength : tokens.length = (Statement.listTokens tree.statements).length + 1 := by
    have hcount := congrArg List.length htokens
    rwa [List.length_map, List.length_append] at hcount
  have hread : ReadM.Takes (tree.tokens ++ [.endOfFile])
      (ReadM.statements (fun _ => false) (16 * (tokens.length + 1)))
      (Statement.ListLike (fun _ _ => True) tree.statements) [.endOfFile] :=
    ReadM.takes_statements (fun _ _ => rfl) h (fun s hs => ReadM.stated_of_canonical (h s hs))
      ⟨rfl, rfl, rfl⟩ (by omega)
  obtain ⟨-, hreports, hsame⟩ := hread { ahead := tokens } htokens
  simp only [SyntaxTree.ofTokens, hall]
  exact ⟨congrArg Array.toList hreports, hsame⟩

/-- `if a[b] { x += -y ^ 2 ^ z - 1 - f(x); } else if c { }` -/
theorem reading_inverts_writing_of_conditional :
    ∃ tree : SyntaxTree, tree.Canonical ∧
      tree.tokens = [.keyword .ifK, .identifier "a", .symbol .leftBracket, .identifier "b",
        .symbol .rightBracket, .symbol .leftBrace, .identifier "x", .symbol .plusEqual,
        .symbol .minus, .identifier "y", .symbol .caret, .int 2, .symbol .caret, .identifier "z",
        .symbol .minus, .int 1, .symbol .minus, .identifier "f", .symbol .leftParen,
        .identifier "x", .symbol .rightParen, .symbol .semicolon, .symbol .rightBrace,
        .keyword .elseK, .keyword .ifK, .identifier "c", .symbol .leftBrace, .symbol .rightBrace] ∧
      (SyntaxTree.ofTokens ((tree.tokens ++ [TokenKind.endOfFile]).map (Token.mk · default))
        default).diagnostics = [] ∧
      tree.Same (SyntaxTree.ofTokens
        ((tree.tokens ++ [TokenKind.endOfFile]).map (Token.mk · default)) default).tree := by
  have hpower : (Expression.binary default .power (.unary default .negate (.name default "y"))
      (.binary default .power (.literal default (.int 2)) (.name default "z"))).Canonical :=
    .power _ (.unary _ _ (.name _ _) (by decide))
      (.power _ (.literal _ _) (.name _ _) (by decide) (by decide)) (by decide) (by decide)
  have hcall : (Expression.call default (.name default "f") [.name default "x"]).Canonical :=
    .call _ (.name _ _) (List.forall_mem_singleton.mpr (.name _ _)) (by decide)
  have hassign : (Expression.assign default (some .add) (.name default "x")
      (.binary default .subtract (.binary default .subtract
        (.binary default .power (.unary default .negate (.name default "y"))
          (.binary default .power (.literal default (.int 2)) (.name default "z")))
        (.literal default (.int 1)))
      (.call default (.name default "f") [.name default "x"]))).Canonical :=
    .assign _ rfl (.name _ _) (.binary _ (by decide) (.binary _ (by decide) hpower (.literal _ _)
      (by decide) (by decide)) hcall (by decide) (by decide)) (by decide)
  have hbody := Statement.Canonical.block default
    (List.forall_mem_singleton.mpr (.expression default hassign (by simp [Expression.tokens])))
  have hother : (Statement.branch default (.name default "c") (.block default []) none).Canonical :=
    .branch _ (.name _ _) (.block _ (by simp)) rfl (by simp) (by simp)
  have htree := Statement.Canonical.branch default
    (.element default (.name default "a") (.name default "b") (by decide)) hbody rfl
    (fun s hs => Option.some.inj hs ▸ hother) (fun s hs => Option.some.inj hs ▸ .inr rfl)
  exact ⟨⟨[_], default⟩, List.forall_mem_singleton.mpr htree, rfl,
    reading_inverts_writing ⟨[_], default⟩ (List.forall_mem_singleton.mpr htree) _ rfl default⟩

end StackScript
