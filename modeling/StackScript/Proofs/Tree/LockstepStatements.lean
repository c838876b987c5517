import StackScript.Proofs.Tree.Lockstep

set_option autoImplicit false

/-!
# Two readers side by side: statements

Statements, unlike expressions, may reach beyond the common tokens: each takes the semicolon behind
it. A list of statements inside braces does not, as the closing brace is missing then and the reader
of the common tokens alone reports that. So parameters and blocks are compared together with the
token that closes them.
-/
namespace StackScript

namespace ReadM

variable {α β : Type} {offset n m : Nat} {after : List TokenKind} {facts : Prop} {p : Place}
  {Q : α → α → Prop} {q : α → Place} {T : β → β → Prop} {t : β → Place} {token : TokenKind}

theorem Alike.imp {known : Prop} {action action' : ReadM α}
    (h : Alike offset facts p Q q action action') (himp : known → facts) :
    Alike offset known p Q q action action' :=
  ⟨h.1, fun kinds rest r r' hknown => h.2 kinds rest r r' (himp hknown)⟩

theorem Alike.anyToken {f f' : Token → ReadM β}
    (h : ∀ token token', Alike offset facts p T t (f token) (f' token')) :
    Alike offset facts p T t (ReadM.current >>= f) (ReadM.current >>= f') :=
  ⟨passing_current.quiet.andThen fun token => (h token token).1, fun kinds rest r r' =>
    (h (tokenAhead r) (tokenAhead r')).2 kinds rest r r'⟩

-- A list goes on only if the last part of it has taken a token. That is always so when nothing is
-- reported.
theorem Alike.count {f f' : Reader → ReadM β} (hquiet : ∀ r, Quiet (f r))
    (h : ∀ count < n, ∀ r r' : Reader, r.ahead.length = count + 1 →
      r'.ahead.length = count + after.length →
      Alike offset facts (upto after (count + 1)) T t (f r) (f' r')) :
    Alike offset facts (upto after n) T t (get >>= f) (get >>= f') := by
  refine ⟨passing_get.quiet.andThen hquiet, fun kinds rest r r' hfacts hplace hbeside hclean => ?_⟩
  obtain ⟨hlt, rfl⟩ := hplace
  have hleft : r.ahead.length = kinds.length + 1 := by
    have hkinds := congrArg List.length hbeside.left
    simpa [Reader.kinds] using hkinds
  have hright : r'.ahead.length = kinds.length + rest.length := by
    have hkinds := congrArg List.length hbeside.right
    simpa [Reader.kinds] using hkinds
  exact (h kinds.length hlt r r' hleft hright).2 kinds rest r r' hfacts
    ⟨Nat.lt_succ_self _, rfl⟩ hbeside hclean

theorem Alike.counted {count before before' : Nat} {f f' : Unit → ReadM β}
    (hbefore : before = count + 1) (hbefore' : before' = count + after.length)
    (hp : ∀ kinds rest, p kinds rest → kinds.length < count ∧ rest.length ≤ after.length)
    (h : Alike offset facts p T t (f ()) (f' ())) :
    Alike offset facts p T t
      (get >>= fun r => if r.ahead.length == before then modify ReadM.skip >>= f else f ())
      (get >>= fun r => if r.ahead.length == before' then modify ReadM.skip >>= f' else f' ()) := by
  refine ⟨passing_get.quiet.andThen fun _ => .guarded passing_skip.quiet fun _ => h.1, ?_⟩
  intro kinds rest r r' hfacts hplace hbeside hclean
  obtain ⟨hlt, hle⟩ := hp kinds rest hplace
  have hleft : (r.ahead.length == before) = false := by
    have hkinds := congrArg List.length hbeside.left
    simp only [Reader.kinds, List.length_map, List.length_append, List.length_singleton] at hkinds
    exact beq_false_of_ne (by omega)
  have hright : (r'.ahead.length == before') = false := by
    have hkinds := congrArg List.length hbeside.right
    simp only [Reader.kinds, List.length_map, List.length_append] at hkinds
    exact beq_false_of_ne (by omega)
  change ((if r.ahead.length == before then modify ReadM.skip >>= f else f ()).run r).2.diagnostics =
    #[] at hclean
  change ∃ kinds' rest', Beside offset kinds' rest'
      ((if r.ahead.length == before then modify ReadM.skip >>= f else f ()).run r).2
      ((if r'.ahead.length == before' then modify ReadM.skip >>= f' else f' ()).run r').2 ∧
    T ((if r.ahead.length == before then modify ReadM.skip >>= f else f ()).run r).1
      ((if r'.ahead.length == before' then modify ReadM.skip >>= f' else f' ()).run r').1 ∧
    t ((if r.ahead.length == before then modify ReadM.skip >>= f else f ()).run r).1 kinds' rest'
  rw [hleft] at hclean ⊢
  rw [hright]
  exact h.2 kinds rest r r' hfacts hplace hbeside hclean

theorem quiet_parametersThen {f : List Parameter → ReadM β} (hf : ∀ x, Quiet (f x)) (depth : Nat) :
    Quiet (parameters depth >>= fun x => expect .rightParen >>= fun _ => f x) :=
  (walks_parameters depth).quiet.andThen fun x => (passing_expect _).quiet.andThen fun _ => hf x

variable (hafter : Follows after)

include hafter

/-- Parameters are followed by a parenthesis. That it is missing at the end of the text shows only
there. -/
theorem alike_parameters {depth depth' : Nat} {f f' : List Parameter → ReadM β}
    (hd : 16 * n + 2 ≤ depth + 16) (hd' : 16 * n + 2 ≤ depth' + 16)
    (hf : ∀ x x', Alike offset (facts ∧ x.map Parameter.bare = x'.map Parameter.bare)
      (upto after (n - 1)) T t (f x) (f' x')) :
    Alike offset facts (upto after n) T t
      (parameters depth >>= fun x => expect .rightParen >>= fun _ => f x)
      (parameters depth' >>= fun x => expect .rightParen >>= fun _ => f' x) := by
  have hquiet := quiet_parametersThen fun x => (hf x x).1
  induction depth generalizing facts n depth' f f' with
  | zero => exact .ofQuiet (hquiet 0) fun _ _ hplace => by obtain ⟨hlt, -⟩ := hplace; omega
  | succ depth ih =>
    cases depth' with
    | zero =>
      exact .ofQuiet (hquiet (depth + 1)) fun _ _ hplace => by obtain ⟨hlt, -⟩ := hplace; omega
    | succ depth' =>
      unfold parameters
      simp only [bind_assoc, ite_bind, pure_bind]
      refine .unlessClosed hafter ?_ ?_ (.expect_ended (hf [] []).1)
      · exact (alike_expect hafter (by decide)).bind fun _ _ =>
          (hf [] []).imp fun hfacts => ⟨hfacts.1, rfl⟩
      · refine .count (fun r => ?_) fun count hcount r r' hr hr' => ?_
        · refine walks_expectName.quiet.andThen fun name =>
            (walks_annotated depth).quiet.andThen fun type =>
              (passing_eat _).quiet.andThen fun eaten => ?_
          split
          · exact quiet_parametersThen (fun x => (hf (⟨name, type⟩ :: x) []).1) depth
          · exact passing_get.quiet.andThen fun _ => .guarded passing_skip.quiet fun _ =>
              (passing_expect _).quiet.andThen fun _ => (hf [⟨name, type⟩] []).1
        · refine (alike_expectName hafter).bind fun name name' =>
            (alike_annotated hafter (by omega) (by omega)).bind fun type type' =>
              .eat hafter (by decide) ?_ ?_
          · refine ih (by omega) (by omega) (fun x x' => ?_) ?_
            · refine ((hf (⟨name, type⟩ :: x) (⟨name', type'⟩ :: x')).imp ?_).weaken
                (fun _ _ => upto_mono (by omega)) fun _ _ _ h => h
              rintro ⟨⟨⟨hfacts, hname⟩, htype⟩, hx⟩
              refine ⟨hfacts, ?_⟩
              simp only [List.map_cons, Parameter.bare, hname, htype, hx]
            · exact quiet_parametersThen fun x => (hf (⟨name, type⟩ :: x) []).1
          · refine .counted hr hr' (fun _ _ hplace =>
              ⟨hplace.1, Nat.le_of_eq (congrArg List.length hplace.2)⟩) ?_
            refine (alike_expect hafter (by decide)).bind fun _ _ => ?_
            refine ((hf [⟨name, type⟩] [⟨name', type'⟩]).imp ?_).weaken
                (fun _ _ => upto_mono (by omega)) fun _ _ _ h => h
            rintro ⟨⟨⟨hfacts, hname⟩, htype⟩, -⟩
            refine ⟨hfacts, ?_⟩
            simp only [List.map_cons, List.map_nil, Parameter.bare, hname, htype]

theorem alike_objectAhead :
    Alike offset facts (facing after token n) Eq (fun _ => facing after token n) objectAhead
      objectAhead := by
  refine ⟨passing_objectAhead.quiet, fun kinds rest r r' _ hplace hbeside _ => ?_⟩
  rw [run_objectAhead, run_objectAhead]
  refine ⟨kinds, rest, hbeside, ?_, hplace⟩
  obtain ⟨tail, rfl, -, rfl⟩ := hplace
  rw [hbeside.left, hbeside.right]
  cases tail with
  | nil => obtain h | h := hafter.head <;> cases rest <;> simp_all [opensObject]
  | cons first tail =>
    cases tail with
    | nil =>
      have hsecond : isSymbol .colon (rest.head?.getD .endOfFile) = false := by
        obtain h | h := hafter.head <;> rw [h] <;> rfl
      have hplace : (token :: ([first] ++ rest))[2]? = rest.head? := by cases rest <;> rfl
      change opensObject first .endOfFile =
        opensObject first ((token :: ([first] ++ rest))[2]?.getD .endOfFile)
      rw [hplace]
      unfold opensObject
      rw [hsecond]
      rfl
    | cons second tail => rfl

theorem alike_eatIf {accepts : TokenKind → Bool} (hend : accepts .endOfFile = false)
    (hsemicolon : accepts (.symbol .semicolon) = false) :
    Alike offset facts (upto after n) Eq (fun _ => upto after n) (eatIf accepts)
      (eatIf accepts) := by
  have h : Alike offset facts (upto after n) Eq (fun _ => upto after n)
      (eatIf accepts >>= Pure.pure) (eatIf accepts >>= Pure.pure) :=
    .eatIf hafter hend hsemicolon (.pure (fun _ => rfl) fun _ _ => upto_mono (Nat.sub_le n 1))
      (.pure (fun _ => rfl) fun _ _ hplace => hplace)
  rwa [bind_pure] at h

theorem alike_someExpression {depth depth' : Nat} (h : 16 * n + 5 ≤ depth + 16)
    (h' : 16 * n + 5 ≤ depth' + 16) :
    Alike offset facts (upto after n)
      (fun x x' => x.map (Expression.bare offset) = x'.map (Expression.bare 0))
      (fun _ => upto after (n - 1)) (some <$> expression depth) (some <$> expression depth') :=
  ((alikeParts hafter depth).expression h h').map fun _ _ hsame => congrArg some hsame

theorem alike_letDeclaration {depth depth' : Nat} (h : 16 * n + 5 ≤ depth + 16)
    (h' : 16 * n + 5 ≤ depth' + 16) :
    Alike offset facts (facing after token n) (fun x x' => x.bare offset = x'.bare 0)
      (fun _ => upto after (n - 1)) (letDeclaration depth) (letDeclaration depth') := by
  refine .advance fun start start' => (alike_eatIf hafter rfl rfl).bindSame fun isMutable =>
    (alike_expectName hafter).bind fun name name' =>
      (alike_annotated hafter (by omega) (by omega)).bind fun type type' =>
        (alike_eatIf hafter rfl rfl).bindSame fun eaten => ?_
  have hrest : ∀ initial initial' : Option Expression, Alike offset
      (((facts ∧ name.bare = name'.bare) ∧ type.map TypeRef.bare = type'.map TypeRef.bare) ∧
        initial.map (Expression.bare offset) = initial'.map (Expression.bare 0))
      (upto after (n - 1 - 1)) (fun x x' => Statement.bare offset x = x'.bare 0)
      (fun _ => upto after (n - 1))
      (nodeFrom start.span >>= fun node => pure (.letDecl node isMutable name type initial))
      (nodeFrom start'.span >>= fun node => pure (.letDecl node isMutable name' type' initial')) := by
    intro initial initial'
    refine (alike_nodeFrom _ _).bind fun node node' => .pure ?_ fun _ _ => upto_mono (by omega)
    rintro ⟨⟨⟨⟨-, hname⟩, htype⟩, hinitial⟩, hnode⟩
    simp only [Statement.bare, hname, htype, hinitial, hnode]
  cases eaten with
  | true =>
    exact ((alike_someExpression hafter (by omega) (by omega)).weaken (fun _ _ hplace => hplace)
      fun _ _ _ => upto_mono (by omega)).bind hrest
  | false => exact .ofPure ((hrest none none).imp fun hfacts => ⟨hfacts, rfl⟩)

theorem alike_returnStatement {depth depth' : Nat} (h : 16 * n + 5 ≤ depth + 16)
    (h' : 16 * n + 5 ≤ depth' + 16) :
    Alike offset facts (facing after token n) (fun x x' => x.bare offset = x'.bare 0)
      (fun _ => upto after (n - 1)) (returnStatement depth) (returnStatement depth') := by
  have hreturn : ∀ (start : Span) (depth : Nat), (do
      let value ←
        if (← check .semicolon) || (← check .rightBrace) || (← atEnd) then pure none
        else some <$> expression depth
      return Statement.giveBack (← nodeFrom start) value) =
      ReadM.kind >>= fun kind =>
        if isSymbol .semicolon kind || isSymbol .rightBrace kind || kind.isEndOfFile then
          pure none >>= fun value => nodeFrom start >>= fun node => pure (.giveBack node value)
        else
          some <$> expression depth >>= fun value =>
            nodeFrom start >>= fun node => pure (.giveBack node value) := fun _ _ => rfl
  have hnode : ∀ (start start' : Span) (value value' : Option Expression), Alike offset
      (facts ∧ value.map (Expression.bare offset) = value'.map (Expression.bare 0))
      (upto after (n - 1)) (fun x x' => x.bare offset = x'.bare 0) (fun _ => upto after (n - 1))
      (nodeFrom start >>= fun node => pure (Statement.giveBack node value))
      (nodeFrom start' >>= fun node => pure (Statement.giveBack node value')) := by
    intro start start' value value'
    refine (alike_nodeFrom _ _).bind fun node node' => .pure ?_ fun _ _ hplace => hplace
    rintro ⟨⟨-, hvalue⟩, hnode⟩
    simp only [Statement.bare, hvalue, hnode]
  refine .advance fun start start' => ?_
  rw [hreturn, hreturn]
  refine .kind hafter (fun kind => ?_) fun kind hkind => ?_
  · cases isSymbol .semicolon kind || isSymbol .rightBrace kind || kind.isEndOfFile with
    | true =>
      exact .ofPure (((hnode _ _ none none).imp fun hfacts => ⟨hfacts, rfl⟩).weaken
        (fun _ _ => upto_of_facing (Nat.le_refl _)) fun _ _ _ hplace => hplace)
    | false =>
      exact ((alike_someExpression hafter (by omega) (by omega)).weaken
        (fun _ _ => upto_of_facing (Nat.le_refl _)) fun _ _ _ => upto_mono (by omega)).bind
          fun value value' => hnode _ _ value value'
  · obtain rfl | rfl := hkind <;>
      exact .ofPure (((hnode _ _ none none).imp fun hfacts => ⟨hfacts, rfl⟩).weaken
        (fun _ _ => upto_of_ended (Nat.le_refl _)) fun _ _ _ hplace => hplace)

theorem alike_expressionStatement {depth depth' : Nat} (h : 16 * n + 5 ≤ depth + 16)
    (h' : 16 * n + 5 ≤ depth' + 16) :
    Alike offset facts (upto after n) (fun x x' => x.bare offset = x'.bare 0)
      (fun _ => upto after (n - 1)) (expressionStatement depth) (expressionStatement depth') := by
  refine ((alikeParts hafter depth).expression h h').bind fun value value' =>
    (alike_node _ _).bind fun node node' => .pure ?_ fun _ _ hplace => hplace
  rintro ⟨⟨-, hvalue⟩, hnode⟩
  simp only [Statement.bare, hvalue, hnode]

omit hafter in
theorem skip_of_ended {r : Reader} (h : r.kinds = [.endOfFile]) : skip r = r := by
  obtain ⟨token, rest, hahead, hkind, -⟩ := List.map_eq_cons_iff.mp h
  simp only [skip, hahead, hkind, TokenKind.isEndOfFile, if_true]

omit hafter in
theorem Beside.skipRight {kind : TokenKind} {rest : List TokenKind} {r r' : Reader}
    (h : Beside offset [] (kind :: rest) r r') (hkind : kind.isEndOfFile = false) :
    Beside offset [] rest r (ReadM.skip r') where
  left := h.left
  right := kinds_skip h.right hkind
  inside := h.inside
  nextId := (nextId_skip r').trans h.nextId
  clean := (diagnostics_skip r').trans h.clean

/-- A statement leaves its semicolon to nobody, so at the end of the common tokens the second reader
may go on over the one that follows. -/
theorem alike_endOfStatement {s s' : Statement} (h : facts → s.bare offset = s'.bare 0) :
    Alike offset facts (upto after n) (fun x x' => x.bare offset = x'.bare 0)
      (fun _ => loose after n) (endOfStatement s) (endOfStatement s') := by
  have hkind : ∀ s, endOfStatement s = ReadM.kind >>= fun kind =>
      if isSymbol .semicolon kind then modify ReadM.skip >>= fun _ => pure s else pure s := by
    intro s
    change (ReadM.kind >>= fun kind => if isSymbol .semicolon kind then
      (modify ReadM.skip >>= fun _ => pure true) else pure false) >>= (fun _ => pure s) = _
    rw [bind_assoc]
    congr 1
    funext kind
    split <;> rfl
  rw [hkind, hkind]
  refine .kind hafter (fun kind => ?_) fun kind hkind => ?_
  · cases isSymbol .semicolon kind with
    | true => exact .skip (.pure h fun _ _ hplace => ⟨by have := hplace.1; omega, .inl hplace.2⟩)
    | false =>
      refine .pure h fun _ _ hplace => ?_
      have hupto := upto_of_facing (Nat.le_refl _) hplace
      exact ⟨hupto.1, .inl hupto.2⟩
  · obtain rfl | rfl := hkind
    · exact .pure h fun _ _ hplace => ⟨by rw [hplace.1]; exact hplace.2.1, .inl hplace.2.2⟩
    · refine ⟨.pure trivial, fun kinds rest r r' hfacts hplace hbeside _ => ?_⟩
      obtain ⟨rfl, hn, rfl⟩ := hplace
      cases hafter with
      | nothing =>
        refine ⟨[], [.endOfFile], ?_, h hfacts, hn, .inl rfl⟩
        change Beside offset [] _ r (skip r')
        rw [skip_of_ended hbeside.right]
        exact hbeside
      | @more kinds _ => exact ⟨[], kinds, hbeside.skipRight rfl, h hfacts, hn, .inr ⟨rfl, rfl⟩⟩

/-- Where the second reader may have gone on over a semicolon, no `else` follows. -/
theorem Alike.eatElse {f f' : Bool → ReadM β}
    (htrue : Alike offset facts (upto after (n - 1)) T t (f true) (f' true))
    (hfalse : Alike offset facts (loose after n) T t (f false) (f' false)) :
    Alike offset facts (loose after n) T t (eatKeyword .elseK >>= f) (eatKeyword .elseK >>= f') := by
  have hupto : Alike offset facts (upto after n) T t (eatKeyword .elseK >>= f)
      (eatKeyword .elseK >>= f') := .eatIf hafter rfl rfl htrue
    (hfalse.weaken (fun _ _ hplace => ⟨hplace.1, .inl hplace.2⟩) fun _ _ _ hplace => hplace)
  refine ⟨hupto.1, fun kinds rest r r' hfacts hplace hbeside hclean => ?_⟩
  obtain ⟨hlt, rfl | ⟨rfl, rfl⟩⟩ := hplace
  · exact hupto.2 kinds rest r r' hfacts ⟨hlt, rfl⟩ hbeside hclean
  · have hnext : isKeyword .elseK (after.tail.head?.getD .endOfFile) = false := by
      cases hafter with
      | nothing => rfl
      | @more kinds hother =>
        cases kinds with
        | nil => rfl
        | cons kind kinds =>
          cases kind with
          | keyword k =>
            refine beq_false_of_ne fun hk => hother ?_
            rw [hk]
            rfl
          | _ => rfl
    have hleft : (eatKeyword .elseK).run r = (false, r) :=
      run_eatIf_of_eq_false (by rw [kind_tokenAhead, hbeside.left]; rfl)
    have hright : (eatKeyword .elseK).run r' = (false, r') :=
      run_eatIf_of_eq_false (by rw [kind_tokenAhead, hbeside.right]; exact hnext)
    have hrun : ∀ (g : Bool → ReadM β) (s : Reader), (eatKeyword .elseK).run s = (false, s) →
        (eatKeyword .elseK >>= g).run s = (g false).run s := by
      intro g s heat
      change (g ((eatKeyword .elseK).run s).1).run ((eatKeyword .elseK).run s).2 = _
      rw [heat]
    rw [hrun f r hleft] at hclean ⊢
    rw [hrun f' r' hright]
    exact hfalse.2 [] after.tail r r' hfacts ⟨hlt, .inr ⟨rfl, rfl⟩⟩ hbeside hclean

omit hafter in
theorem Alike.ofLoose {action action' : ReadM β}
    (h : Alike offset facts (upto after n) T t action action')
    (hend : ∀ r : Reader, r.kinds = [.endOfFile] → (action.run r).2.diagnostics ≠ #[]) :
    Alike offset facts (loose after n) T t action action' := by
  refine ⟨h.1, fun kinds rest r r' hfacts hplace hbeside hclean => ?_⟩
  obtain ⟨hlt, rfl | ⟨rfl, -⟩⟩ := hplace
  · exact h.2 kinds rest r r' hfacts ⟨hlt, rfl⟩ hbeside hclean
  · exact absurd hclean (hend r hbeside.left)

omit hafter in
theorem Alike.ofEnd {action action' : ReadM β} (hquiet : Quiet action)
    (hp : ∀ kinds rest, p kinds rest → kinds = [])
    (hend : ∀ r : Reader, r.kinds = [.endOfFile] → (action.run r).2.diagnostics ≠ #[]) :
    Alike offset facts p T t action action' := by
  refine ⟨hquiet, fun kinds rest r r' _ hplace hbeside hclean => ?_⟩
  obtain rfl := hp kinds rest hplace
  exact absurd hclean (hend r hbeside.left)

omit hafter in
theorem nil_of_upto (hn : n ≤ 1) {kinds rest : List TokenKind} (hplace : upto after n kinds rest) :
    kinds = [] := by
  have hlt := hplace.1
  exact List.eq_nil_of_length_eq_zero (by omega)

omit hafter in
theorem semicolons_succ (depth : Nat) (f : Unit → ReadM β) :
    ReadM.semicolons (depth + 1) >>= f = ReadM.kind >>= fun kind =>
      if isSymbol .semicolon kind then modify ReadM.skip >>= fun _ => ReadM.semicolons depth >>= f
      else f () := by
  change (ReadM.kind >>= fun kind => if isSymbol .semicolon kind then
    (modify ReadM.skip >>= fun _ => pure true) else pure false) >>= (fun eaten =>
      if eaten then ReadM.semicolons depth else pure ()) >>= f = _
  rw [bind_assoc, bind_assoc]
  congr 1
  funext kind
  split <;> rfl

omit hafter in
theorem run_semicolons_of_ne {r : Reader} (h : isSymbol .semicolon (tokenAhead r).kind = false)
    (depth : Nat) (f : Unit → ReadM β) :
    (ReadM.semicolons depth >>= f).run r = (f ()).run r := by
  cases depth with
  | zero => rfl
  | succ depth =>
    rw [semicolons_succ]
    change (if isSymbol .semicolon (tokenAhead r).kind then
      modify ReadM.skip >>= fun _ => ReadM.semicolons depth >>= f else f ()).run r = _
    rw [h]
    rfl

omit hafter in
theorem ahead_of_ended {r : Reader} (h : r.kinds = [.endOfFile]) :
    (tokenAhead r).kind = .endOfFile := by
  rw [kind_tokenAhead, h]
  rfl

/-- The rule for semicolons. The second reader may go on over many of them at the end of the common
tokens, but there the first one reports something. -/
theorem Alike.semicolons {depth depth' : Nat} {f f' : Unit → ReadM β} (hd : n ≤ depth + 1)
    (hd' : n ≤ depth' + 1) (h : Alike offset facts (upto after n) T t (f ()) (f' ()))
    (hend : ∀ r : Reader, r.kinds = [.endOfFile] → ((f ()).run r).2.diagnostics ≠ #[]) :
    Alike offset facts (upto after n) T t (ReadM.semicolons depth >>= f)
      (ReadM.semicolons depth' >>= f') := by
  have hquiet : ∀ depth, Quiet (ReadM.semicolons depth >>= f) := fun depth =>
    (passing_semicolons depth).quiet.andThen fun _ => h.1
  have hended : ∀ depth (r : Reader), r.kinds = [.endOfFile] →
      ((ReadM.semicolons depth >>= f).run r).2.diagnostics ≠ #[] := by
    intro depth r hr
    rw [run_semicolons_of_ne (by rw [ahead_of_ended hr]; rfl)]
    exact hend r hr
  induction depth generalizing n depth' with
  | zero => exact .ofEnd (hquiet 0) (fun _ _ => nil_of_upto (by omega)) (hended 0)
  | succ depth ih =>
    cases depth' with
    | zero => exact .ofEnd (hquiet _) (fun _ _ => nil_of_upto (by omega)) (hended _)
    | succ depth' =>
      rw [semicolons_succ, semicolons_succ]
      refine .kind hafter (fun kind => ?_) fun kind hkind => ?_
      · cases isSymbol .semicolon kind with
        | true =>
          exact .skip (ih (by omega) (by omega) (h.weaken (fun _ _ => upto_mono (by omega))
            fun _ _ _ hplace => hplace))
        | false =>
          exact h.weaken (fun _ _ => upto_of_facing (Nat.le_refl _)) fun _ _ _ hplace => hplace
      · exact .ofEnd h.1 (fun _ _ hplace => hplace.1) hend

omit hafter in
theorem loose_mono (h : n ≤ m) {kinds rest : List TokenKind} (hplace : loose after n kinds rest) :
    loose after m kinds rest := ⟨Nat.lt_of_lt_of_le hplace.1 h, hplace.2⟩

omit hafter in
theorem run_statements_of_ended {isEnd : TokenKind → Bool} {r : Reader}
    (h : (tokenAhead r).kind = .endOfFile) (depth : Nat) :
    (statements isEnd depth).run r = ([], r) := by
  cases depth with
  | zero => unfold statements; rfl
  | succ depth =>
    rw [statements_eq, run_semicolons_of_ne (by rw [h]; rfl)]
    change (if isEnd (tokenAhead r).kind || (tokenAhead r).kind.isEndOfFile then pure []
      else _ : ReadM (List Statement)).run r = _
    rw [h, TokenKind.isEndOfFile, Bool.or_true]
    rfl

/-- What two readers read alike, one of them with this depth. The statements of a block are followed
by a brace. -/
structure AlikeStatements (offset : Nat) (after : List TokenKind) (depth : Nat) : Prop where
  statement ⦃facts : Prop⦄ ⦃n depth' : Nat⦄ :
    16 * n + 7 ≤ depth + 16 → 16 * n + 7 ≤ depth' + 16 →
      Alike offset facts (upto after n) (fun x x' => x.bare offset = x'.bare 0)
        (fun _ => loose after (n - 1)) (statement depth) (statement depth')
  fnDeclaration ⦃facts : Prop⦄ ⦃n depth' : Nat⦄ ⦃token : TokenKind⦄ :
    16 * n + 6 ≤ depth + 16 → 16 * n + 6 ≤ depth' + 16 →
      Alike offset facts (facing after token n) (fun x x' => x.bare offset = x'.bare 0)
        (fun _ => upto after (n - 1)) (fnDeclaration depth) (fnDeclaration depth')
  branch ⦃facts : Prop⦄ ⦃n depth' : Nat⦄ ⦃token : TokenKind⦄ :
    16 * n + 6 ≤ depth + 16 → 16 * n + 6 ≤ depth' + 16 →
      Alike offset facts (facing after token n) (fun x x' => x.bare offset = x'.bare 0)
        (fun _ => loose after (n - 1)) (branch depth) (branch depth')
  block : AlikeAt offset after 6
    (fun x x' => Statement.bareList offset x = Statement.bareList 0 x') block depth
  statements ⦃β : Type⦄ ⦃T : β → β → Prop⦄ ⦃t : β → Place⦄ ⦃facts : Prop⦄ ⦃n depth' : Nat⦄
    ⦃f f' : List Statement → ReadM β⦄ :
    16 * n + 8 ≤ depth + 16 → 16 * n + 8 ≤ depth' + 16 →
      (∀ x x', Alike offset (facts ∧ Statement.bareList offset x = Statement.bareList 0 x')
        (upto after (n - 1)) T t (f x) (f' x')) →
      Alike offset facts (upto after n) T t
        (statements (isSymbol .rightBrace) depth >>= fun x => expect .rightBrace >>= fun _ => f x)
        (statements (isSymbol .rightBrace) depth' >>= fun x => expect .rightBrace >>= fun _ => f' x)

namespace AlikeStatements

variable {depth : Nat}

theorem statement_succ (h : AlikeStatements offset after depth) {depth' : Nat}
    (hd : 16 * n + 7 ≤ depth + 17) (hd' : 16 * n + 7 ≤ depth' + 17) :
    Alike offset facts (upto after n) (fun x x' => x.bare offset = x'.bare 0)
      (fun _ => loose after (n - 1)) (ReadM.statement (depth + 1)) (ReadM.statement (depth' + 1)) := by
  have hexpression : ∀ {facts : Prop}, Alike offset facts (upto after n)
      (fun x x' => x.bare offset = x'.bare 0) (fun _ => loose after (n - 1))
      (expressionStatement depth >>= endOfStatement)
      (expressionStatement depth' >>= endOfStatement) :=
    (alike_expressionStatement hafter (by omega) (by omega)).bind fun _ _ =>
      alike_endOfStatement hafter fun hfacts => hfacts.2
  refine .kind hafter (fun kind => ?_) fun kind hkind => ?_
  · dsimp only
    split
    · exact (alike_letDeclaration hafter (by omega) (by omega)).bind fun _ _ =>
        alike_endOfStatement hafter fun hfacts => hfacts.2
    · exact (h.fnDeclaration (by omega) (by omega)).bind fun _ _ =>
        alike_endOfStatement hafter fun hfacts => hfacts.2
    · exact h.branch (by omega) (by omega)
    · exact (alike_returnStatement hafter (by omega) (by omega)).bind fun _ _ =>
        alike_endOfStatement hafter fun hfacts => hfacts.2
    · refine (alike_objectAhead hafter).bindSame fun isObject => ?_
      split
      · exact hexpression.weaken (fun _ _ => upto_of_facing (Nat.le_refl _)) fun _ _ _ hplace => hplace
      · refine .anyToken fun start start' => ((h.block (by omega) (by omega)).weaken
          (fun _ _ => upto_of_facing (Nat.le_refl _)) fun _ _ _ hplace => hplace).bind
            fun body body' => (alike_nodeFrom _ _).bind fun node node' =>
              .pure ?_ fun _ _ hplace => ⟨hplace.1, .inl hplace.2⟩
        rintro ⟨⟨-, hbody⟩, hnode⟩
        simp only [Statement.bare, hbody, hnode]
    · exact hexpression.weaken (fun _ _ => upto_of_facing (Nat.le_refl _)) fun _ _ _ hplace => hplace
  · obtain rfl | rfl := hkind <;>
      exact hexpression.weaken (fun _ _ => upto_of_ended (Nat.le_refl _)) fun _ _ _ hplace => hplace

theorem branch_succ (h : AlikeStatements offset after depth) {depth' : Nat}
    (hd : 16 * n + 6 ≤ depth + 17) (hd' : 16 * n + 6 ≤ depth' + 17) :
    Alike offset facts (facing after token n) (fun x x' => x.bare offset = x'.bare 0)
      (fun _ => loose after (n - 1)) (ReadM.branch (depth + 1)) (ReadM.branch (depth' + 1)) := by
  refine .advance fun start start' =>
    ((alikeParts hafter depth).expression (by omega) (by omega)).bind fun condition condition' =>
      (h.statement (by omega) (by omega)).bind fun body body' => ?_
  have hrest : ∀ otherwise otherwise' : Option Statement, Alike offset
      (((facts ∧ condition.bare offset = condition'.bare 0) ∧ body.bare offset = body'.bare 0) ∧
        otherwise.map (Statement.bare offset) = otherwise'.map (Statement.bare 0))
      (loose after (n - 1 - 1 - 1)) (fun x x' => Statement.bare offset x = x'.bare 0)
      (fun _ => loose after (n - 1))
      (nodeFrom start.span >>= fun node => pure (.branch node condition body otherwise))
      (nodeFrom start'.span >>= fun node => pure (.branch node condition' body' otherwise')) := by
    intro otherwise otherwise'
    refine (alike_nodeFrom _ _).bind fun node node' => .pure ?_ fun _ _ => loose_mono (by omega)
    rintro ⟨⟨⟨⟨-, hcondition⟩, hbody⟩, hother⟩, hnode⟩
    cases otherwise <;> cases otherwise' <;> simp_all [Statement.bare]
  refine .eatElse hafter ?_ (.ofPure ((hrest none none).imp fun hfacts => ⟨hfacts, rfl⟩))
  have hother : Alike offset ((facts ∧ condition.bare offset = condition'.bare 0) ∧
      body.bare offset = body'.bare 0) (upto after (n - 1 - 1 - 1 - 1))
      (fun x x' => x.map (Statement.bare offset) = x'.map (Statement.bare 0))
      (fun _ => loose after (n - 1 - 1 - 1 - 1 - 1)) (some <$> ReadM.statement depth)
      (some <$> ReadM.statement depth') :=
    (h.statement (by omega) (by omega)).map fun _ _ hsame => congrArg some hsame
  exact (hother.weaken (fun _ _ hplace => hplace) fun _ _ _ => loose_mono (by omega)).bind hrest

theorem functionBody (h : AlikeStatements offset after depth) {depth' : Nat}
    (hd : 16 * n + 6 ≤ depth + 16) (hd' : 16 * n + 6 ≤ depth' + 16) :
    Alike offset facts (upto after n)
      (fun x x' => Statement.bareList offset x = Statement.bareList 0 x') (fun _ => upto after n)
      (ReadM.functionBody depth) (ReadM.functionBody depth') := by
  have hreport : ∀ text, Reads (fun _ => False) (do
      reportExpected text
      return ([] : List Statement)) := fun _ =>
    (reads_reportExpected _).bind fun _ => .pure False.elim
  refine .kind hafter (fun kind => ?_) fun kind hkind => ?_
  · split
    · refine .advance fun arrow arrow' =>
        ((alikeParts hafter depth).expression (by omega) (by omega)).bind fun value value' =>
          (alike_nodeFrom _ _).bind fun node node' => .pure ?_ fun _ _ => upto_mono (by omega)
      rintro ⟨⟨-, hvalue⟩, hnode⟩
      simp only [Statement.bareList, Statement.bare, Option.map_some, hvalue, hnode]
    · split
      · exact (h.block hd hd').weaken (fun _ _ => upto_of_facing (Nat.le_refl _))
          fun _ _ _ => upto_mono (by omega)
      · exact .ofReport (hreport _)
  · exact .ofReport (hreport _)

theorem fnDeclaration_succ (h : AlikeStatements offset after depth) {depth' : Nat}
    (hd : 16 * n + 6 ≤ depth + 17) (hd' : 16 * n + 6 ≤ depth' + 17) :
    Alike offset facts (facing after token n) (fun x x' => x.bare offset = x'.bare 0)
      (fun _ => upto after (n - 1)) (ReadM.fnDeclaration (depth + 1))
      (ReadM.fnDeclaration (depth' + 1)) := by
  rw [fnDeclaration_eq, fnDeclaration_eq]
  refine .advance fun start start' => (alike_expectName hafter).bind fun name name' => ?_
  have hrest : ∀ parameters parameters' : List Parameter, Alike offset
      ((facts ∧ name.bare = name'.bare) ∧
        parameters.map Parameter.bare = parameters'.map Parameter.bare)
      (upto after (n - 1 - 1)) (fun x x' => x.bare offset = x'.bare 0) (fun _ => upto after (n - 1))
      (functionRest start.span name depth parameters)
      (functionRest start'.span name' depth' parameters') := by
    intro parameters parameters'
    refine (alike_annotated hafter (by omega) (by omega)).bind fun result result' =>
      (h.functionBody hafter (by omega) (by omega)).bind fun body body' =>
        (alike_nodeFrom _ _).bind fun node node' => .pure ?_ fun _ _ => upto_mono (by omega)
    rintro ⟨⟨⟨⟨⟨-, hname⟩, hparameters⟩, hresult⟩, hbody⟩, hnode⟩
    simp only [Statement.bare, hname, hparameters, hresult, hbody, hnode]
  refine .eat hafter (by decide) ?_ ((hrest [] []).imp fun hfacts => ⟨hfacts, rfl⟩)
  exact alike_parameters hafter (by omega) (by omega) fun parameters parameters' =>
    (hrest parameters parameters').weaken (fun _ _ => upto_mono (by omega)) fun _ _ _ hplace => hplace

theorem block_succ (h : AlikeStatements offset after depth) :
    AlikeAt offset after 6 (fun x x' => Statement.bareList offset x = Statement.bareList 0 x')
      ReadM.block (depth + 1) := by
  refine alikeAt_succ (by decide) (buildsStatements _).block.quiet ?_
  intro facts n depth' hd hd'
  refine (alike_expect hafter (by decide)).bind fun _ _ =>
    h.statements (by omega) (by omega) fun body body' => .pure ?_ fun _ _ => upto_mono (by omega)
  exact fun hfacts => hfacts.2

omit hafter in
theorem nextStatement (h : AlikeStatements offset after depth) {depth' : Nat}
    (hd : 16 * n + 7 ≤ depth + 16) (hd' : 16 * n + 7 ≤ depth' + 16) :
    Alike offset facts (upto after n) (fun x x' => x.bare offset = x'.bare 0)
      (fun _ => loose after (n - 1)) (ReadM.nextStatement depth) (ReadM.nextStatement depth') := by
  refine .count (fun r => ?_) fun count hcount r r' hr hr' => ?_
  · exact (buildsStatements depth).statement.quiet.andThen fun _ =>
      passing_get.quiet.andThen fun _ => .guarded passing_skip.quiet fun _ => .pure trivial
  · refine (h.statement (by omega) (by omega)).bind fun first first' =>
      .counted hr hr' (fun kinds rest hplace => ⟨hplace.1, ?_⟩)
        (.pure (fun hfacts => hfacts.2) fun _ _ => loose_mono (by omega))
    obtain ⟨-, rfl | ⟨-, rfl⟩⟩ := hplace
    · exact Nat.le_refl _
    · rw [List.length_tail]
      exact Nat.sub_le _ 1

theorem statements_succ (h : AlikeStatements offset after depth) {depth' : Nat}
    {f f' : List Statement → ReadM β} (hd : 16 * n + 8 ≤ depth + 17) (hd' : 16 * n + 8 ≤ depth' + 17)
    (hf : ∀ x x', Alike offset (facts ∧ Statement.bareList offset x = Statement.bareList 0 x')
      (upto after (n - 1)) T t (f x) (f' x')) :
    Alike offset facts (upto after n) T t
      (ReadM.statements (isSymbol .rightBrace) (depth + 1) >>= fun x =>
        expect .rightBrace >>= fun _ => f x)
      (ReadM.statements (isSymbol .rightBrace) (depth' + 1) >>= fun x =>
        expect .rightBrace >>= fun _ => f' x) := by
  simp only [statements_eq, bind_assoc, ite_bind, pure_bind]
  refine .semicolons hafter (by omega) (by omega) ?_ fun r hr => ?_
  · refine .unlessClosed hafter ?_ ?_ (.expect_ended (hf [] []).1)
    · exact (alike_expect hafter (by decide)).bind fun _ _ =>
        (hf [] []).imp fun hfacts => ⟨hfacts.1, rfl⟩
    · refine (h.nextStatement (by omega) (by omega)).bind fun first first' =>
        .ofLoose ?_ fun r hr => ?_
      · refine h.statements (by omega) (by omega) fun x x' => ?_
        refine ((hf (first :: x) (first' :: x')).imp ?_).weaken (fun _ _ => upto_mono (by omega))
          fun _ _ _ hplace => hplace
        rintro ⟨⟨hfacts, hfirst⟩, hx⟩
        refine ⟨hfacts, ?_⟩
        simp only [Statement.bareList, hfirst, hx]
      · have hrun : (ReadM.statements (isSymbol .rightBrace) depth >>= fun x =>
            expect .rightBrace >>= fun _ => f (first :: x)).run r =
            (expect .rightBrace >>= fun _ => f [first]).run r := by
          change (expect .rightBrace >>= fun _ => f (first ::
            ((ReadM.statements (isSymbol .rightBrace) depth).run r).1)).run
              ((ReadM.statements (isSymbol .rightBrace) depth).run r).2 = _
          rw [run_statements_of_ended (ahead_of_ended hr)]
        rw [hrun]
        exact reported_expect (hf [first] []).1 hr
  · change ((if isSymbol .rightBrace (tokenAhead r).kind || (tokenAhead r).kind.isEndOfFile then
      expect .rightBrace >>= fun _ => f [] else _ : ReadM β).run r).2.diagnostics ≠ #[]
    rw [ahead_of_ended hr]
    exact reported_expect (hf [] []).1 hr

end AlikeStatements

omit hafter in
theorem not_upto (hn : n = 0) {kinds rest : List TokenKind} : ¬ upto after n kinds rest :=
  fun hplace => Nat.not_lt_zero _ (hn ▸ hplace.1)

omit hafter in
theorem not_facing (hn : n = 0) {kinds rest : List TokenKind} : ¬ facing after token n kinds rest :=
  fun hplace => not_upto hn (upto_of_facing (Nat.le_refl n) hplace)

omit hafter in
theorem alikeStatements_zero : AlikeStatements offset after 0 where
  statement _ _ _ hd _ := .ofQuiet (buildsStatements 0).statement.quiet
    fun _ _ => not_upto (by omega)
  fnDeclaration _ _ _ _ hd _ := .ofQuiet (buildsStatements 0).fnDeclaration.quiet
    fun _ _ => not_facing (by omega)
  branch _ _ _ _ hd _ := .ofQuiet (buildsStatements 0).branch.quiet
    fun _ _ => not_facing (by omega)
  block := alikeAt_zero (by decide) (buildsStatements 0).block.quiet
  statements _ _ _ _ _ _ _ _ hd _ hf :=
    .ofQuiet (((buildsStatements 0).statements _).quiet.andThen fun x =>
      (passing_expect _).quiet.andThen fun _ => (hf x x).1) fun _ _ => not_upto (by omega)

theorem alikeStatements (depth : Nat) : AlikeStatements offset after depth := by
  induction depth with
  | zero => exact alikeStatements_zero
  | succ depth h =>
    have hquiet := buildsStatements (depth + 1)
    refine ⟨fun facts n depth' hd hd' => ?_, fun facts n depth' token hd hd' => ?_,
      fun facts n depth' token hd hd' => ?_, h.block_succ hafter,
      fun β T t facts n depth' f f' hd hd' hf => ?_⟩
    · cases depth' with
      | zero =>
        exact .ofQuiet hquiet.statement.quiet fun _ _ => not_upto (by omega)
      | succ depth' => exact h.statement_succ hafter (by omega) (by omega)
    · cases depth' with
      | zero =>
        exact .ofQuiet hquiet.fnDeclaration.quiet fun _ _ => not_facing (by omega)
      | succ depth' => exact h.fnDeclaration_succ hafter (by omega) (by omega)
    · cases depth' with
      | zero => exact .ofQuiet hquiet.branch.quiet fun _ _ => not_facing (by omega)
      | succ depth' => exact h.branch_succ hafter (by omega) (by omega)
    · cases depth' with
      | zero =>
        exact .ofQuiet ((hquiet.statements _).quiet.andThen fun x =>
          (passing_expect _).quiet.andThen fun _ => (hf x x).1) fun _ _ => not_upto (by omega)
      | succ depth' => exact h.statements_succ hafter (by omega) (by omega) hf

end ReadM

end StackScript
