import StackScript.Proofs.Tree.Depth

set_option autoImplicit false

/-!
# Depth that does not matter

Main statement: `ReadM.settledStatements`. From a token on, every way through the functions of the
reader that comes back to the same function has read a token, so a reader with some levels for each
token ahead never uses up its depth. Two readers with different depths, both of them enough, are
shown to go on in the same way, whatever they report.
-/
namespace StackScript

namespace ReadM

open Reader (AtMost Facing)

variable {α β : Type} {n m : Nat} {token : TokenKind}

def Onward (action : ReadM α) : Prop :=
  ∀ r : Reader, (action.run r).2.ahead.length ≤ r.ahead.length

theorem Walks.onward {row : α → List Piece} {action : ReadM α} (h : Walks row action) :
    Onward action :=
  fun r => (h r).evolves.suffix.length_le

/-- The actions do the same if no more than `n` tokens are ahead. -/
def Agree (n : Nat) (action action' : ReadM α) : Prop :=
  ∀ r : Reader, r.AtMost n → action.run r = action'.run r

/-- The actions do the same before a token of this kind with no more than `n` behind it. -/
def AgreeAt (kind : TokenKind) (n : Nat) (action action' : ReadM α) : Prop :=
  ∀ r : Reader, r.Facing kind n → action.run r = action'.run r

theorem Agree.refl (action : ReadM α) : Agree n action action := fun _ _ => rfl

theorem Agree.mono {action action' : ReadM α} (h : Agree n action action') (hle : m ≤ n) :
    Agree m action action' :=
  fun r hr => h r (Nat.le_trans hr hle)

theorem Agree.bind {action action' : ReadM α} {f f' : α → ReadM β} (h : Agree n action action')
    (honward : Onward action) (hf : ∀ x, Agree n (f x) (f' x)) :
    Agree n (action >>= f) (action' >>= f') := by
  intro r hr
  rw [StateT.run_bind, StateT.run_bind, ← h r hr]
  exact hf _ _ (Nat.le_trans (honward r) hr)

theorem Agree.andThen {action : ReadM α} {f f' : α → ReadM β} (honward : Onward action)
    (hf : ∀ x, Agree n (f x) (f' x)) : Agree n (action >>= f) (action >>= f') :=
  .bind (.refl action) honward hf

theorem Agree.map {action action' : ReadM α} (h : Agree n action action') (f : α → β) :
    Agree n (f <$> action) (f <$> action') := by
  intro r hr
  rw [StateT.run_map, StateT.run_map, h r hr]

theorem Agree.facing {action action' : ReadM α} (h : Agree (n + 1) action action') :
    AgreeAt token n action action' :=
  fun r hr => h r hr.2

theorem AgreeAt.looking {action : ReadM α} {f f' : α → ReadM β}
    (hsame : ∀ r, (action.run r).2 = r) (hf : ∀ x, AgreeAt token n (f x) (f' x)) :
    AgreeAt token n (action >>= f) (action >>= f') := by
  intro r hr
  change (f (action.run r).1).run (action.run r).2 = (f' (action.run r).1).run (action.run r).2
  rw [hsame]
  exact hf _ r hr

theorem AgreeAt.bind {action action' : ReadM α} {f f' : α → ReadM β}
    (h : AgreeAt token n action action') (honward : Onward action)
    (hf : ∀ x, Agree (n + 1) (f x) (f' x)) : AgreeAt token n (action >>= f) (action' >>= f') := by
  intro r hr
  rw [StateT.run_bind, StateT.run_bind, ← h r hr]
  exact hf _ _ (Nat.le_trans (honward r) hr.2)

theorem AgreeAt.taking {action action' : ReadM α} {f f' : α → ReadM β}
    (h : AgreeAt token n action action') (htakes : ∀ r, r.Facing token n → (action.run r).2.AtMost n)
    (hf : ∀ x, Agree n (f x) (f' x)) : AgreeAt token n (action >>= f) (action' >>= f') := by
  intro r hr
  rw [StateT.run_bind, StateT.run_bind, ← h r hr]
  exact hf _ _ (htakes r hr)

theorem eq_endOfFile {kind : TokenKind} (h : kind.isEndOfFile = true) : kind = .endOfFile := by
  cases kind <;> first | rfl | cases h

theorem Agree.current {f f' : Token → ReadM β}
    (hend : ∀ span, Agree n (f ⟨.endOfFile, span⟩) (f' ⟨.endOfFile, span⟩))
    (hsome : ∀ kind span fewer, n = fewer + 1 → kind.isEndOfFile = false →
      AgreeAt kind fewer (f ⟨kind, span⟩) (f' ⟨kind, span⟩)) :
    Agree n (ReadM.current >>= f) (ReadM.current >>= f') := by
  intro r hr
  change (f (tokenAhead r)).run r = (f' (tokenAhead r)).run r
  cases hinside : (tokenAhead r).kind.isEndOfFile with
  | true =>
    have htoken : tokenAhead r = ⟨.endOfFile, (tokenAhead r).span⟩ := by
      rw [← eq_endOfFile hinside]
    rw [htoken]
    exact hend _ r hr
  | false =>
    obtain ⟨fewer, rfl, hfacing⟩ := hr.facing rfl hinside
    exact hsome _ _ fewer rfl hinside r hfacing

theorem Agree.kind {f f' : TokenKind → ReadM β} (hend : Agree n (f .endOfFile) (f' .endOfFile))
    (hsome : ∀ kind fewer, n = fewer + 1 → kind.isEndOfFile = false →
      AgreeAt kind fewer (f kind) (f' kind)) :
    Agree n (ReadM.kind >>= f) (ReadM.kind >>= f') := by
  have hcurrent : Agree n (ReadM.current >>= fun token => f token.kind)
      (ReadM.current >>= fun token => f' token.kind) :=
    .current (fun _ => hend) fun kind _ => hsome kind
  exact hcurrent

theorem AgreeAt.skip {f f' : Unit → ReadM β} (hinside : token.isEndOfFile = false)
    (hf : Agree n (f ()) (f' ())) :
    AgreeAt token n (modify ReadM.skip >>= f) (modify ReadM.skip >>= f') :=
  fun _ hr => hf _ (hr.atMost_skip hinside)

theorem AgreeAt.advance {f f' : Token → ReadM β} (hinside : token.isEndOfFile = false)
    (hf : ∀ token, Agree n (f token) (f' token)) :
    AgreeAt token n (ReadM.advance >>= f) (ReadM.advance >>= f') :=
  fun _ hr => hf _ _ (hr.atMost_skip hinside)

theorem Agree.eatIf {accepts : TokenKind → Bool} {f f' : Bool → ReadM β}
    (hend : accepts .endOfFile = false)
    (htrue : ∀ fewer, n = fewer + 1 → Agree fewer (f true) (f' true))
    (hfalse : Agree n (f false) (f' false)) :
    Agree n (ReadM.eatIf accepts >>= f) (ReadM.eatIf accepts >>= f') := by
  rw [eatIf_bind, eatIf_bind]
  refine .kind ?_ fun kind fewer hfewer hinside => ?_
  · rw [hend]
    exact hfalse
  · split
    · exact .skip hinside (htrue fewer hfewer)
    · subst hfewer
      exact hfalse.facing

theorem Agree.eat {s : Symbol} {f f' : Bool → ReadM β}
    (htrue : ∀ fewer, n = fewer + 1 → Agree fewer (f true) (f' true))
    (hfalse : Agree n (f false) (f' false)) :
    Agree n (ReadM.eat s >>= f) (ReadM.eat s >>= f') :=
  .eatIf rfl htrue hfalse

theorem Agree.check {s : Symbol} {f f' : Bool → ReadM β}
    (htrue : ∀ fewer, n = fewer + 1 → AgreeAt (.symbol s) fewer (f true) (f' true))
    (hfalse : Agree n (f false) (f' false)) :
    Agree n (ReadM.check s >>= f) (ReadM.check s >>= f') := by
  change Agree n (ReadM.kind >>= fun kind => f (isSymbol s kind))
    (ReadM.kind >>= fun kind => f' (isSymbol s kind))
  refine .kind hfalse fun kind fewer hfewer _ => ?_
  cases hsymbol : isSymbol s kind with
  | true => exact eq_of_isSymbol hsymbol ▸ htrue fewer hfewer
  | false =>
    subst hfewer
    exact hfalse.facing

theorem AgreeAt.expect {s : Symbol} {f f' : Unit → ReadM β} (hf : Agree n (f ()) (f' ())) :
    AgreeAt (.symbol s) n (ReadM.expect s >>= f) (ReadM.expect s >>= f') := by
  intro r hr
  rw [StateT.run_bind, StateT.run_bind, run_expect hr.1]
  exact hf _ (hr.atMost_skip rfl)

theorem Agree.unlessClosed {s : Symbol} {close more more' : ReadM β} (h : Agree n more more') :
    Agree n (do if (← ReadM.check s) || (← atEnd) then close else more)
      (do if (← ReadM.check s) || (← atEnd) then close else more') := by
  refine .andThen (passing_check s).onward fun closed =>
    .andThen passing_atEnd.onward fun atEnd => ?_
  split
  · exact .refl close
  · exact h

theorem onward_node (span : Span) : Onward (node span) := fun _ => Nat.le_refl _

theorem onward_nodeFrom (start : Span) : Onward (nodeFrom start) := fun _ => Nat.le_refl _

theorem onward_binaryNode (operator : BinaryOperator) (left right : Expression) :
    Onward (binaryNode operator left right) := fun _ => Nat.le_refl _

/-- This depth is as good as any other that has sixteen levels for each token ahead and a little
more: as much as the functions need that are called before a token is taken. -/
def SettledAt (rank : Nat) (action : Nat → ReadM α) (depth : Nat) : Prop :=
  ∀ ⦃n depth' : Nat⦄, 16 * n + rank ≤ depth → 16 * n + rank ≤ depth' →
    Agree n (action depth) (action depth')

theorem settledAt_zero {rank : Nat} (hrank : 0 < rank) (action : Nat → ReadM α) :
    SettledAt rank action 0 :=
  fun _ _ hd _ => by omega

theorem settledAt_succ {rank depth : Nat} (hrank : 0 < rank) {action : Nat → ReadM α}
    (h : ∀ n depth', 16 * n + rank ≤ depth + 1 → 16 * n + rank ≤ depth' + 1 →
      Agree n (action (depth + 1)) (action (depth' + 1))) :
    SettledAt rank action (depth + 1) := by
  intro n depth' hd hd'
  obtain ⟨depth', rfl⟩ : ∃ d, depth' = d + 1 := ⟨depth' - 1, by omega⟩
  exact h n depth' hd hd'

theorem settled_semicolons (depth : Nat) : SettledAt 1 semicolons depth := by
  induction depth with
  | zero => exact settledAt_zero (by decide) _
  | succ depth ih =>
    refine settledAt_succ (by decide) fun n depth' hd hd' => ?_
    exact .eat (fun fewer hfewer => ih (by omega) (by omega)) (.refl _)

theorem settled_typeNames (depth : Nat) : SettledAt 1 typeNames depth := by
  induction depth with
  | zero => exact settledAt_zero (by decide) _
  | succ depth ih =>
    refine settledAt_succ (by decide) fun n depth' hd hd' => .eat (fun fewer hfewer => ?_) (.refl _)
    exact .andThen walks_typeName.onward fun name =>
      .bind (ih (by omega) (by omega)) (walks_typeNames depth).onward fun _ => .refl _

theorem settled_annotated (depth : Nat) : SettledAt 1 annotated depth := by
  intro n depth' hd hd'
  have htype : Agree n (typeRef depth) (typeRef depth') :=
    .andThen walks_typeName.onward fun first =>
      .bind (settled_typeNames depth hd hd') (walks_typeNames depth).onward fun _ => .refl _
  refine .eat (fun fewer hfewer => ?_) (.refl _)
  exact .bind (htype.mono (by omega)) (walks_typeRef depth).onward fun _ => .refl _

structure SettledParts (depth : Nat) : Prop where
  expression : SettledAt 5 expression depth
  binary (least : Nat) : SettledAt 4 (binary · least) depth
  climb (least : Nat) (left : Expression) : SettledAt 1 (climb · least left) depth
  power : SettledAt 3 power depth
  unary : SettledAt 2 unary depth
  postfixes (first : Expression) : SettledAt 1 (postfixes · first) depth
  arguments : SettledAt 6 arguments depth
  primary : SettledAt 1 primary depth
  properties : SettledAt 6 properties depth
  propertyKey : SettledAt 2 propertyKey depth

namespace SettledParts

variable {depth : Nat}

theorem expression_succ (h : SettledParts depth) : SettledAt 5 ReadM.expression (depth + 1) := by
  refine settledAt_succ (by decide) fun n depth' hd hd' => ?_
  refine .bind (h.binary 1 (by omega) (by omega)) ((buildsParts depth).binary 1).onward
    fun target => .kind (.refl _) fun kind fewer hfewer hinside => ?_
  cases assignment? kind with
  | none => exact (Agree.refl _).facing
  | some operator =>
    exact .skip hinside (.bind (h.expression (by omega) (by omega))
      (buildsParts depth).expression.onward fun _ => .refl _)

theorem binary_succ (h : SettledParts depth) (least : Nat) :
    SettledAt 4 (ReadM.binary · least) (depth + 1) :=
  settledAt_succ (by decide) fun _ _ hd hd' =>
    .bind (h.power (by omega) (by omega)) (buildsParts depth).power.onward fun left =>
      h.climb least left (by omega) (by omega)

theorem climb_succ (h : SettledParts depth) (least : Nat) (left : Expression) :
    SettledAt 1 (ReadM.climb · least left) (depth + 1) := by
  refine settledAt_succ (by decide) fun n depth' hd hd' => .kind (.refl _)
    fun kind fewer hfewer hinside => ?_
  cases binaryOperator? kind with
  | none => exact (Agree.refl _).facing
  | some operator =>
    dsimp only
    split
    · refine .skip hinside (.bind (h.binary _ (by omega) (by omega))
        ((buildsParts depth).binary _).onward fun right => ?_)
      exact .andThen (onward_binaryNode operator left right) fun whole =>
        h.climb least whole (by omega) (by omega)
    · exact (Agree.refl _).facing

theorem power_succ (h : SettledParts depth) : SettledAt 3 ReadM.power (depth + 1) := by
  refine settledAt_succ (by decide) fun n depth' hd hd' => ?_
  refine .bind (h.unary (by omega) (by omega)) (buildsParts depth).unary.onward
    fun left => .eat (fun fewer hfewer => ?_) (.refl _)
  exact .bind (h.power (by omega) (by omega)) (buildsParts depth).power.onward
    fun _ => .refl _

theorem unary_succ (h : SettledParts depth) : SettledAt 2 ReadM.unary (depth + 1) := by
  refine settledAt_succ (by decide) fun n depth' hd hd' => ?_
  have hplain : Agree n (ReadM.primary depth >>= ReadM.postfixes depth)
      (ReadM.primary depth' >>= ReadM.postfixes depth') :=
    .bind (h.primary (by omega) (by omega)) (buildsParts depth).primary.onward
      fun first => h.postfixes first (by omega) (by omega)
  refine .kind hplain fun kind fewer hfewer hinside => ?_
  subst hfewer
  cases unaryOperator? kind with
  | none => exact hplain.facing
  | some operator =>
    exact .advance hinside fun start => .bind (h.unary (by omega) (by omega))
      (buildsParts depth).unary.onward fun _ => .refl _

theorem postfixes_succ (h : SettledParts depth) (first : Expression) :
    SettledAt 1 (ReadM.postfixes · first) (depth + 1) := by
  refine settledAt_succ (by decide) fun n depth' hd hd' => .kind (.refl _)
    fun kind fewer hfewer hinside => ?_
  have hlater : ∀ whole, Agree fewer (ReadM.postfixes depth whole) (ReadM.postfixes depth' whole) :=
    fun whole => h.postfixes whole (by omega) (by omega)
  dsimp only
  split
  · exact .skip hinside (.bind (h.arguments (by omega) (by omega))
      (buildsParts depth).arguments.onward fun arguments =>
        .andThen (onward_nodeFrom _) fun _ => hlater _)
  · exact .skip hinside (.andThen walks_expectName.onward fun name =>
      .andThen (onward_node _) fun _ => hlater _)
  · exact .skip hinside (.bind (h.expression (by omega) (by omega))
      (buildsParts depth).expression.onward fun index =>
        .andThen (passing_expect _).onward fun _ =>
          .andThen (onward_nodeFrom _) fun _ => hlater _)
  · exact (Agree.refl _).facing

theorem arguments_succ (h : SettledParts depth) : SettledAt 6 ReadM.arguments (depth + 1) := by
  refine settledAt_succ (by decide) fun n depth' hd hd' => .unlessClosed ?_
  refine .bind (h.expression (by omega) (by omega)) (buildsParts depth).expression.onward
    fun first => .eat (fun fewer hfewer => ?_) (.refl _)
  exact .bind (h.arguments (by omega) (by omega)) (buildsParts depth).arguments.onward
    fun _ => .refl _

theorem primary_succ (h : SettledParts depth) : SettledAt 1 ReadM.primary (depth + 1) := by
  refine settledAt_succ (by decide) fun n depth' hd hd' => .current (fun span => .refl _)
    fun kind span fewer hfewer hinside => ?_
  dsimp only
  cases literal? kind with
  | some value => exact (Agree.refl _).facing
  | none =>
    dsimp only
    split
    · exact (Agree.refl _).facing
    · exact .skip hinside (.bind (h.expression (by omega) (by omega))
        (buildsParts depth).expression.onward fun _ => .refl _)
    · exact .skip hinside (.bind (h.properties (by omega) (by omega))
        (buildsParts depth).properties.onward fun _ => .refl _)
    · exact (Agree.refl _).facing

theorem properties_succ (h : SettledParts depth) : SettledAt 6 ReadM.properties (depth + 1) := by
  refine settledAt_succ (by decide) fun n depth' hd hd' => .unlessClosed ?_
  refine .bind (h.propertyKey (by omega) (by omega)) (buildsParts depth).propertyKey.onward
    fun key => .andThen (passing_expect _).onward fun _ =>
      .bind (h.expression (by omega) (by omega)) (buildsParts depth).expression.onward
        fun value => .eat (fun fewer hfewer => ?_) (.refl _)
  exact .bind (h.properties (by omega) (by omega)) (buildsParts depth).properties.onward
    fun _ => .refl _

theorem propertyKey_succ (h : SettledParts depth) : SettledAt 2 ReadM.propertyKey (depth + 1) := by
  refine settledAt_succ (by decide) fun n depth' hd hd' => .check (fun fewer hfewer => ?_)
    (h.primary (by omega) (by omega))
  exact .advance rfl fun start => .bind (h.expression (by omega) (by omega))
    (buildsParts depth).expression.onward fun _ => .refl _

end SettledParts

theorem settledParts (depth : Nat) : SettledParts depth := by
  induction depth with
  | zero =>
    exact ⟨settledAt_zero (by decide) _, fun _ => settledAt_zero (by decide) _,
      fun _ _ => settledAt_zero (by decide) _, settledAt_zero (by decide) _,
      settledAt_zero (by decide) _, fun _ => settledAt_zero (by decide) _,
      settledAt_zero (by decide) _, settledAt_zero (by decide) _, settledAt_zero (by decide) _,
      settledAt_zero (by decide) _⟩
  | succ depth h =>
    exact ⟨h.expression_succ, h.binary_succ, h.climb_succ, h.power_succ, h.unary_succ,
      h.postfixes_succ, h.arguments_succ, h.primary_succ, h.properties_succ, h.propertyKey_succ⟩

theorem settled_parameters (depth : Nat) : SettledAt 2 parameters depth := by
  induction depth with
  | zero => exact settledAt_zero (by decide) _
  | succ depth ih =>
    refine settledAt_succ (by decide) fun n depth' hd hd' => .unlessClosed ?_
    refine .andThen passing_get.onward fun before => .andThen walks_expectName.onward
      fun name => .bind (settled_annotated depth (by omega) (by omega))
        (walks_annotated depth).onward fun type => .eat (fun fewer hfewer => ?_) (.refl _)
    exact .bind (ih (by omega) (by omega)) (walks_parameters depth).onward fun _ => .refl _

theorem settled_letDeclaration (depth : Nat) : SettledAt 5 letDeclaration depth := by
  intro n depth' hd hd'
  refine .andThen passing_advance.onward fun start => .andThen (passing_eatIf _).onward
    fun isMutable => .andThen walks_expectName.onward fun name =>
      .bind (settled_annotated depth (by omega) (by omega)) (walks_annotated depth).onward
        fun type => .eat (fun fewer hfewer => ?_) (.refl _)
  exact .bind (((settledParts depth).expression (by omega) (by omega)).map some)
    (walks_someExpression depth).onward fun _ => .refl _

theorem settled_returnStatement (depth : Nat) : SettledAt 5 returnStatement depth := by
  intro n depth' hd hd'
  refine .andThen passing_advance.onward fun start => .andThen (passing_check _).onward
    fun semicolon => .andThen (passing_check _).onward fun brace => .andThen passing_atEnd.onward
      fun atEnd => ?_
  dsimp only
  split
  · exact .refl _
  · exact .bind (((settledParts depth).expression hd hd').map some)
      (walks_someExpression depth).onward fun _ => .refl _

theorem settled_expressionStatement (depth : Nat) : SettledAt 5 expressionStatement depth :=
  fun _ _ hd hd' => .bind ((settledParts depth).expression hd hd')
    (buildsParts depth).expression.onward fun _ => .refl _

theorem takes_nextStatement {depth : Nat} {r : Reader}
    (hinside : (tokenAhead r).kind.isEndOfFile = false) (hr : r.AtMost (n + 1)) :
    ((nextStatement depth).run r).2.AtMost n := by
  have hsuffix := ((buildsStatements depth).statement r).evolves.suffix
  have hstuck : Meets (fun after => after.ahead <:+ r.ahead) (AtMost n) (fun _ => True)
      (MonadState.get >>= fun after =>
        if (after.ahead.length == r.ahead.length) = true then
          modify skip >>= fun _ => pure ((statement depth).run r).1
        else pure ((statement depth).run r).1) :=
    meets_skipIfStuck hinside hr fun _ => .pure trivial
  exact (hstuck _ hsuffix).1

def SettledBefore (kind : TokenKind) (action : Nat → ReadM α) (depth : Nat) : Prop :=
  ∀ ⦃n depth' : Nat⦄, 16 * n + 8 ≤ depth → 16 * n + 8 ≤ depth' →
    AgreeAt kind n (action depth) (action depth')

theorem settledBefore_succ {depth : Nat} {action : Nat → ReadM α}
    (h : ∀ n depth', 16 * n + 8 ≤ depth + 1 → 16 * n + 8 ≤ depth' + 1 →
      AgreeAt token n (action (depth + 1)) (action (depth' + 1))) :
    SettledBefore token action (depth + 1) := by
  intro n depth' hd hd'
  obtain ⟨depth', rfl⟩ : ∃ d, depth' = d + 1 := ⟨depth' - 1, by omega⟩
  exact h n depth' hd hd'

structure SettledStatements (depth : Nat) : Prop where
  statement : SettledAt 6 statement depth
  fnDeclaration : SettledBefore (.keyword .fnK) fnDeclaration depth
  branch : SettledBefore (.keyword .ifK) branch depth
  block : SettledBefore (.symbol .leftBrace) block depth
  statements (isEnd : TokenKind → Bool) : SettledAt 7 (statements isEnd) depth

namespace SettledStatements

variable {depth : Nat}

theorem statement_succ (h : SettledStatements depth) : SettledAt 6 ReadM.statement (depth + 1) := by
  refine settledAt_succ (by decide) fun n depth' hd hd' => ?_
  have hend : ∀ {action action' : ReadM Statement}, Agree n action action' → Onward action →
      Agree n (action >>= endOfStatement) (action' >>= endOfStatement) :=
    fun hagree honward => .bind hagree honward fun _ => .refl _
  have hexpression := hend (settled_expressionStatement depth (by omega : 16 * n + 5 ≤ depth)
    (by omega : 16 * n + 5 ≤ depth')) (walks_expressionStatement depth).onward
  refine .kind hexpression fun kind fewer hfewer hinside => ?_
  subst hfewer
  dsimp only
  split
  · exact (hend (settled_letDeclaration depth (by omega) (by omega))
      (walks_letDeclaration depth).onward).facing
  · exact .bind (h.fnDeclaration (by omega) (by omega))
      (buildsStatements depth).fnDeclaration.onward fun _ => .refl _
  · exact h.branch (by omega) (by omega)
  · exact (hend (settled_returnStatement depth (by omega) (by omega))
      (walks_returnStatement depth).onward).facing
  · refine .looking (fun r => by rw [run_objectAhead]) fun isObject => ?_
    split
    · exact hexpression.facing
    · exact .looking (fun _ => rfl) fun start => .bind (h.block (by omega) (by omega))
        (buildsStatements depth).block.onward fun _ => .refl _
  · exact hexpression.facing

theorem functionBody (h : SettledStatements depth) : SettledAt 6 ReadM.functionBody depth := by
  intro n depth' hd hd'
  refine .kind (.refl _) fun kind fewer hfewer hinside => ?_
  split
  · exact .advance hinside fun arrow => .bind ((settledParts depth).expression (by omega) (by omega))
      (buildsParts depth).expression.onward fun _ => .refl _
  · split
    · rename_i hbrace
      exact eq_of_isSymbol hbrace ▸ h.block (by omega) (by omega)
    · exact (Agree.refl _).facing

theorem fnDeclaration_succ (h : SettledStatements depth) :
    SettledBefore (.keyword .fnK) ReadM.fnDeclaration (depth + 1) := by
  refine settledBefore_succ fun n depth' hd hd' => ?_
  rw [fnDeclaration_eq, fnDeclaration_eq]
  refine .advance rfl fun start => .andThen walks_expectName.onward fun name => ?_
  have hrest : ∀ parameters, Agree n (functionRest start.span name depth parameters)
      (functionRest start.span name depth' parameters) := fun parameters =>
    .bind (settled_annotated depth (by omega) (by omega)) (walks_annotated depth).onward
      fun result => .bind (h.functionBody (by omega) (by omega))
        (buildsStatements depth).functionBody.onward fun _ => .refl _
  refine .eat (fun fewer hfewer => ?_) (hrest [])
  exact .bind (settled_parameters depth (by omega) (by omega))
    (walks_parameters depth).onward fun parameters =>
      .andThen (passing_expect _).onward fun _ => (hrest parameters).mono (by omega)

theorem branch_succ (h : SettledStatements depth) :
    SettledBefore (.keyword .ifK) ReadM.branch (depth + 1) := by
  refine settledBefore_succ fun n depth' hd hd' => .advance rfl fun start => ?_
  refine .bind ((settledParts depth).expression (by omega) (by omega))
    (buildsParts depth).expression.onward fun condition =>
      .bind (h.statement (by omega) (by omega)) (buildsStatements depth).statement.onward
        fun body => .eatIf rfl (fun fewer hfewer => ?_) (.refl _)
  have honward : Onward (some <$> ReadM.statement depth) :=
    (buildsStatements depth).statement.onward
  exact .bind ((h.statement (by omega) (by omega)).map some) honward fun _ => .refl _

theorem block_succ (h : SettledStatements depth) :
    SettledBefore (.symbol .leftBrace) ReadM.block (depth + 1) :=
  settledBefore_succ fun _ _ hd hd' => .expect (.bind (h.statements _ (by omega) (by omega))
    ((buildsStatements depth).statements _).onward fun _ => .refl _)

theorem statements_succ (h : SettledStatements depth) (isEnd : TokenKind → Bool) :
    SettledAt 7 (ReadM.statements isEnd) (depth + 1) := by
  refine settledAt_succ (by decide) fun n depth' hd hd' => ?_
  rw [statements_eq, statements_eq]
  refine .bind (settled_semicolons depth (by omega) (by omega)) (passing_semicolons depth).onward
    fun _ => .kind ?_ fun kind fewer hfewer hinside => ?_
  · rw [TokenKind.isEndOfFile, Bool.or_true]
    exact .refl _
  · subst hfewer
    split
    · exact (Agree.refl _).facing
    · have hnext : Agree (fewer + 1) (nextStatement depth) (nextStatement depth') :=
        .andThen passing_get.onward fun before => .bind (h.statement (by omega) (by omega))
          (buildsStatements depth).statement.onward fun _ => .refl _
      refine .taking hnext.facing (fun r hr => takes_nextStatement (hr.1 ▸ hinside) hr.2)
        fun first => ?_
      exact .bind (h.statements isEnd (by omega) (by omega))
        ((buildsStatements depth).statements isEnd).onward fun _ => .refl _

end SettledStatements

theorem settledStatements (depth : Nat) : SettledStatements depth := by
  induction depth with
  | zero =>
    exact ⟨settledAt_zero (by decide) _, fun _ _ hd _ => by omega, fun _ _ hd _ => by omega,
      fun _ _ hd _ => by omega, fun _ => settledAt_zero (by decide) _⟩
  | succ depth h =>
    exact ⟨h.statement_succ, h.fnDeclaration_succ, h.branch_succ, h.block_succ, h.statements_succ⟩

end ReadM

end StackScript
