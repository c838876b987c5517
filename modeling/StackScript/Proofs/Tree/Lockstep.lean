import StackScript.Proofs.Token.Lexing
import StackScript.Proofs.Tree.Bare
import StackScript.Proofs.Tree.Holes

set_option autoImplicit false

/-!
# Two readers side by side

One reader stands before some tokens and the end of the text, another before the same tokens and
something else: the end as well, or a semicolon and more. As long as the first one reports nothing
they go on side by side, and read trees that differ only in places and numbers. An expression never
reaches beyond the common tokens, since both the end and a semicolon stop it.

Both have as much depth as they need, if not the same.
-/
namespace StackScript

inductive Follows : List TokenKind → Prop where
  | nothing : Follows [.endOfFile]
  | more {kinds : List TokenKind} (h : kinds.head? ≠ some (.keyword .elseK)) :
      Follows (.symbol .semicolon :: kinds)

theorem Follows.head {after : List TokenKind} (h : Follows after) :
    after.head? = some .endOfFile ∨ after.head? = some (.symbol .semicolon) := by
  cases h with
  | nothing => exact .inl rfl
  | more _ => exact .inr rfl

namespace ReadM

/-- The readers stand before the same tokens. Behind them the text ends for the one, and `rest`
follows for the other, which is ahead by `offset` with the numbers of nodes. -/
structure Beside (offset : Nat) (kinds rest : List TokenKind) (r r' : Reader) : Prop where
  left : r.kinds = kinds ++ [.endOfFile]
  right : r'.kinds = kinds ++ rest
  inside : ∀ kind ∈ kinds, kind.isEndOfFile = false
  nextId : r'.nextId = r.nextId + offset
  clean : r'.diagnostics = #[]

abbrev Place := List TokenKind → List TokenKind → Prop

/-- Before less than `n` common tokens. -/
def upto (after : List TokenKind) (n : Nat) : Place :=
  fun kinds rest => kinds.length < n ∧ rest = after

/-- Before less than `n` common tokens, the first of which is this one. -/
def facing (after : List TokenKind) (kind : TokenKind) (n : Nat) : Place :=
  fun kinds rest => ∃ tail, kinds = kind :: tail ∧ tail.length + 1 < n ∧ rest = after

def ended (after : List TokenKind) (n : Nat) : Place :=
  fun kinds rest => kinds = [] ∧ 0 < n ∧ rest = after

/-- Before less than `n` common tokens; if there are none, the other reader may have gone on over a
semicolon. -/
def loose (after : List TokenKind) (n : Nat) : Place :=
  fun kinds rest => kinds.length < n ∧ (rest = after ∨ kinds = [] ∧ rest = after.tail)

/-- From any place in `p`, if `facts` hold and the first reader reports nothing, the two actions
come to a place in `q`, with results in `Q`. -/
def Alike {α : Type} (offset : Nat) (facts : Prop) (p : Place) (Q : α → α → Prop) (q : α → Place)
    (action action' : ReadM α) : Prop :=
  Quiet action ∧ ∀ kinds rest r r', facts → p kinds rest → Beside offset kinds rest r r' →
    (action.run r).2.diagnostics = #[] → ∃ kinds' rest',
      Beside offset kinds' rest' (action.run r).2 (action'.run r').2 ∧
        Q (action.run r).1 (action'.run r').1 ∧ q (action.run r).1 kinds' rest'

variable {α β : Type} {offset n m : Nat} {after : List TokenKind} {facts : Prop} {p : Place}
  {Q : α → α → Prop} {q : α → Place} {T : β → β → Prop} {t : β → Place} {token : TokenKind}

theorem upto_mono (h : n ≤ m) {kinds rest : List TokenKind} (hplace : upto after n kinds rest) :
    upto after m kinds rest := ⟨Nat.lt_of_lt_of_le hplace.1 h, hplace.2⟩

theorem upto_of_facing (h : n ≤ m) {kinds rest : List TokenKind}
    (hplace : facing after token n kinds rest) : upto after m kinds rest := by
  obtain ⟨tail, rfl, htail, hrest⟩ := hplace
  exact ⟨Nat.lt_of_lt_of_le htail h, hrest⟩

theorem upto_of_ended (h : n ≤ m) {kinds rest : List TokenKind}
    (hplace : ended after n kinds rest) : upto after m kinds rest := by
  obtain ⟨rfl, hn, hrest⟩ := hplace
  exact ⟨Nat.lt_of_lt_of_le hn h, hrest⟩

namespace Alike

theorem pure {x x' : α} (hfacts : facts → Q x x')
    (hplace : ∀ kinds rest, p kinds rest → q x kinds rest) :
    Alike offset facts p Q q (pure x) (pure x') :=
  ⟨.pure trivial, fun kinds rest _ _ h hp hbeside _ =>
    ⟨kinds, rest, hbeside, hfacts h, hplace kinds rest hp⟩⟩

theorem ofPure {x x' : α} {f f' : α → ReadM β} (h : Alike offset facts p T t (f x) (f' x')) :
    Alike offset facts p T t (Pure.pure x >>= f) (Pure.pure x' >>= f') := h

/-- Nothing more is known of the two results than what the rule for the first actions says. -/
theorem bind {action action' : ReadM α} {f f' : α → ReadM β}
    (h : Alike offset facts p Q q action action')
    (hf : ∀ x x', Alike offset (facts ∧ Q x x') (q x) T t (f x) (f' x')) :
    Alike offset facts p T t (action >>= f) (action' >>= f') := by
  refine ⟨h.1.andThen fun x => (hf x x).1, fun kinds rest r r' hfacts hp hbeside hclean => ?_⟩
  have hmiddle := ((hf (action.run r).1 (action.run r).1).1 _ hclean).1
  obtain ⟨kinds₁, rest₁, hbeside₁, hQ, hq⟩ := h.2 kinds rest r r' hfacts hp hbeside hmiddle
  exact (hf _ _).2 kinds₁ rest₁ _ _ ⟨hfacts, hQ⟩ hq hbeside₁ hclean

theorem bindSame {action action' : ReadM α} {f f' : α → ReadM β}
    (h : Alike offset facts p Eq q action action')
    (hf : ∀ x, Alike offset facts (q x) T t (f x) (f' x)) :
    Alike offset facts p T t (action >>= f) (action' >>= f') := by
  refine ⟨h.1.andThen fun x => (hf x).1, fun kinds rest r r' hfacts hp hbeside hclean => ?_⟩
  have hmiddle := ((hf (action.run r).1).1 _ hclean).1
  obtain ⟨kinds₁, rest₁, hbeside₁, hsame, hq⟩ := h.2 kinds rest r r' hfacts hp hbeside hmiddle
  have hrest := (hf (action.run r).1).2 kinds₁ rest₁ _ _ hfacts hq hbeside₁ hclean
  have hright : (action' >>= f').run r' = (f' (action.run r).1).run (action'.run r').2 := by
    rw [hsame]
    rfl
  rw [hright]
  exact hrest

theorem weaken {p' : Place} {q' : α → Place} {action action' : ReadM α}
    (h : Alike offset facts p Q q action action') (hp : ∀ kinds rest, p' kinds rest → p kinds rest)
    (hq : ∀ x kinds rest, q x kinds rest → q' x kinds rest) :
    Alike offset facts p' Q q' action action' := by
  refine ⟨h.1, fun kinds rest r r' hfacts hplace hbeside hclean => ?_⟩
  obtain ⟨kinds', rest', hbeside', hQ, hplace'⟩ :=
    h.2 kinds rest r r' hfacts (hp kinds rest hplace) hbeside hclean
  exact ⟨kinds', rest', hbeside', hQ, hq _ _ _ hplace'⟩

theorem map {action action' : ReadM α} {f : α → β} {s : Place}
    (h : Alike offset facts p Q (fun _ => s) action action') (hf : ∀ x x', Q x x' → T (f x) (f x')) :
    Alike offset facts p T (fun _ => s) (f <$> action) (f <$> action') := by
  refine ⟨h.1.map fun _ _ => trivial, fun kinds rest r r' hfacts hplace hbeside hclean => ?_⟩
  obtain ⟨kinds', rest', hbeside', hQ, hplace'⟩ := h.2 kinds rest r r' hfacts hplace hbeside hclean
  exact ⟨kinds', rest', hbeside', hf _ _ hQ, hplace'⟩

theorem ofQuiet {action action' : ReadM α} (h : Quiet action)
    (hp : ∀ kinds rest, ¬ p kinds rest) : Alike offset facts p Q q action action' :=
  ⟨h, fun kinds rest _ _ _ hplace => absurd hplace (hp kinds rest)⟩

theorem ofReport {action action' : ReadM α} (h : Reads (fun _ => False) action) :
    Alike offset facts p Q q action action' :=
  ⟨h.mono fun _ h => h.elim, fun _ _ r _ _ _ _ hclean => (h r hclean).2.elim⟩

end Alike

theorem Beside.skip {kind : TokenKind} {tail rest : List TokenKind} {r r' : Reader}
    (h : Beside offset (kind :: tail) rest r r') :
    Beside offset tail rest (ReadM.skip r) (ReadM.skip r') where
  left := kinds_skip h.left (h.inside kind List.mem_cons_self)
  right := kinds_skip h.right (h.inside kind List.mem_cons_self)
  inside other hother := h.inside other (List.mem_cons_of_mem kind hother)
  nextId := by rw [nextId_skip, nextId_skip, h.nextId]
  clean := (diagnostics_skip r').trans h.clean

variable (hafter : Follows after)

include hafter

/-- The rule for the token ahead: the readers see the same token, or the first one sees the end and
the other one sees it as well or a semicolon. -/
theorem Alike.current {f f' : Token → ReadM β}
    (hsame : ∀ kind span span',
      Alike offset facts (facing after kind n) T t (f ⟨kind, span⟩) (f' ⟨kind, span'⟩))
    (hend : ∀ kind span span', kind = .endOfFile ∨ kind = .symbol .semicolon →
      Alike offset facts (ended after n) T t (f ⟨.endOfFile, span⟩) (f' ⟨kind, span'⟩)) :
    Alike offset facts (upto after n) T t (ReadM.current >>= f) (ReadM.current >>= f') := by
  refine ⟨passing_current.quiet.andThen fun token => (hsame token.kind token.span default).1, ?_⟩
  intro kinds rest r r' hfacts hplace hbeside hclean
  obtain ⟨hlength, rfl⟩ := hplace
  have hleft : (tokenAhead r).kind = (kinds ++ [TokenKind.endOfFile]).head?.getD .endOfFile := by
    rw [kind_tokenAhead, hbeside.left]
  have hright : (tokenAhead r').kind = (kinds ++ rest).head?.getD .endOfFile := by
    rw [kind_tokenAhead, hbeside.right]
  change ((f (tokenAhead r)).run r).2.diagnostics = #[] at hclean
  change ∃ kinds' rest', Beside offset kinds' rest' ((f (tokenAhead r)).run r).2
      ((f' (tokenAhead r')).run r').2 ∧
    T ((f (tokenAhead r)).run r).1 ((f' (tokenAhead r')).run r').1 ∧
    t ((f (tokenAhead r)).run r).1 kinds' rest'
  generalize tokenAhead r = token at *
  generalize tokenAhead r' = token' at *
  obtain ⟨_, span⟩ := token
  obtain ⟨_, span'⟩ := token'
  subst hleft hright
  cases kinds with
  | nil =>
    refine (hend _ span span' ?_).2 [] rest r r' hfacts ⟨rfl, hlength, rfl⟩ hbeside hclean
    obtain hhead | hhead := hafter.head
    · exact .inl (by rw [List.nil_append, hhead]; rfl)
    · exact .inr (by rw [List.nil_append, hhead]; rfl)
  | cons kind tail =>
    exact (hsame kind span span').2 (kind :: tail) rest r r' hfacts ⟨tail, rfl, hlength, rfl⟩ hbeside
      hclean

theorem Alike.kind {f f' : TokenKind → ReadM β}
    (hsame : ∀ kind, Alike offset facts (facing after kind n) T t (f kind) (f' kind))
    (hend : ∀ kind, kind = .endOfFile ∨ kind = .symbol .semicolon →
      Alike offset facts (ended after n) T t (f .endOfFile) (f' kind)) :
    Alike offset facts (upto after n) T t (ReadM.kind >>= f) (ReadM.kind >>= f') := by
  have hcurrent : Alike offset facts (upto after n) T t
      (ReadM.current >>= fun token => f token.kind) (ReadM.current >>= fun token => f' token.kind) :=
    .current hafter (fun kind _ _ => hsame kind) fun kind _ _ h => hend kind h
  exact hcurrent

omit hafter

theorem Alike.skip {f f' : Unit → ReadM β}
    (h : Alike offset facts (upto after (n - 1)) T t (f ()) (f' ())) :
    Alike offset facts (facing after token n) T t (modify ReadM.skip >>= f)
      (modify ReadM.skip >>= f') := by
  refine ⟨passing_skip.quiet.andThen fun _ => h.1, ?_⟩
  intro kinds rest r r' hfacts hplace hbeside hclean
  obtain ⟨tail, rfl, htail, hrest⟩ := hplace
  exact h.2 tail rest _ _ hfacts ⟨by omega, hrest⟩ hbeside.skip hclean

theorem Alike.advance {f f' : Token → ReadM β}
    (h : ∀ token token', Alike offset facts (upto after (n - 1)) T t (f token) (f' token')) :
    Alike offset facts (facing after token n) T t (ReadM.advance >>= f) (ReadM.advance >>= f') := by
  refine ⟨passing_advance.quiet.andThen fun token => (h token token).1, ?_⟩
  intro kinds rest r r' hfacts hplace hbeside hclean
  obtain ⟨tail, rfl, htail, hrest⟩ := hplace
  exact (h (tokenAhead r) (tokenAhead r')).2 tail rest _ _ hfacts ⟨by omega, hrest⟩ hbeside.skip hclean

theorem alike_node (span span' : Span) :
    Alike offset facts p (fun x x' => x.bare offset = x'.bare 0) (fun _ => p) (node span)
      (node span') := by
  refine ⟨(evolving_node span).quiet, fun kinds rest r r' _ hplace hbeside _ => ?_⟩
  refine ⟨kinds, rest, ⟨hbeside.left, hbeside.right, hbeside.inside, ?_, hbeside.clean⟩, ?_, hplace⟩
  · change r'.nextId + 1 = r.nextId + 1 + offset
    rw [hbeside.nextId]
    omega
  · change (⟨r.nextId + offset, default⟩ : Node) = ⟨r'.nextId + 0, default⟩
    rw [hbeside.nextId, Nat.add_zero]

theorem alike_nodeFrom (start start' : Span) :
    Alike offset facts p (fun x x' => x.bare offset = x'.bare 0) (fun _ => p) (nodeFrom start)
      (nodeFrom start') := by
  refine ⟨(evolving_nodeFrom start).quiet, fun kinds rest r r' hfacts hplace hbeside hclean => ?_⟩
  exact (alike_node (start.merge (r.previous.getD (tokenAhead r).span))
    (start'.merge (r'.previous.getD (tokenAhead r').span))).2 kinds rest r r' hfacts hplace hbeside
      hclean

include hafter

theorem Alike.eatIf {accepts : TokenKind → Bool} {f f' : Bool → ReadM β}
    (hend : accepts .endOfFile = false) (hsemicolon : accepts (.symbol .semicolon) = false)
    (htrue : Alike offset facts (upto after (n - 1)) T t (f true) (f' true))
    (hfalse : Alike offset facts (upto after n) T t (f false) (f' false)) :
    Alike offset facts (upto after n) T t (ReadM.eatIf accepts >>= f)
      (ReadM.eatIf accepts >>= f') := by
  rw [eatIf_bind, eatIf_bind]
  refine Alike.kind hafter (fun kind => ?_) fun kind hkind => ?_
  · cases haccepts : accepts kind with
    | true => exact .skip htrue
    | false => exact hfalse.weaken (fun _ _ h => upto_of_facing (Nat.le_refl n) h) fun _ _ _ h => h
  · have hnone : accepts kind = false := by obtain rfl | rfl := hkind <;> assumption
    simp only [hend, hnone]
    exact hfalse.weaken (fun _ _ h => upto_of_ended (Nat.le_refl n) h) fun _ _ _ h => h

theorem Alike.eat {s : Symbol} {f f' : Bool → ReadM β} (hs : s ≠ .semicolon)
    (htrue : Alike offset facts (upto after (n - 1)) T t (f true) (f' true))
    (hfalse : Alike offset facts (upto after n) T t (f false) (f' false)) :
    Alike offset facts (upto after n) T t (ReadM.eat s >>= f) (ReadM.eat s >>= f') :=
  .eatIf hafter rfl (by simp [isSymbol, Ne.symm hs]) htrue hfalse

theorem alike_expect {s : Symbol} (hs : s ≠ .semicolon) :
    Alike offset facts (upto after n) (fun _ _ => True) (fun _ => upto after (n - 1)) (expect s)
      (expect s) :=
  .eat hafter hs (.pure (fun _ => trivial) fun _ _ h => h) (.ofReport (reads_reportExpected _))

theorem alike_expectName :
    Alike offset facts (upto after n) (fun x x' => x.bare = x'.bare) (fun _ => upto after (n - 1))
      expectName expectName := by
  refine Alike.current hafter (fun kind span span' => ?_) fun kind span span' hkind => ?_
  · dsimp only
    split
    · exact .skip (.pure (fun _ => rfl) fun _ _ h => h)
    · exact .ofReport ((reads_reportExpected _).bind fun _ => .pure False.elim)
  · exact .ofReport ((reads_reportExpected _).bind fun _ => .pure False.elim)

theorem alike_typeName :
    Alike offset facts (upto after n) (fun x x' => x.bare = x'.bare) (fun _ => upto after (n - 1))
      typeName typeName := by
  refine Alike.current hafter (fun kind span span' => ?_) fun kind span span' hkind => ?_
  · dsimp only
    split
    · exact .skip (.pure (fun _ => rfl) fun _ _ h => h)
    · exact .ofReport ((reads_reportExpected _).bind fun _ => .pure False.elim)
  · exact .ofReport ((reads_reportExpected _).bind fun _ => .pure False.elim)

theorem alike_typeNames {depth depth' : Nat} (h : 16 * n + 1 ≤ depth + 16)
    (h' : 16 * n + 1 ≤ depth' + 16) :
    Alike offset facts (upto after n) (fun x x' => x.map Name.bare = x'.map Name.bare)
      (fun _ => upto after n) (typeNames depth) (typeNames depth') := by
  induction depth generalizing facts n depth' with
  | zero =>
    exact .ofQuiet (walks_typeNames 0).quiet fun _ _ hplace => by obtain ⟨hlt, -⟩ := hplace; omega
  | succ depth ih =>
    cases depth' with
    | zero =>
      exact .ofQuiet (walks_typeNames _).quiet fun _ _ hplace => by obtain ⟨hlt, -⟩ := hplace; omega
    | succ depth' =>
      refine .eat hafter (by decide) ?_ (.pure (fun _ => rfl) fun _ _ hplace => hplace)
      refine (alike_typeName hafter).bind fun name name' => ?_
      refine (ih (by omega) (by omega)).bind fun names names' => .pure ?_ fun _ _ hplace => ?_
      · rintro ⟨⟨-, hname⟩, hnames⟩
        rw [List.map_cons, List.map_cons, hname, hnames]
      · exact upto_mono (by omega) hplace

theorem alike_typeRef {depth depth' : Nat} (h : 16 * n + 1 ≤ depth + 16)
    (h' : 16 * n + 1 ≤ depth' + 16) :
    Alike offset facts (upto after n) (fun x x' => x.bare = x'.bare) (fun _ => upto after n)
      (typeRef depth) (typeRef depth') := by
  refine (alike_typeName hafter).bind fun first first' => ?_
  refine (alike_typeNames hafter (by omega) (by omega)).bind fun others others' => ?_
  refine ⟨by split <;> exact .pure trivial, fun kinds rest r r' hfacts hplace hbeside _ => ?_⟩
  obtain ⟨⟨-, hfirst⟩, hothers⟩ := hfacts
  have hlast : others.getLast?.map Name.bare = others'.getLast?.map Name.bare := by
    rw [← List.getLast?_map, ← List.getLast?_map, hothers]
  have hplace' := upto_mono (Nat.sub_le n 1) hplace
  cases hleft : others.getLast? with
  | none =>
    cases hright : others'.getLast? with
    | none => exact ⟨kinds, rest, hbeside, congrArg TypeRef.named hfirst, hplace'⟩
    | some last' => simp [hleft, hright] at hlast
  | some last =>
    cases hright : others'.getLast? with
    | none => simp [hleft, hright] at hlast
    | some last' =>
      refine ⟨kinds, rest, hbeside, ?_, hplace'⟩
      change TypeRef.union ((first :: others).map Name.bare) default =
        TypeRef.union ((first' :: others').map Name.bare) default
      rw [List.map_cons, List.map_cons, hfirst, hothers]

theorem alike_annotated {depth depth' : Nat} (h : 16 * n + 1 ≤ depth + 16)
    (h' : 16 * n + 1 ≤ depth' + 16) :
    Alike offset facts (upto after n) (fun x x' => x.map TypeRef.bare = x'.map TypeRef.bare)
      (fun _ => upto after n) (annotated depth) (annotated depth') := by
  refine .eat hafter (by decide) ?_ (.pure (fun _ => rfl) fun _ _ hplace => hplace)
  refine (alike_typeRef hafter (by omega) (by omega)).bind fun type type' => .pure ?_ ?_
  · exact fun hfacts => congrArg some hfacts.2
  · exact fun _ _ hplace => upto_mono (Nat.sub_le n 1) hplace

omit hafter in
theorem alike_binaryNode (operator : BinaryOperator) {left left' right right' : Expression}
    (hleft : facts → left.bare offset = left'.bare 0)
    (hright : facts → right.bare offset = right'.bare 0) :
    Alike offset facts p (fun x x' => x.bare offset = x'.bare 0) (fun _ => p)
      (binaryNode operator left right) (binaryNode operator left' right') := by
  refine (alike_node _ _).bind fun node node' => .pure ?_ fun _ _ hplace => hplace
  rintro ⟨hfacts, hnode⟩
  simp only [Expression.bare, hleft hfacts, hright hfacts, hnode]

omit hafter in
theorem run_eatIf_of_eq_false {accepts : TokenKind → Bool} {r : Reader}
    (h : accepts (tokenAhead r).kind = false) : (eatIf accepts).run r = (false, r) := by
  change (if accepts (tokenAhead r).kind then (do modify skip; return true) else
    Pure.pure false : ReadM Bool).run r = (false, r)
  rw [h]
  rfl

omit hafter in
theorem reported_expect {s : Symbol} {f : Unit → ReadM β} (hf : Quiet (f ())) {r : Reader}
    (hend : r.kinds = [.endOfFile]) : ((expect s >>= f).run r).2.diagnostics ≠ #[] := by
  intro hclean
  have hmiddle : ((expect s).run r).2.diagnostics = #[] := (hf _ hclean).1
  have hmissing : (eat s).run r = (false, r) :=
    run_eatIf_of_eq_false (by rw [kind_tokenAhead, hend]; rfl)
  have hexpect : (expect s).run r = (reportExpected s!"'{s.text}'").run r := by
    change (if !((eat s).run r).1 then reportExpected s!"'{s.text}'" else Pure.pure ()).run
      ((eat s).run r).2 = _
    rw [hmissing]
    rfl
  rw [hexpect] at hmiddle
  exact (reads_reportExpected _ r hmiddle).2

omit hafter in
theorem Alike.expect_ended {s : Symbol} {f : Unit → ReadM β} {action' : ReadM β}
    (hf : Quiet (f ())) :
    Alike offset facts (ended after n) T t (ReadM.expect s >>= f) action' := by
  refine ⟨(passing_expect s).quiet.andThen fun _ => hf, ?_⟩
  intro kinds rest r r' _ hplace hbeside hclean
  obtain ⟨rfl, -⟩ := hplace
  exact absurd hclean (reported_expect hf hbeside.left)

/-- The rule for a list that may be closed at once. At the end of the text the first reader sees that
something is missing. -/
theorem Alike.unlessClosed {s : Symbol} {close close' more more' : ReadM β}
    (hclose : Alike offset facts (upto after n) T t close close')
    (hmore : Alike offset facts (upto after n) T t more more')
    (hend : Alike offset facts (ended after n) T t close more') :
    Alike offset facts (upto after n) T t
      (do if (← check s) || (← atEnd) then close else more)
      (do if (← check s) || (← atEnd) then close' else more') := by
  have hkind : ∀ first second : ReadM β, (do if (← check s) || (← atEnd) then first else second) =
      ReadM.kind >>= fun kind => if isSymbol s kind || kind.isEndOfFile then first else second :=
    fun _ _ => rfl
  rw [hkind, hkind]
  refine .kind hafter (fun kind => ?_) fun kind hkind => ?_
  · cases isSymbol s kind || kind.isEndOfFile with
    | true => exact hclose.weaken (fun _ _ => upto_of_facing (Nat.le_refl _)) fun _ _ _ h => h
    | false => exact hmore.weaken (fun _ _ => upto_of_facing (Nat.le_refl _)) fun _ _ _ h => h
  · obtain rfl | rfl := hkind
    · exact hclose.weaken (fun _ _ => upto_of_ended (Nat.le_refl _)) fun _ _ _ h => h
    · change Alike offset facts (ended after n) T t close
        (if isSymbol s (.symbol .semicolon) || false then close' else more')
      cases isSymbol s (.symbol .semicolon) with
      | true => exact hclose.weaken (fun _ _ => upto_of_ended (Nat.le_refl _)) fun _ _ _ h => h
      | false => exact hend

theorem Alike.check {s : Symbol} {f f' : Bool → ReadM β} (hs : s ≠ .semicolon)
    (htrue : Alike offset facts (facing after (.symbol s) n) T t (f true) (f' true))
    (hfalse : Alike offset facts (upto after n) T t (f false) (f' false)) :
    Alike offset facts (upto after n) T t (ReadM.check s >>= f) (ReadM.check s >>= f') := by
  have hkind : ∀ g : Bool → ReadM β,
      ReadM.check s >>= g = ReadM.kind >>= fun kind => g (isSymbol s kind) := fun _ => rfl
  rw [hkind, hkind]
  refine .kind hafter (fun kind => ?_) fun kind hkind => ?_
  · cases hsymbol : isSymbol s kind with
    | true =>
      obtain rfl := eq_of_isSymbol hsymbol
      exact htrue
    | false => exact hfalse.weaken (fun _ _ => upto_of_facing (Nat.le_refl _)) fun _ _ _ h => h
  · have hother : isSymbol s kind = false := by
      obtain rfl | rfl := hkind
      · rfl
      · exact beq_false_of_ne (Ne.symm hs)
    rw [hother]
    exact hfalse.weaken (fun _ _ => upto_of_ended (Nat.le_refl _)) fun _ _ _ h => h

/-- The readers read alike and take at least one token, if both have some depth for each token that
is ahead and a little more: as much as the functions need that are called before a token is taken. -/
def AlikeAt (offset : Nat) (after : List TokenKind) (rank : Nat) (Q : α → α → Prop)
    (action : Nat → ReadM α) (depth : Nat) : Prop :=
  ∀ ⦃facts : Prop⦄ ⦃n depth' : Nat⦄, 16 * n + rank ≤ depth + 16 → 16 * n + rank ≤ depth' + 16 →
    Alike offset facts (upto after n) Q (fun _ => upto after (n - 1)) (action depth)
      (action depth')

def AlikeOn (offset : Nat) (after : List TokenKind) (action : Nat → Expression → ReadM Expression)
    (depth : Nat) : Prop :=
  ∀ ⦃facts : Prop⦄ ⦃n depth' : Nat⦄ ⦃e e' : Expression⦄,
    (facts → e.bare offset = e'.bare 0) → 16 * n + 1 ≤ depth + 16 → 16 * n + 1 ≤ depth' + 16 →
      Alike offset facts (upto after n) (fun x x' => x.bare offset = x'.bare 0)
        (fun _ => upto after n) (action depth e) (action depth' e')

omit hafter in
theorem alikeAt_zero {rank : Nat} (hrank : 0 < rank) {action : Nat → ReadM α}
    (h : Quiet (action 0)) : AlikeAt offset after rank Q action 0 := by
  intro facts n depth' hd _
  exact .ofQuiet h fun _ _ hplace => by obtain ⟨hlt, -⟩ := hplace; omega

omit hafter in
theorem alikeAt_succ {rank depth : Nat} (hrank : 0 < rank) {action : Nat → ReadM α}
    (hquiet : Quiet (action (depth + 1)))
    (h : ∀ (facts : Prop) (n depth' : Nat), 16 * n + rank ≤ depth + 17 →
      16 * n + rank ≤ depth' + 17 → Alike offset facts (upto after n) Q
        (fun _ => upto after (n - 1)) (action (depth + 1)) (action (depth' + 1))) :
    AlikeAt offset after rank Q action (depth + 1) := by
  intro facts n depth' hd hd'
  cases depth' with
  | zero => exact .ofQuiet hquiet fun _ _ hplace => by obtain ⟨hlt, -⟩ := hplace; omega
  | succ depth' => exact h facts n depth' (by omega) (by omega)

structure AlikeParts (offset : Nat) (after : List TokenKind) (depth : Nat) : Prop where
  expression : AlikeAt offset after 5 (fun x x' => x.bare offset = x'.bare 0) expression depth
  binary (least : Nat) :
    AlikeAt offset after 4 (fun x x' => x.bare offset = x'.bare 0) (binary · least) depth
  climb (least : Nat) : AlikeOn offset after (climb · least) depth
  power : AlikeAt offset after 3 (fun x x' => x.bare offset = x'.bare 0) power depth
  unary : AlikeAt offset after 2 (fun x x' => x.bare offset = x'.bare 0) unary depth
  postfixes : AlikeOn offset after postfixes depth
  arguments : AlikeAt offset after 6
    (fun x x' => Expression.bareList offset x = Expression.bareList 0 x') arguments depth
  primary : AlikeAt offset after 1 (fun x x' => x.bare offset = x'.bare 0) primary depth
  properties : AlikeAt offset after 6
    (fun x x' => Expression.bareEntries offset x = Expression.bareEntries 0 x') properties depth
  propertyKey : AlikeAt offset after 2 (fun x x' => x.bare offset = x'.bare 0) propertyKey depth

namespace AlikeParts

variable {depth : Nat}

theorem expression_succ (h : AlikeParts offset after depth) :
    AlikeAt offset after 5 (fun x x' => x.bare offset = x'.bare 0) ReadM.expression
      (depth + 1) := by
  refine alikeAt_succ (by decide) (buildsParts _).expression.quiet ?_
  intro facts n depth' hd hd'
  refine (h.binary 1 (by omega) (by omega)).bind fun target target' => ?_
  refine .kind hafter (fun kind => ?_) fun kind hkind => ?_
  · cases assignment? kind with
    | none => exact .pure (fun hfacts => hfacts.2) fun _ _ => upto_of_facing (Nat.le_refl _)
    | some operator =>
      refine .skip ((h.expression (by omega) (by omega)).bind fun value value' =>
        (alike_node _ _).bind fun node node' => .pure ?_ fun _ _ => upto_mono (by omega))
      rintro ⟨⟨⟨-, htarget⟩, hvalue⟩, hnode⟩
      simp only [Expression.bare, htarget, hvalue, hnode]
  · obtain rfl | rfl := hkind <;>
      exact .pure (fun hfacts => hfacts.2) fun _ _ => upto_of_ended (Nat.le_refl _)

omit hafter in
theorem binary_succ (h : AlikeParts offset after depth) (least : Nat) :
    AlikeAt offset after 4 (fun x x' => x.bare offset = x'.bare 0) (ReadM.binary · least)
      (depth + 1) := by
  refine alikeAt_succ (by decide) ((buildsParts _).binary least).quiet ?_
  intro facts n depth' hd hd'
  exact (h.power (by omega) (by omega)).bind fun left left' =>
    h.climb least (fun hfacts => hfacts.2) (by omega) (by omega)

theorem climb_succ (h : AlikeParts offset after depth) (least : Nat) :
    AlikeOn offset after (ReadM.climb · least) (depth + 1) := by
  intro facts n depth' e e' he hd hd'
  cases depth' with
  | zero =>
    exact .ofQuiet (evolving_climb _ _ _).quiet fun _ _ hplace => by
      obtain ⟨hlt, -⟩ := hplace
      omega
  | succ depth' =>
    refine .kind hafter (fun kind => ?_) fun kind hkind => ?_
    · cases binaryOperator? kind with
      | none => exact .pure he fun _ _ => upto_of_facing (Nat.le_refl _)
      | some operator =>
        dsimp only
        split
        · refine .skip ((h.binary _ (by omega) (by omega)).bind fun right right' => ?_)
          refine (alike_binaryNode operator (fun hfacts => he hfacts.1) fun hfacts => hfacts.2).bind
            fun whole whole' => ?_
          exact (h.climb least (fun hfacts => hfacts.2) (by omega) (by omega)).weaken
            (fun _ _ hplace => hplace) fun _ _ _ => upto_mono (by omega)
        · exact .pure he fun _ _ => upto_of_facing (Nat.le_refl _)
    · obtain rfl | rfl := hkind <;> exact .pure he fun _ _ => upto_of_ended (Nat.le_refl _)

theorem power_succ (h : AlikeParts offset after depth) :
    AlikeAt offset after 3 (fun x x' => x.bare offset = x'.bare 0) ReadM.power (depth + 1) := by
  refine alikeAt_succ (by decide) (buildsParts _).power.quiet ?_
  intro facts n depth' hd hd'
  refine (h.unary (by omega) (by omega)).bind fun left left' => .eat hafter (by decide) ?_ ?_
  · refine (h.power (by omega) (by omega)).bind fun right right' => ?_
    exact (alike_binaryNode .power (fun hfacts => hfacts.1.2) fun hfacts => hfacts.2).weaken
      (fun _ _ hplace => hplace) fun _ _ _ => upto_mono (by omega)
  · exact .pure (fun hfacts => hfacts.2) fun _ _ hplace => hplace

theorem unary_succ (h : AlikeParts offset after depth) :
    AlikeAt offset after 2 (fun x x' => x.bare offset = x'.bare 0) ReadM.unary (depth + 1) := by
  refine alikeAt_succ (by decide) (buildsParts _).unary.quiet ?_
  intro facts n depth' hd hd'
  have hplain : Alike offset facts (upto after n) (fun x x' => x.bare offset = x'.bare 0)
      (fun _ => upto after (n - 1)) (ReadM.primary depth >>= ReadM.postfixes depth)
      (ReadM.primary depth' >>= ReadM.postfixes depth') :=
    (h.primary (by omega) (by omega)).bind fun first first' =>
      h.postfixes (fun hfacts => hfacts.2) (by omega) (by omega)
  refine .kind hafter (fun kind => ?_) fun kind hkind => ?_
  · cases unaryOperator? kind with
    | none => exact hplain.weaken (fun _ _ => upto_of_facing (Nat.le_refl _)) fun _ _ _ h => h
    | some operator =>
      refine .advance fun token token' => (h.unary (by omega) (by omega)).bind
        fun operand operand' => (alike_node _ _).bind fun node node' =>
          .pure ?_ fun _ _ => upto_mono (by omega)
      rintro ⟨⟨-, hoperand⟩, hnode⟩
      simp only [Expression.bare, hoperand, hnode]
  · obtain rfl | rfl := hkind <;>
      exact hplain.weaken (fun _ _ => upto_of_ended (Nat.le_refl _)) fun _ _ _ h => h

theorem postfixes_succ (h : AlikeParts offset after depth) :
    AlikeOn offset after ReadM.postfixes (depth + 1) := by
  intro facts n depth' e e' he hd hd'
  cases depth' with
  | zero =>
    exact .ofQuiet (evolving_postfixes _ _).quiet fun _ _ hplace => by
      obtain ⟨hlt, -⟩ := hplace
      omega
  | succ depth' =>
    refine .kind hafter (fun kind => ?_) fun kind hkind => ?_
    · dsimp only
      split
      · refine .skip ((h.arguments (by omega) (by omega)).bind fun arguments arguments' =>
          (alike_nodeFrom _ _).bind fun node node' => ?_)
        refine (h.postfixes ?_ (by omega) (by omega)).weaken (fun _ _ hplace => hplace)
          fun _ _ _ => upto_mono (by omega)
        rintro ⟨⟨hfacts, harguments⟩, hnode⟩
        simp only [Expression.bare, he hfacts, harguments, hnode]
      · refine .skip ((alike_expectName hafter).bind fun name name' =>
          (alike_node _ _).bind fun node node' => ?_)
        refine (h.postfixes ?_ (by omega) (by omega)).weaken (fun _ _ hplace => hplace)
          fun _ _ _ => upto_mono (by omega)
        rintro ⟨⟨hfacts, hname⟩, hnode⟩
        simp only [Expression.bare, he hfacts, hname, hnode]
      · refine .skip ((h.expression (by omega) (by omega)).bind fun index index' =>
          (alike_expect hafter (by decide)).bind fun _ _ =>
            (alike_nodeFrom _ _).bind fun node node' => ?_)
        refine (h.postfixes ?_ (by omega) (by omega)).weaken (fun _ _ hplace => hplace)
          fun _ _ _ => upto_mono (by omega)
        rintro ⟨⟨⟨hfacts, hindex⟩, -⟩, hnode⟩
        simp only [Expression.bare, he hfacts, hindex, hnode]
      · exact .pure he fun _ _ => upto_of_facing (Nat.le_refl _)
    · obtain rfl | rfl := hkind <;> exact .pure he fun _ _ => upto_of_ended (Nat.le_refl _)

theorem arguments_succ (h : AlikeParts offset after depth) :
    AlikeAt offset after 6 (fun x x' => Expression.bareList offset x = Expression.bareList 0 x')
      ReadM.arguments (depth + 1) := by
  refine alikeAt_succ (by decide) (buildsParts _).arguments.quiet ?_
  intro facts n depth' hd hd'
  refine .unlessClosed hafter ?_ ?_ (.expect_ended (.pure trivial))
  · exact (alike_expect hafter (by decide)).bind fun _ _ =>
      .pure (fun _ => rfl) fun _ _ hplace => hplace
  · refine (h.expression (by omega) (by omega)).bind fun first first' => .eat hafter (by decide) ?_ ?_
    · refine (h.arguments (by omega) (by omega)).bind fun rest rest' =>
        .pure ?_ fun _ _ => upto_mono (by omega)
      rintro ⟨⟨-, hfirst⟩, hrest⟩
      simp only [Expression.bareList, hfirst, hrest]
    · refine (alike_expect hafter (by decide)).bind fun _ _ => .pure ?_ fun _ _ => upto_mono (by omega)
      rintro ⟨⟨-, hfirst⟩, -⟩
      simp only [Expression.bareList, hfirst]

theorem primary_succ (h : AlikeParts offset after depth) :
    AlikeAt offset after 1 (fun x x' => x.bare offset = x'.bare 0) ReadM.primary (depth + 1) := by
  refine alikeAt_succ (by decide) (buildsParts _).primary.quiet ?_
  intro facts n depth' hd hd'
  have hunexpected : ∀ fault span, Reads (fun _ => False) (do
      report fault span
      modify skip
      return Expression.hole (← node span)) := fun _ _ =>
    (reads_report _ _).bind fun _ => passing_skip.quiet.andThen fun _ =>
      (evolving_node _).quiet.andThen fun _ => .pure False.elim
  refine .current hafter (fun kind span span' => ?_) fun kind span span' _ => ?_
  · dsimp only
    cases literal? kind with
    | some value =>
      refine .skip ((alike_node _ _).bind fun node node' => .pure ?_ fun _ _ hplace => hplace)
      rintro ⟨-, hnode⟩
      simp only [Expression.bare, hnode]
    | none =>
      dsimp only
      split
      · refine .skip ((alike_node _ _).bind fun node node' => .pure ?_ fun _ _ hplace => hplace)
        rintro ⟨-, hnode⟩
        simp only [Expression.bare, hnode]
      · refine .skip ((h.expression (by omega) (by omega)).bind fun inner inner' =>
          (alike_expect hafter (by decide)).bind fun _ _ =>
            (alike_nodeFrom _ _).bind fun node node' => .pure ?_ fun _ _ => upto_mono (by omega))
        rintro ⟨⟨⟨-, hinner⟩, -⟩, hnode⟩
        simp only [Expression.bare, hinner, hnode]
      · refine .skip ((h.properties (by omega) (by omega)).bind fun properties properties' =>
          (alike_nodeFrom _ _).bind fun node node' => .pure ?_ fun _ _ => upto_mono (by omega))
        rintro ⟨⟨-, hproperties⟩, hnode⟩
        simp only [Expression.bare, hproperties, hnode]
      · exact .ofReport (hunexpected _ _)
  · exact .ofReport (hunexpected _ _)

theorem properties_succ (h : AlikeParts offset after depth) :
    AlikeAt offset after 6
      (fun x x' => Expression.bareEntries offset x = Expression.bareEntries 0 x')
      ReadM.properties (depth + 1) := by
  refine alikeAt_succ (by decide) (buildsParts _).properties.quiet ?_
  intro facts n depth' hd hd'
  refine .unlessClosed hafter ?_ ?_ (.expect_ended (.pure trivial))
  · exact (alike_expect hafter (by decide)).bind fun _ _ =>
      .pure (fun _ => rfl) fun _ _ hplace => hplace
  · refine (h.propertyKey (by omega) (by omega)).bind fun key key' =>
      (alike_expect hafter (by decide)).bind fun _ _ =>
        (h.expression (by omega) (by omega)).bind fun value value' => .eat hafter (by decide) ?_ ?_
    · refine (h.properties (by omega) (by omega)).bind fun rest rest' =>
        .pure ?_ fun _ _ => upto_mono (by omega)
      rintro ⟨⟨⟨⟨-, hkey⟩, -⟩, hvalue⟩, hrest⟩
      simp only [Expression.bareEntries, hkey, hvalue, hrest]
    · refine (alike_expect hafter (by decide)).bind fun _ _ => .pure ?_ fun _ _ => upto_mono (by omega)
      rintro ⟨⟨⟨⟨-, hkey⟩, -⟩, hvalue⟩, -⟩
      simp only [Expression.bareEntries, hkey, hvalue]

theorem propertyKey_succ (h : AlikeParts offset after depth) :
    AlikeAt offset after 2 (fun x x' => x.bare offset = x'.bare 0) ReadM.propertyKey
      (depth + 1) := by
  refine alikeAt_succ (by decide) (buildsParts _).propertyKey.quiet ?_
  intro facts n depth' hd hd'
  refine .check hafter (by decide) (.advance fun token token' => ?_) (h.primary (by omega) (by omega))
  refine (h.expression (by omega) (by omega)).bind fun inner inner' =>
    (alike_expect hafter (by decide)).bind fun _ _ =>
      (alike_nodeFrom _ _).bind fun node node' => .pure ?_ fun _ _ => upto_mono (by omega)
  rintro ⟨⟨⟨-, hinner⟩, -⟩, hnode⟩
  simp only [Expression.bare, hinner, hnode]

end AlikeParts

omit hafter in
theorem alikeParts_zero : AlikeParts offset after 0 where
  expression := alikeAt_zero (by decide) walks_placeholder.quiet
  binary _ := alikeAt_zero (by decide) walks_placeholder.quiet
  climb _ _ _ _ _ _ _ hd _ :=
    .ofQuiet (evolving_climb _ _ _).quiet fun _ _ hplace => by obtain ⟨hlt, -⟩ := hplace; omega
  power := alikeAt_zero (by decide) walks_placeholder.quiet
  unary := alikeAt_zero (by decide) walks_placeholder.quiet
  postfixes _ _ _ _ _ _ hd _ :=
    .ofQuiet (evolving_postfixes _ _).quiet fun _ _ hplace => by obtain ⟨hlt, -⟩ := hplace; omega
  arguments := alikeAt_zero (by decide) (.pure trivial)
  primary := alikeAt_zero (by decide) walks_placeholder.quiet
  properties := alikeAt_zero (by decide) (.pure trivial)
  propertyKey := alikeAt_zero (by decide) walks_placeholder.quiet

theorem alikeParts (depth : Nat) : AlikeParts offset after depth := by
  induction depth with
  | zero => exact alikeParts_zero
  | succ depth h =>
    exact ⟨h.expression_succ hafter, h.binary_succ, h.climb_succ hafter, h.power_succ hafter,
      h.unary_succ hafter, h.postfixes_succ hafter, h.arguments_succ hafter, h.primary_succ hafter,
      h.properties_succ hafter, h.propertyKey_succ hafter⟩

end ReadM

end StackScript
