import StackScript.Proofs.Tree.Holes
import StackScript.Proofs.Tree.Pieces

set_option autoImplicit false

/-!
# How the pieces of a tree lie: expressions

Main statement: `ReadM.laysParts`. If nothing is reported, an expression reaches from the first of
its tokens to the last. So what it is made of lies inside it, one behind the other.

The reader is followed along the tokens by its place among them. At each place it is known which
token is ahead and which was read last. How far a call has come is known only if nothing was
reported, so what is known of a result is stated under that condition.
-/
namespace StackScript

variable {tokens : List Token}

/-- The token at this place, the end of the text behind them all. -/
def tokenAt (tokens : List Token) (i : Nat) : Token := tokens.getD i ⟨.endOfFile, ⟨0, 0⟩⟩

theorem tokenAt_eq {i : Nat} (h : i < tokens.length) : tokenAt tokens i = tokens[i] := by
  rw [tokenAt, List.getD_eq_getElem?_getD, List.getElem?_eq_getElem h, Option.getD_some]

theorem lt_of_inside {i : Nat} (h : (tokenAt tokens i).kind.isEndOfFile = false) :
    i < tokens.length := by
  refine Nat.lt_of_not_le fun hle => ?_
  rw [tokenAt, List.getD_eq_getElem?_getD, List.getElem?_eq_none hle] at h
  cases h

structure InOrder (tokens : List Token) : Prop where
  apart : tokens.Pairwise fun first second => first.span.stop ≤ second.span.start
  proper : ∀ token ∈ tokens, token.span.start ≤ token.span.stop

namespace InOrder

variable {i j : Nat}

theorem stop_le_start (h : InOrder tokens) (hij : i < j) (hj : j < tokens.length) :
    (tokenAt tokens i).span.stop ≤ (tokenAt tokens j).span.start := by
  have hi : i < tokens.length := Nat.lt_trans hij hj
  rw [tokenAt_eq hi, tokenAt_eq hj]
  exact List.pairwise_iff_getElem.mp h.apart i j hi hj hij

theorem start_le_stop (h : InOrder tokens) (hi : i < tokens.length) :
    (tokenAt tokens i).span.start ≤ (tokenAt tokens i).span.stop := by
  rw [tokenAt_eq hi]
  exact h.proper _ (List.getElem_mem hi)

theorem start_le_start (h : InOrder tokens) (hij : i ≤ j) (hj : j < tokens.length) :
    (tokenAt tokens i).span.start ≤ (tokenAt tokens j).span.start := by
  obtain rfl | hlt := Nat.eq_or_lt_of_le hij
  · exact Nat.le_refl _
  · exact Nat.le_trans (h.start_le_stop (Nat.lt_trans hlt hj)) (h.stop_le_start hlt hj)

theorem stop_le_stop (h : InOrder tokens) (hij : i ≤ j) (hj : j < tokens.length) :
    (tokenAt tokens i).span.stop ≤ (tokenAt tokens j).span.stop := by
  obtain rfl | hlt := Nat.eq_or_lt_of_le hij
  · exact Nat.le_refl _
  · exact Nat.le_trans (h.stop_le_start hlt hj) (h.start_le_stop hj)

end InOrder

def Span.Covers (outer inner : Span) : Prop :=
  outer.start ≤ inner.start ∧ inner.stop ≤ outer.stop

/-- The span reaches from the token at `i` to the last one before `j`. -/
structure Spans (tokens : List Token) (i j : Nat) (span : Span) : Prop where
  lt : i < j
  le : j ≤ tokens.length
  start : span.start = (tokenAt tokens i).span.start
  stop : span.stop = (tokenAt tokens (j - 1)).span.stop

namespace Spans

variable {i i' j j' : Nat} {a b : Span}

theorem token (h : i < tokens.length) : Spans tokens i (i + 1) (tokenAt tokens i).span :=
  ⟨Nat.lt_succ_self i, h, rfl, rfl⟩

theorem merge (ho : InOrder tokens) (ha : Spans tokens i j a) (hb : Spans tokens i' j' b)
    (hi : i ≤ i') (hj : j ≤ j') : Spans tokens i j' (a.merge b) := by
  have halt := ha.lt
  have hblt := hb.lt
  have hble := hb.le
  refine ⟨by omega, hble, ?_, ?_⟩
  · rw [Span.merge, ha.start, hb.start]
    exact Nat.min_eq_left (ho.start_le_start hi (by omega))
  · rw [Span.merge, ha.stop, hb.stop]
    exact Nat.max_eq_right (ho.stop_le_stop (by omega) (by omega))

theorem apart (ho : InOrder tokens) (ha : Spans tokens i j a) (hb : Spans tokens i' j' b)
    (h : j ≤ i') : a.stop ≤ b.start := by
  have halt := ha.lt
  have hblt := hb.lt
  have hble := hb.le
  rw [ha.stop, hb.start]
  exact ho.stop_le_start (by omega) (by omega)

theorem covers (ho : InOrder tokens) (ha : Spans tokens i j a) (hb : Spans tokens i' j' b)
    (hi : i ≤ i') (hj : j' ≤ j) : a.Covers b := by
  have hblt := hb.lt
  have hale := ha.le
  refine ⟨?_, ?_⟩
  · rw [ha.start, hb.start]
    exact ho.start_le_start hi (by omega)
  · rw [ha.stop, hb.stop]
    exact ho.stop_le_stop (by omega) (by omega)

end Spans

/-- What the piece is made of lies inside it, one behind the other. -/
structure Piece.Neat (p : Piece) : Prop where
  covers : ∀ q ∈ p.inner, p.span.Covers q.span
  apart : p.inner.Pairwise fun first second => first.span.stop ≤ second.span.start

/-- The piece is neat, down to the last, and reaches from the token at `i` to the last one before
`j`. -/
structure Laid (tokens : List Token) (i j : Nat) (p : Piece) : Prop where
  spans : Spans tokens i j p.span
  neat : p.All Piece.Neat

/-- The pieces lie one behind the other from `i` on, all of them before `j`. -/
inductive Row (tokens : List Token) : Nat → Nat → List Piece → Prop where
  | nil {i j : Nat} (le : i ≤ j) : Row tokens i j []
  | cons {i a b j : Nat} {p : Piece} {rest : List Piece} (le : i ≤ a) (first : Laid tokens a b p)
      (tail : Row tokens b j rest) : Row tokens i j (p :: rest)

namespace Row

variable {i i' j j' k : Nat} {p : Piece} {ps qs : List Piece}

theorem before (h : Row tokens i j ps) (hi : i' ≤ i) : Row tokens i' j ps := by
  cases h with
  | nil le => exact .nil (Nat.le_trans hi le)
  | cons le first tail => exact .cons (Nat.le_trans hi le) first tail

theorem after (h : Row tokens i j ps) (hj : j ≤ j') : Row tokens i j' ps := by
  induction h with
  | nil le => exact .nil (Nat.le_trans le hj)
  | cons le first _ ih => exact .cons le first (ih hj)

theorem append (h : Row tokens i j ps) (h' : Row tokens j k qs) : Row tokens i k (ps ++ qs) := by
  induction h with
  | nil le => exact h'.before le
  | cons le first _ ih => exact .cons le first (ih h')

theorem single (h : Laid tokens i j p) : Row tokens i j [p] :=
  .cons (Nat.le_refl i) h (.nil (Nat.le_refl j))

theorem le (h : Row tokens i j ps) : i ≤ j := by
  induction h with
  | nil le => exact le
  | cons le first _ ih =>
    have hlt := first.spans.lt
    omega

theorem lt (h : Row tokens i j (p :: ps)) : i < j ∧ i < tokens.length := by
  cases h with
  | cons le first tail =>
    have hlt := first.spans.lt
    have hle := first.spans.le
    have htail := tail.le
    omega

theorem exists_laid (h : Row tokens i j ps) (hp : p ∈ ps) :
    ∃ a b, i ≤ a ∧ b ≤ j ∧ Laid tokens a b p := by
  induction h with
  | nil => cases hp
  | cons le first tail ih =>
    obtain rfl | hrest := List.mem_cons.mp hp
    · exact ⟨_, _, le, tail.le, first⟩
    · obtain ⟨a', b', ha', hb', hlaid⟩ := ih hrest
      have hlt := first.spans.lt
      exact ⟨a', b', by omega, hb', hlaid⟩

theorem pairwise (ho : InOrder tokens) (h : Row tokens i j ps) :
    ps.Pairwise fun first second => first.span.stop ≤ second.span.start := by
  induction h with
  | nil => exact .nil
  | cons _ first tail ih =>
    refine .cons (fun q hq => ?_) ih
    obtain ⟨a', b', ha', -, hlaid⟩ := tail.exists_laid hq
    exact first.spans.apart ho hlaid.spans ha'

theorem upToLast (h : Row tokens i j ps) (hlast : ps.getLast? = some p) :
    ∃ a b, i ≤ a ∧ b ≤ j ∧ Laid tokens a b p ∧ Row tokens i b ps := by
  induction h with
  | nil => cases hlast
  | @cons i a b j first rest le hfirst tail ih =>
    cases rest with
    | nil =>
      obtain rfl : first = p := Option.some.inj hlast
      exact ⟨a, b, le, tail.le, hfirst, .cons le hfirst (.nil (Nat.le_refl b))⟩
    | cons second rest =>
      rw [List.getLast?_cons_cons] at hlast
      obtain ⟨a', b', ha', hb', hlaid, hrow⟩ := ih hlast
      have hlt := hfirst.spans.lt
      exact ⟨a', b', by omega, hb', hlaid, .cons le hfirst hrow⟩

end Row

section Laid

variable {i j j' k : Nat} {p first second : Piece}

theorem laid_of_row (ho : InOrder tokens) (hspan : Spans tokens i j p.span)
    (hrow : Row tokens i j p.inner) : Laid tokens i j p := by
  refine ⟨hspan, ⟨fun q hq => ?_, hrow.pairwise ho⟩, fun q hq => ?_⟩
  · obtain ⟨a, b, ha, hb, hlaid⟩ := hrow.exists_laid hq
    exact hspan.covers ho hlaid.spans ha hb
  · obtain ⟨a, b, -, -, hlaid⟩ := hrow.exists_laid hq
    exact hlaid.neat

theorem laid_token (ho : InOrder tokens) (h : i < tokens.length)
    (hspan : p.span = (tokenAt tokens i).span) (hinner : p.inner = []) :
    Laid tokens i (i + 1) p := by
  refine laid_of_row ho (hspan ▸ .token h) ?_
  rw [hinner]
  exact .nil (Nat.le_succ i)

theorem laid_pair (ho : InOrder tokens) (hspan : p.span = first.span.merge second.span)
    (hinner : p.inner = [first, second]) (hfirst : Laid tokens i j first)
    (hsecond : Laid tokens j' k second) (hj : j ≤ j') : Laid tokens i k p := by
  have hlt := hfirst.spans.lt
  have hlt' := hsecond.spans.lt
  refine laid_of_row ho ?_ ?_
  · rw [hspan]
    exact hfirst.spans.merge ho hsecond.spans (by omega) (by omega)
  · rw [hinner]
    exact .cons (Nat.le_refl i) hfirst ((Row.single hsecond).before hj)

end Laid

structure Reader.At (tokens : List Token) (i : Nat) (r : Reader) : Prop where
  ahead : r.ahead = tokens.drop i
  previous : ∀ k, i = k + 1 → r.previous = some (tokenAt tokens k).span
  le : i ≤ tokens.length

namespace Reader.At

variable {i : Nat} {r : Reader}

theorem tokenAhead_eq (h : r.At tokens i) : ReadM.tokenAhead r = tokenAt tokens i := by
  rw [ReadM.tokenAhead, tokenAt, h.ahead, List.headD_eq_head?_getD, List.head?_drop,
    List.getD_eq_getElem?_getD]

theorem skip_of_inside (h : r.At tokens i)
    (hinside : (tokenAt tokens i).kind.isEndOfFile = false) : (ReadM.skip r).At tokens (i + 1) := by
  have hi := lt_of_inside hinside
  have hahead : r.ahead = tokenAt tokens i :: tokens.drop (i + 1) := by
    rw [h.ahead, List.drop_eq_getElem_cons hi, tokenAt_eq hi]
  have hskip : ReadM.skip r = { r with
      ahead := tokens.drop (i + 1), previous := some (tokenAt tokens i).span } := by
    unfold ReadM.skip
    rw [hahead]
    simp [hinside]
  rw [hskip]
  refine ⟨rfl, fun k hk => ?_, hi⟩
  obtain rfl : i = k := Nat.succ.inj hk
  rfl

theorem skip_of_end (h : r.At tokens i)
    (hend : (tokenAt tokens i).kind.isEndOfFile = true) : ReadM.skip r = r := by
  have htoken := h.tokenAhead_eq
  unfold ReadM.skip
  split
  · rfl
  · rename_i token rest hahead
    rw [ReadM.tokenAhead, hahead, List.headD_cons] at htoken
    rw [htoken, hend, if_pos rfl]

end Reader.At

namespace ReadM

variable {α β : Type} {i j : Nat} {Q : α → Nat → Prop} {T : β → Nat → Prop}

/-- From the place `i` the action goes on to some place; if nothing is reported in the end, nothing
was before, and the result and the place are in `Q`. -/
def Lays (tokens : List Token) (i : Nat) (Q : α → Nat → Prop) (action : ReadM α) : Prop :=
  ∀ r : Reader, r.At tokens i → ∃ j, i ≤ j ∧ (action.run r).2.At tokens j ∧
    ((action.run r).2.diagnostics = #[] → r.diagnostics = #[] ∧ Q (action.run r).1 j)

namespace Lays

theorem pure {x : α} (h : Q x i) : Lays tokens i Q (pure x) :=
  fun _ hr => ⟨i, Nat.le_refl i, hr, fun hclean => ⟨hclean, h⟩⟩

theorem ofPure {x : α} {f : α → ReadM β} (h : Lays tokens i T (f x)) :
    Lays tokens i T (Pure.pure x >>= f) := h

theorem mono {Q' : α → Nat → Prop} {action : ReadM α} (h : Lays tokens i Q action)
    (himp : ∀ x j, Q x j → Q' x j) : Lays tokens i Q' action := by
  intro r hr
  obtain ⟨j, hij, hat, hquiet⟩ := h r hr
  exact ⟨j, hij, hat, fun hclean => ⟨(hquiet hclean).1, himp _ _ (hquiet hclean).2⟩⟩

/-- What is known of the first result is there to be used for the second, but only after the whole
run is seen to report nothing. -/
theorem bind {action : ReadM α} {f : α → ReadM β} (h : Lays tokens i Q action)
    (hf : ∀ x j, i ≤ j → Lays tokens j (fun y k => Q x j → T y k) (f x)) :
    Lays tokens i T (action >>= f) := by
  intro r hr
  obtain ⟨j, hij, hmiddle, hfirst⟩ := h r hr
  obtain ⟨k, hjk, hend, hlater⟩ := hf (action.run r).1 j hij _ hmiddle
  refine ⟨k, Nat.le_trans hij hjk, hend, fun hclean => ?_⟩
  obtain ⟨hcleanMiddle, hresult⟩ := hlater hclean
  obtain ⟨hcleanStart, hknown⟩ := hfirst hcleanMiddle
  exact ⟨hcleanStart, hresult hknown⟩

theorem map {action : ReadM α} {f : α → β} (h : Lays tokens i Q action)
    (hf : ∀ x j, Q x j → T (f x) j) : Lays tokens i T (f <$> action) := by
  intro r hr
  obtain ⟨j, hij, hat, hquiet⟩ := h r hr
  exact ⟨j, hij, hat, fun hclean => ⟨(hquiet hclean).1, hf _ _ (hquiet hclean).2⟩⟩

theorem current {f : Token → ReadM β} (h : Lays tokens i T (f (tokenAt tokens i))) :
    Lays tokens i T (ReadM.current >>= f) := by
  intro r hr
  have hsame := h r hr
  rwa [← hr.tokenAhead_eq] at hsame

theorem kind {f : TokenKind → ReadM β} (h : Lays tokens i T (f (tokenAt tokens i).kind)) :
    Lays tokens i T (ReadM.kind >>= f) :=
  Lays.current (f := fun token => f token.kind) h

theorem check {s : Symbol} {f : Bool → ReadM β}
    (h : ∀ found, isSymbol s (tokenAt tokens i).kind = found → Lays tokens i T (f found)) :
    Lays tokens i T (ReadM.check s >>= f) :=
  Lays.kind (f := fun kind => f (isSymbol s kind)) (h _ rfl)

theorem atEnd {f : Bool → ReadM β} (h : ∀ ended, Lays tokens i T (f ended)) :
    Lays tokens i T (ReadM.atEnd >>= f) :=
  fun r hr => h _ r hr

theorem get {f : Reader → ReadM β} (h : ∀ r, Lays tokens i T (f r)) :
    Lays tokens i T (MonadState.get >>= f) :=
  fun r hr => h r r hr

theorem objectAhead {f : Bool → ReadM β} (h : ∀ isObject, Lays tokens i T (f isObject)) :
    Lays tokens i T (ReadM.objectAhead >>= f) := by
  intro r hr
  rw [StateT.run_bind, run_objectAhead]
  exact h _ r hr

theorem take {f : Unit → ReadM β} (hinside : (tokenAt tokens i).kind.isEndOfFile = false)
    (h : i < tokens.length → Lays tokens (i + 1) T (f ())) :
    Lays tokens i T (modify ReadM.skip >>= f) := by
  intro r hr
  obtain ⟨j, hij, hat, hquiet⟩ := h (lt_of_inside hinside) _ (hr.skip_of_inside hinside)
  refine ⟨j, by omega, hat, fun hclean => ?_⟩
  rw [← diagnostics_skip r]
  exact hquiet hclean

theorem skip {f : Unit → ReadM β} (h : ∀ j, i ≤ j → Lays tokens j T (f ())) :
    Lays tokens i T (modify ReadM.skip >>= f) := by
  cases hinside : (tokenAt tokens i).kind.isEndOfFile with
  | false => exact .take hinside fun _ => h (i + 1) (Nat.le_succ i)
  | true =>
    intro r hr
    have hrun : (modify ReadM.skip >>= f : ReadM β).run r = (f ()).run r :=
      congrArg (f ()).run (hr.skip_of_end hinside)
    rw [hrun]
    exact h i (Nat.le_refl i) r hr

theorem expect {s : Symbol} {f : Unit → ReadM β} (hsymbol : (tokenAt tokens i).kind = .symbol s)
    (h : i < tokens.length → Lays tokens (i + 1) T (f ())) :
    Lays tokens i T (ReadM.expect s >>= f) := by
  intro r hr
  have hrun : (ReadM.expect s >>= f).run r = (modify ReadM.skip >>= f : ReadM β).run r := by
    rw [StateT.run_bind, run_expect (hr.tokenAhead_eq ▸ hsymbol)]
    rfl
  rw [hrun]
  exact Lays.take (hsymbol ▸ rfl) h r hr

theorem advance {f : Token → ReadM β} (hinside : (tokenAt tokens i).kind.isEndOfFile = false)
    (h : i < tokens.length → Lays tokens (i + 1) T (f (tokenAt tokens i))) :
    Lays tokens i T (ReadM.advance >>= f) :=
  Lays.current (f := fun token => modify ReadM.skip >>= fun _ => f token) (.take hinside h)

theorem eatIf {accepts : TokenKind → Bool} {f : Bool → ReadM β}
    (htrue : ∀ j, i ≤ j → Lays tokens j T (f true)) (hfalse : Lays tokens i T (f false)) :
    Lays tokens i T (ReadM.eatIf accepts >>= f) := by
  rw [eatIf_bind]
  refine .kind ?_
  split
  · exact .skip htrue
  · exact hfalse

theorem eat {s : Symbol} {f : Bool → ReadM β} (htrue : ∀ j, i ≤ j → Lays tokens j T (f true))
    (hfalse : Lays tokens i T (f false)) : Lays tokens i T (ReadM.eat s >>= f) :=
  .eatIf htrue hfalse

theorem guarded {c : Prop} [Decidable c] {rest : Unit → ReadM β}
    (h : ∀ j, i ≤ j → Lays tokens j T (rest ())) :
    Lays tokens i T (if c then modify ReadM.skip >>= rest else rest ()) := by
  split
  · exact .skip h
  · exact h i (Nat.le_refl i)

theorem node {span : Span} {f : Node → ReadM β} (h : ∀ id, Lays tokens i T (f ⟨id, span⟩)) :
    Lays tokens i T (ReadM.node span >>= f) := by
  intro r hr
  obtain ⟨j, hij, hat, hquiet⟩ := h r.nextId { r with nextId := r.nextId + 1 }
    ⟨hr.ahead, hr.previous, hr.le⟩
  exact ⟨j, hij, hat, hquiet⟩

theorem binaryNode {operator : BinaryOperator} {left right : Expression}
    {f : Expression → ReadM β}
    (h : ∀ id, Lays tokens i T (f (.binary ⟨id, left.span.merge right.span⟩ operator left right))) :
    Lays tokens i T (ReadM.binaryNode operator left right >>= f) :=
  Lays.node (f := fun node => f (.binary node operator left right)) h

end Lays

/-- A span that reaches from `start` to the token before the place `i`. -/
structure UpTo (tokens : List Token) (i : Nat) (start span : Span) : Prop where
  le : i ≤ tokens.length
  eq : ∀ k, i = k + 1 → span = start.merge (tokenAt tokens k).span

theorem UpTo.spans (ho : InOrder tokens) {k : Nat} {start span : Span}
    (h : UpTo tokens j start span) (hstart : Spans tokens i k start) (hk : k ≤ j) :
    Spans tokens i j span := by
  have hlt := hstart.lt
  have hle := h.le
  obtain ⟨m, rfl⟩ : ∃ m, j = m + 1 := ⟨j - 1, by omega⟩
  rw [h.eq m rfl]
  exact hstart.merge ho (.token hle) (by omega) hk

theorem Lays.nodeFrom {start : Span} {f : Node → ReadM β}
    (h : ∀ node : Node, Lays tokens i (fun y k => UpTo tokens i start node.span → T y k) (f node)) :
    Lays tokens i T (ReadM.nodeFrom start >>= f) := by
  intro r hr
  have hspan : UpTo tokens i start (start.merge (r.previous.getD (tokenAhead r).span)) :=
    ⟨hr.le, fun k hk => by rw [hr.previous k hk]; rfl⟩
  have hnode : Lays tokens i T
      (ReadM.node (start.merge (r.previous.getD (tokenAhead r).span)) >>= f) :=
    .node fun id => (h ⟨id, _⟩).mono fun _ _ hknown => hknown hspan
  exact hnode r hr

theorem lays_report (fault : SyntaxFault) (span : Span) :
    Lays tokens i (fun _ _ => False) (report fault span) := by
  refine fun r hr => ⟨i, Nat.le_refl i, ⟨hr.ahead, hr.previous, hr.le⟩, fun hclean => ?_⟩
  change r.diagnostics.push _ = #[] at hclean
  simp at hclean

theorem lays_reportExpected (what : String) :
    Lays tokens i (fun _ _ => False) (reportExpected what) :=
  .current (lays_report _ _)

theorem lays_expect (s : Symbol) : Lays tokens i (fun _ _ => True) (expect s) :=
  .eat (fun _ _ => .pure trivial) ((lays_reportExpected _).mono fun _ _ h => h.elim)

theorem lays_semicolons (depth : Nat) : Lays tokens i (fun _ _ => True) (semicolons depth) := by
  induction depth generalizing i with
  | zero => exact .pure trivial
  | succ depth ih => exact .eat (fun _ _ => ih) (.pure trivial)

theorem inside_of_literal {kind : TokenKind} {value : Literal} (h : literal? kind = some value) :
    kind.isEndOfFile = false := by
  cases kind <;> first | rfl | cases h

theorem inside_of_unaryOperator {kind : TokenKind} {operator : UnaryOperator}
    (h : unaryOperator? kind = some operator) : kind.isEndOfFile = false := by
  cases kind <;> first | rfl | cases h

theorem inside_of_isSymbol {kind : TokenKind} {s : Symbol} (h : isSymbol s kind = true) :
    kind.isEndOfFile = false :=
  eq_of_isSymbol h ▸ rfl

section

variable (ho : InOrder tokens)

include ho

theorem lays_expectName :
    Lays tokens i (fun name j => Laid tokens i j (.name name)) expectName := by
  refine .current ?_
  split
  · rename_i hkind
    exact .take (hkind ▸ rfl) fun hi => .pure (laid_token ho hi rfl rfl)
  · exact (lays_reportExpected _).bind fun _ _ _ => .pure False.elim

theorem lays_typeName : Lays tokens i (fun name j => Laid tokens i j (.name name)) typeName := by
  refine .current ?_
  dsimp only
  split
  · rename_i hname
    have hinside : (tokenAt tokens i).kind.isEndOfFile = false := by
      cases hkind : (tokenAt tokens i).kind <;> first | rfl | (rw [hkind] at hname; cases hname)
    exact .take hinside fun hi => .pure (laid_token ho hi rfl rfl)
  · exact (lays_reportExpected _).bind fun _ _ _ => .pure False.elim

theorem lays_typeNames (depth : Nat) :
    Lays tokens i (fun names j => Row tokens i j (names.map .name)) (typeNames depth) := by
  induction depth generalizing i with
  | zero => exact .pure (.nil (Nat.le_refl i))
  | succ depth ih =>
    refine .eat (fun j hij => ?_) (.pure (.nil (Nat.le_refl i)))
    exact (lays_typeName ho).bind fun name k hk => ih.bind fun names m hm =>
      .pure fun hnames hname => .cons hij hname hnames

theorem lays_typeRef (depth : Nat) :
    Lays tokens i (fun ref j => Row tokens i j [.type ref]) (typeRef depth) := by
  refine (lays_typeName ho).bind fun first j hij => (lays_typeNames ho depth).bind
    fun others k hjk => ?_
  split
  · refine .pure fun _ hfirst => .cons (Nat.le_refl i) ?_ (.nil hjk)
    exact laid_of_row ho hfirst.spans (.single hfirst)
  · rename_i last hlast
    refine .pure fun hothers hfirst => ?_
    obtain ⟨a, b, ha, hb, hlaid, hrow⟩ := hothers.upToLast
      (p := .name last) (by rw [List.getLast?_map, hlast]; rfl)
    have hlt := hlaid.spans.lt
    have hunion : Laid tokens i b (.type (.union (first :: others) (first.span.merge last.span))) :=
      laid_of_row ho (hfirst.spans.merge ho hlaid.spans (by omega) (by omega))
        (.cons (Nat.le_refl i) hfirst hrow)
    exact .cons (Nat.le_refl i) hunion (.nil hb)

theorem lays_annotated (depth : Nat) :
    Lays tokens i (fun type j => Row tokens i j (Piece.ofType type)) (annotated depth) :=
  .eat (fun _ hij => (lays_typeRef ho depth).bind fun _ _ _ => .pure fun href => href.before hij)
    (.pure (.nil (Nat.le_refl i)))

theorem lays_parameters (depth : Nat) :
    Lays tokens i (fun parameters j => Row tokens i j (Piece.ofParameters parameters))
      (parameters depth) := by
  induction depth generalizing i with
  | zero => exact .pure (.nil (Nat.le_refl i))
  | succ depth ih =>
    refine .check fun closed _ => .atEnd fun ended => ?_
    split
    · exact .pure (.nil (Nat.le_refl i))
    · refine .get fun before => (lays_expectName ho).bind fun name j hij =>
        (lays_annotated ho depth).bind fun type k hjk => .eat (fun m hkm => ?_) ?_
      · exact ih.bind fun rest n hmn => .pure fun hrest htype hname =>
          (Row.cons (Nat.le_refl i) hname htype).append (hrest.before hkm)
      · exact .get fun after => .guarded fun m hkm => .pure fun htype hname =>
          (Row.cons (Nat.le_refl i) hname htype).append (.nil hkm)

end

abbrev LaysOne (tokens : List Token) (i : Nat) (action : ReadM Expression) : Prop :=
  Lays tokens i (fun e j => Laid tokens i j (.expression e)) action

/-- The action goes on with an expression that was read from `i` to `j`. -/
abbrev LaysOn (tokens : List Token) (i j : Nat) (first : Expression) (action : ReadM Expression) :
    Prop :=
  Lays tokens j (fun e k => Laid tokens i j (.expression first) → Laid tokens i k (.expression e))
    action

structure LaysParts (tokens : List Token) (depth : Nat) : Prop where
  expression (i : Nat) : LaysOne tokens i (expression depth)
  binary (i least : Nat) : LaysOne tokens i (binary depth least)
  climb (i j least : Nat) (left : Expression) : LaysOn tokens i j left (climb depth least left)
  power (i : Nat) : LaysOne tokens i (power depth)
  unary (i : Nat) : LaysOne tokens i (unary depth)
  postfixes (i j : Nat) (first : Expression) : LaysOn tokens i j first (postfixes depth first)
  arguments (i : Nat) :
    Lays tokens i (fun es j => Row tokens i j (es.map .expression)) (arguments depth)
  primary (i : Nat) : LaysOne tokens i (primary depth)
  properties (i : Nat) :
    Lays tokens i (fun entries j => Row tokens i j (Piece.ofEntries entries)) (properties depth)
  propertyKey (i : Nat) : LaysOne tokens i (propertyKey depth)

theorem lays_placeholder : LaysOne tokens i placeholder :=
  .current ((lays_report _ _).bind fun _ _ _ => .node fun _ => .pure False.elim)

theorem laysParts_zero : LaysParts tokens 0 where
  expression _ := lays_placeholder
  binary _ _ := lays_placeholder
  climb _ _ _ _ := .pure id
  power _ := lays_placeholder
  unary _ := lays_placeholder
  postfixes _ _ _ := .pure id
  arguments _ := .pure (.nil (Nat.le_refl _))
  primary _ := lays_placeholder
  properties _ := .pure (.nil (Nat.le_refl _))
  propertyKey _ := lays_placeholder

variable {depth : Nat}

section

variable (ho : InOrder tokens)

include ho

namespace LaysParts

theorem expression_succ (h : LaysParts tokens depth) (i : Nat) :
    LaysOne tokens i (ReadM.expression (depth + 1)) := by
  refine (h.binary i 1).bind fun target j hij => .kind ?_
  split
  · exact .pure id
  · exact .skip fun k hjk => (h.expression k).bind fun value m hkm => .node fun _ =>
      .pure fun hvalue htarget => laid_pair ho rfl rfl htarget hvalue hjk

theorem climb_succ (h : LaysParts tokens depth) (i j least : Nat) (left : Expression) :
    LaysOn tokens i j left (ReadM.climb (depth + 1) least left) := by
  refine .kind ?_
  split
  · exact .pure id
  · split
    · refine .skip fun k hjk => (h.binary k _).bind fun right m hkm => .binaryNode fun _ => ?_
      exact (h.climb i m least _).mono fun _ _ hclimb hright hleft =>
        hclimb (laid_pair ho rfl rfl hleft hright hjk)
    · exact .pure id

theorem power_succ (h : LaysParts tokens depth) (i : Nat) :
    LaysOne tokens i (ReadM.power (depth + 1)) := by
  refine (h.unary i).bind fun left j hij => .eat (fun k hjk => ?_) (.pure id)
  exact (h.power k).bind fun right m hkm => .node fun _ => .pure fun hright hleft =>
    laid_pair ho rfl rfl hleft hright hjk

theorem unary_succ (h : LaysParts tokens depth) (i : Nat) :
    LaysOne tokens i (ReadM.unary (depth + 1)) := by
  refine .kind ?_
  split
  · exact (h.primary i).bind fun first j hij => h.postfixes i j first
  · rename_i hoperator
    refine .advance (inside_of_unaryOperator hoperator) fun hi => (h.unary (i + 1)).bind
      fun operand k hk => .node fun _ => .pure fun hoperand => ?_
    exact laid_of_row ho ((Spans.token hi).merge ho hoperand.spans (Nat.le_succ i) hk)
      ((Row.single hoperand).before (Nat.le_succ i))

theorem postfixes_succ (h : LaysParts tokens depth) (i j : Nat) (first : Expression) :
    LaysOn tokens i j first (ReadM.postfixes (depth + 1) first) := by
  refine .kind ?_
  split
  · rename_i hkind
    refine .take (hkind ▸ rfl) fun hj => (h.arguments (j + 1)).bind fun arguments k hjk =>
      .nodeFrom fun node => (h.postfixes i k _).mono ?_
    intro e m hpostfixes hupTo harguments hfirst
    exact hpostfixes (laid_of_row ho (hupTo.spans ho hfirst.spans (by omega))
      (.cons (Nat.le_refl i) hfirst (harguments.before (Nat.le_succ j))))
  · rename_i hkind
    refine .take (hkind ▸ rfl) fun hj => (lays_expectName ho).bind fun name k hjk =>
      .node fun _ => (h.postfixes i k _).mono ?_
    intro e m hpostfixes hname hfirst
    exact hpostfixes (laid_pair ho rfl rfl hfirst hname (Nat.le_succ j))
  · rename_i hkind
    refine .take (hkind ▸ rfl) fun hj => (h.expression (j + 1)).bind fun index k hjk =>
      (lays_expect _).bind fun _ m hkm => .nodeFrom fun node => (h.postfixes i m _).mono ?_
    intro e n hpostfixes hupTo _ hindex hfirst
    exact hpostfixes (laid_of_row ho (hupTo.spans ho hfirst.spans (by omega))
      (.cons (Nat.le_refl i) hfirst (.cons (Nat.le_succ j) hindex (.nil hkm))))
  · exact .pure id

theorem primary_succ (h : LaysParts tokens depth) (i : Nat) :
    LaysOne tokens i (ReadM.primary (depth + 1)) := by
  refine .current ?_
  split
  · rename_i hliteral
    exact .take (inside_of_literal hliteral) fun hi => .node fun _ =>
      .pure (laid_token ho hi rfl rfl)
  · split
    · rename_i hkind
      exact .take (hkind ▸ rfl) fun hi => .node fun _ => .pure (laid_token ho hi rfl rfl)
    · rename_i hkind
      refine .take (hkind ▸ rfl) fun hi => (h.expression (i + 1)).bind fun inner j hij =>
        (lays_expect _).bind fun _ k hjk => .nodeFrom fun node => .pure ?_
      intro hupTo _ hinner
      exact laid_of_row ho (hupTo.spans ho (.token hi) (by omega))
        (.cons (Nat.le_succ i) hinner (.nil hjk))
    · rename_i hkind
      refine .take (hkind ▸ rfl) fun hi => (h.properties (i + 1)).bind fun entries j hij =>
        .nodeFrom fun node => .pure ?_
      intro hupTo hentries
      exact laid_of_row ho (hupTo.spans ho (.token hi) hij) (hentries.before (Nat.le_succ i))
    · exact (lays_report _ _).bind fun _ _ _ => .skip fun _ _ => .node fun _ => .pure False.elim

omit ho in
theorem arguments_succ (h : LaysParts tokens depth) (i : Nat) :
    Lays tokens i (fun es j => Row tokens i j (es.map .expression))
      (ReadM.arguments (depth + 1)) := by
  refine .check fun closed _ => .atEnd fun ended => ?_
  split
  · exact (lays_expect _).bind fun _ j hij => .pure fun _ => .nil hij
  · refine (h.expression i).bind fun first j hij => .eat (fun k hjk => ?_) ?_
    · exact (h.arguments k).bind fun rest m hkm => .pure fun hrest hfirst =>
        .cons (Nat.le_refl i) hfirst (hrest.before hjk)
    · exact (lays_expect _).bind fun _ k hjk => .pure fun _ hfirst =>
        .cons (Nat.le_refl i) hfirst (.nil hjk)

omit ho in
theorem properties_succ (h : LaysParts tokens depth) (i : Nat) :
    Lays tokens i (fun entries j => Row tokens i j (Piece.ofEntries entries))
      (ReadM.properties (depth + 1)) := by
  refine .check fun closed _ => .atEnd fun ended => ?_
  split
  · exact (lays_expect _).bind fun _ j hij => .pure fun _ => .nil hij
  · refine (h.propertyKey i).bind fun key j hij => (lays_expect _).bind fun _ k hjk =>
      (h.expression k).bind fun value m hkm => .eat (fun n hmn => ?_) ?_
    · exact (h.properties n).bind fun rest o hno => .pure fun hrest hvalue _ hkey =>
        .cons (Nat.le_refl i) hkey (.cons hjk hvalue (hrest.before hmn))
    · exact (lays_expect _).bind fun _ n hmn => .pure fun _ hvalue _ hkey =>
        .cons (Nat.le_refl i) hkey (.cons hjk hvalue (.nil hmn))

theorem propertyKey_succ (h : LaysParts tokens depth) (i : Nat) :
    LaysOne tokens i (ReadM.propertyKey (depth + 1)) := by
  refine .check fun computed hbracket => ?_
  split
  · rename_i hcomputed
    refine .advance (inside_of_isSymbol (hbracket.trans hcomputed)) fun hi =>
      (h.expression (i + 1)).bind fun inner j hij => (lays_expect _).bind fun _ k hjk =>
        .nodeFrom fun node => .pure ?_
    intro hupTo _ hinner
    exact laid_of_row ho (hupTo.spans ho (.token hi) (by omega))
      (.cons (Nat.le_succ i) hinner (.nil hjk))
  · exact h.primary i

end LaysParts

theorem laysParts (depth : Nat) : LaysParts tokens depth := by
  induction depth with
  | zero => exact laysParts_zero
  | succ depth h =>
    exact ⟨h.expression_succ ho, fun i least => (h.power i).bind fun left j _ =>
        h.climb i j least left,
      h.climb_succ ho, h.power_succ ho, h.unary_succ ho, h.postfixes_succ ho, h.arguments_succ,
      h.primary_succ ho, h.properties_succ, h.propertyKey_succ ho⟩

end

end ReadM

end StackScript
