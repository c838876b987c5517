import StackScript.Proofs.Tree.Equations
import StackScript.Proofs.Tree.Grammar
import StackScript.Proofs.Tree.Pieces

set_option autoImplicit false

/-!
# How the reader builds a tree

Whatever the tokens are, the reader only takes them, reports the one ahead, and gives nodes the next
number. Main statements: `ReadM.buildsParts` and `ReadM.buildsStatements`. What a function of the
descent gives is built of its pieces in the order of the source, a node after its own pieces, with
spans that are merged from those of the tokens.

This is the only walk through all functions of the reader that does not ask what the tokens are.
What holds of every tree and every report follows by induction over `Builds`.
-/
namespace StackScript

def Expression.isHole : Expression → Bool
  | .hole _ => true
  | _ => false

open ReadM (skip tokenAhead)

namespace Reader

def reported (r : Reader) (fault : SyntaxFault) : Reader :=
  { r with
    diagnostics := r.diagnostics.push ⟨fault.code, .error, fault.message, (tokenAhead r).span⟩ }

def numbered (r : Reader) : Reader := { r with nextId := r.nextId + 1 }

/-- All that the reader does on its way from one state to another. -/
inductive Evolves (r : Reader) : Reader → Prop where
  | refl : Evolves r r
  | skip {r' : Reader} (h : Evolves r r') : Evolves r (skip r')
  | reported {r' : Reader} (h : Evolves r r') (fault : SyntaxFault) : Evolves r (r'.reported fault)
  | numbered {r' : Reader} (h : Evolves r r') : Evolves r r'.numbered

/-- What it does between two nodes: tokens that are missing are reported, none are unexpected. -/
inductive Passes (r : Reader) : Reader → Prop where
  | refl : Passes r r
  | skip {r' : Reader} (h : Passes r r') : Passes r (skip r')
  | missing {r' : Reader} (h : Passes r r') (what : String) (found : TokenKind) :
      Passes r (r'.reported (.expected what found))

/-- The spans of the tokens around the reader, and what they merge to. -/
inductive Spans (r : Reader) : Span → Prop where
  | zero : Spans r ⟨0, 0⟩
  | ahead {token : Token} (h : token ∈ r.ahead) : Spans r token.span
  | previous {span : Span} (h : span ∈ r.previous) : Spans r span
  | merge {a b : Span} (first : Spans r a) (second : Spans r b) : Spans r (a.merge b)

variable {r r' r'' : Reader}

theorem Evolves.trans (h : r.Evolves r') (h' : r'.Evolves r'') : r.Evolves r'' := by
  induction h' with
  | refl => exact h
  | skip _ ih => exact ih.skip
  | reported _ fault ih => exact ih.reported fault
  | numbered _ ih => exact ih.numbered

theorem Passes.trans (h : r.Passes r') (h' : r'.Passes r'') : r.Passes r'' := by
  induction h' with
  | refl => exact h
  | skip _ ih => exact ih.skip
  | missing _ what found ih => exact ih.missing what found

theorem Passes.evolves (h : r.Passes r') : r.Evolves r' := by
  induction h with
  | refl => exact .refl
  | skip _ ih => exact ih.skip
  | missing _ what found ih => exact ih.reported _

theorem spans_tokenAhead (r : Reader) : r.Spans (tokenAhead r).span := by
  obtain ⟨ahead, _, _, _⟩ := r
  cases ahead with
  | nil => exact .zero
  | cons token rest => exact .ahead List.mem_cons_self

theorem Spans.mono {span : Span} (h : r'.Spans span)
    (hahead : ∀ token ∈ r'.ahead, r.Spans token.span)
    (hprevious : ∀ span ∈ r'.previous, r.Spans span) : r.Spans span := by
  induction h with
  | zero => exact .zero
  | ahead hmem => exact hahead _ hmem
  | previous hmem => exact hprevious _ hmem
  | merge _ _ ihfirst ihsecond => exact ihfirst.merge ihsecond

theorem spans_of_skip {span : Span} (h : (skip r).Spans span) : r.Spans span := by
  unfold skip at h
  split at h
  · exact h
  · rename_i token rest hahead
    split at h
    · exact h
    · refine h.mono (fun t ht => .ahead (hahead ▸ List.mem_cons_of_mem _ ht)) fun last hlast => ?_
      obtain rfl := Option.some.inj hlast
      exact .ahead (hahead ▸ List.mem_cons_self)

theorem Evolves.spans (h : r.Evolves r') {span : Span} (hspan : r'.Spans span) : r.Spans span := by
  induction h with
  | refl => exact hspan
  | skip _ ih => exact ih (spans_of_skip hspan)
  | reported _ fault ih => exact ih (hspan.mono (fun _ h => .ahead h) fun _ h => .previous h)
  | numbered _ ih => exact ih (hspan.mono (fun _ h => .ahead h) fun _ h => .previous h)

theorem suffix_skip (r : Reader) : (skip r).ahead <:+ r.ahead := by
  unfold skip
  split
  · exact List.suffix_refl _
  · rename_i token rest hahead
    split
    · exact List.suffix_refl _
    · exact hahead ▸ List.suffix_cons token rest

theorem Evolves.suffix (h : r.Evolves r') : r'.ahead <:+ r.ahead := by
  induction h with
  | refl => exact List.suffix_refl _
  | @skip r' _ ih => exact r'.suffix_skip.trans ih
  | reported _ _ ih | numbered _ ih => exact ih

end Reader

/-- The annotation stands for one type or for several, and it was read by the reader. -/
structure TypeRef.ReadBy (r : Reader) (ref : TypeRef) : Prop where
  canonical : ref.Canonical
  span : r.Spans ref.span
  names : ∀ name ∈ ref.names, r.Spans name.span

/-- How the reader comes from one state to another while it builds these pieces, one after the
other. -/
inductive Builds : Reader → List Piece → Reader → Prop where
  | nil (r : Reader) : Builds r [] r
  | pass {r r' last : Reader} {row : List Piece} (passes : r.Passes r')
      (rest : Builds r' row last) : Builds r row last
  | name {r last : Reader} {label : Name} {row : List Piece} (span : r.Spans label.span)
      (rest : Builds r row last) : Builds r (.name label :: row) last
  | type {r last : Reader} {ref : TypeRef} {row : List Piece} (readBy : ref.ReadBy r)
      (rest : Builds r row last) : Builds r (.type ref :: row) last
  | hole {r r' last : Reader} {span : Span} {row : List Piece} (found : TokenKind)
      (spans : r.Spans span) (passes : (r.reported (.unexpected found)).Passes r')
      (rest : Builds r'.numbered row last) :
      Builds r (.expression (.hole ⟨r'.nextId, span⟩) :: row) last
  | expression {r r' last : Reader} {e : Expression} {row : List Piece} (whole : e.isHole = false)
      (parts : Builds r (Piece.ofExpression e) r') (number : e.node.id = r'.nextId)
      (spans : r.Spans e.span) (rest : Builds r'.numbered row last) :
      Builds r (.expression e :: row) last
  | statement {r r' last : Reader} {s : Statement} {row : List Piece}
      (parts : Builds r (Piece.ofStatement s) r') (number : s.node.id = r'.nextId)
      (spans : r.Spans s.span) (rest : Builds r'.numbered row last) :
      Builds r (.statement s :: row) last

namespace Builds

variable {r r' r'' : Reader} {row row' : List Piece}

theorem append (h : Builds r row r') (h' : Builds r' row' r'') : Builds r (row ++ row') r'' := by
  induction h with
  | nil r => exact h'
  | pass passes _ ih => exact .pass passes (ih h')
  | name span _ ih => exact .name span (ih h')
  | type readBy _ ih => exact .type readBy (ih h')
  | hole found spans passes _ ih => exact .hole found spans passes (ih h')
  | expression whole parts number spans _ _ ih =>
    exact .expression whole parts number spans (ih h')
  | statement parts number spans _ _ ih => exact .statement parts number spans (ih h')

theorem evolves (h : Builds r row r') : r.Evolves r' := by
  induction h with
  | nil r => exact .refl
  | pass passes _ ih => exact passes.evolves.trans ih
  | name _ _ ih | type _ _ ih => exact ih
  | hole _ _ passes _ ih =>
    exact ((Reader.Evolves.refl.reported _).trans passes.evolves).numbered.trans ih
  | expression _ _ _ _ _ ihparts ih | statement _ _ _ _ ihparts ih =>
    exact ihparts.numbered.trans ih

theorem spans_of_mem (h : Builds r row r') {p : Piece} (hp : p ∈ row) : r.Spans p.span := by
  induction h with
  | nil r => cases hp
  | pass passes _ ih => exact passes.evolves.spans (ih hp)
  | name span _ ih =>
    obtain rfl | hp := List.mem_cons.mp hp
    · exact span
    · exact ih hp
  | type readBy _ ih =>
    obtain rfl | hp := List.mem_cons.mp hp
    · exact readBy.span
    · exact ih hp
  | hole _ spans passes _ ih =>
    obtain rfl | hp := List.mem_cons.mp hp
    · exact spans
    · exact ((Reader.Evolves.refl.reported _).trans passes.evolves).numbered.spans (ih hp)
  | expression _ parts _ spans _ _ ih | statement parts _ spans _ _ ih =>
    obtain rfl | hp := List.mem_cons.mp hp
    · exact spans
    · exact parts.evolves.numbered.spans (ih hp)

theorem merged {p q : Piece} (h : Builds r [p, q] r') : r.Spans (p.span.merge q.span) :=
  (h.spans_of_mem (.head _)).merge (h.spans_of_mem (.tail _ (.head _)))

theorem node {e : Expression} (parts : Builds r (Piece.ofExpression e) r')
    (spans : r.Spans e.span) (number : e.node.id = r'.nextId) (whole : e.isHole = false) :
    Builds r [.expression e] r'.numbered :=
  .expression whole parts number spans (.nil _)

theorem statementNode {s : Statement} (parts : Builds r (Piece.ofStatement s) r')
    (spans : r.Spans s.span) (number : s.node.id = r'.nextId) :
    Builds r [.statement s] r'.numbered :=
  .statement parts number spans (.nil _)

theorem withoutNames {names : List Name} (h : Builds r (names.map .name) r') : Builds r [] r' := by
  -- To read names is to take tokens.
  generalize hrow : names.map Piece.name = row at h
  induction h generalizing names with
  | nil r => exact .nil r
  | pass passes _ ih => exact .pass passes (ih hrow)
  | name _ _ ih =>
    cases names with
    | nil => cases hrow
    | cons name names => exact ih (List.cons.inj hrow).2
  | _ => cases names <;> cases hrow

theorem closed (h : Builds r row r') (hclosed : Builds r' [] r'') : Builds r row r'' := by
  have happend := h.append hclosed
  rwa [List.append_nil] at happend

theorem passed (h : Builds r row r') (hpasses : r'.Passes r'') : Builds r row r'' :=
  h.closed (.pass hpasses (.nil r''))

end Builds

namespace ReadM

open Reader (Passes Spans)

variable {α β : Type} {r : Reader}

/-- From this state the action comes to one that is in `Q` together with its result. -/
structure Ends (r : Reader) (action : ReadM α) (Q : α → Reader → Prop) : Prop where
  evolves : r.Evolves (action.run r).2
  result : Q (action.run r).1 (action.run r).2

def Evolving (action : ReadM α) : Prop := ∀ r : Reader, r.Evolves (action.run r).2

/-- The action builds the pieces in `row`, whatever the tokens are. -/
def Walks (row : α → List Piece) (action : ReadM α) : Prop :=
  ∀ r : Reader, Ends r action fun x r' => Builds r (row x) r'

abbrev Passing (action : ReadM α) : Prop := Walks (fun _ => []) action

theorem Walks.evolving {row : α → List Piece} {action : ReadM α} (h : Walks row action) :
    Evolving action :=
  fun r => (h r).evolves

namespace Ends

variable {Q : α → Reader → Prop} {R : β → Reader → Prop}

theorem pure {x : α} (h : Q x r) : Ends r (Pure.pure x) Q := ⟨.refl, h⟩

theorem ofPure {x : α} {f : α → ReadM β} (h : Ends r (f x) R) : Ends r (Pure.pure x >>= f) R :=
  ⟨h.evolves, h.result⟩

theorem mono {Q' : α → Reader → Prop} {action : ReadM α} (h : Ends r action Q)
    (himp : ∀ x r', Q x r' → Q' x r') : Ends r action Q' :=
  ⟨h.evolves, himp _ _ h.result⟩

theorem bind {action : ReadM α} {f : α → ReadM β} (h : Ends r action Q)
    (hf : ∀ x r', r.Evolves r' → Q x r' → Ends r' (f x) R) : Ends r (action >>= f) R := by
  have hlater := hf _ _ h.evolves h.result
  exact ⟨h.evolves.trans hlater.evolves, hlater.result⟩

theorem map {action : ReadM α} {f : α → β} (h : Ends r action Q)
    (hf : ∀ x r', Q x r' → R (f x) r') : Ends r (f <$> action) R :=
  ⟨h.evolves, hf _ _ h.result⟩

theorem get {f : Reader → ReadM β} (h : Ends r (f r) R) : Ends r (MonadState.get >>= f) R :=
  ⟨h.evolves, h.result⟩

theorem current {f : Token → ReadM β} (h : Ends r (f (tokenAhead r)) R) :
    Ends r (ReadM.current >>= f) R :=
  ⟨h.evolves, h.result⟩

theorem kind {f : TokenKind → ReadM β} (h : ∀ kind, Ends r (f kind) R) :
    Ends r (ReadM.kind >>= f) R :=
  ⟨(h _).evolves, (h _).result⟩

theorem check {s : Symbol} {f : Bool → ReadM β} (h : ∀ found, Ends r (f found) R) :
    Ends r (ReadM.check s >>= f) R :=
  ⟨(h _).evolves, (h _).result⟩

theorem atEnd {f : Bool → ReadM β} (h : ∀ ended, Ends r (f ended) R) :
    Ends r (ReadM.atEnd >>= f) R :=
  ⟨(h _).evolves, (h _).result⟩

theorem skip {f : Unit → ReadM β} (h : Ends (ReadM.skip r) (f ()) R) :
    Ends r (modify ReadM.skip >>= f) R :=
  ⟨Reader.Evolves.refl.skip.trans h.evolves, h.result⟩

theorem advance {f : Token → ReadM β} (h : Ends (ReadM.skip r) (f (tokenAhead r)) R) :
    Ends r (ReadM.advance >>= f) R :=
  ⟨Reader.Evolves.refl.skip.trans h.evolves, h.result⟩

theorem node {span : Span} {f : Node → ReadM β} (h : Ends r.numbered (f ⟨r.nextId, span⟩) R) :
    Ends r (ReadM.node span >>= f) R :=
  ⟨Reader.Evolves.refl.numbered.trans h.evolves, h.result⟩

theorem nodeFrom {start : Span} {f : Node → ReadM β}
    (h : ∀ span,
      (∀ earlier : Reader, earlier.Evolves r → earlier.Spans start → earlier.Spans span) →
      Ends r.numbered (f ⟨r.nextId, span⟩) R) :
    Ends r (ReadM.nodeFrom start >>= f) R := by
  have hlast : r.Spans (r.previous.getD (tokenAhead r).span) := by
    cases hprevious : r.previous with
    | none => exact r.spans_tokenAhead
    | some span => exact .previous hprevious
  have hnode := h (start.merge (r.previous.getD (tokenAhead r).span)) fun earlier hevolves hstart =>
    hstart.merge (hevolves.spans hlast)
  exact ⟨Reader.Evolves.refl.numbered.trans hnode.evolves, hnode.result⟩

theorem eatIf {p : TokenKind → Bool} {f : Bool → ReadM β}
    (h : ∀ eaten r', r.Passes r' → Ends r' (f eaten) R) : Ends r (ReadM.eatIf p >>= f) R := by
  rw [eatIf_bind]
  refine .kind fun kind => ?_
  split
  · exact .skip (h true _ (.skip .refl))
  · exact h false r .refl

theorem eat {s : Symbol} {f : Bool → ReadM β}
    (h : ∀ eaten r', r.Passes r' → Ends r' (f eaten) R) : Ends r (ReadM.eat s >>= f) R :=
  .eatIf h

end Ends

theorem passing_get : Passing (get : ReadM Reader) := fun r => ⟨.refl, .nil r⟩

theorem passing_current : Passing current := fun r => ⟨.refl, .nil r⟩

theorem passing_kind : Passing kind := fun r => ⟨.refl, .nil r⟩

theorem passing_check (s : Symbol) : Passing (check s) := fun r => ⟨.refl, .nil r⟩

theorem passing_atEnd : Passing atEnd := fun r => ⟨.refl, .nil r⟩

theorem passing_objectAhead : Passing objectAhead := by
  intro r
  refine ⟨?_, ?_⟩
  · rw [run_objectAhead]
    exact .refl
  · rw [run_objectAhead]
    exact .nil r

theorem passing_skip : Passing (modify skip : ReadM Unit) :=
  fun _ => .skip (.pure (.pass (.skip .refl) (.nil _)))

theorem passing_advance : Passing advance :=
  fun _ => .advance (.pure (.pass (.skip .refl) (.nil _)))

theorem passing_eatIf (p : TokenKind → Bool) : Passing (eatIf p) := fun _ => .kind fun kind => by
  split
  · exact .skip (.pure (.pass (.skip .refl) (.nil _)))
  · exact .pure (.nil _)

theorem passing_eat (s : Symbol) : Passing (eat s) := passing_eatIf _

theorem passing_reportExpected (what : String) : Passing (reportExpected what) :=
  fun _ => ⟨Reader.Evolves.refl.reported _, .pass (.missing .refl what _) (.nil _)⟩

theorem passing_expect (s : Symbol) : Passing (expect s) := fun r => .eat fun eaten r' hpasses => by
  split
  · exact (passing_reportExpected _ r').mono fun _ _ h => .pass hpasses h
  · exact .pure (.pass hpasses (.nil _))

theorem passing_semicolons (depth : Nat) : Passing (semicolons depth) := by
  induction depth with
  | zero => exact fun r => .pure (.nil r)
  | succ depth ih =>
    refine fun r => .eat fun eaten r' hpasses => ?_
    split
    · exact (ih r').mono fun _ _ h => .pass hpasses h
    · exact .pure (.pass hpasses (.nil _))

theorem evolving_node (span : Span) : Evolving (node span) := fun _ => .numbered .refl

theorem evolving_nodeFrom (start : Span) : Evolving (nodeFrom start) := fun _ => .numbered .refl

theorem walks_expectName : Walks (fun name => [.name name]) expectName := fun r => .current <| by
  split
  · exact .skip (.pure (.name r.spans_tokenAhead (.pass (.skip .refl) (.nil _))))
  · exact (passing_reportExpected _ r).bind fun _ r' _ h => .pure (.name r.spans_tokenAhead h)

theorem walks_typeName : Walks (fun name => [.name name]) typeName := fun r => .current <| by
  dsimp only
  split
  · exact .skip (.pure (.name r.spans_tokenAhead (.pass (.skip .refl) (.nil _))))
  · exact (passing_reportExpected _ r).bind fun _ r' _ h => .pure (.name r.spans_tokenAhead h)

theorem walks_typeNames (depth : Nat) :
    Walks (fun names => names.map .name) (typeNames depth) := by
  induction depth with
  | zero => exact fun r => .pure (.nil r)
  | succ depth ih =>
    refine fun r => .eat fun eaten r₁ hpasses => ?_
    split
    · exact (walks_typeName r₁).bind fun name r₂ _ hname => (ih r₂).bind fun names r₃ _ hnames =>
        .pure (.pass hpasses (hname.append hnames))
    · exact .pure (.pass hpasses (.nil _))

theorem walks_typeRef (depth : Nat) : Walks (fun ref => [.type ref]) (typeRef depth) := by
  refine fun r => (walks_typeName r).bind fun first r₁ _ hfirst =>
    (walks_typeNames depth r₁).bind fun others r₂ _ hothers => ?_
  -- The names in an annotation are pieces of it and not of the row.
  have hnames : Builds r ((first :: others).map .name) r₂ := hfirst.append hothers
  have hspans : ∀ name ∈ first :: others, r.Spans name.span :=
    fun name hname => hnames.spans_of_mem (List.mem_map_of_mem hname)
  have hself := hspans first List.mem_cons_self
  split
  · exact .pure (.type ⟨trivial, hself, List.forall_mem_singleton.mpr hself⟩ hnames.withoutNames)
  · rename_i last hlast
    have hmem := List.mem_of_getLast? hlast
    have hunion : (TypeRef.union (first :: others) (first.span.merge last.span)).Canonical :=
      Nat.succ_le_succ (List.length_pos_of_mem hmem)
    exact .pure (.type ⟨hunion, hself.merge (hspans last (List.mem_cons_of_mem _ hmem)), hspans⟩
      hnames.withoutNames)

theorem walks_annotated (depth : Nat) : Walks Piece.ofType (annotated depth) := by
  refine fun r => .eat fun eaten r₁ hpasses => ?_
  split
  · exact (walks_typeRef depth r₁).bind fun _ _ _ htype => .pure (.pass hpasses htype)
  · exact .pure (.pass hpasses (.nil _))

theorem walks_parameters (depth : Nat) : Walks Piece.ofParameters (parameters depth) := by
  induction depth with
  | zero => exact fun r => .pure (.nil r)
  | succ depth ih =>
    refine fun r => .check fun closed => .atEnd fun ended => ?_
    split
    · exact .pure (.nil r)
    · refine .get ((walks_expectName r).bind fun name r₁ _ hname =>
        (walks_annotated depth r₁).bind fun type r₂ _ htype => .eat fun eaten r₃ hpasses => ?_)
      have hfirst : Builds r (.name name :: Piece.ofType type) r₃ :=
        (hname.append htype).passed hpasses
      split
      · exact (ih r₃).bind fun rest r₄ _ hrest => .pure (hfirst.append hrest)
      · have hlast : Builds r (Piece.ofParameters [⟨name, type⟩]) r₃ := by
          rwa [← List.append_nil (_ :: _)] at hfirst
        refine .get ?_
        split
        · exact .skip (.pure (hlast.passed (.skip .refl)))
        · exact .pure hlast

theorem walks_placeholder : Walks (fun e => [.expression e]) placeholder :=
  fun r => ⟨(Reader.Evolves.refl.reported _).numbered,
    .hole (tokenAhead r).kind r.spans_tokenAhead .refl (.nil _)⟩

theorem ends_binaryNode (operator : BinaryOperator) (left right : Expression) (r : Reader) :
    Ends r (binaryNode operator left right) fun e r' => ∀ start,
      Builds start [.expression left, .expression right] r → Builds start [.expression e] r' :=
  .node (.pure fun _ hparts => hparts.node hparts.merged rfl rfl)

/-- What the functions of the descent build with this depth. Those that go on with an expression
build what it is built of and then the rest. -/
structure BuildsParts (depth : Nat) : Prop where
  expression : Walks (fun e => [.expression e]) (expression depth)
  binary (least : Nat) : Walks (fun e => [.expression e]) (binary depth least)
  climb (least : Nat) (left : Expression) (r : Reader) : Ends r (climb depth least left)
    fun e r' => ∀ start, Builds start [.expression left] r → Builds start [.expression e] r'
  power : Walks (fun e => [.expression e]) (power depth)
  unary : Walks (fun e => [.expression e]) (unary depth)
  postfixes (first : Expression) (r : Reader) : Ends r (postfixes depth first)
    fun e r' => ∀ start, Builds start [.expression first] r → Builds start [.expression e] r'
  arguments : Walks (fun es => es.map .expression) (arguments depth)
  primary : Walks (fun e => [.expression e]) (primary depth)
  properties : Walks Piece.ofEntries (properties depth)
  propertyKey : Walks (fun e => [.expression e]) (propertyKey depth)

theorem buildsParts_zero : BuildsParts 0 where
  expression := walks_placeholder
  binary _ := walks_placeholder
  climb _ _ _ := .pure fun _ h => h
  power := walks_placeholder
  unary := walks_placeholder
  postfixes _ _ := .pure fun _ h => h
  arguments r := .pure (.nil r)
  primary := walks_placeholder
  properties r := .pure (.nil r)
  propertyKey := walks_placeholder

namespace BuildsParts

variable {depth : Nat}

theorem expression_succ (h : BuildsParts depth) :
    Walks (fun e => [.expression e]) (ReadM.expression (depth + 1)) := by
  refine fun r => (h.binary 1 r).bind fun target r₁ _ htarget => .kind fun kind => ?_
  split
  · exact .pure htarget
  · refine .skip ((h.expression _).bind fun value r₂ _ hvalue => .node (.pure ?_))
    have hparts : Builds r [.expression target, .expression value] r₂ :=
      htarget.append (.pass (.skip .refl) hvalue)
    exact hparts.node hparts.merged rfl rfl

theorem climb_succ (h : BuildsParts depth) (least : Nat) (left : Expression) (r : Reader) :
    Ends r (ReadM.climb (depth + 1) least left) fun e r' =>
      ∀ start, Builds start [.expression left] r → Builds start [.expression e] r' := by
  refine .kind fun kind => ?_
  split
  · exact .pure fun _ h => h
  · split
    · -- The expression so far becomes the left operand, built from where it was begun.
      refine .skip ((h.binary _ _).bind fun right r₁ _ hright =>
        (ends_binaryNode _ left right r₁).bind fun whole r₂ _ hwhole => (h.climb _ _ _).mono ?_)
      intro e r' hlater start hleft
      exact hlater start (hwhole start (hleft.append (.pass (.skip .refl) hright)))
    · exact .pure fun _ h => h

theorem power_succ (h : BuildsParts depth) :
    Walks (fun e => [.expression e]) (ReadM.power (depth + 1)) := by
  refine fun r => (h.unary r).bind fun left r₁ _ hleft => .eat fun eaten r₂ hpasses => ?_
  split
  · exact (h.power r₂).bind fun right r₃ _ hright => (ends_binaryNode _ left right r₃).mono
      fun _ _ hwhole => hwhole r (hleft.append (.pass hpasses hright))
  · exact .pure (hleft.passed hpasses)

theorem unary_succ (h : BuildsParts depth) :
    Walks (fun e => [.expression e]) (ReadM.unary (depth + 1)) := by
  refine fun r => .kind fun kind => ?_
  split
  · exact (h.primary r).bind fun first r₁ _ hfirst =>
      (h.postfixes first r₁).mono fun _ _ hlater => hlater r hfirst
  · refine .advance ((h.unary _).bind fun operand r₁ _ hoperand => .node (.pure ?_))
    have hparts : Builds r [.expression operand] r₁ := .pass (.skip .refl) hoperand
    exact hparts.node (r.spans_tokenAhead.merge (hparts.spans_of_mem (.head _))) rfl rfl

theorem postfixes_succ (h : BuildsParts depth) (first : Expression) (r : Reader) :
    Ends r (ReadM.postfixes (depth + 1) first) fun e r' =>
      ∀ start, Builds start [.expression first] r → Builds start [.expression e] r' := by
  refine .kind fun kind => ?_
  split
  · refine .skip ((h.arguments _).bind fun arguments r₁ _ harguments =>
      .nodeFrom fun span hspan => (h.postfixes _ _).mono ?_)
    intro e r' hlater start hfirst
    have hparts : Builds start (.expression first :: arguments.map .expression) r₁ :=
      hfirst.append (.pass (.skip .refl) harguments)
    exact hlater start (hparts.node
      (hspan start hparts.evolves (hfirst.spans_of_mem (.head _))) rfl rfl)
  · refine .skip ((walks_expectName _).bind fun name r₁ _ hname =>
      .node ((h.postfixes _ _).mono ?_))
    intro e r' hlater start hfirst
    have hparts : Builds start [.expression first, .name name] r₁ :=
      hfirst.append (.pass (.skip .refl) hname)
    exact hlater start (hparts.node hparts.merged rfl rfl)
  · refine .skip ((h.expression _).bind fun index r₁ _ hindex =>
      (passing_expect _ r₁).bind fun _ r₂ _ hclosed =>
        .nodeFrom fun span hspan => (h.postfixes _ _).mono ?_)
    intro e r' hlater start hfirst
    have hparts : Builds start [.expression first, .expression index] r₂ :=
      hfirst.append (.pass (.skip .refl) (hindex.closed hclosed))
    exact hlater start (hparts.node
      (hspan start hparts.evolves (hfirst.spans_of_mem (.head _))) rfl rfl)
  · exact .pure fun _ h => h

theorem arguments_succ (h : BuildsParts depth) :
    Walks (fun es => es.map .expression) (ReadM.arguments (depth + 1)) := by
  refine fun r => .check fun closed => .atEnd fun ended => ?_
  split
  · exact (passing_expect _ r).bind fun _ _ _ hclosed => .pure hclosed
  · refine (h.expression r).bind fun first r₁ _ hfirst => .eat fun eaten r₂ hpasses => ?_
    split
    · exact (h.arguments r₂).bind fun rest r₃ _ hrest => .pure (hfirst.append (.pass hpasses hrest))
    · exact (passing_expect _ r₂).bind fun _ r₃ _ hclosed =>
        .pure (hfirst.append (.pass hpasses hclosed))

theorem primary_succ (h : BuildsParts depth) :
    Walks (fun e => [.expression e]) (ReadM.primary (depth + 1)) := by
  refine fun r => .current ?_
  have hleaf : Builds r [] (skip r) := .pass (.skip .refl) (.nil _)
  split
  · exact .skip (.node (.pure (.node hleaf r.spans_tokenAhead rfl rfl)))
  · split
    · exact .skip (.node (.pure (.node hleaf r.spans_tokenAhead rfl rfl)))
    · refine .skip ((h.expression _).bind fun inner r₁ _ hinner =>
        (passing_expect _ r₁).bind fun _ r₂ _ hclosed => .nodeFrom fun span hspan => .pure ?_)
      have hparts : Builds r [.expression inner] r₂ :=
        .pass (.skip .refl) (hinner.closed hclosed)
      exact hparts.node (hspan r hparts.evolves r.spans_tokenAhead) rfl rfl
    · refine .skip ((h.properties _).bind fun properties r₁ _ hproperties =>
        .nodeFrom fun span hspan => .pure ?_)
      have hparts : Builds r (Piece.ofEntries properties) r₁ := .pass (.skip .refl) hproperties
      exact Builds.node hparts (hspan r hparts.evolves r.spans_tokenAhead) rfl rfl
    · exact ⟨((Reader.Evolves.refl.reported _).skip).numbered,
        .hole (tokenAhead r).kind r.spans_tokenAhead (.skip .refl) (.nil _)⟩

theorem properties_succ (h : BuildsParts depth) :
    Walks Piece.ofEntries (ReadM.properties (depth + 1)) := by
  refine fun r => .check fun closed => .atEnd fun ended => ?_
  split
  · exact (passing_expect _ r).bind fun _ _ _ hclosed => .pure hclosed
  · refine (h.propertyKey r).bind fun key r₁ _ hkey =>
      (passing_expect _ r₁).bind fun _ r₂ _ hcolon =>
        (h.expression r₂).bind fun value r₃ _ hvalue => .eat fun eaten r₄ hpasses => ?_
    have hentry : Builds r [.expression key, .expression value] r₄ :=
      (hkey.append (hcolon.append hvalue)).passed hpasses
    split
    · exact (h.properties r₄).bind fun rest r₅ _ hrest => .pure (hentry.append hrest)
    · exact (passing_expect _ r₄).bind fun _ r₅ _ hclosed => .pure (hentry.append hclosed)

theorem propertyKey_succ (h : BuildsParts depth) :
    Walks (fun e => [.expression e]) (ReadM.propertyKey (depth + 1)) := by
  refine fun r => .check fun computed => ?_
  split
  · refine .advance ((h.expression _).bind fun inner r₁ _ hinner =>
      (passing_expect _ r₁).bind fun _ r₂ _ hclosed => .nodeFrom fun span hspan => .pure ?_)
    have hparts : Builds r [.expression inner] r₂ := .pass (.skip .refl) (hinner.closed hclosed)
    exact hparts.node (hspan r hparts.evolves r.spans_tokenAhead) rfl rfl
  · exact h.primary r

end BuildsParts

theorem buildsParts (depth : Nat) : BuildsParts depth := by
  induction depth with
  | zero => exact buildsParts_zero
  | succ depth h =>
    refine ⟨h.expression_succ, fun least r => ?_, h.climb_succ, h.power_succ, h.unary_succ,
      h.postfixes_succ, h.arguments_succ, h.primary_succ, h.properties_succ, h.propertyKey_succ⟩
    exact (h.power r).bind fun left r₁ _ hleft =>
      (h.climb least left r₁).mono fun _ _ hlater => hlater r hleft

theorem evolving_climb (depth least : Nat) (left : Expression) :
    Evolving (climb depth least left) :=
  fun r => ((buildsParts depth).climb least left r).evolves

theorem evolving_postfixes (depth : Nat) (first : Expression) : Evolving (postfixes depth first) :=
  fun r => ((buildsParts depth).postfixes first r).evolves

theorem walks_someExpression (depth : Nat) : Walks Piece.ofValue (some <$> expression depth) :=
  fun r => ((buildsParts depth).expression r).map fun _ _ h => h

theorem ends_statementFrom {r r' : Reader} {row : List Piece} {build : Node → Statement}
    (parts : Builds r row r') (hrow : ∀ node, Piece.ofStatement (build node) = row)
    (hnode : ∀ node, (build node).node = node) :
    Ends r' (do return build (← nodeFrom (tokenAhead r).span)) fun s r'' =>
      Builds r [.statement s] r'' := by
  refine .nodeFrom fun span hspan => .pure (.statementNode (hrow _ ▸ parts) ?_ ?_)
  · rw [Statement.span, hnode]
    exact hspan r parts.evolves r.spans_tokenAhead
  · rw [hnode]

theorem walks_letDeclaration (depth : Nat) :
    Walks (fun s => [.statement s]) (letDeclaration depth) := by
  refine fun r => .advance (.eatIf fun isMutable r₁ hpasses =>
    (walks_expectName r₁).bind fun name r₂ _ hname =>
      (walks_annotated depth r₂).bind fun type r₃ _ htype => .eat fun eaten r₄ hpasses' => ?_)
  have hdeclared : Builds r (.name name :: Piece.ofType type) r₄ :=
    .pass ((Passes.skip .refl).trans hpasses) ((hname.append htype).passed hpasses')
  dsimp only
  split
  · exact (walks_someExpression depth r₄).bind fun initial r₅ _ hinitial =>
      ends_statementFrom (hdeclared.append hinitial) (fun _ => rfl) fun _ => rfl
  · exact .ofPure (ends_statementFrom (hdeclared.append (.nil r₄)) (fun _ => rfl) fun _ => rfl)

theorem walks_returnStatement (depth : Nat) :
    Walks (fun s => [.statement s]) (returnStatement depth) := by
  refine fun r => .advance (.check fun semicolon => .check fun brace => .atEnd fun ended => ?_)
  have hstart : r.Passes (skip r) := .skip .refl
  dsimp only
  split
  · exact .ofPure (ends_statementFrom (.pass hstart (.nil _)) (fun _ => rfl) fun _ => rfl)
  · exact (walks_someExpression depth _).bind fun value r₁ _ hvalue =>
      ends_statementFrom (.pass hstart hvalue) (fun _ => rfl) fun _ => rfl

theorem walks_expressionStatement (depth : Nat) :
    Walks (fun s => [.statement s]) (expressionStatement depth) :=
  fun r => ((buildsParts depth).expression r).bind fun _ _ _ hvalue =>
    .node (.pure (.statementNode hvalue (hvalue.spans_of_mem (.head _)) rfl))

theorem Walks.endOfStatement {action : ReadM Statement}
    (h : Walks (fun s => [.statement s]) action) :
    Walks (fun s => [.statement s]) (action >>= ReadM.endOfStatement) :=
  fun r => (h r).bind fun _ _ _ hs => .eat fun _ _ hpasses => .pure (hs.passed hpasses)

theorem evolving_endOfStatement (s : Statement) : Evolving (endOfStatement s) :=
  fun r => (Ends.eat (R := fun _ _ => True) fun _ _ _ => .pure trivial : Ends r _ _).evolves

structure BuildsStatements (depth : Nat) : Prop where
  statement : Walks (fun s => [.statement s]) (statement depth)
  fnDeclaration : Walks (fun s => [.statement s]) (fnDeclaration depth)
  branch : Walks (fun s => [.statement s]) (branch depth)
  block : Walks (fun body => body.map .statement) (block depth)
  statements (isEnd : TokenKind → Bool) :
    Walks (fun body => body.map .statement) (statements isEnd depth)

theorem walks_statementHole :
    Walks (fun s => [.statement s]) (do return Statement.hole (← node (← current).span)) :=
  fun r => .current (.node (.pure (.statementNode (.nil r) r.spans_tokenAhead rfl)))

theorem buildsStatements_zero : BuildsStatements 0 where
  statement := walks_statementHole
  fnDeclaration := walks_statementHole
  branch := walks_statementHole
  block r := .pure (.nil r)
  statements _ r := .pure (.nil r)

namespace BuildsStatements

variable {depth : Nat}

theorem statement_succ (h : BuildsStatements depth) :
    Walks (fun s => [.statement s]) (ReadM.statement (depth + 1)) := by
  refine fun r => .kind fun kind => ?_
  split
  · exact (walks_letDeclaration depth).endOfStatement r
  · exact h.fnDeclaration.endOfStatement r
  · exact h.branch r
  · exact (walks_returnStatement depth).endOfStatement r
  · refine (passing_objectAhead r).bind fun isObject r₁ _ hlook => ?_
    split
    · exact ((walks_expressionStatement depth).endOfStatement r₁).mono fun _ _ hs =>
        hlook.append hs
    · refine .current ((h.block r₁).bind fun body r₂ _ hbody => ?_)
      exact (ends_statementFrom hbody (fun _ => rfl) fun _ => rfl).mono fun _ _ hs =>
        hlook.append hs
  · exact (walks_expressionStatement depth).endOfStatement r

theorem functionBody (h : BuildsStatements depth) :
    Walks (fun body => body.map .statement) (ReadM.functionBody depth) := by
  refine fun r => .kind fun kind => ?_
  split
  · refine .advance (((buildsParts depth).expression _).bind fun value r₁ _ hvalue =>
      .nodeFrom fun span hspan => .pure ?_)
    have hparts : Builds r [.expression value] r₁ := .pass (.skip .refl) hvalue
    exact .statementNode hparts (hspan r hparts.evolves r.spans_tokenAhead) rfl
  · split
    · exact h.block r
    · exact (passing_reportExpected _ r).bind fun _ _ _ hmissing => .pure hmissing

theorem fnDeclaration_succ (h : BuildsStatements depth) :
    Walks (fun s => [.statement s]) (ReadM.fnDeclaration (depth + 1)) := by
  rw [fnDeclaration_eq]
  refine fun r => .advance ((walks_expectName _).bind fun name r₁ _ hname =>
    .eat fun eaten r₂ hpasses => ?_)
  have hrest : ∀ parameters r₃, Builds r₂ (Piece.ofParameters parameters) r₃ →
      Ends r₃ (functionRest (tokenAhead r).span name depth parameters)
        fun s r' => Builds r [.statement s] r' := by
    intro parameters r₃ hparameters
    refine (walks_annotated depth r₃).bind fun result r₄ _ hresult =>
      (h.functionBody r₄).bind fun body r₅ _ hbody => ?_
    have hparts : Builds r (.name name :: (Piece.ofParameters parameters ++
        (Piece.ofType result ++ body.map .statement))) r₅ :=
      .pass (.skip .refl) ((hname.passed hpasses).append
        (hparameters.append (hresult.append hbody)))
    exact ends_statementFrom hparts (fun _ => rfl) fun _ => rfl
  split
  · exact (walks_parameters depth r₂).bind fun parameters r₃ _ hparameters =>
      (passing_expect _ r₃).bind fun _ r₄ _ hclosed =>
        hrest parameters r₄ (hparameters.closed hclosed)
  · exact hrest [] r₂ (.nil r₂)

theorem branch_succ (h : BuildsStatements depth) :
    Walks (fun s => [.statement s]) (ReadM.branch (depth + 1)) := by
  refine fun r => .advance (((buildsParts depth).expression _).bind fun condition r₁ _ hcondition =>
    (h.statement r₁).bind fun body r₂ _ hbody => .eatIf fun eaten r₃ hpasses => ?_)
  have hstart : Builds r [.expression condition, .statement body] r₃ :=
    .pass (.skip .refl) (hcondition.append (hbody.passed hpasses))
  dsimp only
  split
  · have hother : Ends r₃ (some <$> ReadM.statement depth) fun otherwise r' =>
        Builds r₃ (otherwise.toList.map .statement) r' := (h.statement r₃).map fun _ _ hs => hs
    exact hother.bind fun otherwise r₄ _ hotherwise =>
      ends_statementFrom (hstart.append hotherwise) (fun _ => rfl) fun _ => rfl
  · exact .ofPure (ends_statementFrom (hstart.append (.nil r₃)) (fun _ => rfl) fun _ => rfl)

theorem block_succ (h : BuildsStatements depth) :
    Walks (fun body => body.map .statement) (ReadM.block (depth + 1)) :=
  fun r => (passing_expect _ r).bind fun _ r₁ _ hopened =>
    (h.statements _ r₁).bind fun _ r₂ _ hbody => (passing_expect _ r₂).bind
      fun _ _ _ hclosed => .pure (hopened.append (hbody.closed hclosed))

theorem statements_succ (h : BuildsStatements depth) (isEnd : TokenKind → Bool) :
    Walks (fun body => body.map .statement) (ReadM.statements isEnd (depth + 1)) := by
  rw [statements_eq]
  refine fun r => (passing_semicolons depth r).bind fun _ r₁ _ hsemicolons => .kind fun kind => ?_
  split
  · exact .pure hsemicolons
  · have hnext : Ends r₁ (nextStatement depth) fun s r' => Builds r₁ [.statement s] r' := by
      refine .get ((h.statement r₁).bind fun first r₂ _ hfirst => .get ?_)
      split
      · exact .skip (.pure (hfirst.passed (.skip .refl)))
      · exact .pure hfirst
    exact hnext.bind fun first r₂ _ hfirst => (h.statements isEnd r₂).bind
      fun rest r₃ _ hrest => .pure (hsemicolons.append (hfirst.append hrest))

end BuildsStatements

theorem buildsStatements (depth : Nat) : BuildsStatements depth := by
  induction depth with
  | zero => exact buildsStatements_zero
  | succ depth h =>
    exact ⟨h.statement_succ, h.fnDeclaration_succ, h.branch_succ, h.block_succ, h.statements_succ⟩

end ReadM

/-- The tree of a list of tokens is built from the first token on. -/
theorem SyntaxTree.builds_ofTokens (tokens : List Token) (span : Span) :
    ∃ r : Reader, r.diagnostics.toList = (SyntaxTree.ofTokens tokens span).diagnostics ∧
      Builds { ahead := tokens.filter fun t => !t.kind.isInvalid }
        ((SyntaxTree.ofTokens tokens span).tree.statements.map .statement) r :=
  let ahead := tokens.filter fun t => !t.kind.isInvalid
  have hends :=
    (ReadM.buildsStatements (16 * (ahead.length + 1))).statements (fun _ => false) { ahead }
  ⟨_, rfl, hends.result⟩

end StackScript
