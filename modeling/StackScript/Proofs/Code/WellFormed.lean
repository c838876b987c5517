import StackScript.Code.Generate
import StackScript.Proofs.Code.Segments

set_option autoImplicit false

/-!
# Well-formed code

Main statement: `generated_code_is_well_formed`. It holds of every tree and of every bound tree,
whether they belong together or not, and of code that can never run. Expressions give straight code,
statements give segments.
-/
namespace StackScript

open Generate
open Instruction (plain push store)

namespace Code

def EndsInExit (code : Code) : Prop := ∃ last, code.getLast? = some last ∧ last.opcode = .exit

/-- Code of its own: a program, a function body, or a key or value of an object. -/
structure WellFormed (code : Code) : Prop where
  /-- Jumps lead forward, to an instruction of the code. -/
  jumps : ∀ ⦃i j⦄, code[i]? = some j → j.opcode.isJump = true →
    ∃ t, j.target? = some t ∧ i < t ∧ t < code.length
  regions : code.Regions
  /-- Every scope is ended. -/
  scopes : ∀ ⦃b j⦄, code[b]? = some j → j.opcode = .beginScope → ∃ e, code.ScopeAt b e
  /-- No jump leads into a scope or out of it, except to its last instruction. -/
  crossing : ∀ ⦃b e⦄, code.ScopeAt b e → ∀ ⦃i t⦄, code.JumpAt i t →
    (b < i ∧ i ≤ e ↔ b < t ∧ t ≤ e)
  bodies : ∀ j ∈ code, ∀ name parameters body,
    j.operand = some (.proc name parameters body) → Code.EndsInExit body
  entries : ∀ j ∈ code, ∀ entries, j.operand = some (.entries entries) →
    ∀ entry ∈ entries, Code.isStraight entry.1 = true ∧ Code.isStraight entry.2 = true

/-- The code and all code inside it are well formed and pass the check of jump targets. -/
def Proper (code : Code) : Prop :=
  ∀ part : Code, code.Part part → part.WellFormed ∧ part.badJumps = []

end Code

/-- The code in the operand is proper, function bodies end in an exit, and the parts of objects are
straight. -/
def Operand.Proper : Operand → Prop
  | .proc _ _ body => Code.EndsInExit body ∧ Code.Proper body
  | .entries parts => ∀ entry ∈ parts,
      (Code.isStraight entry.1 = true ∧ Code.Proper entry.1) ∧
        Code.isStraight entry.2 = true ∧ Code.Proper entry.2
  | _ => True

namespace Code

def Carries (code : Code) : Prop := ∀ j ∈ code, ∀ operand, j.operand = some operand → operand.Proper

theorem Carries.append {first second : Code} (h : first.Carries) (h' : second.Carries) :
    Carries (first ++ second) := by
  intro j hj
  rcases List.mem_append.mp hj with hfirst | hsecond
  · exact h j hfirst
  · exact h' j hsecond

theorem carries_plain (opcode : Opcode) (origin : Span) : Carries [plain opcode origin] := by
  intro j hj operand hoperand
  obtain rfl := List.mem_singleton.mp hj
  cases hoperand

theorem carries_operand {operand : Operand} (h : operand.Proper) (opcode : Opcode)
    (origin : Span) : Carries [.mk opcode (some operand) origin] := by
  intro j hj other hother
  obtain rfl := List.mem_singleton.mp hj
  obtain rfl := Option.some.inj hother
  exact h

theorem Carries.holds {code inner : Code} (h : code.Carries) {j : Instruction} (hj : j ∈ code)
    {operand : Operand} (hoperand : j.operand = some operand) (hholds : operand.Holds inner) :
    inner.Proper := by
  have hproper := h j hj operand hoperand
  cases hholds with
  | body => exact hproper.2
  | key hentry => exact (hproper _ hentry).1.2
  | value hentry => exact (hproper _ hentry).2.2

theorem proper_of_carries {code : Code} (hcarries : code.Carries) (hregions : code.Regions)
    (hjumps : ∀ ⦃i j⦄, code[i]? = some j → j.opcode.isJump = true →
      ∃ t, j.target? = some t ∧ i < t ∧ t < code.length)
    (hbalanced : openScopes 0 code = some 0)
    (hcrossing : ∀ ⦃b e⦄, code.ScopeAt b e → ∀ ⦃i t⦄, code.JumpAt i t →
      (b < i ∧ i ≤ e ↔ b < t ∧ t ≤ e)) : code.Proper := by
  intro part hpart
  cases hpart with
  | inner hj hoperand hholds hrest => exact hcarries.holds hj hoperand hholds part hrest
  | self =>
    constructor
    · refine ⟨hjumps, hregions, fun b j hj => exists_scopeAt hbalanced hj, hcrossing, ?_, ?_⟩
      · intro j hj name parameters body hoperand
        exact (hcarries j hj _ hoperand).1
      · intro j hj entries hoperand entry hentry
        have hproper := hcarries j hj _ hoperand entry hentry
        exact ⟨hproper.1.1, hproper.2.1⟩
    · refine badJumps_eq_nil_iff.mpr fun j hj =>
        ⟨fun hjump => ?_, fun _ hoperand inner hholds => ?_⟩
      · obtain ⟨i, hi⟩ := List.getElem?_of_mem hj
        obtain ⟨t, ht, -, hlt⟩ := hjumps hi hjump
        exact ⟨t, ht, hlt⟩
      · exact (hcarries.holds hj hoperand hholds inner (.self inner)).2

theorem proper_of_segment {code : Code} (h : Segment 0 code) (hcarries : code.Carries)
    (origin : Span) : Proper (code ++ [plain .exit origin]) := by
  have hplain : (plain .exit origin).opcode ≠ .call := nofun
  have hexit : Segment (0 + code.length) [plain .exit origin] :=
    segment_of_isStraight rfl (regions_singleton hplain) _
  have hall := h.append hexit
  refine proper_of_carries (hcarries.append (carries_plain _ _)) hall.regions
    (fun i j hj hjump => ?_) hall.balanced fun b e hscope i t hjump => ?_
  · rcases getElem?_append_cases hj with ⟨-, hin⟩ | ⟨k, -, hend⟩
    · obtain ⟨t, ht, hlt, hle⟩ := h.jumps hin hjump
      refine ⟨t, ht, by omega, ?_⟩
      rw [List.length_append, List.length_singleton]
      omega
    · obtain rfl := List.mem_singleton.mp (List.mem_of_getElem? hend)
      cases hjump
  · have hcrossing := hall.crossing hscope hjump
    omega

/-- Straight code with proper operands, in which the arguments of calls are nested. -/
structure Straight (code : Code) : Prop where
  straight : code.isStraight = true
  regions : code.Regions
  carries : code.Carries

theorem Straight.append {first second : Code} (h : first.Straight) (h' : second.Straight) :
    Straight (first ++ second) where
  straight := by
    unfold isStraight
    rw [List.all_append, Bool.and_eq_true]
    exact ⟨h.straight, h'.straight⟩
  regions := h.regions.append h'.regions
  carries := h.carries.append h'.carries

theorem Straight.segment {code : Code} (h : code.Straight) (base : Nat) : Segment base code :=
  segment_of_isStraight h.straight h.regions base

theorem straight_nil : Straight [] := ⟨rfl, regions_of_no_call (by simp), by simp [Carries]⟩

theorem straight_singleton {j : Instruction} (hstraight : j.isStraight = true)
    (hcall : j.opcode ≠ .call) (hcarries : Carries [j]) : Straight [j] where
  straight := by simpa [isStraight] using hstraight
  regions := regions_singleton hcall
  carries := hcarries

theorem Straight.cons {j : Instruction} {code : Code} (h : code.Straight)
    (hj : Straight [j]) : Straight (j :: code) := hj.append h

theorem straight_plain {opcode : Opcode} (hstraight : (plain opcode default).isStraight = true)
    (hcall : opcode ≠ .call) (origin : Span) : Straight [plain opcode origin] :=
  straight_singleton hstraight hcall (carries_plain _ _)

theorem straight_push (value : Value) (origin : Span) : Straight [push value origin] :=
  straight_singleton rfl (by decide : Opcode.push ≠ .call) (carries_operand (by trivial) _ _)

theorem straight_store (keep : Bool) (origin : Span) : Straight [store keep origin] :=
  straight_singleton rfl (by decide : Opcode.store ≠ .call) (carries_operand (by trivial) _ _)

theorem Straight.proper {code : Code} (h : code.Straight) : code.Proper := by
  have hsegment := h.segment 0
  refine proper_of_carries h.carries h.regions (fun i j hj hjump => ?_) hsegment.balanced
    fun b e hscope i t hjump => ?_
  · exact absurd hjump (not_isJump_of_isStraight h.straight hj)
  · have hcrossing := hsegment.crossing hscope hjump
    omega

theorem straight_loadName (name : String) (origin : Span) : Straight (loadName name origin) :=
  (straight_push _ _).append (straight_plain rfl (by decide) _)

theorem straight_ofLiteral (value : Literal) (origin : Span) :
    Straight (ofLiteral value origin) := by
  cases value with
  | none => exact straight_plain rfl (by decide) _
  | _ => exact straight_push _ _

theorem straight_opcodes (operation : BinaryOperation) (origin : Span) :
    Straight (operation.opcodes.map (plain · origin)) := by
  have hnot : Straight [plain .not origin] := straight_plain rfl (by decide) _
  cases operation with
  | notEqual | greater | greaterOrEqual => exact hnot.cons (straight_plain rfl (by decide) _)
  | _ => exact straight_plain rfl (by decide) _

theorem straight_stepOf (operand : Expression) (origin : Span) {apply undo : Opcode}
    (happly : Straight [plain apply origin]) (hundo : Straight [plain undo origin]) :
    Straight (stepOf operand origin apply undo) := by
  cases operand with
  | name target name =>
    have hload :=
      (straight_loadName name target.span).cons (straight_push (.string name) target.span)
    have hstore := (hundo.cons (straight_push (.int 1) origin)).cons (straight_store true origin)
    exact hload.append ((hstore.cons happly).cons (straight_push _ _))
  | _ => exact straight_plain rfl (by decide) _

variable {bound : BoundTree}

mutual

theorem straight_ofExpression : (e : Expression) → Straight (ofExpression bound e)
  | .literal node value => straight_ofLiteral value node.span
  | .name node name => straight_loadName name node.span
  | .paren _ inner => straight_ofExpression inner
  | .unary node operator operand => by
    cases operator with
    | increment | decrement =>
      exact straight_stepOf operand node.span (straight_plain rfl (by decide) _)
        (straight_plain rfl (by decide) _)
    | _ => exact (straight_ofExpression operand).append (straight_plain rfl (by decide) _)
  | .binary node operator left right => by
    rw [ofExpression]
    split
    · exact straight_plain rfl (by decide) _
    · exact ((straight_ofExpression left).append (straight_ofExpression right)).append
        (straight_opcodes _ _)
  | .assign node operator target value => by
    cases target with
    | name targetNode name =>
      cases operator with
      | none =>
        exact ((straight_ofExpression value).append (straight_store _ _)).cons (straight_push _ _)
      | some operator =>
        simp only [ofExpression]
        split
        · exact straight_plain rfl (by decide) _
        · have hload := (straight_loadName name targetNode.span).cons
            (straight_push (.string name) targetNode.span)
          exact ((hload.append (straight_ofExpression value)).append (straight_opcodes _ _)).append
            (straight_store _ _)
    | _ => exact straight_plain rfl (by decide) _
  | .object node properties => by
    refine straight_singleton rfl (by decide : Opcode.pushObject ≠ .call) (carries_operand ?_ _ _)
    intro entry hentry
    obtain ⟨hkey, hvalue⟩ := straight_ofProperties properties entry hentry
    exact ⟨⟨hkey.straight, hkey.proper⟩, hvalue.straight, hvalue.proper⟩
  | .call node callee arguments => by
    have harguments := straight_ofExpressions arguments
    exact (straight_ofExpression callee).append ⟨harguments.straight,
      harguments.regions.call harguments.straight _ _,
      (carries_operand (by trivial) _ _).append harguments.carries⟩
  | .member node object name =>
    (straight_ofExpression object).append
      ((straight_plain rfl (by decide) _).cons (straight_push _ _))
  | .element node object index =>
    ((straight_ofExpression object).append (straight_ofExpression index)).append
      (straight_plain rfl (by decide) _)
  | .hole node => straight_plain rfl (by decide) _
termination_by structural e => e

theorem straight_ofExpressions : (es : List Expression) → Straight (ofExpressions bound es)
  | [] => straight_nil
  | e :: rest => (straight_ofExpression e).append (straight_ofExpressions rest)
termination_by structural es => es

theorem straight_ofProperties : (properties : List (Expression × Expression)) →
    ∀ entry ∈ ofProperties bound properties, Straight entry.1 ∧ Straight entry.2
  | [] => by simp [ofProperties]
  | (key, value) :: rest => by
    have hkey := straight_ofExpression key
    have hvalue := straight_ofExpression value
    have hrest := straight_ofProperties rest
    intro entry hentry
    cases key with
    | name node name =>
      rcases List.mem_cons.mp hentry with rfl | hlater
      · exact ⟨straight_push _ _, hvalue⟩
      · exact hrest entry hlater
    | _ =>
      rcases List.mem_cons.mp hentry with rfl | hlater
      · exact ⟨hkey, hvalue⟩
      · exact hrest entry hlater
termination_by structural properties => properties

end

theorem straight_ofOptional (value : Option Expression) (origin : Span) :
    Straight (ofOptional bound value origin) := by
  cases value with
  | none => exact straight_plain rfl (by decide) _
  | some e => exact straight_ofExpression e

/-- The code of statements: a segment with proper operands. -/
structure Sequence (base : Nat) (code : Code) : Prop where
  segment : Segment base code
  carries : code.Carries

theorem Straight.sequence {code : Code} (h : code.Straight) (base : Nat) : Sequence base code :=
  ⟨h.segment base, h.carries⟩

theorem Sequence.append {base : Nat} {first second : Code} (h : Sequence base first)
    (h' : Sequence (base + first.length) second) : Sequence base (first ++ second) :=
  ⟨h.segment.append h'.segment, h.carries.append h'.carries⟩

theorem Sequence.block {base : Nat} {body : Code} (h : Sequence (base + 1) body) (origin : Span) :
    Sequence base (plain .beginScope origin :: (body ++ [plain .endScope origin])) :=
  ⟨h.segment.block origin, (carries_plain _ _).append (h.carries.append (carries_plain _ _))⟩

theorem Sequence.jumpOver {base : Nat} {first second : Code}
    (h : Sequence (base + 1) (first ++ second)) (hfirst : openScopes 0 first = some 0)
    {opcode : Opcode} (hopcode : opcode.isJump = true) (origin : Span) :
    Sequence base (.jump opcode (base + 1 + first.length) origin :: (first ++ second)) :=
  ⟨h.segment.jumpOver hfirst hopcode origin, (carries_operand (by trivial) _ _).append h.carries⟩

theorem straight_proc {body : Code} (h : Sequence 0 body) (name : String) (parameters : List String)
    (origin : Span) :
    Straight [.mk .proc (some (.proc name parameters (body ++ [plain .exit origin]))) origin] := by
  refine straight_singleton rfl (by decide : Opcode.proc ≠ .call) (carries_operand ?_ _ _)
  exact ⟨⟨_, List.getLast?_concat, rfl⟩, proper_of_segment h.segment h.carries origin⟩

/-- Both branches and the test before them. The first jump leads to the body, over the other branch
and the second jump, which leads to the end. -/
theorem Sequence.branch {base : Nat} {test other taken : Code} (htest : test.Straight)
    (hother : Sequence (base + test.length + 1) other)
    (htaken : Sequence (base + test.length + 1 + other.length + 1) taken) (origin : Span) :
    Sequence base (test ++ .jump .jnz (base + test.length + 1 + other.length + 1) origin :: other ++
      .jump .jmp (base + test.length + 1 + other.length + 1 + taken.length) origin :: taken) := by
  have hjmp : Sequence (base + test.length + 1 + other.length)
      (.jump .jmp (base + test.length + 1 + other.length + 1 + taken.length) origin ::
        (taken ++ [])) :=
    .jumpOver (by rwa [List.append_nil]) htaken.segment.balanced rfl origin
  have hboth : Sequence (base + test.length + 1)
      ((other ++ [.jump .jmp (base + test.length + 1 + other.length + 1 + taken.length) origin]) ++
        taken) := by
    rw [List.append_nil] at hjmp
    rw [List.append_assoc]
    exact hother.append hjmp
  have hover : openScopes 0 (other ++
      [.jump .jmp (base + test.length + 1 + other.length + 1 + taken.length) origin]) = some 0 := by
    rw [openScopes_append, hother.segment.balanced]
    rfl
  have hjnz := @Sequence.jumpOver _ _ _ hboth hover .jnz rfl origin
  have hall := (htest.sequence base).append hjnz
  rw [List.length_append, List.length_singleton, List.append_assoc] at hall
  rw [List.append_assoc]
  exact hall

mutual

theorem sequence_ofStatement : (base : Nat) → (s : Statement) →
    Sequence base (ofStatement bound base s)
  | base, .expression _ e => (straight_ofExpression e).sequence base
  | base, .letDecl node _ name _ initial =>
    (((straight_ofOptional initial node.span).append (straight_store _ _)).cons
      (straight_push _ _)).sequence base
  | base, .fnDecl node name parameters _ body =>
    (((straight_store _ _).cons (straight_proc (sequence_ofStatements 0 body) name.text _
      node.span)).cons (straight_push _ _)).sequence base
  | base, .block node body => (sequence_ofStatements (base + 1) body).block node.span
  | base, .branch node condition body none =>
    .branch (straight_ofExpression condition) (straight_nil.sequence _)
      (sequence_ofStatement _ body) node.span
  | base, .branch node condition body (some otherwise) =>
    .branch (straight_ofExpression condition) (sequence_ofStatement _ otherwise)
      (sequence_ofStatement _ body) node.span
  | base, .giveBack node value =>
    ((straight_ofOptional value node.span).append (straight_plain rfl (by decide) _)).sequence base
  | base, .hole node => (straight_plain rfl (by decide) _).sequence base
termination_by structural _ s => s

theorem sequence_ofStatements : (base : Nat) → (body : List Statement) →
    Sequence base (ofStatements bound base body)
  | base, [] => straight_nil.sequence base
  | base, s :: rest => (sequence_ofStatement base s).append (sequence_ofStatements _ rest)
termination_by structural _ body => body

end

end Code

/-- Generated code is well formed: it passes the check of jump targets and ends with an exit, and so
does each function body in it; jumps lead forward inside their own code and never into a scope or
out of one; and the parts of objects and the arguments of calls are straight, the latter nested. -/
theorem generated_code_is_well_formed (tree : SyntaxTree) (bound : BoundTree) :
    (tree.code bound).badJumps = [] ∧ (tree.code bound).EndsInExit ∧
      ∀ part : Code, (tree.code bound).Part part → part.WellFormed := by
  have hbody : Code.Sequence 0 (ofStatements bound 0 tree.statements) :=
    Code.sequence_ofStatements 0 tree.statements
  have hproper : (tree.code bound).Proper :=
    Code.proper_of_segment hbody.segment hbody.carries tree.span
  refine ⟨(hproper _ (.self _)).2, ⟨_, List.getLast?_concat, rfl⟩, fun part hpart => ?_⟩
  exact (hproper part hpart).1

end StackScript
