import StackScript.Code.Generate
import StackScript.Proofs.Code.Parts
import StackScript.Proofs.Tree.Names
import StackScript.Proofs.Tree.Depth
import StackScript.Proofs.Tree.Spans

set_option autoImplicit false

/-!
# The instructions of generated code

Main statement: `SyntaxTree.emits_code`. Every instruction of generated code, those of function
bodies and objects as well, comes from a span of the tree. An instruction that does nothing stands
only where the tree has a hole or a part without code.
-/
namespace StackScript

open Generate
open Instruction (plain push store jump)

/-- The instruction comes from a span in `P`, and it does something if the program is clean. -/
def Instruction.Emitted (P : Span → Prop) (clean : Prop) (instruction : Instruction) : Prop :=
  P instruction.origin ∧ (clean → instruction.opcode ≠ .noop)

namespace Code

abbrev Emits (P : Span → Prop) (clean : Prop) (code : Code) : Prop :=
  code.Everywhere (Instruction.Emitted P clean)

variable {P : Span → Prop} {clean : Prop} {code first second : Code} {origin : Span}

@[simp] theorem emits_append :
    Emits P clean (first ++ second) ↔ first.Emits P clean ∧ second.Emits P clean :=
  everywhere_append

@[simp] theorem emits_mk {opcode : Opcode} {operand : Option Operand} :
    Emits P clean (.mk opcode operand origin :: code) ↔ P origin ∧ (clean → opcode ≠ .noop) ∧
      (∀ o, operand = some o → ∀ inner, o.Holds inner → inner.Emits P clean) ∧
        code.Emits P clean := by
  rw [Emits, everywhere_cons, Instruction.Emitted, and_assoc]
  rfl

end Code

variable {P : Span → Prop} {clean : Prop} {bound : BoundTree} {origin : Span}

/-- What the code of an expression is asked of: its spans are in `P`, and a clean one has code for
all its parts. -/
structure Clear (P : Span → Prop) (clean : Prop) (bound : BoundTree) (e : Expression) : Prop where
  within : e.Within P
  gaps : clean → gaps bound e = []
  whole : clean → e.isWhole = true

theorem emits_gap (horigin : P origin) (h : ¬ clean) :
    Code.Emits P clean [plain .noop origin] := by
  simp [plain, horigin, h]

theorem emits_loadName (clean : Prop) (name : String) (h : P origin) :
    Code.Emits P clean (loadName name origin) := by
  simp [loadName, pushName, plain, push, h]

theorem emits_ofLiteral (value : Literal) (h : P origin) :
    Code.Emits P clean (ofLiteral value origin) := by
  cases value <;> simp [ofLiteral, plain, push, h]

theorem emits_opcodes (clean : Prop) (operation : BinaryOperation) (h : P origin) :
    Code.Emits P clean (operation.opcodes.map (plain · origin)) := by
  cases operation <;> simp [BinaryOperation.opcodes, plain, h]

theorem emits_stepOf {operand : Expression} {apply undo : Opcode} (happly : apply ≠ .noop)
    (hundo : undo ≠ .noop) (hoperand : operand.Within P) (horigin : P origin)
    (hgaps : clean → stepGaps operand origin = []) :
    Code.Emits P clean (stepOf operand origin apply undo) := by
  cases operand with
  | name target name =>
    have htarget : P target.span := hoperand
    simp [stepOf, step, loadName, pushName, plain, push, store, htarget, horigin, happly, hundo]
  | _ => exact emits_gap horigin fun h => by simpa [stepGaps] using hgaps h

mutual

theorem emits_ofExpression : (e : Expression) → Clear P clean bound e →
    Code.Emits P clean (ofExpression bound e)
  | .literal node value, h => emits_ofLiteral value h.within
  | .name node name, h => emits_loadName clean name h.within
  | .paren _ inner, h => emits_ofExpression inner ⟨h.within.2, h.gaps, h.whole⟩
  | .unary node operator operand, h => by
    have hwithin := h.within
    cases operator with
    | increment => exact emits_stepOf (by decide) (by decide) hwithin.2 hwithin.1 h.gaps
    | decrement => exact emits_stepOf (by decide) (by decide) hwithin.2 hwithin.1 h.gaps
    | _ =>
      have hoperand := emits_ofExpression operand ⟨hwithin.2, h.gaps, h.whole⟩
      simp [ofExpression, unaryOpcode, plain, hoperand, hwithin.1]
  | .binary node operator left right, ⟨hwithin, hgaps, hwhole⟩ => by
    simp only [Expression.isWhole, Bool.and_eq_true] at hwhole
    cases hbound : bound.operation? node with
    | none =>
      simp only [ofExpression, hbound]
      exact emits_gap hwithin.1 fun h => by simpa [gaps, hbound] using hgaps h
    | some operation =>
      simp only [gaps, hbound, List.append_eq_nil_iff] at hgaps
      have hleft := emits_ofExpression left
        ⟨hwithin.2.1, fun h => (hgaps h).1, fun h => (hwhole h).1⟩
      have hright := emits_ofExpression right
        ⟨hwithin.2.2, fun h => (hgaps h).2, fun h => (hwhole h).2⟩
      simp only [ofExpression, hbound, Code.emits_append]
      exact ⟨⟨hleft, hright⟩, emits_opcodes clean operation hwithin.1⟩
  | .assign node operator target value, ⟨hwithin, hgaps, hwhole⟩ => by
    simp only [Expression.isWhole, Bool.and_eq_true] at hwhole
    obtain ⟨hnode, htarget, hvalue⟩ := hwithin
    cases target with
    | name targetNode name =>
      have hname : P targetNode.span := htarget
      cases operator with
      | none =>
        have hcode := emits_ofExpression value ⟨hvalue, hgaps, fun h => (hwhole h).2⟩
        simp [ofExpression, pushName, push, store, hname, hcode, hnode]
      | some operator =>
        cases hbound : bound.operation? node with
        | none =>
          simp only [ofExpression, hbound]
          exact emits_gap hnode fun h => by simpa [gaps, hbound] using hgaps h
        | some operation =>
          simp only [gaps, hbound] at hgaps
          have hcode := emits_ofExpression value ⟨hvalue, hgaps, fun h => (hwhole h).2⟩
          have hload := emits_loadName clean name hname
          have hopcodes := emits_opcodes clean operation hnode
          simp [ofExpression, hbound, pushName, push, store, hname, hcode, hload, hopcodes, hnode]
    | _ => exact emits_gap htarget.span fun h => by simpa [gaps] using hgaps h
  | .object node entries, h => by
    have hentries := emits_ofProperties entries h.within.2 h.gaps h.whole
    rw [ofExpression, Code.emits_mk]
    refine ⟨h.within.1, by simp, fun operand hoperand inner hinner => ?_, Code.everywhere_nil⟩
    obtain rfl := Option.some.inj hoperand
    obtain ⟨entry, hentry, rfl | rfl⟩ := Operand.holds_entries_iff.mp hinner
    · exact (hentries entry hentry).1
    · exact (hentries entry hentry).2
  | .call node callee arguments, ⟨hwithin, hgaps, hwhole⟩ => by
    simp only [gaps, List.append_eq_nil_iff] at hgaps
    simp only [Expression.isWhole, Bool.and_eq_true] at hwhole
    have hcallee := emits_ofExpression callee
      ⟨hwithin.2.1, fun h => (hgaps h).1, fun h => (hwhole h).1⟩
    have harguments := emits_ofExpressions arguments hwithin.2.2 (fun h => (hgaps h).2)
      fun h => (hwhole h).2
    simp [ofExpression, hcallee, harguments, hwithin.1]
  | .member node inner label, h => by
    have hinner := emits_ofExpression inner ⟨h.within.2.1, h.gaps, h.whole⟩
    simp [ofExpression, pushName, push, plain, hinner, h.within.2.2, h.within.1]
  | .element node inner index, ⟨hwithin, hgaps, hwhole⟩ => by
    simp only [gaps, List.append_eq_nil_iff] at hgaps
    simp only [Expression.isWhole, Bool.and_eq_true] at hwhole
    have hinner := emits_ofExpression inner
      ⟨hwithin.2.1, fun h => (hgaps h).1, fun h => (hwhole h).1⟩
    have hindex := emits_ofExpression index
      ⟨hwithin.2.2, fun h => (hgaps h).2, fun h => (hwhole h).2⟩
    simp [ofExpression, plain, hinner, hindex, hwithin.1]
  | .hole node, h =>
    emits_gap h.within fun hclean => by simpa [Expression.isWhole] using h.whole hclean
termination_by structural e => e

theorem emits_ofExpressions : (es : List Expression) → Expression.ListWithin P es →
    (clean → listGaps bound es = []) → (clean → Expression.listWhole es = true) →
    Code.Emits P clean (ofExpressions bound es)
  | [], _, _, _ => Code.everywhere_nil
  | e :: rest, hwithin, hgaps, hwhole => by
    simp only [listGaps, List.append_eq_nil_iff] at hgaps
    simp only [Expression.listWhole, Bool.and_eq_true] at hwhole
    rw [ofExpressions, Code.emits_append]
    exact ⟨emits_ofExpression e ⟨hwithin.1, fun h => (hgaps h).1, fun h => (hwhole h).1⟩,
      emits_ofExpressions rest hwithin.2 (fun h => (hgaps h).2) fun h => (hwhole h).2⟩
termination_by structural es => es

theorem emits_ofProperties : (entries : List (Expression × Expression)) →
    Expression.EntriesWithin P entries → (clean → propertyGaps bound entries = []) →
    (clean → Expression.entriesWhole entries = true) →
    ∀ entry ∈ ofProperties bound entries, Code.Emits P clean entry.1 ∧ Code.Emits P clean entry.2
  | [], _, _, _ => by simp [ofProperties]
  | (key, value) :: rest, hwithin, hgaps, hwhole => by
    simp only [propertyGaps, List.append_eq_nil_iff] at hgaps
    simp only [Expression.entriesWhole, Bool.and_eq_true] at hwhole
    have hkey := emits_ofExpression key
      ⟨hwithin.1, fun h => (hgaps h).1.1, fun h => (hwhole h).1.1⟩
    have hvalue := emits_ofExpression value
      ⟨hwithin.2.1, fun h => (hgaps h).1.2, fun h => (hwhole h).1.2⟩
    have hrest := emits_ofProperties rest hwithin.2.2 (fun h => (hgaps h).2) fun h => (hwhole h).2
    intro entry hentry
    cases key with
    | name node name =>
      have hname : P node.span := hwithin.1
      obtain rfl | hlater := List.mem_cons.mp hentry
      · exact ⟨by simp [pushName, push, hname], hvalue⟩
      · exact hrest entry hlater
    | _ =>
      obtain rfl | hlater := List.mem_cons.mp hentry
      · exact ⟨hkey, hvalue⟩
      · exact hrest entry hlater
termination_by structural entries => entries

end

structure ClearStatement (P : Span → Prop) (clean : Prop) (bound : BoundTree) (s : Statement) :
    Prop where
  within : s.Within P
  gaps : clean → statementGaps bound s = []
  whole : clean → s.isWhole = true
  filled : clean → s.isFilled = true

structure ClearStatements (P : Span → Prop) (clean : Prop) (bound : BoundTree)
    (ss : List Statement) : Prop where
  within : Statement.ListWithin P ss
  gaps : clean → statementsGaps bound ss = []
  whole : clean → Statement.listWhole ss = true
  filled : clean → Statement.listFilled ss = true

theorem emits_ofOptional {value : Option Expression} (hvalue : ∀ e ∈ value, e.Within P)
    (hgaps : clean → optionalGaps bound value = [])
    (hwhole : clean → Statement.optionalWhole value = true) (horigin : P origin) :
    Code.Emits P clean (ofOptional bound value origin) := by
  cases value with
  | none => simp [ofOptional, plain, horigin]
  | some e => exact emits_ofExpression e ⟨hvalue e rfl, hgaps, hwhole⟩

mutual

theorem emits_ofStatement : (s : Statement) → (base : Nat) → ClearStatement P clean bound s →
    Code.Emits P clean (ofStatement bound base s)
  | .expression _ e, _, h => emits_ofExpression e ⟨h.within.2, h.gaps, h.whole⟩
  | .letDecl node _ name _ initial, _, h => by
    obtain ⟨hnode, hname, -, hinitial⟩ := h.within
    have hvalue := emits_ofOptional hinitial h.gaps h.whole hnode
    simp [ofStatement, pushName, push, store, hname, hvalue, hnode]
  | .fnDecl node name parameters _ body, _, h => by
    obtain ⟨hnode, hname, -, -, hbody⟩ := h.within
    have hcode := emits_ofStatements body 0 ⟨hbody, h.gaps, h.whole, h.filled⟩
    simp [ofStatement, pushName, push, store, plain, hname, hcode, hnode]
  | .block node body, base, h => by
    have hcode := emits_ofStatements body (base + 1) ⟨h.within.2, h.gaps, h.whole, h.filled⟩
    simp [ofStatement, plain, hcode, h.within.1]
  | .branch node condition body none, base, ⟨hwithin, hgaps, hwhole, hfilled⟩ => by
    simp only [statementGaps, List.append_nil, List.append_eq_nil_iff] at hgaps
    simp only [Statement.isWhole, Bool.and_true, Bool.and_eq_true] at hwhole
    simp only [Statement.isFilled, Bool.and_true] at hfilled
    have htest := emits_ofExpression condition
      ⟨hwithin.2.1, fun h => (hgaps h).1, fun h => (hwhole h).1⟩
    have hbody := fun start => emits_ofStatement body start
      ⟨hwithin.2.2.1, fun h => (hgaps h).2, fun h => (hwhole h).2, hfilled⟩
    simp [ofStatement, jump, htest, hbody, hwithin.1]
  | .branch node condition body (some other), base, ⟨hwithin, hgaps, hwhole, hfilled⟩ => by
    simp only [statementGaps, List.append_eq_nil_iff] at hgaps
    simp only [Statement.isWhole, Bool.and_eq_true] at hwhole
    simp only [Statement.isFilled, Bool.and_eq_true] at hfilled
    have htest := emits_ofExpression condition
      ⟨hwithin.2.1, fun h => (hgaps h).1.1, fun h => (hwhole h).1.1⟩
    have hbody := fun start => emits_ofStatement body start
      ⟨hwithin.2.2.1, fun h => (hgaps h).2, fun h => (hwhole h).1.2, fun h => (hfilled h).1⟩
    have hother := fun start => emits_ofStatement other start
      ⟨hwithin.2.2.2, fun h => (hgaps h).1.2, fun h => (hwhole h).2, fun h => (hfilled h).2⟩
    simp [ofStatement, jump, htest, hbody, hother, hwithin.1]
  | .giveBack node value, _, h => by
    have hvalue := emits_ofOptional h.within.2 h.gaps h.whole h.within.1
    simp [ofStatement, plain, hvalue, h.within.1]
  | .hole node, _, h => emits_gap h.within fun hclean => by
    simpa [Statement.isFilled] using h.filled hclean
termination_by structural s => s

theorem emits_ofStatements : (ss : List Statement) → (base : Nat) →
    ClearStatements P clean bound ss → Code.Emits P clean (ofStatements bound base ss)
  | [], _, _ => Code.everywhere_nil
  | s :: rest, base, ⟨hwithin, hgaps, hwhole, hfilled⟩ => by
    simp only [statementsGaps, List.append_eq_nil_iff] at hgaps
    simp only [Statement.listWhole, Bool.and_eq_true] at hwhole
    simp only [Statement.listFilled, Bool.and_eq_true] at hfilled
    rw [ofStatements, Code.emits_append]
    exact ⟨emits_ofStatement s base ⟨hwithin.1, fun h => (hgaps h).1, fun h => (hwhole h).1,
        fun h => (hfilled h).1⟩,
      emits_ofStatements rest _ ⟨hwithin.2, fun h => (hgaps h).2, fun h => (hwhole h).2,
        fun h => (hfilled h).2⟩⟩
termination_by structural ss => ss

end

theorem SyntaxTree.emits_code {tree : SyntaxTree} (h : ClearStatements P clean bound tree.statements)
    (hspan : P tree.span) : Code.Emits P clean (tree.code bound) := by
  rw [SyntaxTree.code, Code.emits_append]
  exact ⟨emits_ofStatements tree.statements 0 h, by simp [plain, hspan]⟩

theorem placed_stepGaps (operand : Expression) (horigin : P origin) :
    ∀ d ∈ stepGaps operand origin, P d.span := by
  cases operand with
  | name _ _ => simp [stepGaps]
  | _ => exact fun d hd => List.mem_singleton.mp hd ▸ horigin

mutual

theorem placed_gaps : (e : Expression) → e.Within P → ∀ d ∈ gaps bound e, P d.span
  | .literal _ _, _ | .name _ _, _ | .hole _, _ => by simp [gaps]
  | .paren _ inner, h => placed_gaps inner h.2
  | .unary node operator operand, h => by
    have hoperand := placed_gaps operand h.2
    cases operator with
    | increment | decrement => exact placed_stepGaps operand h.1
    | _ => exact hoperand
  | .binary node _ left right, h => by
    have hleft := placed_gaps left h.2.1
    have hright := placed_gaps right h.2.2
    rw [gaps]
    split
    · exact fun d hd => List.mem_singleton.mp hd ▸ h.1
    · exact List.forall_mem_append.mpr ⟨hleft, hright⟩
  | .assign node operator target value, ⟨hnode, htarget, hvalue⟩ => by
    have hinner := placed_gaps value hvalue
    cases target with
    | name _ _ =>
      cases operator with
      | none => exact hinner
      | some operator =>
        simp only [gaps]
        split
        · exact fun d hd => List.mem_singleton.mp hd ▸ hnode
        · exact hinner
    | _ => exact fun d hd => List.mem_singleton.mp hd ▸ htarget.span
  | .object _ entries, h => placed_propertyGaps entries h.2
  | .call _ callee arguments, h =>
    List.forall_mem_append.mpr ⟨placed_gaps callee h.2.1, placed_listGaps arguments h.2.2⟩
  | .member _ inner _, h => placed_gaps inner h.2.1
  | .element _ inner index, h =>
    List.forall_mem_append.mpr ⟨placed_gaps inner h.2.1, placed_gaps index h.2.2⟩
termination_by structural e => e

theorem placed_listGaps : (es : List Expression) → Expression.ListWithin P es →
    ∀ d ∈ listGaps bound es, P d.span
  | [], _ => by simp [listGaps]
  | e :: rest, h => List.forall_mem_append.mpr ⟨placed_gaps e h.1, placed_listGaps rest h.2⟩
termination_by structural es => es

theorem placed_propertyGaps : (entries : List (Expression × Expression)) →
    Expression.EntriesWithin P entries → ∀ d ∈ propertyGaps bound entries, P d.span
  | [], _ => by simp [propertyGaps]
  | (key, value) :: rest, h =>
    List.forall_mem_append.mpr ⟨List.forall_mem_append.mpr ⟨placed_gaps key h.1,
      placed_gaps value h.2.1⟩, placed_propertyGaps rest h.2.2⟩
termination_by structural entries => entries

end

theorem placed_optionalGaps {value : Option Expression} (h : ∀ e ∈ value, e.Within P) :
    ∀ d ∈ optionalGaps bound value, P d.span := by
  cases value with
  | none => simp [optionalGaps]
  | some e => exact placed_gaps e (h e rfl)

mutual

theorem placed_statementGaps : (s : Statement) → s.Within P →
    ∀ d ∈ statementGaps bound s, P d.span
  | .expression _ e, h => placed_gaps e h.2
  | .letDecl _ _ _ _ _, h => placed_optionalGaps h.2.2.2
  | .fnDecl _ _ _ _ body, h => placed_statementsGaps body h.2.2.2.2
  | .block _ body, h => placed_statementsGaps body h.2
  | .branch _ condition body none, h =>
    List.forall_mem_append.mpr ⟨List.forall_mem_append.mpr ⟨placed_gaps condition h.2.1, by simp⟩,
      placed_statementGaps body h.2.2.1⟩
  | .branch _ condition body (some other), h =>
    List.forall_mem_append.mpr ⟨List.forall_mem_append.mpr ⟨placed_gaps condition h.2.1,
      placed_statementGaps other h.2.2.2⟩, placed_statementGaps body h.2.2.1⟩
  | .giveBack _ _, h => placed_optionalGaps h.2
  | .hole _, _ => by simp [statementGaps]
termination_by structural s => s

theorem placed_statementsGaps : (ss : List Statement) → Statement.ListWithin P ss →
    ∀ d ∈ statementsGaps bound ss, P d.span
  | [], _ => by simp [statementsGaps]
  | s :: rest, h =>
    List.forall_mem_append.mpr ⟨placed_statementGaps s h.1, placed_statementsGaps rest h.2⟩
termination_by structural ss => ss

end

end StackScript
