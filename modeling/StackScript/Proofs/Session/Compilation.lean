import StackScript.Session
import StackScript.Proofs.Binding.Gaps
import StackScript.Proofs.Code.Emitted
import StackScript.Proofs.Token.Spans
import StackScript.Proofs.Tree.Holes
import StackScript.Proofs.Tree.Numbering

set_option autoImplicit false

/-!
# What compilation makes of a text

Every span that comes out of the compilation of a text lies in the text, whatever was wrong with it.
Main statement: `missing_code_is_reported`. Binding has reported something wherever code is missing,
and the code of a text about which nothing was reported has no instruction that does nothing.
-/
namespace StackScript

namespace SyntaxTree

theorem nodup_read (source : String) :
    (Statement.listIds (SyntaxTree.read source).tree.statements).Nodup := by
  obtain ⟨count, hids⟩ := ids_ofTokens (tokenize source).tokens ⟨0, source.utf8ByteSize⟩
  exact hids ▸ List.nodup_range

theorem within_read (source : String) :
    Statement.ListWithin (·.LiesIn source) (SyntaxTree.read source).tree.statements ∧
      ∀ d ∈ (SyntaxTree.read source).diagnostics, d.span.LiesIn source := by
  obtain ⟨htokens, hlexical⟩ := liesIn_of_mem_tokenize source
  obtain ⟨htree, hsyntax⟩ := within_ofTokens (Span.mergeable_liesIn source) htokens
    ⟨0, source.utf8ByteSize⟩
  exact ⟨htree, List.forall_mem_append.mpr ⟨hlexical, hsyntax⟩⟩

end SyntaxTree

theorem Globals.liesIn_compile (globals : Globals) (source : String) :
    (∀ d ∈ (globals.compile source).diagnostics, d.span.LiesIn source) ∧
      (globals.compile source).code.Everywhere (·.origin.LiesIn source) := by
  obtain ⟨htree, hread⟩ := SyntaxTree.within_read source
  obtain ⟨hbinding, -⟩ := globals.gaps_bind (SyntaxTree.nodup_read source) htree
  have hcode : Code.Emits (·.LiesIn source) False (globals.compile source).code :=
    SyntaxTree.emits_code ⟨htree, False.elim, False.elim, False.elim⟩ (Span.liesIn_whole source)
  exact ⟨List.forall_mem_append.mpr ⟨List.forall_mem_append.mpr ⟨hread, hbinding⟩,
    placed_statementsGaps _ htree⟩, hcode.mono fun _ h => h.1⟩

theorem DiagnosticCode.mem_of_leavesGap {code : DiagnosticCode} (h : code.leavesGap = true) :
    code ∈ [.invalidAssignment, .unresolvedName, .noMatchingOperator] := by
  cases code <;> simp [leavesGap] at h ⊢

/-- For every text, with or without syntax errors, and all globals known before it: code generation
misses something only if binding has reported an invalid assignment, a name that is not known or an
operator that does not apply. If neither the reader nor binding has reported anything, every
instruction does something, in function bodies and objects as well. -/
theorem missing_code_is_reported (globals : Globals) (source : String) :
    let read := SyntaxTree.read source
    let binding := globals.bind read.tree
    (∀ d ∈ read.tree.gaps binding.bound, ∃ e ∈ binding.diagnostics,
      e.code ∈ [.invalidAssignment, .unresolvedName, .noMatchingOperator]) ∧
    (read.diagnostics = [] → binding.diagnostics = [] →
      (read.tree.code binding.bound).Everywhere fun instruction => instruction.opcode ≠ .noop) := by
  intro read binding
  obtain ⟨htree, -⟩ := SyntaxTree.within_read source
  obtain ⟨-, hgaps⟩ := globals.gaps_bind (SyntaxTree.nodup_read source) htree
  refine ⟨fun d hd => ?_, fun hread hbinding => ?_⟩
  · obtain ⟨e, he, hleaves⟩ := hgaps (List.ne_nil_of_mem hd)
    exact ⟨e, he, DiagnosticCode.mem_of_leavesGap hleaves⟩
  · have hnone : read.tree.gaps binding.bound = [] := by
      refine Classical.byContradiction fun hsome => ?_
      obtain ⟨e, he, -⟩ := hgaps hsome
      exact absurd he (hbinding ▸ List.not_mem_nil)
    have hcode : Code.Emits (·.LiesIn source) True (read.tree.code binding.bound) :=
      SyntaxTree.emits_code ⟨htree, fun _ => hnone, fun _ => SyntaxTree.isWhole_of_read hread,
        fun _ => SyntaxTree.isFilled_ofTokens _ _⟩ (Span.liesIn_whole source)
    exact hcode.mono fun _ h => h.2 trivial

set_option maxRecDepth 100000 in
/-- The first text has a compound assignment in a function and an object, and nothing is wrong with
it. In the second the assignment has no variable to go to, inside a sum that could be bound. -/
theorem missing_code_is_reported_of_two_texts :
    let clean :=
      "fn add(n) \x7b let mut sum = 1; sum += n; return \x7b total: sum + n \x7d; \x7d add(2).total"
    let faulty := "1 + (1 = 2)"
    let code (source : String) :=
      let tree := (SyntaxTree.read source).tree
      tree.code (Globals.bind .empty tree).bound
    (SyntaxTree.read clean).diagnostics = [] ∧
    (Globals.bind .empty (SyntaxTree.read clean).tree).diagnostics = [] ∧
    (code clean).Everywhere (fun instruction => instruction.opcode ≠ .noop) ∧
    ¬ (code faulty).Everywhere (fun instruction => instruction.opcode ≠ .noop) ∧
    ∃ e ∈ (Globals.bind .empty (SyntaxTree.read faulty).tree).diagnostics,
      e.code ∈ [.invalidAssignment, .unresolvedName, .noMatchingOperator] := by
  intro clean faulty code
  have hread : (SyntaxTree.read clean).diagnostics = [] := List.isEmpty_iff.mp (by decide +kernel)
  have hbinding : (Globals.bind .empty (SyntaxTree.read clean).tree).diagnostics = [] :=
    List.isEmpty_iff.mp (by decide +kernel)
  have hnoop : (code faulty).any (fun i => i.opcode == .noop) = true := by decide +kernel
  obtain ⟨i, hi, hopcode⟩ := List.any_eq_true.mp hnoop
  have hgap : ((SyntaxTree.read faulty).tree.gaps
      (Globals.bind .empty (SyntaxTree.read faulty).tree).bound).isEmpty = false := by decide +kernel
  obtain ⟨d, hd⟩ := List.exists_mem_of_ne_nil _ (List.isEmpty_eq_false_iff.mp hgap)
  exact ⟨hread, hbinding, (missing_code_is_reported .empty clean).2 hread hbinding,
    fun h => h.here hi (eq_of_beq hopcode), (missing_code_is_reported .empty faulty).1 d hd⟩

end StackScript
