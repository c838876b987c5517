import StackScript.Proofs.Machine.Regime
import StackScript.Proofs.Session.Compilation
import StackScript.Proofs.Session.StackDiscipline

set_option autoImplicit false

/-!
# The text a report is about

Main statement: `reports_lie_in_evaluated_texts`. Compilation reports places in the text that it
compiles. A function keeps the places of the text that declared it, so a run that starts a function
from an earlier text may report a place in that text. As long as it starts only functions of its
own, every report lies in the text that is evaluated, and its line and column are those of a place
there.
-/
namespace StackScript

def Span.LiesInSome (texts : List String) (span : Span) : Prop := ∃ text ∈ texts, span.LiesIn text

def Heritage.placed (P : Span → Prop) : Heritage where
  part code := code.Everywhere (P ·.origin)
  whole code := code.Everywhere (P ·.origin)
  part_of_whole h := h
  inner h hmem hoperand hholds := h.inner hmem hoperand hholds
  arguments {code pointer _ count _} h _ _ _ _ := h.subset (Code.region_subset code pointer count)

/-- All code comes from spans in `P`, that of functions from the given number on as well. -/
def Regime.placed (P : Span → Prop) (first : Nat) : Regime where
  toHeritage := .placed P
  place := P
  allows _ := True
  reach _ := True
  firstScope := 0
  first := first
  origin h hmem := h.here hmem
  constant _ _ _ := Value.all_of_forall (fun _ => trivial) _
  allows_new _ _ := trivial
  reach_new _ _ := trivial

theorem Machine.under_placed {P : Span → Prop} {first : Nat} {code : Code} {scope : Nat} {heap : Heap}
    (hcode : code.Everywhere (P ·.origin)) (hfirst : first ≤ heap.closures.size)
    (hbodies : ∀ ref closure, first ≤ ref.id → heap.closure? ref = some closure →
      closure.body.Everywhere (P ·.origin)) :
    (Machine.load code scope heap).Under (.placed P first) where
  heap :=
    { firstScope_le := Nat.zero_le _
      first_le := hfirst
      enclosing := fun _ _ _ _ => trivial
      bindings := fun _ _ value _ _ => Value.all_of_forall (fun _ => trivial) value
      closures := fun ref closure href hclosure => ⟨hbodies ref closure href hclosure, trivial⟩ }
  active := Machine.runs_start hcode trivial 0 []
  waiting s below hsuffix := by simp [Machine.load] at hsuffix
  log := by simp [Machine.load, DiagnosticLog.toList]

namespace Session

variable {session : Session} {texts : List String} {source : String}

/-- The functions of a session come from the texts it has evaluated. -/
def BodiesLieIn (texts : List String) (session : Session) : Prop :=
  ∀ ref closure, session.heap.closure? ref = some closure →
    closure.body.Everywhere (·.origin.LiesInSome texts)

theorem BodiesLieIn.under (h : session.BodiesLieIn texts) (source : String) :
    (session.start source).Under (.placed (·.LiesInSome (source :: texts)) 0) := by
  refine Machine.under_placed ?_ (Nat.zero_le _) fun ref closure _ hclosure => ?_
  · refine (session.globals.liesIn_compile source).2.mono fun instruction hin => ?_
    exact ⟨source, List.mem_cons_self, hin⟩
  · refine (h ref closure hclosure).mono fun instruction hin => ?_
    obtain ⟨text, htext, hlies⟩ := hin
    exact ⟨text, List.mem_cons_of_mem _ htext, hlies⟩

theorem HasEvaluated.bodiesLieIn (h : session.HasEvaluated texts) : session.BodiesLieIn texts := by
  induction h with
  | fresh limits =>
    intro ref closure hclosure
    have hnone : Heap.withGlobalScope.closure? ref = none := rfl
    rw [hnone] at hclosure
    exact nomatch hclosure
  | @eval session _ texts source _ _ _ heval ih =>
    obtain ⟨outcome, hrun, -, rfl⟩ := evalWithin_eq_some heval
    have hend := (ih.under source).of_run hrun fun _ _ _ _ => Nat.zero_le _
    exact fun ref closure hclosure => (hend.heap.closures ref closure (Nat.zero_le _) hclosure).1

end Session

/-- Every report about a text that is evaluated after others lies in this text or in one of those
before it, and a report of its compilation lies in the text itself. If the run starts no function
that was there before it, all reports lie in the text, and their locations are those of places in
it. -/
theorem reports_lie_in_evaluated_texts (session : Session) (texts : List String)
    (h : session.HasEvaluated texts) (source : String) (fuel : Nat) (evaluation : Evaluation)
    (later : Session) (heval : session.evalWithin fuel source = some (evaluation, later)) :
    (∀ d ∈ (session.compile source).diagnostics, d.span.LiesIn source) ∧
    (∀ d ∈ evaluation.diagnostics, ∃ text ∈ source :: texts, d.span.LiesIn text) ∧
    ((∀ m, (session.start source).Reaches session.limits m → ∀ ref,
        (m.step session.limits).Starts m.suspended ref → session.heap.closures.size ≤ ref.id) →
      ∀ d ∈ evaluation.diagnostics, d.span.LiesIn source ∧
        ∃ before after, source.toList = before ++ after ∧
          Source.byteLength before = d.span.start ∧
          d.span.location source = before.foldl Source.Location.after .first) := by
  obtain ⟨outcome, hrun, rfl, -⟩ := Session.evalWithin_eq_some heval
  obtain ⟨hcompiled, hcode⟩ := session.globals.liesIn_compile source
  refine ⟨hcompiled, List.forall_mem_append.mpr ⟨fun d hd => ?_, fun d hd => ?_⟩, fun hown d hd => ?_⟩
  · exact ⟨source, List.mem_cons_self, hcompiled d hd⟩
  · have hend := (h.bodiesLieIn.under source).of_run hrun fun _ _ _ _ => Nat.zero_le _
    exact hend.log d hd
  · -- At the start no function is new, so nothing is asked of those on the heap.
    have hstart :
        (session.start source).Under (.placed (·.LiesIn source) session.heap.closures.size) :=
      Machine.under_placed hcode (Nat.le_refl _) fun ref closure href hclosure => by
        have hnone : session.heap.closure? ref = none := Array.getElem?_eq_none href
        simp [hnone] at hclosure
    have hend := hstart.of_run hrun hown
    have hlies : d.span.LiesIn source := by
      obtain hold | hnew := List.mem_append.mp hd
      · exact hcompiled d hold
      · exact hend.log d hnew
    exact ⟨hlies, hlies.location_eq⟩

set_option maxRecDepth 100000 in
/-- A function is declared in one text, and the next calls it with an argument that has no members.
Then both are one text. -/
theorem reports_lie_in_evaluated_texts_of_member :
    let first := "fn name_of(user) -> user.name;"
    let second := "name_of(1)"
    let both := "fn name_of(user) -> user.name;\nname_of(1)"
    (∃ evaluation session evaluation' later,
      ({} : Session).evalWithin 100 first = some (evaluation, session) ∧
      session.HasEvaluated [first] ∧
      session.evalWithin 100 second = some (evaluation', later) ∧ evaluation'.diagnostics ≠ [] ∧
      ∀ d ∈ evaluation'.diagnostics, ∃ text ∈ [second, first], d.span.LiesIn text) ∧
    ∃ evaluation later, ({} : Session).evalWithin 100 both = some (evaluation, later) ∧
      evaluation.diagnostics ≠ [] ∧ ∀ d ∈ evaluation.diagnostics, d.span.LiesIn both := by
  intro first second both
  have hapart : ((({} : Session).evalWithin 100 first).any fun result =>
      (result.2.evalWithin 100 second).any fun result' =>
        !result'.1.diagnostics.isEmpty) = true := by decide +kernel
  have hone : ((({} : Session).evalWithin 100 both).any fun result =>
      !result.1.diagnostics.isEmpty) = true := by decide +kernel
  obtain ⟨⟨evaluation, session⟩, hfirst, hsecond⟩ := (Option.any_eq_true _ _).mp hapart
  obtain ⟨⟨evaluation', later⟩, hsecond, hreports⟩ := (Option.any_eq_true _ _).mp hsecond
  obtain ⟨⟨whole, last⟩, hboth, hreported⟩ := (Option.any_eq_true _ _).mp hone
  have hhistory : session.HasEvaluated [first] := .eval (.fresh {}) hfirst
  refine ⟨⟨evaluation, session, evaluation', later, hfirst, hhistory, hsecond, ?_, ?_⟩,
    whole, last, hboth, ?_, fun d hd => ?_⟩
  · simpa using hreports
  · exact (reports_lie_in_evaluated_texts session [first] hhistory second 100 evaluation' later
      hsecond).2.1
  · simpa using hreported
  · exact ((reports_lie_in_evaluated_texts {} [] (.fresh {}) both 100 whole last hboth).2.2
      (fun _ _ _ _ => Nat.zero_le _) d hd).1

set_option maxRecDepth 100000 in
/-- The member is looked up in the body of the function, which stands in the text that declared it,
behind the end of the text that is evaluated. -/
theorem report_lies_outside_evaluated_text :
    let first := "fn name_of(user) -> user.name;"
    let source := "name_of(1)"
    ∃ session evaluation later, Session.HasEvaluated session [first] ∧
      session.evalWithin 100 source = some (evaluation, later) ∧
      ∃ d ∈ evaluation.diagnostics, ¬ d.span.LiesIn source := by
  intro first source
  have hruns : ((({} : Session).evalWithin 100 first).any fun result =>
      (result.2.evalWithin 100 source).any fun result' =>
        result'.1.diagnostics.any fun d => decide (source.utf8ByteSize < d.span.stop)) = true := by
    decide +kernel
  obtain ⟨⟨evaluation, session⟩, hfirst, hsecond⟩ := (Option.any_eq_true _ _).mp hruns
  obtain ⟨⟨evaluation', later⟩, hsecond, hreports⟩ := (Option.any_eq_true _ _).mp hsecond
  obtain ⟨d, hd, hbehind⟩ := List.any_eq_true.mp hreports
  refine ⟨session, evaluation', later, .eval (.fresh {}) hfirst, hsecond, d, hd, fun hlies => ?_⟩
  exact absurd hlies.stop_le (Nat.not_le.mpr (of_decide_eq_true hbehind))

end StackScript
