import StackScript.Session
import StackScript.Proofs.Binding.Recorded
import StackScript.Proofs.Machine.StackEffect
import StackScript.Proofs.Tree.Holes

set_option autoImplicit false

/-!
# Values stand where code looks for them

Main statement: `stack_is_kept_until_failure`. In a session that evaluates texts in whose
compilation nothing was reported, code finds its values on the stack as long as no operation has
failed: expressions leave one value each, statements take nothing away that was there before, and
the first report of a value in the wrong place comes after the report of a failure.
-/
namespace StackScript

open Code (Placed)
open Generate

/-- The session has evaluated these texts, the last one first, whatever was reported. -/
inductive Session.HasEvaluated : Session → List String → Prop where
  | fresh (limits : Limits) : HasEvaluated { limits } []
  | eval {session later : Session} {texts : List String} {source : String} {fuel : Nat}
      {evaluation : Evaluation} (h : HasEvaluated session texts)
      (heval : session.evalWithin fuel source = some (evaluation, later)) :
      HasEvaluated later (source :: texts)

/-- A new session, or one that has evaluated texts in whose compilation nothing was reported. What
their runs reported makes no difference. -/
inductive Session.Orderly : Session → Prop where
  | fresh (limits : Limits) : Orderly { limits }
  | eval {session later : Session} {source : String} {fuel : Nat} {evaluation : Evaluation}
      (h : Orderly session) (hclean : (session.compile source).diagnostics = [])
      (heval : session.evalWithin fuel source = some (evaluation, later)) : Orderly later

/-- Shapes are promised, and any names may be written. -/
def Setting.orderly (heap : Heap) : Setting :=
  let promised : Discipline :=
    { exact := True
      stores _ _ := True
      calls _ _ _ _ := True
      procs _ := True }
  promised.setting heap (fun _ => True) 0

/-- The machine that is about to run a text. -/
def Session.start (session : Session) (source : String) : Machine :=
  .load (session.compile source).code globalScope session.heap

theorem Session.evalWithin_eq_some {session later : Session} {fuel : Nat} {source : String}
    {evaluation : Evaluation} (h : session.evalWithin fuel source = some (evaluation, later)) :
    ∃ outcome, (session.start source).run session.limits fuel = some outcome ∧
      evaluation = ⟨outcome.value,
        (session.compile source).diagnostics ++ outcome.machine.log.toList⟩ ∧
      later = { session with
        globals := (session.compile source).globals, heap := outcome.machine.heap } := by
  obtain ⟨outcome, hrun, hpair⟩ := Option.map_eq_some_iff.mp h
  obtain ⟨rfl, rfl⟩ := Prod.mk.inj hpair
  exact ⟨outcome, hrun, rfl, rfl⟩

namespace Setting

variable {heap : Heap}

theorem open_orderly : (orderly heap).Open := ⟨fun _ => trivial, rfl⟩

theorem safe_orderly {session : Session} {source : String}
    (hclean : (session.compile source).diagnostics = [])
    (hheap : (orderly session.heap).HeapOk session.heap) :
    (session.start source).Safe (orderly session.heap) := by
  obtain ⟨hfront, hgaps⟩ := List.append_eq_nil_iff.mp hclean
  have hwhole := SyntaxTree.isWhole_of_read (List.append_eq_nil_iff.mp hfront).1
  have hsound : Code.Sound (orderly session.heap).toDiscipline (session.compile source).code 0 0 [] :=
    SyntaxTree.sound_code _ (fun _ _ => trivial) (fun _ _ => ⟨trivial, trivial⟩)
      (fun e _ => Discipline.admits_of_calls (fun _ _ _ _ => trivial) e)
      (fun _ => hgaps) (fun _ => hwhole)
  exact Machine.safe_load 0 hsound hheap (.inl trivial) fun _ _ _ _ _ hfixed => hfixed.elim

end Setting

theorem Session.Orderly.heapOk {session : Session} (h : session.Orderly) :
    (Setting.orderly session.heap).HeapOk session.heap := by
  induction h with
  | fresh limits => exact Heap.functionless_withGlobalScope.heapOk Setting.open_orderly rfl
  | eval _ hclean heval ih =>
    obtain ⟨outcome, hrun, -, rfl⟩ := Session.evalWithin_eq_some heval
    have hheap := ((Setting.safe_orderly hclean ih).ambient_of_run hrun).heap
    exact hheap.rebase ⟨id, fun _ _ => id, fun _ _ _ _ => id, fun _ => id⟩
      Setting.open_orderly Setting.open_orderly rfl

theorem Session.Orderly.safe {session : Session} {source : String} (h : session.Orderly)
    (hclean : (session.compile source).diagnostics = []) :
    (session.start source).Safe (Setting.orderly session.heap) :=
  Setting.safe_orderly hclean h.heapOk

theorem Session.Orderly.next {session : Session} (h : session.Orderly) (fuel : Nat)
    {source : String} (hclean : (session.compile source).diagnostics = []) :
    (((session.evalWithin fuel source).map (·.2)).getD session).Orderly := by
  cases heval : session.evalWithin fuel source with
  | none => exact h
  | some result => exact .eval h hclean heval

theorem Session.first_statement {session : Session} {source : String}
    (hclean : (session.compile source).diagnostics = []) {s : Statement} {rest : List Statement}
    (hstatements : (SyntaxTree.read source).tree.statements = s :: rest) :
    let bound := (Globals.bind session.globals (SyntaxTree.read source).tree).bound
    let code := (session.start source).active.code
    statementGaps bound s = [] ∧ s.isWhole = true ∧ Placed code 0 (ofStatement bound 0 s) ∧
      0 + (ofStatement bound 0 s).length < code.length := by
  intro bound code
  obtain ⟨hfront, hgaps⟩ := List.append_eq_nil_iff.mp hclean
  have hwhole : Statement.listWhole (SyntaxTree.read source).tree.statements = true :=
    SyntaxTree.isWhole_of_read (List.append_eq_nil_iff.mp hfront).1
  have hgaps : statementsGaps bound (SyntaxTree.read source).tree.statements = [] := hgaps
  rw [hstatements, statementsGaps, List.append_eq_nil_iff] at hgaps
  rw [hstatements, Statement.listWhole, Bool.and_eq_true] at hwhole
  have hcode : code = ofStatement bound 0 s ++
      (ofStatements bound (0 + (ofStatement bound 0 s).length) rest ++
        [.plain .exit (SyntaxTree.read source).tree.span]) := by
    have hall : code = ofStatements bound 0 (SyntaxTree.read source).tree.statements ++
      [.plain .exit (SyntaxTree.read source).tree.span] := rfl
    rw [hall, hstatements, ofStatements, List.append_assoc]
  refine ⟨hgaps.1, hwhole.1, ?_, ?_⟩
  · rw [hcode]
    exact (Code.placed_self _).left
  · rw [hcode, List.length_append, List.length_append, List.length_singleton]
    omega

namespace Machine

/-- The next instructions of the active activation, as a stretch that is to keep the stack. -/
def ahead (m : Machine) (size : Nat) : Stretch where
  code := m.active.code
  base := m.suspended
  floor := m.active.stack
  first := m.active.pointer
  stop := m.active.pointer + size
  log := m.log.toList

variable {t : Setting} {m : Machine} {bound : BoundTree}

theorem stands_self (m : Machine) :
    Stands m.active m.suspended m.active.pointer m.active.stack m := ⟨rfl, rfl⟩

theorem gets_expression {e : Expression} (hexact : t.exact) (hm : m.Safe t) (limits : Limits)
    (hgaps : gaps bound e = []) (hwhole : e.isWhole = true)
    (hplaced : Placed m.active.code m.active.pointer (ofExpression bound e)) :
    m.Gets limits (m.ahead (ofExpression bound e).length).Inside fun n =>
      FailedSince m.log.toList n.log.toList ∨ ∃ slot, n.Stands m.active m.suspended
        (m.active.pointer + (ofExpression bound e).length) (slot :: m.active.stack) := by
  refine pushes hexact limits e hgaps hwhole rfl (List.suffix_refl _)
    ⟨hplaced, Nat.le_refl _, Nat.le_refl _⟩ (fun slot n hn hstands _ _ => ?_) m hm m.stands_self
    (Heap.Grows.refl _) (List.prefix_refl _)
  exact .here (.inr ⟨slot, hstands⟩)

theorem gets_statement {s : Statement} (hexact : t.exact) (hm : m.Safe t) (limits : Limits)
    (hgaps : statementGaps bound s = []) (hwhole : s.isWhole = true)
    (hplaced : Placed m.active.code m.active.pointer (ofStatement bound m.active.pointer s))
    (hroom : m.active.pointer + (ofStatement bound m.active.pointer s).length <
      m.active.code.length) :
    m.Gets limits (m.ahead (ofStatement bound m.active.pointer s).length).Inside fun n =>
      FailedSince m.log.toList n.log.toList ∨
        (m.ahead (ofStatement bound m.active.pointer s).length).GivesBack n ∨
        ∃ added, n.Stands m.active m.suspended
          (m.active.pointer + (ofStatement bound m.active.pointer s).length)
          (added ++ m.active.stack) := by
  refine keeps hexact limits s hgaps hwhole hroom (fun n hn => .inl hn) rfl (List.suffix_refl _)
    ⟨hplaced, Nat.le_refl _, Nat.le_refl _⟩ (fun after hafter n hn hstands _ _ => ?_) m hm
    m.stands_self (Heap.Grows.refl _) (List.prefix_refl _)
  obtain ⟨added, rfl⟩ := hafter
  exact .here (.inr (.inr ⟨added, hstands⟩))

end Machine

/-- What the evaluation of a text reports, and what its code does to the stack on the way. From any
state of the run, and on any stack, the code of an expression comes to just behind its last
instruction with one value more, and the code of a statement to just behind its last instruction, or
to where it gives back a value of its own, with all that was on the stack before; and that stays on
the stack in between, whatever other code runs meanwhile. Only a failure in between or the step
limit can prevent that. -/
theorem stack_is_kept_until_failure (session : Session) (source : String)
    (hsession : session.Orderly) (hclean : (session.compile source).diagnostics = []) :
    (∀ fuel evaluation later, session.evalWithin fuel source = some (evaluation, later) →
      ∀ before d after, evaluation.diagnostics = before ++ d :: after →
        d.code = .stackCorruption → Failed before) ∧
    ∀ m, (session.start source).Reaches session.limits m →
      (∀ bound e, gaps bound e = [] → e.isWhole = true →
        Placed m.active.code m.active.pointer (ofExpression bound e) →
        m.Gets session.limits (m.ahead (ofExpression bound e).length).Inside fun n =>
          FailedSince m.log.toList n.log.toList ∨ ∃ slot, n.Stands m.active m.suspended
            (m.active.pointer + (ofExpression bound e).length) (slot :: m.active.stack)) ∧
      ∀ bound s, statementGaps bound s = [] → s.isWhole = true →
        Placed m.active.code m.active.pointer (ofStatement bound m.active.pointer s) →
        m.active.pointer + (ofStatement bound m.active.pointer s).length < m.active.code.length →
        m.Gets session.limits (m.ahead (ofStatement bound m.active.pointer s).length).Inside fun n =>
          FailedSince m.log.toList n.log.toList ∨
            (m.ahead (ofStatement bound m.active.pointer s).length).GivesBack n ∨
            ∃ added, n.Stands m.active m.suspended
              (m.active.pointer + (ofStatement bound m.active.pointer s).length)
              (added ++ m.active.stack) := by
  have hstart := hsession.safe hclean
  refine ⟨fun fuel evaluation later heval before d after hsplit hcode => ?_, fun m hreach => ?_⟩
  · obtain ⟨outcome, hrun, rfl, -⟩ := Session.evalWithin_eq_some heval
    have hlog := (hstart.ambient_of_run hrun).log
    rw [hclean, List.nil_append] at hsplit
    obtain ⟨-, -, -, hallowed⟩ := hlog before d after hsplit
    exact hallowed hcode trivial
  · have hm := hreach.safe hstart
    exact ⟨fun bound e hgaps hwhole hplaced =>
        Machine.gets_expression trivial hm session.limits hgaps hwhole hplaced,
      fun bound s hgaps hwhole hplaced hroom =>
        Machine.gets_statement trivial hm session.limits hgaps hwhole hplaced hroom⟩

set_option maxRecDepth 100000 in
/-- The second text of a session declares a variable. In its value a function from the first text is
called, and then something that is no function. -/
theorem stack_is_kept_until_failure_of_failed_call :
    let first := "let a; fn f(n) -> n * 2;"
    let source := "let x = f(1) + a();"
    let session : Session := ((({} : Session).evalWithin 100 first).map (·.2)).getD {}
    let start := session.start source
    session.Orderly ∧ (session.compile source).diagnostics = [] ∧
    (∃ evaluation later before d after,
      session.evalWithin 100 source = some (evaluation, later) ∧
      evaluation.diagnostics = before ++ d :: after ∧ d.code = .stackCorruption ∧ Failed before) ∧
    ∃ bound s, Placed start.active.code 0 (ofStatement bound 0 s) ∧
      start.Gets session.limits (start.ahead (ofStatement bound 0 s).length).Inside fun n =>
        FailedSince [] n.log.toList ∨ (start.ahead (ofStatement bound 0 s).length).GivesBack n ∨
          ∃ added, n.Stands start.active start.suspended (0 + (ofStatement bound 0 s).length)
            (added ++ []) := by
  intro first source session start
  have horderly : session.Orderly :=
    (Session.Orderly.fresh {}).next 100 (List.isEmpty_iff.mp (by decide +kernel))
  have hclean : (session.compile source).diagnostics = [] :=
    List.isEmpty_iff.mp (by decide +kernel)
  have hcorrupt : ((session.evalWithin 100 source).any fun result =>
      result.1.diagnostics.any (·.code == .stackCorruption)) = true := by
    decide +kernel
  obtain ⟨⟨evaluation, later⟩, heval, hany⟩ := (Option.any_eq_true _ _).mp hcorrupt
  obtain ⟨d, hd, hcode⟩ := List.any_eq_true.mp hany
  obtain ⟨before, after, hsplit⟩ := List.append_of_mem hd
  have hcode : d.code = .stackCorruption := by simpa using hcode
  obtain ⟨hreports, hruns⟩ := stack_is_kept_until_failure session source horderly hclean
  have hfailed := hreports 100 evaluation later heval before d after hsplit hcode
  refine ⟨horderly, hclean, ⟨evaluation, later, before, d, after, heval, hsplit, hcode, hfailed⟩, ?_⟩
  cases hstatements : (SyntaxTree.read source).tree.statements with
  | nil => exact absurd (List.isEmpty_iff.mpr hstatements) (by decide +kernel)
  | cons s rest =>
    obtain ⟨hgaps, hwhole, hplaced, hroom⟩ := Session.first_statement hclean hstatements
    exact ⟨_, s, hplaced, (hruns start (.refl start)).2 _ s hgaps hwhole hplaced hroom⟩

end StackScript
