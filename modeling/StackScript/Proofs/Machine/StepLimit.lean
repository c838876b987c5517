import StackScript.Proofs.Machine.Effects

set_option autoImplicit false

/-!
# The step limit

Each attempt to run an instruction is counted, whichever activation makes it, and one that exceeds
the limit ends its activation instead. The activations that wait go on without instructions of their
own: they bind arguments, build objects and take results, and each of them does so only finitely
often. So every run under a limit ends, on any code. It runs no more instructions than the limit
allows, reports that once if it tries to, and from then on changes no scope that is there.
-/
namespace StackScript

/-- How often it is reported that the steps have run out. -/
def DiagnosticLog.overruns (log : DiagnosticLog) : Nat :=
  log.toList.countP (·.code == .stepLimitExceeded)

/-- How often an activation that waits can still go on without an instruction of its own. -/
def Awaited.debt : Awaited → Nat
  | .arguments .. => 2
  | .result .. => 1
  | .key _ _ _ rest => 2 * rest.length + 2
  | .value _ _ _ rest => 2 * rest.length + 1

namespace Machine

def debt (m : Machine) : Nat :=
  m.suspended.foldr (fun s rest => s.awaited.debt + rest) 0

/-- The next step is an attempt to run an instruction. -/
def attempts (m : Machine) : Bool := m.active.code[m.active.pointer]?.isSome

def executes (limits : Limits) (m : Machine) : Bool :=
  m.active.code[m.active.pointer]?.any fun instruction => (m.charge limits instruction.origin).1

/-- How many of the steps of a run, which takes at most `fuel` of them, pass the test. -/
def countSteps (limits : Limits) (test : Machine → Bool) : Nat → Machine → Nat
  | 0, _ => 0
  | fuel + 1, m =>
    (test m).toNat + match m.step limits with
      | .running n => countSteps limits test fuel n
      | .finished _ => 0

/-- The next step reports that the steps have run out. -/
def RunsOut (limits : Limits) (m : Machine) : Prop :=
  m.log.overruns < (m.step limits).machine.log.overruns

variable {limits : Limits} {m n : Machine} {limit : Nat} {instruction : Instruction}

theorem steps_buildObject (m : Machine) (origin : Span) (built : List (Value × Value))
    (entries : List (Code × Code)) :
    (m.buildObject origin built entries).machine.steps = m.steps := by
  cases entries <;> rfl

theorem steps_invoke (m : Machine) (callee : Slot) (names : List String) (arguments : List Value)
    (origin : Span) (resume : Nat) :
    (m.invoke limits callee names arguments origin resume).machine.steps = m.steps := by
  unfold invoke
  split
  · split
    · rfl
    · split <;> rfl
  · rfl

theorem steps_finish (m : Machine) (given : Option Value) :
    (m.finish limits given).machine.steps = m.steps := by
  unfold finish
  split
  · rfl
  · rename_i caller suspended _
    dsimp only
    cases caller.awaited with
    | arguments callee names origin resume => exact steps_invoke _ _ _ _ _ _
    | result origin resume => rfl
    | key origin built value rest => rfl
    | value origin built key rest => exact steps_buildObject _ _ _ _

theorem overruns_push (log : DiagnosticLog) (d : Diagnostic) :
    (log.push d).overruns = log.overruns + if d.code = .stepLimitExceeded then 1 else 0 := by
  simp [DiagnosticLog.overruns, DiagnosticLog.push, DiagnosticLog.toList, List.countP_cons]

theorem Reported.overruns_eq {log later : DiagnosticLog} (h : Reported log later) :
    later.overruns = log.overruns := by
  cases h with
  | nothing => rfl
  | fault h origin => simp [overruns_push, RunFault.diagnostic, h]

theorem overruns_invoke (m : Machine) (callee : Slot) (names : List String)
    (arguments : List Value) (origin : Span) (resume : Nat) :
    (m.invoke limits callee names arguments origin resume).machine.log.overruns =
      m.log.overruns := by
  unfold invoke
  split
  · split
    · exact (Reported.fault (by nofun) origin).overruns_eq
    · split <;> rfl
  · exact (Reported.fault (by nofun) callee.origin).overruns_eq

theorem overruns_finish (m : Machine) (given : Option Value) :
    (m.finish limits given).machine.log.overruns = m.log.overruns := by
  unfold finish
  split
  · rfl
  · rename_i caller suspended _
    dsimp only
    cases caller.awaited with
    | arguments callee names origin resume => exact overruns_invoke _ _ _ _ _ _
    | result origin resume => rfl
    | key origin built value rest => rfl
    | value origin built key rest => rw [log_buildObject]

theorem Effect.steps_eq {progress : Progress} (h : Effect limits m instruction progress) :
    progress.machine.steps = m.steps := by
  cases h with
  | goes _ _ => rfl
  | stores _ _ => rfl
  | opens => rfl
  | closes _ _ => rfl
  | makes _ _ _ => rfl
  | builds _ => exact steps_buildObject _ _ _ _
  | calls _ _ => rfl
  | ends given _ => exact steps_finish _ given

theorem Effect.overruns_eq {progress : Progress} (h : Effect limits m instruction progress) :
    progress.machine.log.overruns = m.log.overruns := by
  cases h with
  | goes _ reported => exact reported.overruns_eq
  | stores _ _ => rfl
  | opens => rfl
  | closes _ _ => rfl
  | makes _ _ _ => rfl
  | builds _ => rw [log_buildObject]; rfl
  | calls _ _ => rfl
  | ends given reported => exact (overruns_finish _ given).trans reported.overruns_eq

inductive Tick (limits : Limits) (limit : Nat) (m : Machine) : Progress → Prop where
  | idle (done : m.attempts = false) : Tick limits limit m (m.finish limits none)
  | runs (instruction : Instruction) (tries : m.attempts = true) (room : m.steps < limit) :
      Tick limits limit m
        (({ m with steps := m.steps + 1 } : Machine).execute limits instruction)
  | overruns (origin : Span) (tries : m.attempts = true) (full : m.steps = limit) :
      Tick limits limit m
        ((({ m with steps := m.steps + 1 } : Machine).report (.outOfSteps limit) origin).finish
          limits none)
  | stops (tries : m.attempts = true) (past : limit < m.steps) :
      Tick limits limit m (({ m with steps := m.steps + 1 } : Machine).finish limits none)

theorem tick_step (hlimit : limits.stepLimit = some limit) (m : Machine) :
    Tick limits limit m (m.step limits) := by
  cases hcode : m.active.code[m.active.pointer]? with
  | none =>
    have hstep : m.step limits = m.finish limits none := by simp only [step, hcode]
    rw [hstep]
    exact .idle (by rw [attempts, hcode, Option.isSome_none])
  | some instruction =>
    have htries : m.attempts = true := by rw [attempts, hcode, Option.isSome_some]
    simp only [step, hcode, charge, hlimit]
    obtain hroom | hfull | hover := Nat.lt_trichotomy m.steps limit
    · rw [if_pos (show m.steps + 1 ≤ limit by omega)]
      exact .runs instruction htries hroom
    · rw [if_neg (show ¬ m.steps + 1 ≤ limit by omega), if_pos (congrArg (· + 1) hfull)]
      exact .overruns instruction.origin htries hfull
    · rw [if_neg (show ¬ m.steps + 1 ≤ limit by omega),
        if_neg (show ¬ m.steps + 1 = limit + 1 by omega)]
      exact .stops htries hover

theorem charge_fst (hlimit : limits.stepLimit = some limit) (m : Machine) (origin : Span) :
    (m.charge limits origin).1 = decide (m.steps < limit) := by
  simp only [charge, hlimit]
  by_cases hroom : m.steps < limit
  · rw [if_pos (show m.steps + 1 ≤ limit from hroom), decide_eq_true hroom]
  · rw [if_neg (show ¬ m.steps + 1 ≤ limit from hroom), decide_eq_false hroom]
    split <;> rfl

theorem executes_toNat (hlimit : limits.stepLimit = some limit) (m : Machine) :
    (m.executes limits).toNat = min m.attempts.toNat (limit - m.steps) := by
  unfold executes attempts
  cases m.active.code[m.active.pointer]? with
  | none => simp
  | some instruction =>
    rw [Option.any_some, Option.isSome_some, charge_fst hlimit, Bool.toNat_true]
    by_cases hroom : m.steps < limit
    · rw [decide_eq_true hroom, Bool.toNat_true]
      omega
    · rw [decide_eq_false hroom, Bool.toNat_false]
      omega

theorem steps_step (hlimit : limits.stepLimit = some limit) (m : Machine) :
    (m.step limits).machine.steps = m.steps + m.attempts.toNat := by
  have htick := tick_step hlimit m
  generalize m.step limits = progress at htick
  cases htick with
  | idle done => rw [steps_finish, done, Bool.toNat_false, Nat.add_zero]
  | runs instruction tries _ =>
    rw [(effect_execute limits _ instruction).steps_eq, tries, Bool.toNat_true]
  | overruns origin tries _ => rw [steps_finish, tries, Bool.toNat_true]; rfl
  | stops tries _ => rw [steps_finish, tries, Bool.toNat_true]

theorem overruns_step (hlimit : limits.stepLimit = some limit) (m : Machine) :
    (m.step limits).machine.log.overruns =
      m.log.overruns + if m.attempts = true ∧ m.steps = limit then 1 else 0 := by
  have htick := tick_step hlimit m
  generalize m.step limits = progress at htick
  cases htick with
  | idle done => simp [overruns_finish, done]
  | runs instruction tries room =>
    simp [(effect_execute limits _ instruction).overruns_eq, Nat.ne_of_lt room]
  | overruns origin tries full =>
    rw [overruns_finish, report, overruns_push]
    simp [RunFault.diagnostic, RunFault.code, tries, full]
  | stops tries past => simp [overruns_finish, Nat.ne_of_gt past]

theorem debt_buildObject (m : Machine) (origin : Span) (built : List (Value × Value))
    (entries : List (Code × Code)) :
    (m.buildObject origin built entries).machine.debt ≤ 2 * entries.length + m.debt := by
  cases entries with
  | nil => exact Nat.le_add_left _ _
  | cons entry rest => exact Nat.le_refl _

theorem debt_invoke (m : Machine) (callee : Slot) (names : List String) (arguments : List Value)
    (origin : Span) (resume : Nat) :
    (m.invoke limits callee names arguments origin resume).machine.debt ≤ 1 + m.debt := by
  unfold invoke
  split
  · split
    · exact Nat.le_add_left _ _
    · split
      · exact Nat.le_add_left _ _
      · exact Nat.le_refl _
  · exact Nat.le_add_left _ _

theorem debt_finish_lt {given : Option Value} (h : m.finish limits given = .running n) :
    n.debt < m.debt := by
  unfold finish at h
  split at h
  · simp at h
  · rename_i caller suspended hsuspended
    let resumed : Machine := { m with active := caller.activation, suspended }
    have hdebt : m.debt = caller.awaited.debt + resumed.debt := by
      simp only [debt, hsuspended, List.foldr_cons, resumed]
    have hn : (Progress.running n).machine.debt = n.debt := rfl
    rw [← hn, ← h, hdebt]
    dsimp only
    cases caller.awaited with
    | arguments callee names origin resume =>
      refine Nat.lt_of_le_of_lt (resumed.debt_invoke callee names _ origin resume) ?_
      show 1 + resumed.debt < 2 + resumed.debt
      omega
    | result origin resume =>
      show resumed.debt < 1 + resumed.debt
      omega
    | key origin built value rest =>
      show 2 * rest.length + 1 + resumed.debt < 2 * rest.length + 2 + resumed.debt
      omega
    | value origin built key rest =>
      refine Nat.lt_of_le_of_lt (resumed.debt_buildObject origin _ rest) ?_
      show 2 * rest.length + resumed.debt < 2 * rest.length + 1 + resumed.debt
      omega

/-- A step brings the run nearer to the limit or leaves less to do for those that wait. -/
theorem step_decreases (hlimit : limits.stepLimit = some limit) (h : m.step limits = .running n) :
    limit - n.steps < limit - m.steps ∨ limit - n.steps = limit - m.steps ∧ n.debt < m.debt := by
  have hsteps : n.steps = m.steps + m.attempts.toNat := by
    have hcounted := steps_step hlimit m
    rwa [h] at hcounted
  have htick := tick_step hlimit m
  generalize m.step limits = progress at htick h
  cases htick with
  | idle done =>
    rw [done, Bool.toNat_false] at hsteps
    exact .inr ⟨congrArg (limit - ·) hsteps, debt_finish_lt h⟩
  | runs instruction tries room =>
    rw [tries, Bool.toNat_true] at hsteps
    left
    omega
  | overruns origin tries full =>
    rw [tries, Bool.toNat_true] at hsteps
    have hdebt := debt_finish_lt h
    exact .inr ⟨by omega, hdebt⟩
  | stops tries past =>
    rw [tries, Bool.toNat_true] at hsteps
    have hdebt := debt_finish_lt h
    exact .inr ⟨by omega, hdebt⟩

theorem exists_run_of_stepLimit (hlimit : limits.stepLimit = some limit) (m : Machine) :
    ∃ fuel outcome, m.run limits fuel = some outcome := by
  cases hstep : m.step limits with
  | finished outcome => exact ⟨1, outcome, by simp [run, hstep]⟩
  | running n =>
    obtain ⟨fuel, outcome, hrun⟩ := exists_run_of_stepLimit hlimit n
    exact ⟨fuel + 1, outcome, by simpa [run, hstep] using hrun⟩
termination_by (limit - m.steps, m.debt)
decreasing_by exact (Prod.lex_def).mpr (step_decreases hlimit hstep)

theorem countSteps_of_running {test : Machine → Bool} (fuel : Nat)
    (h : m.step limits = .running n) :
    m.countSteps limits test (fuel + 1) = (test m).toNat + n.countSteps limits test fuel := by
  simp only [countSteps, h]

theorem countSteps_of_finished {test : Machine → Bool} {outcome : Outcome} (fuel : Nat)
    (h : m.step limits = .finished outcome) :
    m.countSteps limits test (fuel + 1) = (test m).toNat := by
  simp only [countSteps, h, Nat.add_zero]

theorem countSteps_executes (hlimit : limits.stepLimit = some limit) (fuel : Nat) (m : Machine) :
    m.countSteps limits (executes limits) fuel =
      min (m.countSteps limits attempts fuel) (limit - m.steps) := by
  induction fuel generalizing m with
  | zero => simp [countSteps]
  | succ fuel ih =>
    have hexecutes := executes_toNat hlimit m
    cases hstep : m.step limits with
    | finished outcome =>
      rw [countSteps_of_finished fuel hstep, countSteps_of_finished fuel hstep, hexecutes]
    | running n =>
      have hsteps : n.steps = m.steps + m.attempts.toNat := by
        have hcounted := steps_step hlimit m
        rwa [hstep] at hcounted
      rw [countSteps_of_running fuel hstep, countSteps_of_running fuel hstep, ih, hexecutes, hsteps]
      omega

theorem first_beyond_add (tries : Bool) (steps limit count : Nat) :
    ((if tries = true ∧ steps = limit then 1 else 0) +
      if steps + tries.toNat ≤ limit ∧ limit < steps + tries.toNat + count then 1 else 0) =
      if steps ≤ limit ∧ limit < steps + (tries.toNat + count) then 1 else 0 := by
  cases tries with
  | false => simp
  | true =>
    simp only [Bool.toNat_true, true_and]
    split <;> split <;> split <;> omega

theorem overruns_run (hlimit : limits.stepLimit = some limit) {fuel : Nat} {outcome : Outcome}
    (h : m.run limits fuel = some outcome) :
    outcome.machine.log.overruns = m.log.overruns +
      if m.steps ≤ limit ∧ limit < m.steps + m.countSteps limits attempts fuel then 1 else 0 := by
  induction fuel generalizing m with
  | zero => simp [run] at h
  | succ fuel ih =>
    have hsteps := steps_step hlimit m
    have hoverruns := overruns_step hlimit m
    cases hstep : m.step limits with
    | finished last =>
      obtain rfl : last = outcome := by simpa [run, hstep] using h
      have harith := first_beyond_add m.attempts m.steps limit 0
      rw [hstep] at hoverruns
      rw [countSteps_of_finished fuel hstep, ← Nat.add_zero m.attempts.toNat, ← harith]
      refine hoverruns.trans ?_
      split <;> split <;> omega
    | running n =>
      have hrest : n.run limits fuel = some outcome := by simpa [run, hstep] using h
      have hlast := ih hrest
      rw [hstep] at hsteps hoverruns
      have hsteps' : n.steps = m.steps + m.attempts.toNat := hsteps
      have hoverruns' : n.log.overruns =
          m.log.overruns + if m.attempts = true ∧ m.steps = limit then 1 else 0 := hoverruns
      rw [hlast, hoverruns', hsteps', countSteps_of_running fuel hstep, ← first_beyond_add,
        Nat.add_assoc]

theorem scope_step_of_full (hlimit : limits.stepLimit = some limit) (hfull : limit ≤ m.steps)
    {id : Nat} (hid : id < m.heap.scopes.size) :
    (m.step limits).machine.heap.scope id = m.heap.scope id := by
  -- Once the limit is used up, a step only ends activations.
  have htick := tick_step hlimit m
  generalize m.step limits = progress at htick
  cases htick with
  | idle _ => exact scope_finish _ none hid
  | runs _ _ room => omega
  | overruns _ _ _ => exact scope_finish _ none hid
  | stops _ _ => exact scope_finish _ none hid

theorem Reaches.steps_le (hreach : Reaches limits m n) (hlimit : limits.stepLimit = some limit) :
    m.steps ≤ n.steps := by
  induction hreach with
  | refl _ => exact Nat.le_refl _
  | @next m n _ hstep _ ih =>
    have hsteps := steps_step hlimit m
    rw [hstep] at hsteps
    exact Nat.le_trans (hsteps ▸ Nat.le_add_right _ _) ih

theorem Reaches.scope_eq_of_full (hreach : Reaches limits m n)
    (hlimit : limits.stepLimit = some limit) (hfull : limit ≤ m.steps) {id : Nat}
    (hid : id < m.heap.scopes.size) : n.heap.scope id = m.heap.scope id := by
  induction hreach with
  | refl _ => rfl
  | @next m n _ hstep _ ih =>
    have hscope := scope_step_of_full hlimit hfull hid
    have hgrows := grows_step limits m
    rw [hstep] at hscope hgrows
    have hstill : limit ≤ n.steps := Nat.le_trans hfull ((Reaches.single hstep).steps_le hlimit)
    exact (ih hstill (Nat.lt_of_lt_of_le hid hgrows.size_le)).trans hscope

theorem RunsOut.full (h : m.RunsOut limits) (hlimit : limits.stepLimit = some limit) :
    limit ≤ m.steps := by
  unfold RunsOut at h
  rw [overruns_step hlimit] at h
  split at h
  · rename_i hfull
    exact Nat.le_of_eq hfull.2.symm
  · omega

end Machine

/-- A run under a limit ends, whatever the code. It runs no more instructions than the limit says, in
all activations together; it reports that the steps have run out once if it tries one more, and
never if it does not; and from that report on the scopes that are there stay as they are. -/
theorem step_limit_is_hard (code : Code) (scope maxCallDepth limit : Nat) (heap : Heap) :
    let limits : Limits := { maxCallDepth, stepLimit := some limit }
    let start := Machine.load code scope heap
    (∃ fuel outcome, start.run limits fuel = some outcome) ∧
    (∀ fuel, start.countSteps limits (Machine.executes limits) fuel ≤ limit) ∧
    (∀ fuel outcome, start.run limits fuel = some outcome → outcome.machine.log.overruns =
      if limit < start.countSteps limits Machine.attempts fuel then 1 else 0) ∧
    ∀ m, start.Reaches limits m → m.RunsOut limits → ∀ id < m.heap.scopes.size,
      (∀ n, m.Reaches limits n → n.heap.scope id = m.heap.scope id) ∧
      ∀ fuel outcome, m.run limits fuel = some outcome →
        outcome.machine.heap.scope id = m.heap.scope id := by
  intro limits start
  have hlimit : limits.stepLimit = some limit := rfl
  refine ⟨Machine.exists_run_of_stepLimit hlimit start, fun fuel => ?_,
    fun fuel outcome hrun => ?_, fun m _ hrunsOut id hid => ⟨fun n hreach =>
      hreach.scope_eq_of_full hlimit (hrunsOut.full hlimit) hid, fun fuel outcome hrun => ?_⟩⟩
  · rw [Machine.countSteps_executes hlimit]
    exact Nat.min_le_right _ _
  · have hoverruns := Machine.overruns_run hlimit hrun
    have hnone : start.log.overruns = 0 := rfl
    have hfresh : start.steps = 0 := rfl
    rw [hoverruns, hnone, hfresh, Nat.zero_add, Nat.zero_add]
    simp only [Nat.zero_le, true_and]
  · obtain ⟨n, hreach, hend⟩ := Machine.reaches_of_run_eq_some hrun
    have hfull := hrunsOut.full hlimit
    have hn := hreach.scope_eq_of_full hlimit hfull hid
    have hsteps := hreach.steps_le hlimit
    have hlast := Machine.scope_step_of_full hlimit (Nat.le_trans hfull hsteps)
      (Nat.lt_of_lt_of_le hid hreach.grows.size_le)
    rw [hend] at hlast
    exact hlast.trans hn

set_option maxRecDepth 100000 in
/-- The key of an object jumps to itself for ever. The limit falls inside of it, so the value of that
entry and the code after the object are tried as well, and do not run either. -/
theorem step_limit_is_hard_of_endless_key :
    let key : Code := [.jump .jmp 0 default]
    let value : Code := [.push (.bool true) default]
    let code : Code := [.mk .pushObject (some (.entries [(key, value)])) default,
      .push (.string "x") default, .plain .swap default, .store false default]
    let limits : Limits := { maxCallDepth := 1, stepLimit := some 7 }
    let start := Machine.load code 0 Heap.withGlobalScope
    start.countSteps limits Machine.attempts 100 = 10 ∧
    start.countSteps limits (Machine.executes limits) 100 ≤ 7 ∧
    ∃ outcome, start.run limits 100 = some outcome ∧ outcome.machine.log.overruns = 1 ∧
      ∃ m, start.Reaches limits m ∧ m.RunsOut limits ∧
        outcome.machine.heap.scope 0 = m.heap.scope 0 := by
  intro key value code limits start
  obtain ⟨_, hbound, honce, hfrozen⟩ := step_limit_is_hard code 0 1 7 Heap.withGlobalScope
  have htried : start.countSteps limits Machine.attempts 100 = 10 := by decide +kernel
  have hreported : ((start.after limits 7).any fun m =>
      m.log.overruns < (m.step limits).machine.log.overruns && 0 < m.heap.scopes.size &&
        (m.run limits 93).isSome) = true := by
    decide +kernel
  obtain ⟨m, hafter, hm⟩ := (Option.any_eq_true _ _).mp hreported
  simp only [Bool.and_eq_true, decide_eq_true_eq] at hm
  obtain ⟨⟨hrunsOut, hscope⟩, hends⟩ := hm
  obtain ⟨outcome, hrun⟩ := Option.isSome_iff_exists.mp hends
  have hwhole : start.run limits 100 = some outcome :=
    (Machine.run_add_of_after hafter 93).trans hrun
  have hreach := Machine.reaches_after hafter
  refine ⟨htried, hbound 100, outcome, hwhole, ?_, m, hreach, hrunsOut,
    (hfrozen m hreach hrunsOut 0 hscope).2 93 outcome hrun⟩
  exact (honce 100 outcome hwhole).trans (by rw [htried]; rfl)

end StackScript
