import StackScript.Machine.Step

set_option autoImplicit false

/-!
# Finite runs of the machine

`Reaches` joins the steps that do not end a run. A run has an outcome exactly if it reaches a state
whose step ends it.
-/
namespace StackScript.Machine

/-- Finitely many steps, none of which ends the run. -/
inductive Reaches (limits : Limits) : Machine → Machine → Prop where
  | refl (m : Machine) : Reaches limits m m
  | next {m n o : Machine} (h : m.step limits = .running n) (tail : Reaches limits n o) :
      Reaches limits m o

variable {limits : Limits} {m n o : Machine}

theorem step_eq_execute {instruction : Instruction} (hfree : limits.stepLimit = none)
    (h : m.active.code[m.active.pointer]? = some instruction) :
    m.step limits = m.execute limits instruction := by
  simp only [step, h, charge, hfree]

theorem charge_cases (limits : Limits) (m : Machine) (origin : Span) :
    ∃ steps, m.charge limits origin = (true, { m with steps }) ∨
      m.charge limits origin = (false, { m with steps }) ∨
      ∃ limit, m.charge limits origin =
        (false, ({ m with steps } : Machine).report (.outOfSteps limit) origin) := by
  unfold charge
  split
  · exact ⟨m.steps, .inl rfl⟩
  · rename_i limit _
    refine ⟨m.steps + 1, ?_⟩
    dsimp only
    split
    · exact .inl rfl
    · split
      · exact .inr (.inr ⟨limit, rfl⟩)
      · exact .inr (.inl rfl)

theorem execute_unary {opcode : Opcode} {f : Value → Except CoercionError Value}
    (h : opcode.unary? = some f) (origin : Span) :
    m.execute limits (.plain opcode origin) = m.unary limits origin f := by
  cases opcode <;> cases h <;> rfl

theorem execute_binary {opcode : Opcode} {f : Value → Value → Except CoercionError Value}
    (h : opcode.binary? = some f) (origin : Span) :
    m.execute limits (.plain opcode origin) = m.binary limits origin f := by
  cases opcode <;> cases h <;> rfl

theorem Reaches.single (h : m.step limits = .running n) : Reaches limits m n :=
  .next h (.refl n)

theorem Reaches.trans (h : Reaches limits m n) (h' : Reaches limits n o) : Reaches limits m o := by
  induction h with
  | refl _ => exact h'
  | next hs _ ih => exact .next hs (ih h')

/-- The machine after that many steps, if the run does not end before. -/
def after (limits : Limits) : Nat → Machine → Option Machine
  | 0, m => some m
  | count + 1, m =>
    match m.step limits with
    | .running n => after limits count n
    | .finished _ => none

theorem reaches_after {count : Nat} (h : m.after limits count = some n) : Reaches limits m n := by
  induction count generalizing m with
  | zero => exact Option.some.inj h ▸ .refl m
  | succ count ih =>
    rw [after] at h
    split at h
    · rename_i next hstep
      exact .next hstep (ih h)
    · simp at h

theorem run_add_of_after {count : Nat} (h : m.after limits count = some n) (fuel : Nat) :
    m.run limits (count + fuel) = n.run limits fuel := by
  induction count generalizing m with
  | zero => rw [Nat.zero_add, Option.some.inj h]
  | succ count ih =>
    rw [after] at h
    split at h
    · rename_i next hstep
      rw [Nat.succ_add, run, hstep]
      exact ih h
    · simp at h

theorem Reaches.invariant (I : Machine → Prop) (h : Reaches limits m n)
    (hstep : ∀ a b, I a → a.step limits = .running b → I b) (hm : I m) : I n := by
  induction h with
  | refl _ => exact hm
  | next hs _ ih => exact ih (hstep _ _ hm hs)

theorem Reaches.run_eq_some {outcome : Outcome} (h : Reaches limits m n)
    (hend : n.step limits = .finished outcome) : ∃ fuel, m.run limits fuel = some outcome := by
  induction h with
  | refl m => exact ⟨1, by simp [run, hend]⟩
  | next hs _ ih =>
    obtain ⟨fuel, hfuel⟩ := ih hend
    exact ⟨fuel + 1, by simpa [run, hs] using hfuel⟩

theorem reaches_of_run_eq_some {fuel : Nat} {outcome : Outcome}
    (h : m.run limits fuel = some outcome) :
    ∃ n, Reaches limits m n ∧ n.step limits = .finished outcome := by
  induction fuel generalizing m with
  | zero => simp [run] at h
  | succ fuel ih =>
    cases hs : m.step limits with
    | running next =>
      have hrest : next.run limits fuel = some outcome := by simpa [run, hs] using h
      obtain ⟨n, hreach, hend⟩ := ih hrest
      exact ⟨n, .next hs hreach, hend⟩
    | finished final =>
      have hfinal : final = outcome := by simpa [run, hs] using h
      exact ⟨m, .refl m, hfinal ▸ hs⟩

theorem outcome_unique {fuel fuel' : Nat} {outcome outcome' : Outcome}
    (h : m.run limits fuel = some outcome) (h' : m.run limits fuel' = some outcome') :
    outcome' = outcome := by
  induction fuel generalizing m fuel' with
  | zero => simp [run] at h
  | succ fuel ih =>
    cases fuel' with
    | zero => simp [run] at h'
    | succ fuel' =>
      cases hs : m.step limits with
      | running next =>
        simp only [run, hs] at h h'
        exact ih h h'
      | finished final =>
        simp only [run, hs, Option.some.injEq] at h h'
        exact h'.symm.trans h

end StackScript.Machine
