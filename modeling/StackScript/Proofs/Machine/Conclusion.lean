import StackScript.Proofs.Machine.Effects
import StackScript.Proofs.Machine.Preservation

set_option autoImplicit false

/-!
# Activations conclude

An activation of a safe machine comes to an end, whatever it calls on the way, unless the step limit
is reached first. Control only goes forward in sound code, the code inside an operand is smaller than
the code around it, and a function's body is one level deeper than the call; the depth of calls is
limited.
-/
namespace StackScript

open Code (Sound)

/-- Some operation has failed since the log was `before`. -/
def FailedSince (before log : List Diagnostic) : Prop := ∃ rest, log = before ++ rest ∧ Failed rest

theorem FailedSince.earlier {first before log : List Diagnostic} (h : FailedSince before log)
    (hle : first <+: before) : FailedSince first log := by
  obtain ⟨rest, rfl, d, hd, hfailure⟩ := h
  obtain ⟨between, rfl⟩ := hle
  exact ⟨between ++ rest, List.append_assoc _ _ _, d, List.mem_append_right _ hd, hfailure⟩

namespace Machine

/-- No further instruction may run. -/
def OutOfSteps (limits : Limits) (m : Machine) : Prop :=
  ∃ limit, limits.stepLimit = some limit ∧ limit ≤ m.steps

/-- Finitely many steps, each from a state in `I`. -/
inductive Through (limits : Limits) (I : Machine → Prop) : Machine → Machine → Prop where
  | refl (m : Machine) : Through limits I m m
  | next {m n o : Machine} (hm : I m) (h : m.step limits = .running n)
      (tail : Through limits I n o) : Through limits I m o

/-- The run comes to a state in `Q`, by way of states in `I`, or is stopped by the step limit. -/
def Gets (limits : Limits) (I Q : Machine → Prop) (m : Machine) : Prop :=
  ∃ n, Through limits I m n ∧ (OutOfSteps limits n ∨ Q n)

variable {limits : Limits} {I J Q R : Machine → Prop} {m n o : Machine} {instruction : Instruction}

theorem step_of_instruction (limits : Limits)
    (h : m.active.code[m.active.pointer]? = some instruction) :
    OutOfSteps limits m ∨
      ∃ steps, m.step limits = ({ m with steps } : Machine).execute limits instruction := by
  cases hlimit : limits.stepLimit with
  | none => exact .inr ⟨m.steps, step_eq_execute hlimit h⟩
  | some limit =>
    by_cases hroom : m.steps + 1 ≤ limit
    · refine .inr ⟨m.steps + 1, ?_⟩
      simp only [step, h, charge, hlimit, if_pos hroom]
    · exact .inl ⟨limit, hlimit, by omega⟩

theorem Through.reaches (h : Through limits I m n) : Reaches limits m n := by
  induction h with
  | refl m => exact .refl m
  | next _ hs _ ih => exact .next hs ih

theorem Through.trans (h : Through limits I m n) (h' : Through limits I n o) :
    Through limits I m o := by
  induction h with
  | refl _ => exact h'
  | next hm hs _ ih => exact .next hm hs (ih h')

theorem Through.mono (h : Through limits I m n) (hI : ∀ k, I k → J k) : Through limits J m n := by
  induction h with
  | refl m => exact .refl m
  | next hm hs _ ih => exact .next (hI _ hm) hs ih

theorem Gets.here (h : Q m) : Gets limits I Q m := ⟨m, .refl m, .inr h⟩

theorem Gets.step (hm : I m) (hs : m.step limits = .running n) (h : Gets limits I Q n) :
    Gets limits I Q m := by
  obtain ⟨o, hthrough, hend⟩ := h
  exact ⟨o, .next hm hs hthrough, hend⟩

theorem Gets.bind (h : Gets limits I Q m)
    (hnext : ∀ n, Reaches limits m n → Q n → Gets limits I R n) : Gets limits I R m := by
  obtain ⟨n, hthrough, hout | hn⟩ := h
  · exact ⟨n, hthrough, .inl hout⟩
  · obtain ⟨o, hthrough', hend⟩ := hnext n hthrough.reaches hn
    exact ⟨o, hthrough.trans hthrough', hend⟩

theorem Gets.mono (h : Gets limits I Q m) (hI : ∀ k, I k → J k) (hQ : ∀ k, Q k → R k) :
    Gets limits J R m := by
  obtain ⟨n, hthrough, hend⟩ := h
  exact ⟨n, hthrough.mono hI, hend.imp_right (hQ n)⟩

theorem Gets.of_execute (hm : I m) (h : m.active.code[m.active.pointer]? = some instruction)
    (hnext : ∀ steps, m.step limits = ({ m with steps } : Machine).execute limits instruction →
      ∃ n, ({ m with steps } : Machine).execute limits instruction = .running n ∧
        Gets limits I Q n) : Gets limits I Q m := by
  obtain hout | ⟨steps, hstep⟩ := step_of_instruction limits h
  · exact ⟨m, .refl m, .inl hout⟩
  · obtain ⟨n, hn, hgets⟩ := hnext steps hstep
    exact .step hm (hstep.trans hn) hgets

end Machine

inductive Code.Forward : Code → Nat → Prop where
  | done {code : Code} {pointer : Nat} (h : code.length ≤ pointer) : Forward code pointer
  | stop {code : Code} {pointer : Nat} {origin : Span} {opcode : Opcode}
      (h : code[pointer]? = some (.plain opcode origin))
      (ends : opcode = .exit ∨ opcode = .giveBack) : Forward code pointer
  | plain {code : Code} {pointer : Nat} {instruction : Instruction}
      (h : code[pointer]? = some instruction)
      (noEntries : ∀ entries, instruction.operand ≠ some (.entries entries))
      (noCall : ∀ count names, instruction.operand ≠ some (.call count names))
      (next : Forward code (pointer + 1))
      (taken : ∀ target, instruction.target? = some target → Forward code target) :
      Forward code pointer
  | jump {code : Code} {pointer target : Nat} {origin : Span}
      (h : code[pointer]? = some (.jump .jmp target origin)) (inside : target < code.length)
      (next : Forward code target) : Forward code pointer
  | object {code : Code} {pointer : Nat} {entries : List (Code × Code)} {origin : Span}
      (h : code[pointer]? = some (.mk .pushObject (some (.entries entries)) origin))
      (keys : ∀ entry ∈ entries, Forward entry.1 0) (values : ∀ entry ∈ entries, Forward entry.2 0)
      (next : Forward code (pointer + 1)) : Forward code pointer
  | call {code : Code} {pointer count : Nat} {names : List String} {origin : Span}
      (h : code[pointer]? = some (.mk .call (some (.call count names)) origin))
      (inside : pointer + 1 + count ≤ code.length)
      (arguments : Forward ((code.drop (pointer + 1)).take count) 0)
      (next : Forward code (pointer + 1 + count)) : Forward code pointer

theorem Code.Sound.forward {d : Discipline} {code : Code} {pointer blocks : Nat} {shape : Shape}
    (h : Sound d code pointer blocks shape) : code.Forward pointer := by
  induction h with
  | done h => exact .done h
  | exit h => exact .stop h (.inl rfl)
  | giveBack h => exact .stop h (.inr rfl)
  | push h _ _ ih => exact .plain h nofun nofun ih nofun
  | pushName h _ ih => exact .plain h nofun nofun ih nofun
  | pushNone h _ ih => exact .plain h nofun nofun ih nofun
  | object h _ _ _ keys values ih => exact .object h keys values ih
  | unary h _ _ _ ih => exact .plain h nofun nofun ih nofun
  | binary h _ _ ih => exact .plain h nofun nofun ih nofun
  | index h _ ih => exact .plain h nofun nofun ih nofun
  | load h _ _ ih => exact .plain h nofun nofun ih nofun
  | store h _ _ ih => exact .plain h nofun nofun ih nofun
  | beginScope h _ ih => exact .plain h nofun nofun ih nofun
  | endScope h _ ih => exact .plain h nofun nofun ih nofun
  | jump h inside _ ih => exact .jump h inside ih
  | branch h _ _ _ taken other =>
    exact .plain h nofun nofun other fun _ htarget => Option.some.inj htarget ▸ taken
  | call h inside _ _ _ arguments ih => exact .call h inside arguments ih
  | proc h _ _ _ _ ih => exact .plain h nofun nofun ih nofun
  | noop h _ _ ih => exact .plain h nofun nofun ih nofun

namespace Machine

variable {t : Setting} {limits : Limits} {m n : Machine} {a : Activation} {base : List Suspended}

theorem failedSince_report (m : Machine) {fault : RunFault} {origin : Span}
    (h : (fault.diagnostic origin).isFailure = true) :
    FailedSince m.log.toList (m.report fault origin).log.toList :=
  ⟨[fault.diagnostic origin], toList_push _ _, fault.diagnostic origin, List.mem_singleton_self _, h⟩

/-- The activation waits for code that runs now. -/
def Waits (a : Activation) (base : List Suspended) (m : Machine) : Prop :=
  ∃ awaited, ⟨a, awaited⟩ :: base <:+ m.suspended

/-- The activation is active again and has got to `pointer`. -/
structure Stands (a : Activation) (base : List Suspended) (pointer : Nat) (stack : List Slot)
    (m : Machine) : Prop where
  suspended : m.suspended = base
  active : m.active = { a with pointer, stack }

def Ending (limits : Limits) (base : List Suspended) (m : Machine) : Prop :=
  m.suspended = base ∧ ∃ (ended : Machine) (given : Option Value),
    m.step limits = ended.finish limits given ∧ ended.suspended = base ∧ ended.heap = m.heap ∧
      m.log.toList <+: ended.log.toList

/-- The active activation comes to an end. -/
def Concludes (limits : Limits) (m : Machine) : Prop :=
  Gets limits (fun n => m.suspended <:+ n.suspended) (Ending limits m.suspended) m

/-- Whatever machine comes to run the code at that place and depth concludes. -/
def CodeConcludes (t : Setting) (limits : Limits) (depth : Nat) (code : Code) (pointer : Nat) :
    Prop :=
  ∀ m : Machine, m.Safe t → m.active.code = code → m.active.pointer = pointer →
    m.active.depth = depth → Concludes limits m

/-- A machine that runs other code for `a` comes to the end of that code, and then does with it what
`a` waits for. -/
theorem Concludes.then_finish {awaited : Awaited} {Q : Machine → Prop}
    (h : Concludes limits m) (hm : m.Safe t) (hsuspended : m.suspended = ⟨a, awaited⟩ :: base)
    (hnext : ∀ (n ended : Machine) (given : Option Value), n.Safe t →
      n.suspended = ⟨a, awaited⟩ :: base → ended.suspended = ⟨a, awaited⟩ :: base →
      ended.heap = n.heap → m.log.toList <+: ended.log.toList →
      (ended.finish limits given).Safe t →
      ∃ k, ended.finish limits given = .running k ∧ Gets limits (Waits a base) Q k) :
    Gets limits (Waits a base) Q m := by
  unfold Concludes at h
  rw [hsuspended] at h
  refine (h.mono (fun k hk => ⟨awaited, hk⟩) fun _ hk => hk).bind fun n hreach hn => ?_
  obtain ⟨hbase, ended, given, hstep, hended, hheap, hlog⟩ := hn
  have hsafe : n.Safe t := hreach.safe hm
  have hfinish : (ended.finish limits given).Safe t := hstep ▸ safe_step limits hsafe
  obtain ⟨k, hk, hgets⟩ := hnext n ended given hsafe hbase hended hheap
    (hreach.log_le.trans hlog) hfinish
  exact .step ⟨awaited, hbase ▸ List.suffix_refl _⟩ (hstep.trans hk) hgets

/-- What a call that `before` makes comes to: one value on the stack, or none if there was no
function to call. -/
def Called (a : Activation) (base : List Suspended) (callee : Slot) (before : Machine)
    (resume : Nat) (m : Machine) : Prop :=
  (∃ slot, Stands a base resume (slot :: a.stack) m) ∨
    Stands a base resume a.stack m ∧ (FailedSince before.log.toList m.log.toList ∨
      ∃ ref, callee.value = .function ref ∧ before.heap.closure? ref = none)

theorem Called.stands {callee : Slot} {before : Machine} {resume : Nat}
    (h : Called a base callee before resume m) : ∃ stack, Stands a base resume stack m := by
  obtain ⟨slot, hstands⟩ | ⟨hstands, -⟩ := h
  · exact ⟨_, hstands⟩
  · exact ⟨_, hstands⟩

theorem gets_invoke {callee : Slot} {names : List String} {arguments : List Value} {origin : Span}
    {resume : Nat} (hsuspended : m.suspended = base) (hactive : m.active = a)
    (hbodies : a.depth < limits.maxCallDepth → ∀ code, code.Forward 0 →
      CodeConcludes t limits (a.depth + 1) code 0)
    (hsafe : (m.invoke limits callee names arguments origin resume).Safe t) :
    ∃ k, m.invoke limits callee names arguments origin resume = .running k ∧
      Gets limits (Waits a base) (Called a base callee m resume) k := by
  subst hsuspended hactive
  cases hcallee : callee.value with
  | function ref =>
    by_cases hdepth : m.active.depth < limits.maxCallDepth
    · cases hclosure : m.heap.closure? ref with
      | none =>
        have hshallow : ¬ m.active.depth + 1 > limits.maxCallDepth := by omega
        refine ⟨m.goto resume, ?_, .here (.inr ⟨⟨rfl, rfl⟩, .inr ⟨ref, hcallee, hclosure⟩⟩)⟩
        simp only [invoke, hcallee, hshallow, if_false, hclosure]
      | some closure =>
        have hstart := invoke_eq_startBody names arguments origin resume hcallee hclosure hdepth
        refine ⟨_, hstart, ?_⟩
        rw [hstart] at hsafe
        have hbody : m.startBody closure _ arguments origin resume |>.Safe t := hsafe
        obtain ⟨shape, hsound, -⟩ := hbody.stands
        have hconcludes := hbodies hdepth closure.body hsound.forward _ hbody rfl rfl rfl
        refine hconcludes.then_finish hbody rfl fun n ended given _ _ hended _ _ _ => ?_
        refine ⟨(({ ended with active := m.active, suspended := m.suspended } : Machine).push
          (given.getD ended.active.top) origin).goto resume, ?_, .here (.inl ⟨_, ⟨rfl, rfl⟩⟩)⟩
        simp only [finish, hended]
    · have hdeep : m.active.depth + 1 > limits.maxCallDepth := by omega
      refine ⟨((m.report (.callTooDeep ref.name limits.maxCallDepth) origin).push .none
        origin).goto resume, ?_, .here (.inl ⟨_, ⟨rfl, rfl⟩⟩)⟩
      simp only [invoke, hcallee, hdeep, if_true]
  | _ =>
    refine ⟨(m.report (.notCallable callee.value) callee.origin).goto resume, ?_,
      .here (.inr ⟨⟨rfl, rfl⟩, .inl (failedSince_report m rfl)⟩)⟩
    simp only [invoke, hcallee]

theorem gets_call {callee : Slot} {names : List String} {origin : Span} {resume : Nat}
    (hm : m.Safe t) (hsuspended : m.suspended = ⟨a, .arguments callee names origin resume⟩ :: base)
    (harguments : Concludes limits m)
    (hbodies : a.depth < limits.maxCallDepth → ∀ code, code.Forward 0 →
      CodeConcludes t limits (a.depth + 1) code 0) :
    Gets limits (Waits a base) (fun n => ∃ before : Machine, t.ValueOk before.heap callee.value ∧
      m.log.toList <+: before.log.toList ∧ Called a base callee before resume n) m := by
  refine harguments.then_finish hm hsuspended ?_
  intro n ended given hn hbase hended hheap hlog hsafe
  have hwaiting : SuspendedOk t n.heap (t.Live n.log) ⟨a, .arguments callee names origin resume⟩ :=
    hn.ambient.suspended _ (hbase ▸ List.mem_cons_self)
  have hcallee : t.ValueOk n.heap callee.value := hwaiting.awaited.1
  have hfinish : ended.finish limits given =
      ({ ended with active := a, suspended := base } : Machine).invoke limits callee names
        (ended.active.stack.reverse.map (·.value)) origin resume := by
    simp only [finish, hended]
  rw [hfinish] at hsafe ⊢
  obtain ⟨k, hk, hgets⟩ := gets_invoke rfl rfl hbodies hsafe
  exact ⟨k, hk, hgets.mono (fun _ h => h) fun _ h => ⟨_, hheap ▸ hcallee, hlog, h⟩⟩

theorem gets_buildObject {origin : Span} {entries : List (Code × Code)}
    (hentries : ∀ entry ∈ entries, CodeConcludes t limits a.depth entry.1 0 ∧
      CodeConcludes t limits a.depth entry.2 0)
    (built : List (Value × Value)) (hsuspended : m.suspended = base) (hactive : m.active = a)
    (hsafe : (m.buildObject origin built entries).Safe t) :
    ∃ k, m.buildObject origin built entries = .running k ∧
      Gets limits (Waits a base)
        (fun n => ∃ slot, Stands a base (a.pointer + 1) (slot :: a.stack) n) k := by
  -- The codes of an object's keys and values run one after the other, and then the object is there.
  induction entries generalizing m built with
  | nil =>
    subst hsuspended hactive
    exact ⟨_, rfl, .here ⟨_, ⟨rfl, rfl⟩⟩⟩
  | cons entry rest ih =>
    obtain ⟨keyCode, valueCode⟩ := entry
    obtain ⟨hkey, hvalue⟩ := hentries _ List.mem_cons_self
    subst hsuspended hactive
    refine ⟨_, rfl, (hkey _ hsafe rfl rfl rfl).then_finish hsafe rfl ?_⟩
    intro n ended given _ _ hended _ _ hsafe'
    have hfinish : ended.finish limits given =
        ({ ended with active := m.active, suspended := m.suspended } : Machine).enterEntry valueCode
          (.value origin built (given.getD ended.active.top) rest) := by
      simp only [finish, hended]
    rw [hfinish] at hsafe' ⊢
    refine ⟨_, rfl, (hvalue _ hsafe' rfl rfl rfl).then_finish hsafe' rfl ?_⟩
    intro n' ended' given' _ _ hended' _ _ hsafe''
    have hfinish' : ended'.finish limits given' =
        ({ ended' with active := m.active, suspended := m.suspended } : Machine).buildObject origin
          ((given.getD ended.active.top, given'.getD ended'.active.top) :: built) rest := by
      simp only [finish, hended']
    rw [hfinish'] at hsafe'' ⊢
    exact ih (fun entry hentry => hentries entry (List.mem_cons_of_mem _ hentry)) _ rfl rfl hsafe''

theorem Waits.suffix (h : Waits a base m) : base <:+ m.suspended := by
  obtain ⟨awaited, hsuffix⟩ := h
  exact (List.suffix_cons _ _).trans hsuffix

theorem Concludes.of_ending (h : Ending limits m.suspended m) : Concludes limits m := .here h

theorem Concludes.of_step (hs : m.step limits = .running n) (hsuspended : n.suspended = m.suspended)
    (h : Concludes limits n) : Concludes limits m := by
  unfold Concludes at h
  rw [hsuspended] at h
  exact .step (List.suffix_refl _) hs h

theorem Concludes.of_waiting {Q : Machine → Prop} (hs : m.step limits = .running n)
    (hgets : Gets limits (Waits a m.suspended) Q n)
    (hnext : ∀ k, Reaches limits m k → Q k → k.suspended = m.suspended ∧ Concludes limits k) :
    Concludes limits m := by
  refine .step (List.suffix_refl _) hs ?_
  refine (hgets.mono (fun _ hwaits => hwaits.suffix) fun _ hk => hk).bind fun k hreach hk => ?_
  obtain ⟨hbase, hconcludes⟩ := hnext k (.next hs hreach) hk
  unfold Concludes at hconcludes
  rwa [hbase] at hconcludes

section Steps

variable {depth pointer : Nat} {code : Code}

theorem codeConcludes_plain {instruction : Instruction} (h : code[pointer]? = some instruction)
    (noEntries : ∀ entries, instruction.operand ≠ some (.entries entries))
    (noCall : ∀ count names, instruction.operand ≠ some (.call count names))
    (next : CodeConcludes t limits depth code (pointer + 1))
    (taken : ∀ target, instruction.target? = some target → CodeConcludes t limits depth code target) :
    CodeConcludes t limits depth code pointer := by
  rintro m hm rfl rfl rfl
  obtain hout | ⟨steps, hstep⟩ := step_of_instruction limits h
  · exact ⟨m, .refl m, .inl hout⟩
  have hsafe := safe_step limits hm
  have heffect := effect_execute limits { m with steps } instruction
  rw [← hstep] at heffect
  generalize hprogress : m.step limits = progress at heffect hsafe
  cases heffect with
  | @goes target stack log pointer_eq _ =>
    refine .of_step hprogress rfl ?_
    obtain rfl | htarget := pointer_eq
    · exact next _ hsafe rfl rfl rfl
    · exact taken target htarget _ hsafe rfl rfl rfl
  | stores name value => exact .of_step hprogress rfl (next _ hsafe rfl rfl rfl)
  | opens => exact .of_step hprogress rfl (next _ hsafe rfl rfl rfl)
  | closes enclosing scopeDepth_eq => exact .of_step hprogress rfl (next _ hsafe rfl rfl rfl)
  | makes name parameters body => exact .of_step hprogress rfl (next _ hsafe rfl rfl rfl)
  | builds operand => exact absurd operand (noEntries _)
  | calls operand inside => exact absurd operand (noCall _ _)
  | ends given reported =>
    exact .of_ending ⟨rfl, _, given, hprogress, rfl, rfl, reported.log_le⟩

theorem codeConcludes_jump {target : Nat} {origin : Span}
    (h : code[pointer]? = some (.jump .jmp target origin)) (inside : target < code.length)
    (next : CodeConcludes t limits depth code target) :
    CodeConcludes t limits depth code pointer := by
  rintro m hm rfl rfl rfl
  obtain hout | ⟨steps, hstep⟩ := step_of_instruction limits h
  · exact ⟨m, .refl m, .inl hout⟩
  have hexecute : ({ m with steps } : Machine).execute limits (.jump .jmp target origin) =
      .running (({ m with steps } : Machine).goto target) := by
    simp [execute, Instruction.jump, Instruction.opcode, withTarget, Instruction.target?, inside]
  have hsafe := safe_step limits hm
  rw [hstep, hexecute] at hsafe
  exact .of_step (hstep.trans hexecute) rfl (next _ hsafe rfl rfl rfl)

theorem codeConcludes_stop {origin : Span} {opcode : Opcode}
    (h : code[pointer]? = some (.plain opcode origin))
    (ends : opcode = .exit ∨ opcode = .giveBack) : CodeConcludes t limits depth code pointer := by
  rintro m hm rfl rfl rfl
  obtain hout | ⟨steps, hstep⟩ := step_of_instruction limits h
  · exact ⟨m, .refl m, .inl hout⟩
  obtain rfl | rfl := ends
  · exact .of_ending ⟨rfl, _, none, hstep, rfl, rfl, List.prefix_refl _⟩
  · cases hstack : m.active.stack with
    | nil =>
      refine .of_ending ⟨rfl, { m with steps }, some .none, ?_, rfl, rfl, List.prefix_refl _⟩
      simp [hstep, execute, Instruction.plain, Instruction.opcode, giveBack, hstack]
    | cons slot stack =>
      refine .of_ending ⟨rfl, ({ m with steps } : Machine).setStack stack, some slot.value, ?_, rfl,
        rfl, List.prefix_refl _⟩
      simp [hstep, execute, Instruction.plain, Instruction.opcode, giveBack, hstack]

theorem codeConcludes_object {entries : List (Code × Code)} {origin : Span}
    (h : code[pointer]? = some (.mk .pushObject (some (.entries entries)) origin))
    (hentries : ∀ entry ∈ entries, CodeConcludes t limits depth entry.1 0 ∧
      CodeConcludes t limits depth entry.2 0)
    (next : CodeConcludes t limits depth code (pointer + 1)) :
    CodeConcludes t limits depth code pointer := by
  rintro m hm rfl rfl rfl
  obtain hout | ⟨steps, hstep⟩ := step_of_instruction limits h
  · exact ⟨m, .refl m, .inl hout⟩
  have hsafe := safe_step limits hm
  rw [hstep] at hsafe
  obtain ⟨k, hk, hgets⟩ := gets_buildObject (m := { m with steps }) hentries [] rfl rfl hsafe
  refine .of_waiting (hstep.trans hk) hgets fun o hreach ⟨slot, hstands⟩ => ?_
  refine ⟨hstands.suspended, next o (hreach.safe hm) ?_ ?_ ?_⟩
  · rw [hstands.active]
  · rw [hstands.active]
  · rw [hstands.active]

theorem codeConcludes_call {count : Nat} {names : List String} {origin : Span}
    (h : code[pointer]? = some (.mk .call (some (.call count names)) origin))
    (inside : pointer + 1 + count ≤ code.length)
    (harguments : CodeConcludes t limits depth ((code.drop (pointer + 1)).take count) 0)
    (hbodies : depth < limits.maxCallDepth → ∀ code, code.Forward 0 →
      CodeConcludes t limits (depth + 1) code 0)
    (next : CodeConcludes t limits depth code (pointer + 1 + count)) :
    CodeConcludes t limits depth code pointer := by
  rintro m hm rfl rfl rfl
  obtain hout | ⟨steps, hstep⟩ := step_of_instruction limits h
  · exact ⟨m, .refl m, .inl hout⟩
  have hsafe := safe_step limits hm
  rw [hstep] at hsafe
  cases hstack : m.active.stack with
  | nil =>
    refine .of_ending ⟨rfl, ({ m with steps } : Machine).report
      (.stackUnderflow m.active.pointer) origin, none, ?_, rfl, rfl, log_le_report _ _ _⟩
    simp [hstep, execute, Instruction.opcode, Instruction.operand, Instruction.origin, call, pop,
      hstack, fail]
  | cons callee stack =>
    have hexecute : ({ m with steps } : Machine).execute limits
        (.mk .call (some (.call count names)) origin) =
        (({ m with steps } : Machine).setStack stack).enter
          (.start ((m.active.code.drop (m.active.pointer + 1)).take count) m.active.scope
            m.active.depth)
          (.arguments callee names origin (m.active.pointer + 1 + count)) := by
      simp [execute, Instruction.opcode, Instruction.operand, Instruction.origin, call, pop, hstack,
        setStack, inside]
    rw [hexecute] at hstep hsafe
    have hgets := gets_call hsafe rfl (harguments _ hsafe rfl rfl rfl) hbodies
    refine .of_waiting hstep hgets fun o hreach ⟨_, _, _, hcalled⟩ => ?_
    obtain ⟨after, hstands⟩ := hcalled.stands
    refine ⟨hstands.suspended, next o (hreach.safe hm) ?_ ?_ ?_⟩
    · rw [hstands.active]; rfl
    · rw [hstands.active]
    · rw [hstands.active]; rfl

end Steps

theorem codeConcludes_of_bodies {depth pointer : Nat} {code : Code}
    (hbodies : depth < limits.maxCallDepth → ∀ code : Code, code.Forward 0 →
      CodeConcludes t limits (depth + 1) code 0)
    (h : code.Forward pointer) : CodeConcludes t limits depth code pointer := by
  induction h with
  | done h =>
    rintro m hm rfl rfl rfl
    refine .of_ending ⟨rfl, m, none, ?_, rfl, rfl, List.prefix_refl _⟩
    simp only [step, List.getElem?_eq_none h]
  | stop h ends => exact codeConcludes_stop h ends
  | plain h noEntries noCall _ _ ih taken => exact codeConcludes_plain h noEntries noCall ih taken
  | jump h inside _ ih => exact codeConcludes_jump h inside ih
  | object h _ _ _ keys values ih =>
    exact codeConcludes_object h (fun entry hentry => ⟨keys entry hentry, values entry hentry⟩) ih
  | call h inside _ _ arguments ih => exact codeConcludes_call h inside arguments hbodies ih

/-- Forward code concludes. The depth of calls bounds how often a body can start inside another, and
inside one body control comes to the end of the code. -/
theorem codeConcludes_of_forward (t : Setting) (limits : Limits) {budget depth pointer : Nat}
    {code : Code} (hbudget : limits.maxCallDepth ≤ depth + budget) (h : code.Forward pointer) :
    CodeConcludes t limits depth code pointer := by
  induction budget generalizing depth code pointer with
  | zero =>
    have hbodies : depth < limits.maxCallDepth → ∀ code : Code, code.Forward 0 →
        CodeConcludes t limits (depth + 1) code 0 := by
      intro hdepth
      omega
    exact codeConcludes_of_bodies hbodies h
  | succ budget ih =>
    refine codeConcludes_of_bodies (fun _ code hcode => ih ?_ hcode) h
    omega

theorem Safe.concludes (h : m.Safe t) (limits : Limits) : Concludes limits m := by
  obtain ⟨shape, hsound, -⟩ := h.stands
  exact codeConcludes_of_forward t limits (Nat.le_add_left _ _) hsound.forward m h rfl rfl rfl

end Machine

end StackScript
