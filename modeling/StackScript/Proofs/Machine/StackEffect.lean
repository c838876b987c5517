import StackScript.Proofs.Code.Generation
import StackScript.Proofs.Machine.Conclusion
import StackScript.Proofs.Machine.Growth

set_option autoImplicit false

/-!
# What compiled code does to the stack

The code of an expression puts one value onto the stack and leaves what was there; the code of a
statement puts some values onto it, or gives one of its own back. That is so from the first
instruction to the last, whatever runs in between for the arguments of calls, the bodies of
functions and the parts of objects, unless an operation fails or the step limit is reached.

The proofs go backwards through the code: what holds from the end of a piece of code on, with one
value more on the stack, holds from its start on.
-/
namespace StackScript

open Code (Placed)
open Generate
open Machine (Stands Gets Waits)

/-- A piece of an activation's code, while it runs on a stack of which `floor` is to stay. -/
structure Stretch where
  code : Code
  base : List Suspended
  floor : List Slot
  first : Nat
  stop : Nat
  log : List Diagnostic

namespace Stretch

/-- The activation is in the stretch, active or waiting, and still has the floor. -/
def Inside (w : Stretch) (m : Machine) : Prop :=
  ∃ b : Activation, b.code = w.code ∧ w.floor <:+ b.stack ∧ w.first ≤ b.pointer ∧
    b.pointer < w.stop ∧ (m.suspended = w.base ∧ m.active = b ∨ Waits b w.base m)

/-- The segment stands in the stretch. -/
structure Covers (w : Stretch) (pointer : Nat) (segment : Code) : Prop where
  placed : Placed w.code pointer segment
  first_le : w.first ≤ pointer
  le_stop : pointer + segment.length ≤ w.stop

/-- From there on the run fails, or comes to a state in `Q`. What was in the heap before is still
there. -/
def Runs (t : Setting) (limits : Limits) (w : Stretch) (Q : Machine → Prop) (a : Activation)
    (past : Heap) (pointer : Nat) (stack : List Slot) : Prop :=
  ∀ m : Machine, m.Safe t → Stands a w.base pointer stack m → past.Grows m.heap →
    w.log <+: m.log.toList →
    Gets limits w.Inside (fun n => FailedSince w.log n.log.toList ∨ Q n) m

variable {t : Setting} {limits : Limits} {w : Stretch} {Q : Machine → Prop} {a : Activation}
  {past : Heap} {pointer : Nat} {stack after : List Slot} {instruction : Instruction}
  {first second rest : Code} {m : Machine} {origin : Span}

namespace Covers

theorem left (h : w.Covers pointer (first ++ second)) : w.Covers pointer first := by
  have hle := h.le_stop
  rw [List.length_append] at hle
  exact ⟨h.placed.left, h.first_le, by omega⟩

theorem right (h : w.Covers pointer (first ++ second)) :
    w.Covers (pointer + first.length) second := by
  have hle := h.le_stop
  have hfirst := h.first_le
  rw [List.length_append] at hle
  exact ⟨h.placed.right, by omega, by omega⟩

theorem tail (h : w.Covers pointer (instruction :: rest)) : w.Covers (pointer + 1) rest := by
  have hle := h.le_stop
  have hfirst := h.first_le
  rw [List.length_cons] at hle
  exact ⟨h.placed.tail, by omega, by omega⟩

theorem lt_stop (h : w.Covers pointer (instruction :: rest)) : pointer < w.stop := by
  have hle := h.le_stop
  rw [List.length_cons] at hle
  omega

theorem inside (h : w.Covers pointer (instruction :: rest)) (hcode : a.code = w.code)
    (hfloor : w.floor <:+ stack) (hm : Stands a w.base pointer stack m) : w.Inside m :=
  ⟨{ a with pointer, stack }, hcode, hfloor, h.first_le, h.lt_stop,
    .inl ⟨hm.suspended, hm.active⟩⟩

theorem inside_waits (h : w.Covers pointer (instruction :: rest)) (hcode : a.code = w.code)
    (hfloor : w.floor <:+ stack) (hm : Waits { a with pointer, stack } w.base m) : w.Inside m :=
  ⟨{ a with pointer, stack }, hcode, hfloor, h.first_le, h.lt_stop, .inr hm⟩

end Covers

theorem Runs.moved {other : Nat} (h : Runs t limits w Q a past pointer stack)
    (hother : pointer = other) : Runs t limits w Q a past other stack := hother ▸ h

theorem Runs.of_execute (hcode : a.code = w.code) (hfloor : w.floor <:+ stack)
    (hcovers : w.Covers pointer (instruction :: rest))
    (h : ∀ m : Machine, Stands a w.base pointer stack m → past.Grows m.heap →
      w.log <+: m.log.toList → ∃ n, m.execute limits instruction = .running n ∧
        (n.Safe t → past.Grows n.heap → w.log <+: n.log.toList →
          Gets limits w.Inside (fun k => FailedSince w.log k.log.toList ∨ Q k) n)) :
    Runs t limits w Q a past pointer stack := by
  intro m hm hstands hgrows hlog
  have hat : m.active.code[m.active.pointer]? = some instruction := by
    rw [hstands.active, ← hcovers.placed.getElem?, ← hcode]
  refine .of_execute (hcovers.inside hcode hfloor hstands) hat fun steps hstep => ?_
  obtain ⟨n, hn, hgets⟩ := h { m with steps } ⟨hstands.suspended, hstands.active⟩ hgrows hlog
  have hsafe := Machine.safe_step limits hm
  have hlater := Machine.grows_step limits m
  have hlonger := Machine.log_le_step limits m
  rw [hstep, hn] at hsafe hlater hlonger
  exact ⟨n, hn, hgets hsafe (hgrows.trans hlater) (hlog.trans hlonger)⟩

end Stretch

namespace Machine.Stands

variable {a : Activation} {base : List Suspended} {pointer : Nat} {stack : List Slot} {m : Machine}
  {slot : Slot} {limits : Limits}

theorem push (h : Stands a base pointer stack m) (value : Value) (origin : Span) :
    Stands a base pointer (⟨origin, value⟩ :: stack) (m.push value origin) :=
  ⟨h.suspended, by simp [Machine.push, setStack, h.active]⟩

theorem next (h : Stands a base pointer stack m) :
    Stands a base (pointer + 1) stack (m.goto (m.active.pointer + 1)) :=
  ⟨h.suspended, by simp [goto, h.active]⟩

theorem withHeap (h : Stands a base pointer stack m) (heap : Heap) :
    Stands a base pointer stack { m with heap } := ⟨h.suspended, h.active⟩

theorem setStack (h : Stands a base pointer stack m) (after : List Slot) :
    Stands a base pointer after (m.setStack after) :=
  ⟨h.suspended, by simp [Machine.setStack, h.active]⟩

theorem pop (h : Stands a base pointer (slot :: stack) m) (origin : Span)
    (go : Slot → Machine → Progress) : m.pop limits origin go = go slot (m.setStack stack) := by
  simp [Machine.pop, h.active]

theorem popTwo {below : Slot} (h : Stands a base pointer (slot :: below :: stack) m) (origin : Span)
    (go : Slot → Slot → Machine → Progress) :
    m.popTwo limits origin go = go slot below (m.setStack stack) := by
  rw [Machine.popTwo, h.pop, (h.setStack (below :: stack)).pop]
  rfl

end Machine.Stands

namespace Stretch

variable {t : Setting} {limits : Limits} {w : Stretch} {Q : Machine → Prop} {a : Activation}
  {past : Heap} {pointer : Nat} {stack after : List Slot} {instruction : Instruction}
  {rest : Code} {m : Machine} {origin : Span}

theorem gets_failure (m : Machine) {fault : RunFault} {next : Nat}
    (hfault : (fault.diagnostic origin).isFailure = true) (hlog : w.log <+: m.log.toList) :
    Gets limits w.Inside (fun k => FailedSince w.log k.log.toList ∨ Q k)
      ((m.report fault origin).goto next) :=
  .here (.inl ((m.failedSince_report hfault).earlier hlog))

section Instructions

variable (hcode : a.code = w.code) (hfloor : w.floor <:+ stack)
include hcode hfloor

theorem runs_push {value : Value} (hcovers : w.Covers pointer (.push value origin :: rest))
    (next : Runs t limits w Q a past (pointer + 1) (⟨origin, value⟩ :: stack)) :
    Runs t limits w Q a past pointer stack :=
  .of_execute hcode hfloor hcovers fun _ hm _ _ =>
    ⟨_, rfl, fun hsafe => next _ hsafe (hm.push value origin).next⟩

theorem runs_pushNone (hcovers : w.Covers pointer (.plain .pushNone origin :: rest))
    (next : Runs t limits w Q a past (pointer + 1) (⟨origin, .none⟩ :: stack)) :
    Runs t limits w Q a past pointer stack :=
  .of_execute hcode hfloor hcovers fun _ hm _ _ =>
    ⟨_, rfl, fun hsafe => next _ hsafe (hm.push .none origin).next⟩

theorem runs_noop (hcovers : w.Covers pointer (.plain .noop origin :: rest))
    (next : Runs t limits w Q a past (pointer + 1) stack) : Runs t limits w Q a past pointer stack :=
  .of_execute hcode hfloor hcovers fun _ hm _ _ => ⟨_, rfl, fun hsafe => next _ hsafe hm.next⟩

theorem runs_unary {opcode : Opcode} {f : Value → Except CoercionError Value} {operand : Slot}
    (hf : opcode.unary? = some f) (hcovers : w.Covers pointer (.plain opcode origin :: rest))
    (next : ∀ slot, Runs t limits w Q a past (pointer + 1) (slot :: stack)) :
    Runs t limits w Q a past pointer (operand :: stack) := by
  refine .of_execute hcode (hfloor.trans (List.suffix_cons _ _)) hcovers fun m hm _ hlog => ?_
  rw [Machine.execute_unary hf, Machine.unary, hm.pop]
  cases f operand.value with
  | ok value =>
    exact ⟨_, rfl, fun hsafe => next _ _ hsafe ((hm.setStack stack).push value _).next⟩
  | error error =>
    exact ⟨_, rfl, fun _ _ _ => gets_failure (m.setStack stack) rfl hlog⟩

theorem runs_binary {opcode : Opcode} {f : Value → Value → Except CoercionError Value}
    {right left : Slot} (hf : opcode.binary? = some f)
    (hcovers : w.Covers pointer (.plain opcode origin :: rest))
    (next : ∀ slot, Runs t limits w Q a past (pointer + 1) (slot :: stack)) :
    Runs t limits w Q a past pointer (right :: left :: stack) := by
  have hbelow : stack <:+ right :: left :: stack := List.suffix_append [right, left] stack
  refine .of_execute hcode (hfloor.trans hbelow) hcovers fun m hm _ hlog => ?_
  rw [Machine.execute_binary hf, Machine.binary, hm.popTwo]
  cases f left.value right.value with
  | ok value =>
    exact ⟨_, rfl, fun hsafe => next _ _ hsafe ((hm.setStack stack).push value _).next⟩
  | error error =>
    exact ⟨_, rfl, fun _ _ _ => gets_failure (m.setStack stack) rfl hlog⟩

theorem runs_opcodes (operation : BinaryOperation) {right left : Slot}
    (hcovers : w.Covers pointer (operation.opcodes.map (.plain · origin)))
    (next : ∀ slot, Runs t limits w Q a past (pointer + operation.opcodes.length) (slot :: stack)) :
    Runs t limits w Q a past pointer (right :: left :: stack) := by
  cases operation
  case notEqual | greater | greaterOrEqual =>
    exact runs_binary hcode hfloor rfl hcovers fun _ => runs_unary hcode hfloor rfl hcovers.tail next
  all_goals exact runs_binary hcode hfloor rfl hcovers next

theorem runs_index {key target : Slot} (hcovers : w.Covers pointer (.plain .index origin :: rest))
    (next : ∀ slot, Runs t limits w Q a past (pointer + 1) (slot :: stack)) :
    Runs t limits w Q a past pointer (key :: target :: stack) := by
  have hbelow : stack <:+ key :: target :: stack := List.suffix_append [key, target] stack
  refine .of_execute hcode (hfloor.trans hbelow) hcovers fun m hm _ hlog => ?_
  have hexecute : m.execute limits (.plain .index origin) = m.index limits origin := rfl
  rw [hexecute, Machine.index, hm.popTwo]
  cases target.value with
  | object entries =>
    exact ⟨_, rfl, fun hsafe => next _ _ hsafe ((hm.setStack stack).push _ origin).next⟩
  | _ => exact ⟨_, rfl, fun _ _ _ => gets_failure (m.setStack stack) rfl hlog⟩

theorem runs_loadName {name : String} (hcovers : w.Covers pointer (loadName name origin ++ rest))
    (next : ∀ slot, Runs t limits w Q a past (pointer + 2) (slot :: stack)) :
    Runs t limits w Q a past pointer stack := by
  refine runs_push hcode hfloor hcovers ?_
  refine .of_execute hcode (hfloor.trans (List.suffix_cons _ _)) hcovers.tail fun m hm _ hlog => ?_
  have hexecute : m.execute limits (.plain .load origin) = m.loadName limits origin := rfl
  rw [hexecute, Machine.loadName, hm.pop]
  exact ⟨_, rfl, fun hsafe => next _ _ hsafe ((hm.setStack stack).push _ origin).next⟩

theorem runs_store {name : String} {keep : Bool} {stored : Slot} {place : Span}
    (hcovers : w.Covers pointer (.store keep origin :: rest))
    (next : Runs t limits w Q a past (pointer + 1)
      (if keep then ⟨origin, stored.value⟩ :: stack else stack)) :
    Runs t limits w Q a past pointer (stored :: ⟨place, .string name⟩ :: stack) := by
  have hbelow : stack <:+ stored :: ⟨place, .string name⟩ :: stack :=
    List.suffix_append [stored, ⟨place, .string name⟩] stack
  refine .of_execute hcode (hfloor.trans hbelow) hcovers fun m hm _ hlog => ?_
  have hexecute : m.execute limits (.store keep origin) = m.store limits keep origin := rfl
  rw [hexecute, Machine.store, hm.popTwo]
  have hstored := (hm.setStack stack).withHeap (m.heap.assign m.active.scope name stored.value)
  cases keep with
  | true => exact ⟨_, rfl, fun hsafe => next _ hsafe (hstored.push stored.value origin).next⟩
  | false => exact ⟨_, rfl, fun hsafe => next _ hsafe hstored.next⟩

theorem runs_step {name : String} {target : Span} {apply undo : Opcode}
    {f g : Value → Value → Except CoercionError Value} (happly : apply.binary? = some f)
    (hundo : undo.binary? = some g) (hcovers : w.Covers pointer (step name target origin apply undo))
    (next : ∀ slot, Runs t limits w Q a past (pointer + 8) (slot :: stack)) :
    Runs t limits w Q a past pointer stack := by
  have hrest := hcovers.tail.tail.tail
  have hname : w.floor <:+ ⟨target, .string name⟩ :: stack := hfloor.trans (List.suffix_cons _ _)
  have hvalue : ∀ slot : Slot, w.floor <:+ slot :: stack :=
    fun slot => hfloor.trans (List.suffix_cons _ _)
  refine runs_push hcode hfloor hcovers (runs_loadName hcode hname hcovers.tail fun slot => ?_)
  refine runs_push hcode (hname.trans (List.suffix_cons _ _)) hrest ?_
  refine runs_binary hcode hname happly hrest.tail fun slot => ?_
  refine runs_store hcode hfloor hrest.tail.tail ?_
  refine runs_push hcode (hvalue _) hrest.tail.tail.tail ?_
  exact runs_binary hcode hfloor hundo hrest.tail.tail.tail.tail next

theorem runs_proc {name : String} {parameters : List String} {body : Code}
    (hcovers : w.Covers pointer (.mk .proc (some (.proc name parameters body)) origin :: rest))
    (next : ∀ slot, Runs t limits w Q a past (pointer + 1) (slot :: stack)) :
    Runs t limits w Q a past pointer stack := by
  refine .of_execute hcode hfloor hcovers fun m hm _ _ => ⟨_, rfl, fun hsafe => ?_⟩
  have hmade := hm.withHeap (m.heap.addClosure ⟨name, parameters, body, m.active.scope⟩).1
  exact next _ _ hsafe (hmade.push _ origin).next

theorem runs_jump {target : Nat} (hinside : target < w.code.length)
    (hcovers : w.Covers pointer (.jump .jmp target origin :: rest))
    (next : Runs t limits w Q a past target stack) : Runs t limits w Q a past pointer stack := by
  refine .of_execute hcode hfloor hcovers fun m hm _ hlog => ?_
  have hexecute : m.execute limits (.jump .jmp target origin) = .running (m.goto target) := by
    simp [Machine.execute, Instruction.jump, Instruction.opcode, Machine.withTarget,
      Instruction.target?, hm.active, hcode, hinside]
  refine ⟨_, hexecute, fun hsafe => next _ hsafe ⟨hm.suspended, ?_⟩⟩
  rw [Machine.goto, hm.active]

theorem runs_branch {target : Nat} {condition : Slot} (hinside : target < w.code.length)
    (hcovers : w.Covers pointer (.jump .jnz target origin :: rest))
    (taken : Runs t limits w Q a past target stack)
    (other : Runs t limits w Q a past (pointer + 1) stack) :
    Runs t limits w Q a past pointer (condition :: stack) := by
  refine .of_execute hcode (hfloor.trans (List.suffix_cons _ _)) hcovers fun m hm _ hlog => ?_
  have hpopped := hm.setStack stack
  have htarget : target < m.active.code.length := by rwa [hm.active, hcode]
  have hexecute : m.execute limits (.jump .jnz target origin) =
      m.jumpIf limits (.jump .jnz target origin) true := rfl
  rw [hexecute, Machine.jumpIf]
  simp only [Machine.withTarget, Instruction.jump, Instruction.target?, if_pos htarget, hm.pop]
  cases condition.value.toBool with
  | error error =>
    exact ⟨_, rfl, fun _ _ _ => gets_failure (m.setStack stack) rfl hlog⟩
  | ok truth =>
    cases truth with
    | false => exact ⟨_, rfl, fun hsafe => other _ hsafe hpopped.next⟩
    | true =>
      refine ⟨_, rfl, fun hsafe => taken _ hsafe ⟨hpopped.suspended, ?_⟩⟩
      rw [Machine.goto, hpopped.active]

theorem runs_scope {inner : Code} {opening closing : Span}
    (hcovers : w.Covers pointer
      (.plain .beginScope opening :: inner ++ [.plain .endScope closing]))
    (body : ∀ (b : Activation) (heap : Heap), b.code = w.code →
      (∀ after, stack <:+ after → Runs t limits w Q b heap (pointer + 1 + inner.length) after) →
      Runs t limits w Q b heap (pointer + 1) stack)
    (next : ∀ after, stack <:+ after →
      Runs t limits w Q a past (pointer + 1 + inner.length + 1) after) :
    Runs t limits w Q a past pointer stack := by
  -- A scope is opened, and closed again once what runs in it has come to its end.
  refine .of_execute hcode hfloor hcovers fun m hm _ _ => ⟨_, rfl, fun hsafe hlater hlog => ?_⟩
  let heap := (m.heap.addScope (some m.active.scope)).1
  let b : Activation := { a with scope := m.heap.scopes.size, scopeDepth := a.scopeDepth + 1 }
  have hscope : m.active.scope = a.scope := by rw [hm.active]
  have hclose : ∀ after, stack <:+ after →
      Runs t limits w Q b heap (pointer + 1 + inner.length) after := by
    intro after hafter
    refine .of_execute hcode (hfloor.trans hafter) hcovers.tail.right fun n hn hgrown _ => ?_
    have henclosing : (n.heap.scope m.heap.scopes.size).enclosing = some a.scope := by
      rw [hgrown.enclosing _ (by simp [heap, Heap.addScope]), Heap.scope_addScope_new, hscope]
    have hexecute : n.execute limits (.plain .endScope closing) = .running
        (({ n with active := { n.active with scope := a.scope, scopeDepth := a.scopeDepth } } :
          Machine).goto (n.active.pointer + 1)) := by
      simp [Machine.execute, Instruction.plain, Instruction.opcode, Machine.endScope, hn.active, b,
        henclosing, Machine.next]
    refine ⟨_, hexecute, fun hsafe hlast => next after hafter _ hsafe ?_ (hlater.trans hlast)⟩
    exact ⟨hn.suspended, by simp [Machine.goto, hn.active, b]⟩
  refine body b heap hcode hclose _ hsafe ⟨hm.suspended, ?_⟩ (Heap.Grows.refl _) hlog
  simp [b, Machine.goto, hm.active]

end Instructions

theorem Runs.of_waiting {k : Machine} {P : Machine → Prop} (hcode : a.code = w.code)
    (hfloor : w.floor <:+ after) (hcovers : w.Covers pointer (instruction :: rest))
    (hm : m.Safe t) (hgrows : past.Grows m.heap) (hlog : w.log <+: m.log.toList)
    (hstep : m.step limits = .running k)
    (hgets : Gets limits (Waits { a with pointer, stack := after } w.base) P k)
    (next : ∀ n : Machine, P n → n.Safe t → past.Grows n.heap → w.log <+: n.log.toList →
      Gets limits w.Inside (fun k => FailedSince w.log k.log.toList ∨ Q k) n) :
    Gets limits w.Inside (fun k => FailedSince w.log k.log.toList ∨ Q k) k := by
  refine (hgets.mono (fun _ hwaits => hcovers.inside_waits hcode hfloor hwaits)
    fun _ hn => hn).bind fun n hreach hn => ?_
  have hreaches : m.Reaches limits n := .next hstep hreach
  exact next n hn (hreaches.safe hm) (hgrows.trans hreaches.grows) (hlog.trans hreaches.log_le)

theorem runs_call {callee : Slot} {names : List String} {arguments : Code} (hexact : t.exact)
    (hcode : a.code = w.code) (hfloor : w.floor <:+ stack)
    (hcovers : w.Covers pointer
      (.mk .call (some (.call arguments.length names)) origin :: arguments))
    (next : ∀ slot, Runs t limits w Q a past (pointer + 1 + arguments.length) (slot :: stack)) :
    Runs t limits w Q a past pointer (callee :: stack) := by
  intro m hm hstands hgrows hlog
  have hat : m.active.code[m.active.pointer]? =
      some (.mk .call (some (.call arguments.length names)) origin) := by
    rw [hstands.active, ← hcovers.placed.getElem?, ← hcode]
  have hplace : w.floor <:+ callee :: stack := hfloor.trans (List.suffix_cons _ _)
  refine .of_execute (hcovers.inside hcode hplace hstands) hat fun steps hstep => ?_
  let waiting : Activation := { a with pointer, stack }
  let k : Machine := { m with
    steps
    active := .start ((a.code.drop (pointer + 1)).take arguments.length) a.scope a.depth
    suspended := ⟨waiting, .arguments callee names origin (pointer + 1 + arguments.length)⟩ ::
      w.base }
  have hexecute : ({ m with steps } : Machine).execute limits
      (.mk .call (some (.call arguments.length names)) origin) = .running k := by
    have hbound : pointer + 1 + arguments.length ≤ a.code.length := hcode ▸ hcovers.placed.bound
    simp [Machine.execute, Instruction.opcode, Instruction.operand, Instruction.origin,
      Machine.call, Machine.pop, Machine.setStack, Machine.enter, hstands.active,
      hstands.suspended, hbound, k, waiting]
  have hsafe := Machine.safe_step limits hm
  rw [hstep, hexecute] at hsafe
  refine ⟨k, hexecute, ?_⟩
  have hgets := Machine.gets_call (a := waiting) hsafe rfl (Machine.Safe.concludes hsafe limits)
    fun _ _ _ _ hbody _ _ _ => hbody.concludes limits
  refine Runs.of_waiting hcode hfloor hcovers hm hgrows hlog (hstep.trans hexecute) hgets ?_
  rintro n ⟨before, hcallee, hbefore, ⟨slot, hn⟩ | ⟨hn, hfailed | ⟨ref, href, hclosure⟩⟩⟩ hsafe
  · exact next slot n hsafe ⟨hn.suspended, hn.active⟩
  · exact fun _ _ => .here (.inl (hfailed.earlier (hlog.trans hbefore)))
  · -- A function that the program has got hold of is in the heap.
    rw [href] at hcallee
    cases hcallee with
    | function hbounds =>
      have hsome := before.heap.closures.getElem?_eq_getElem (hbounds.2 hexact)
      rw [Heap.closure?, hsome] at hclosure
      simp at hclosure

theorem runs_object {entries : List (Code × Code)} (hcode : a.code = w.code)
    (hfloor : w.floor <:+ stack)
    (hcovers : w.Covers pointer (.mk .pushObject (some (.entries entries)) origin :: rest))
    (next : ∀ slot, Runs t limits w Q a past (pointer + 1) (slot :: stack)) :
    Runs t limits w Q a past pointer stack := by
  intro m hm hstands hgrows hlog
  have hat : m.active.code[m.active.pointer]? =
      some (.mk .pushObject (some (.entries entries)) origin) := by
    rw [hstands.active, ← hcovers.placed.getElem?, ← hcode]
  refine .of_execute (hcovers.inside hcode hfloor hstands) hat fun steps hstep => ?_
  have hsafe := Machine.safe_step limits hm
  rw [hstep] at hsafe
  obtain ⟨k, hk, hgets⟩ := Machine.gets_buildObject (m := { m with steps })
    (fun entry _ => ⟨fun _ h _ _ _ => h.concludes limits, fun _ h _ _ _ => h.concludes limits⟩)
    [] hstands.suspended hstands.active hsafe
  refine ⟨k, hk, Runs.of_waiting hcode hfloor hcovers hm hgrows hlog (hstep.trans hk) hgets ?_⟩
  rintro n ⟨slot, hn⟩ hsafe
  exact next slot n hsafe ⟨hn.suspended, hn.active⟩

end Stretch

/-- The code of the expression leaves one value on any stack. -/
def Pushes (t : Setting) (limits : Limits) (bound : BoundTree) (e : Expression) : Prop :=
  ∀ ⦃w : Stretch⦄ ⦃Q : Machine → Prop⦄ ⦃a : Activation⦄ ⦃past : Heap⦄ ⦃pointer : Nat⦄
    ⦃stack : List Slot⦄, a.code = w.code → w.floor <:+ stack →
    w.Covers pointer (ofExpression bound e) →
    (∀ slot, w.Runs t limits Q a past (pointer + (ofExpression bound e).length) (slot :: stack)) →
    w.Runs t limits Q a past pointer stack

section Expressions

variable {t : Setting} {limits : Limits} {bound : BoundTree}
  {e left right value object key callee : Expression}

open Stretch

theorem pushes_literal (node : Node) (value : Literal) :
    Pushes t limits bound (.literal node value) := by
  intro w Q a past pointer stack hcode hfloor hcovers next
  cases value with
  | none => exact runs_pushNone hcode hfloor hcovers (next _)
  | _ => exact runs_push hcode hfloor hcovers (next _)

theorem pushes_name (node : Node) (name : String) : Pushes t limits bound (.name node name) :=
  fun _ _ _ _ _ _ hcode hfloor hcovers next => runs_loadName hcode hfloor hcovers next

theorem pushes_unary (node : Node) (operator : UnaryOperator)
    (hgaps : gaps bound (.unary node operator e) = [])
    (h : gaps bound e = [] → Pushes t limits bound e) :
    Pushes t limits bound (.unary node operator e) := by
  have hplain : ∀ {f : Value → Except CoercionError Value},
      (unaryOpcode operator).unary? = some f → Pushes t limits bound e →
      ofExpression bound (.unary node operator e) =
        ofExpression bound e ++ [.plain (unaryOpcode operator) node.span] →
      Pushes t limits bound (.unary node operator e) := by
    intro f hf h heq w Q a past pointer stack hcode hfloor hcovers next
    rw [heq] at hcovers next
    rw [List.length_append, ← Nat.add_assoc] at next
    exact h hcode hfloor hcovers.left fun _ => runs_unary hcode hfloor hf hcovers.right next
  cases operator with
  | increment | decrement =>
    cases e with
    | name target name =>
      exact fun _ _ _ _ _ _ hcode hfloor hcovers next =>
        runs_step hcode hfloor rfl rfl hcovers next
    | _ => simp [gaps, stepGaps] at hgaps
  | negate => exact hplain rfl (h hgaps) rfl
  | not => exact hplain rfl (h hgaps) rfl
  | bitwiseNot => exact hplain rfl (h hgaps) rfl

theorem pushes_binary (node : Node) (operator : BinaryOperator)
    (hgaps : gaps bound (.binary node operator left right) = [])
    (hleft : gaps bound left = [] → Pushes t limits bound left)
    (hright : gaps bound right = [] → Pushes t limits bound right) :
    Pushes t limits bound (.binary node operator left right) := by
  intro w Q a past pointer stack hcode hfloor hcovers next
  cases hbound : bound.operation? node with
  | none => simp [gaps, hbound] at hgaps
  | some operation =>
    simp only [gaps, hbound, List.append_eq_nil_iff] at hgaps
    simp only [ofExpression, hbound, List.append_assoc, List.length_append, List.length_map,
      ← Nat.add_assoc] at hcovers next
    refine hleft hgaps.1 hcode hfloor hcovers.left fun slot => ?_
    refine hright hgaps.2 hcode (hfloor.trans (List.suffix_cons _ _)) hcovers.right.left ?_
    exact fun _ => runs_opcodes hcode hfloor operation hcovers.right.right next

theorem pushes_assign (node : Node) (operator : Option BinaryOperator) (target : Expression)
    (hgaps : gaps bound (.assign node operator target value) = [])
    (hvalue : gaps bound value = [] → Pushes t limits bound value) :
    Pushes t limits bound (.assign node operator target value) := by
  intro w Q a past pointer stack hcode hfloor hcovers next
  cases target with
  | name targetNode name =>
    have hname : w.floor <:+ ⟨targetNode.span, .string name⟩ :: stack :=
      hfloor.trans (List.suffix_cons _ _)
    cases operator with
    | none =>
      simp only [gaps] at hgaps
      simp only [ofExpression, List.length_append, List.length_cons, List.length_nil] at next
      refine runs_push hcode hfloor hcovers ?_
      refine hvalue hgaps hcode hname hcovers.tail.left fun slot => ?_
      exact runs_store hcode hfloor hcovers.tail.right ((next _).moved (by omega))
    | some operator =>
      cases hbound : bound.operation? node with
      | none => simp [gaps, hbound] at hgaps
      | some operation =>
        simp only [gaps, hbound] at hgaps
        simp only [ofExpression, hbound, List.append_assoc] at hcovers
        simp only [ofExpression, hbound, loadName, List.length_append, List.length_cons,
          List.length_nil, List.length_map] at next
        refine runs_push hcode hfloor hcovers ?_
        refine runs_loadName hcode hname hcovers.tail fun slot => ?_
        have hvalueCode := hcovers.tail.right
        refine hvalue hgaps hcode (hname.trans (List.suffix_cons _ _)) hvalueCode.left fun slot => ?_
        refine runs_opcodes hcode hname operation hvalueCode.right.left fun slot => ?_
        have hstore := hvalueCode.right.right
        rw [List.length_map] at hstore
        exact runs_store hcode hfloor hstore ((next _).moved (by omega))
  | _ => simp [gaps] at hgaps

theorem pushes_object (node : Node) (entries : List (Expression × Expression)) :
    Pushes t limits bound (.object node entries) :=
  fun _ _ _ _ _ _ hcode hfloor hcovers next => runs_object hcode hfloor hcovers next

theorem pushes_call (hexact : t.exact) (node : Node) (arguments : List Expression)
    (hcallee : Pushes t limits bound callee) :
    Pushes t limits bound (.call node callee arguments) := by
  intro w Q a past pointer stack hcode hfloor hcovers next
  simp only [ofExpression, List.length_append, List.length_cons] at hcovers next
  refine hcallee hcode hfloor hcovers.left fun slot => ?_
  exact runs_call hexact hcode hfloor hcovers.right fun slot => (next slot).moved (by omega)

theorem pushes_member (node : Node) (name : Name) (hobject : Pushes t limits bound object) :
    Pushes t limits bound (.member node object name) := by
  intro w Q a past pointer stack hcode hfloor hcovers next
  simp only [ofExpression, List.length_append, List.length_cons, List.length_nil] at next
  refine hobject hcode hfloor hcovers.left fun slot => ?_
  refine runs_push hcode (hfloor.trans (List.suffix_cons _ _)) hcovers.right ?_
  exact runs_index hcode hfloor hcovers.right.tail fun slot => (next slot).moved (by omega)

theorem pushes_element (node : Node) (hobject : Pushes t limits bound object)
    (hkey : Pushes t limits bound key) : Pushes t limits bound (.element node object key) := by
  intro w Q a past pointer stack hcode hfloor hcovers next
  rw [ofExpression, List.append_assoc] at hcovers
  simp only [ofExpression, List.length_append, List.length_cons, List.length_nil] at next
  refine hobject hcode hfloor hcovers.left fun slot => ?_
  refine hkey hcode (hfloor.trans (List.suffix_cons _ _)) hcovers.right.left fun slot => ?_
  exact runs_index hcode hfloor hcovers.right.right fun slot => (next slot).moved (by omega)

/-- The parts of an object and the arguments of a call have stacks of their own, so nothing need be
known of them. -/
theorem pushes (hexact : t.exact) (limits : Limits) (e : Expression) (hgaps : gaps bound e = [])
    (hwhole : e.isWhole = true) : Pushes t limits bound e :=
  match e with
  | .literal node value => pushes_literal node value
  | .name node name => pushes_name node name
  | .paren _ inner => pushes hexact limits inner hgaps hwhole
  | .unary node operator operand =>
    pushes_unary node operator hgaps fun hgaps => pushes hexact limits operand hgaps hwhole
  | .binary node operator left right => by
    simp only [Expression.isWhole, Bool.and_eq_true] at hwhole
    exact pushes_binary node operator hgaps (fun hgaps => pushes hexact limits left hgaps hwhole.1)
      fun hgaps => pushes hexact limits right hgaps hwhole.2
  | .assign node operator target value => by
    simp only [Expression.isWhole, Bool.and_eq_true] at hwhole
    exact pushes_assign node operator target hgaps
      fun hgaps => pushes hexact limits value hgaps hwhole.2
  | .object node entries => pushes_object node entries
  | .call node callee arguments => by
    simp only [gaps, List.append_eq_nil_iff] at hgaps
    simp only [Expression.isWhole, Bool.and_eq_true] at hwhole
    exact pushes_call hexact node arguments (pushes hexact limits callee hgaps.1 hwhole.1)
  | .member node object name => pushes_member node name (pushes hexact limits object hgaps hwhole)
  | .element node object key => by
    simp only [gaps, List.append_eq_nil_iff] at hgaps
    simp only [Expression.isWhole, Bool.and_eq_true] at hwhole
    exact pushes_element node (pushes hexact limits object hgaps.1 hwhole.1)
      (pushes hexact limits key hgaps.2 hwhole.2)
  | .hole _ => by simp [Expression.isWhole] at hwhole

end Expressions

/-- The activation is about to give back a value that the stretch has put onto the stack. -/
def Stretch.GivesBack (w : Stretch) (m : Machine) : Prop :=
  ∃ (a : Activation) (pointer : Nat) (slot : Slot) (stack : List Slot) (origin : Span),
    a.code = w.code ∧ Stands a w.base pointer (slot :: stack) m ∧ w.floor <:+ stack ∧
      w.Covers pointer [.plain .giveBack origin]

/-- The code of the statement takes nothing from any stack. Other code follows it, to which branches
jump. -/
def Keeps (t : Setting) (limits : Limits) (bound : BoundTree) (s : Statement) : Prop :=
  ∀ ⦃w : Stretch⦄ ⦃Q : Machine → Prop⦄ ⦃a : Activation⦄ ⦃past : Heap⦄ ⦃pointer : Nat⦄
    ⦃stack : List Slot⦄, w.stop < w.code.length → (∀ m, w.GivesBack m → Q m) → a.code = w.code →
    w.floor <:+ stack → w.Covers pointer (ofStatement bound pointer s) →
    (∀ after, stack <:+ after →
      w.Runs t limits Q a past (pointer + (ofStatement bound pointer s).length) after) →
    w.Runs t limits Q a past pointer stack

def ListKeeps (t : Setting) (limits : Limits) (bound : BoundTree) (ss : List Statement) : Prop :=
  ∀ ⦃w : Stretch⦄ ⦃Q : Machine → Prop⦄ ⦃a : Activation⦄ ⦃past : Heap⦄ ⦃pointer : Nat⦄
    ⦃stack : List Slot⦄, w.stop < w.code.length → (∀ m, w.GivesBack m → Q m) → a.code = w.code →
    w.floor <:+ stack → w.Covers pointer (ofStatements bound pointer ss) →
    (∀ after, stack <:+ after →
      w.Runs t limits Q a past (pointer + (ofStatements bound pointer ss).length) after) →
    w.Runs t limits Q a past pointer stack

section Statements

open Stretch

variable {t : Setting} {limits : Limits} {bound : BoundTree} {w : Stretch} {Q : Machine → Prop}
  {a : Activation} {past : Heap} {pointer : Nat} {stack : List Slot} {origin : Span} {rest : Code}
  {value : Option Expression} {condition : Expression} {s body other : Statement}
  {ss : List Statement}

theorem runs_optional (h : ∀ e, value = some e → Pushes t limits bound e) (hcode : a.code = w.code)
    (hfloor : w.floor <:+ stack) (hcovers : w.Covers pointer (ofOptional bound value origin ++ rest))
    (next : ∀ slot, w.Runs t limits Q a past (pointer + (ofOptional bound value origin).length)
      (slot :: stack)) : w.Runs t limits Q a past pointer stack := by
  cases value with
  | none => exact runs_pushNone hcode hfloor hcovers.left (next _)
  | some e => exact h e rfl hcode hfloor hcovers.left next

theorem keeps_expression {e : Expression} (node : Node) (h : Pushes t limits bound e) :
    Keeps t limits bound (.expression node e) :=
  fun _ _ _ _ _ _ _ _ hcode hfloor hcovers next =>
    h hcode hfloor hcovers fun _ => next _ (List.suffix_cons _ _)

theorem keeps_letDecl (node : Node) (isMutable : Bool) (name : Name) (type : Option TypeRef)
    (h : ∀ e, value = some e → Pushes t limits bound e) :
    Keeps t limits bound (.letDecl node isMutable name type value) := by
  intro w Q a past pointer stack _ _ hcode hfloor hcovers next
  simp only [ofStatement, List.length_append, List.length_cons, List.length_nil] at next
  refine runs_push hcode hfloor hcovers ?_
  refine runs_optional h hcode (hfloor.trans (List.suffix_cons _ _)) hcovers.tail fun slot => ?_
  refine runs_store hcode hfloor hcovers.tail.right ?_
  exact (next stack (List.suffix_refl _)).moved (by omega)

theorem keeps_fnDecl (node : Node) (name : Name) (parameters : List Parameter)
    (result : Option TypeRef) (ss : List Statement) :
    Keeps t limits bound (.fnDecl node name parameters result ss) := by
  intro w Q a past pointer stack _ _ hcode hfloor hcovers next
  refine runs_push hcode hfloor hcovers ?_
  refine runs_proc hcode (hfloor.trans (List.suffix_cons _ _)) hcovers.tail fun slot => ?_
  exact runs_store hcode hfloor hcovers.tail.tail (next stack (List.suffix_refl _))

theorem keeps_block (node : Node) (h : ListKeeps t limits bound ss) :
    Keeps t limits bound (.block node ss) := by
  intro w Q a past pointer stack hroom hgives hcode hfloor hcovers next
  simp only [ofStatement, List.length_append, List.length_cons, List.length_nil] at next
  refine runs_scope hcode hfloor hcovers (fun b heap hb hclose => ?_) fun after hafter => ?_
  · exact h hroom hgives hb hfloor hcovers.tail.left hclose
  · exact (next after hafter).moved (by omega)

theorem runs_arms {otherCode : Code} {start stop : Nat} (hroom : w.stop < w.code.length)
    (hgives : ∀ m, w.GivesBack m → Q m) (hcode : a.code = w.code) (hfloor : w.floor <:+ stack)
    (hcondition : Pushes t limits bound condition) (hbody : Keeps t limits bound body)
    (hcovers : w.Covers pointer (ofExpression bound condition ++
      .jump .jnz start origin :: otherCode ++
        .jump .jmp stop origin :: ofStatement bound start body))
    (hstart : start = pointer + (ofExpression bound condition).length + 1 + otherCode.length + 1)
    (hstop : stop = start + (ofStatement bound start body).length)
    (hother : w.Covers (pointer + (ofExpression bound condition).length + 1) otherCode →
      (∀ after, stack <:+ after → w.Runs t limits Q a past
        (pointer + (ofExpression bound condition).length + 1 + otherCode.length) after) →
      w.Runs t limits Q a past (pointer + (ofExpression bound condition).length + 1) stack)
    (next : ∀ after, stack <:+ after → w.Runs t limits Q a past stop after) :
    w.Runs t limits Q a past pointer stack := by
  -- The code of the other branch, if there is any, stands between the two jumps.
  rw [List.append_assoc] at hcovers
  refine hcondition hcode hfloor hcovers.left fun slot => ?_
  have htest := hcovers.right
  have hjump := htest.tail.right
  have htaken := hjump.tail
  rw [← hstart] at htaken
  have hle := htaken.le_stop
  refine runs_branch hcode hfloor (by omega) htest ?_ ?_
  · exact hbody hroom hgives hcode hfloor htaken fun after hafter => (next after hafter).moved hstop
  · refine hother htest.tail.left fun after hafter => ?_
    exact runs_jump hcode (hfloor.trans hafter) (by omega) hjump (next after hafter)

theorem keeps_branch_none (node : Node) (hcondition : Pushes t limits bound condition)
    (hbody : Keeps t limits bound body) :
    Keeps t limits bound (.branch node condition body none) := by
  intro w Q a past pointer stack hroom hgives hcode hfloor hcovers next
  simp only [ofStatement, List.length_append, List.length_cons, List.length_nil,
    Nat.add_zero] at hcovers next
  exact runs_arms hroom hgives hcode hfloor hcondition hbody hcovers rfl rfl
    (fun _ hnext => hnext stack (List.suffix_refl _))
    fun after hafter => (next after hafter).moved (by omega)

theorem keeps_branch_some (node : Node) (hcondition : Pushes t limits bound condition)
    (hbody : Keeps t limits bound body) (hother : Keeps t limits bound other) :
    Keeps t limits bound (.branch node condition body (some other)) := by
  intro w Q a past pointer stack hroom hgives hcode hfloor hcovers next
  simp only [ofStatement, List.length_append, List.length_cons] at hcovers next
  exact runs_arms hroom hgives hcode hfloor hcondition hbody hcovers rfl rfl
    (fun hcovers hnext => hother hroom hgives hcode hfloor hcovers hnext)
    fun after hafter => (next after hafter).moved (by omega)

theorem keeps_giveBack (node : Node) (h : ∀ e, value = some e → Pushes t limits bound e) :
    Keeps t limits bound (.giveBack node value) := by
  intro w Q a past pointer stack _ hgives hcode hfloor hcovers _
  refine runs_optional h hcode hfloor hcovers fun slot m hm hstands _ _ => .here (.inr ?_)
  exact hgives m ⟨a, _, slot, stack, node.span, hcode, hstands, hfloor, hcovers.right⟩

theorem listKeeps_cons (hs : Keeps t limits bound s) (hss : ListKeeps t limits bound ss) :
    ListKeeps t limits bound (s :: ss) := by
  intro w Q a past pointer stack hroom hgives hcode hfloor hcovers next
  simp only [ofStatements, List.length_append] at hcovers next
  refine hs hroom hgives hcode hfloor hcovers.left fun after hafter => ?_
  refine hss hroom hgives hcode (hfloor.trans hafter) hcovers.right fun last hlast => ?_
  exact (next last (hafter.trans hlast)).moved (by omega)

theorem pushes_optional {e : Expression} (hexact : t.exact) (limits : Limits) (he : value = some e)
    (hgaps : optionalGaps bound value = []) (hwhole : Statement.optionalWhole value = true) :
    Pushes t limits bound e := by
  subst he
  exact pushes hexact limits e hgaps hwhole

mutual

theorem keeps (hexact : t.exact) (limits : Limits) (s : Statement)
    (hgaps : statementGaps bound s = []) (hwhole : s.isWhole = true) : Keeps t limits bound s :=
  match s with
  | .expression node e => keeps_expression node (pushes hexact limits e hgaps hwhole)
  | .letDecl node isMutable name type initial =>
    keeps_letDecl node isMutable name type fun _ he => pushes_optional hexact limits he hgaps hwhole
  | .fnDecl node name parameters result body => keeps_fnDecl node name parameters result body
  | .block node body => keeps_block node (listKeeps hexact limits body hgaps hwhole)
  | .branch node condition body none => by
    simp only [statementGaps, List.append_nil, List.append_eq_nil_iff] at hgaps
    simp only [Statement.isWhole, Bool.and_eq_true, Bool.and_true] at hwhole
    exact keeps_branch_none node (pushes hexact limits condition hgaps.1 hwhole.1)
      (keeps hexact limits body hgaps.2 hwhole.2)
  | .branch node condition body (some other) => by
    simp only [statementGaps, List.append_eq_nil_iff] at hgaps
    simp only [Statement.isWhole, Bool.and_eq_true] at hwhole
    exact keeps_branch_some node (pushes hexact limits condition hgaps.1.1 hwhole.1.1)
      (keeps hexact limits body hgaps.2 hwhole.1.2) (keeps hexact limits other hgaps.1.2 hwhole.2)
  | .giveBack node value =>
    keeps_giveBack node fun _ he => pushes_optional hexact limits he hgaps hwhole
  | .hole _ => fun _ _ _ _ _ stack _ _ hcode hfloor hcovers next =>
    runs_noop hcode hfloor hcovers (next stack (List.suffix_refl _))
termination_by structural s

theorem listKeeps (hexact : t.exact) (limits : Limits) (ss : List Statement)
    (hgaps : statementsGaps bound ss = []) (hwhole : Statement.listWhole ss = true) :
    ListKeeps t limits bound ss :=
  match ss with
  | [] => fun _ _ _ _ _ stack _ _ _ _ _ next => next stack (List.suffix_refl _)
  | s :: ss => by
    simp only [statementsGaps, List.append_eq_nil_iff] at hgaps
    simp only [Statement.listWhole, Bool.and_eq_true] at hwhole
    exact listKeeps_cons (keeps hexact limits s hgaps.1 hwhole.1)
      (listKeeps hexact limits ss hgaps.2 hwhole.2)
termination_by structural ss

end

end Statements

end StackScript
