import StackScript.Machine.Step
import StackScript.Proofs.Code.Sound
import StackScript.Proofs.Heap.Scopes

set_option autoImplicit false

/-!
# Safe machines

What holds of a machine that runs sound code, at every step. The active code is sound where it
stands, and the code that waits is sound where it goes on once it has the value it waits for. The
stacks have the promised shapes as long as no operation has failed: one that fails pushes nothing,
and from then on values are not where the code looks for them.

Not all of the heap need be in order, only what the program can get at. A `Setting` says which
scopes and functions that are.
-/
namespace StackScript

/-- Operations that fail report one of these. -/
def Diagnostic.isFailure (d : Diagnostic) : Bool :=
  d.code == .invalidCoercion || d.code == .notCallable || d.code == .notIndexable

def Failed (log : List Diagnostic) : Prop := ∃ d ∈ log, d.isFailure = true

/-- If the value is a function, it has these parameters. -/
def Value.Takes (value : Value) (heap : Heap) (names : List String) : Prop :=
  ∀ ref, value = .function ref → ∃ closure, heap.closure? ref = some closure ∧
    closure.parameters = names

/-- What is known of a run before it starts. -/
structure Setting extends Discipline where
  /-- The heap at the start. -/
  base : Heap
  /-- The scopes of that heap that the program can get at. -/
  old : Nat → Prop
  /-- The first function that the program can get at. -/
  first : Nat
  /-- The variables that have no functions but such with these parameters. -/
  fixed : String → List String → Prop
  made_of_stores : ∀ {x names entry}, fixed x names → stores x entry → entry = .made names
  not_mem_of_calls : ∀ {x names code place callee recorded}, fixed x names →
    calls code place callee recorded → x ∉ recorded
  not_mem_of_procs : ∀ {x names parameters}, fixed x names → procs parameters → x ∉ parameters

/-- Where any variable may have any function. -/
def Discipline.setting (d : Discipline) (base : Heap) (old : Nat → Prop) (first : Nat) :
    Setting where
  toDiscipline := d
  base := base
  old := old
  first := first
  fixed _ _ := False
  made_of_stores hfixed := hfixed.elim
  not_mem_of_calls hfixed := hfixed.elim
  not_mem_of_procs hfixed := hfixed.elim

namespace Setting

variable (t : Setting)

/-- The program can get at the scope, or made it. -/
def InReach (id : Nat) : Prop := t.old id ∨ t.base.scopes.size ≤ id

def RefOk (heap : Heap) (ref : FunctionRef) : Prop :=
  t.first ≤ ref.id ∧ (t.exact → ref.id < heap.closures.size)

def ValueOk (heap : Heap) (value : Value) : Prop := value.All (t.RefOk heap)

/-- The names that are stored to or are parameters. -/
def Writes (x : String) : Prop :=
  (∃ entry, t.stores x entry) ∨
    (∃ code place callee names, t.calls code place callee names ∧ x ∈ names) ∨
    ∃ names, t.procs names ∧ x ∈ names

/-- Shapes are promised and nothing has gone wrong yet. -/
def Live (log : DiagnosticLog) : Prop := t.exact ∧ ¬ Failed log.toList

/-- What may be reported after `before`: no broken code, and values that are not where they should
be only after a failure. -/
def Allows (before : List Diagnostic) (d : Diagnostic) : Prop :=
  d.code ≠ .invalidJumpTarget ∧ d.code ≠ .malformedInstruction ∧ d.code ≠ .unbalancedScope ∧
    (d.code = .stackCorruption → t.exact → Failed before)

def LogOk (log : List Diagnostic) : Prop :=
  ∀ before d after, log = before ++ d :: after → t.Allows before d

structure HeapOk (heap : Heap) : Prop where
  size_le : t.base.scopes.size ≤ heap.scopes.size
  first_le : t.first ≤ heap.closures.size
  enclosing : ∀ id outer, t.InReach id → (heap.scope id).enclosing = some outer → t.InReach outer
  values : ∀ id x value, t.InReach id → heap.binding? id x = some value → t.ValueOk heap value
  closures : ∀ ref closure, t.first ≤ ref.id → heap.closure? ref = some closure →
    Code.Sound t.toDiscipline closure.body 0 0 [] ∧ t.procs closure.parameters ∧
      t.InReach closure.scope

/-- The program can get at all there is. -/
structure Open : Prop where
  old : ∀ id, t.old id
  first : t.first = 0

def Suits (heap : Heap) (x : String) (value : Value) : Prop :=
  ∀ names, t.fixed x names → value.Takes heap names

/-- Names that are not written keep the bindings they had at the start, and the others have values
that suit them. -/
structure Framed (heap : Heap) : Prop where
  unwritten : ∀ x, ¬ t.Writes x → ∀ id, heap.binding? id x = t.base.binding? id x
  suited : ∀ id x value, heap.binding? id x = some value → t.Suits heap x value

variable {t} {t' : Setting} {heap : Heap}

/-- With all of it in reach, what is in order does not depend on the heap at the start. -/
theorem HeapOk.rebase (h : t.HeapOk heap) (hweakens : t.Weakens t'.toDiscipline) (hopen : t.Open)
    (hopen' : t'.Open) (hbase : t'.base = heap) : t'.HeapOk heap where
  size_le := hbase ▸ Nat.le_refl _
  first_le := hopen'.first ▸ Nat.zero_le _
  enclosing _ outer _ _ := .inl (hopen'.old outer)
  values id x value _ hvalue := by
    refine Value.All.mono (h.values id x value (.inl (hopen.old id)) hvalue) fun ref href => ?_
    exact ⟨hopen'.first ▸ Nat.zero_le _, fun hexact => href.2 (hweakens.exact hexact)⟩
  closures ref closure _ hclosure := by
    obtain ⟨hsound, hprocs, -⟩ :=
      h.closures ref closure (hopen.first ▸ Nat.zero_le _) hclosure
    exact ⟨hsound.weaken hweakens, hweakens.procs _ hprocs, .inl (hopen'.old _)⟩

end Setting

/-- There are no functions, neither on the heap nor among the values of the variables. -/
structure Heap.Functionless (heap : Heap) : Prop where
  closures : heap.closures = #[]
  values : ∀ id x value, heap.binding? id x = some value → value.All fun _ => False

theorem Heap.functionless_withGlobalScope : Heap.withGlobalScope.Functionless where
  closures := rfl
  values id x value hvalue := by simp [Heap.binding?_withGlobalScope] at hvalue

theorem Heap.Functionless.heapOk {t : Setting} {heap : Heap} (h : heap.Functionless) (hopen : t.Open)
    (hbase : t.base = heap) : t.HeapOk heap where
  size_le := hbase ▸ Nat.le_refl _
  first_le := hopen.first ▸ Nat.zero_le _
  enclosing _ outer _ _ := .inl (hopen.old outer)
  values id x value _ hvalue := (h.values id x value hvalue).mono fun _ => False.elim
  closures ref closure _ hclosure := by simp [Heap.closure?, h.closures] at hclosure

/-- At least that many scopes enclose the scope. -/
def Heap.Climbs (heap : Heap) : Nat → Nat → Prop
  | 0, _ => True
  | blocks + 1, id =>
    id < heap.scopes.size ∧
      ∃ outer, (heap.scope id).enclosing = some outer ∧ heap.Climbs blocks outer

def Setting.Fits (t : Setting) (heap : Heap) (value : Value) : StackEntry → Prop
  | .any => True
  | .name x => value = .string x
  | .made names => value.Takes heap names
  | .bound x => t.Suits heap x value

/-- The top of the stack has the shape. -/
inductive Matches (t : Setting) (heap : Heap) : List Slot → Shape → Prop where
  | nil (stack : List Slot) : Matches t heap stack []
  | cons {slot : Slot} {stack : List Slot} {entry : StackEntry} {shape : Shape}
      (head : t.Fits heap slot.value entry) (tail : Matches t heap stack shape) :
      Matches t heap (slot :: stack) (entry :: shape)

structure ActivationOk (t : Setting) (heap : Heap) (a : Activation) : Prop where
  stack : ∀ slot ∈ a.stack, t.ValueOk heap slot.value
  scope : t.InReach a.scope
  climbs : heap.Climbs a.scopeDepth a.scope

/-- The code is sound from `pointer` on with the stack of the activation. -/
def StandsAt (t : Setting) (heap : Heap) (live : Prop) (a : Activation) (pointer : Nat) : Prop :=
  ∃ shape, Code.Sound t.toDiscipline a.code pointer a.scopeDepth shape ∧
    (live → Matches t heap a.stack shape)

/-- The code is sound from `pointer` on with one more value on the stack. -/
def ResumesAt (t : Setting) (heap : Heap) (live : Prop) (a : Activation) (pointer : Nat) : Prop :=
  ∃ shape, Code.Sound t.toDiscipline a.code pointer a.scopeDepth (.any :: shape) ∧
    (live → Matches t heap a.stack shape)

def PairsOk (t : Setting) (heap : Heap) (pairs : List (Value × Value)) : Prop :=
  ∀ pair ∈ pairs, t.ValueOk heap pair.1 ∧ t.ValueOk heap pair.2

def PartsOk (t : Setting) (entries : List (Code × Code)) : Prop :=
  ∀ entry ∈ entries, Code.Sound t.toDiscipline entry.1 0 0 [] ∧
    Code.Sound t.toDiscipline entry.2 0 0 []

def AwaitedOk (t : Setting) (heap : Heap) (live : Prop) (a : Activation) : Awaited → Prop
  | .arguments callee names _ resume =>
    t.ValueOk heap callee.value ∧
      (∃ entry, t.calls a.code a.pointer entry names ∧ (live → t.Fits heap callee.value entry)) ∧
      ResumesAt t heap live a resume
  | .result _ resume => ResumesAt t heap live a resume
  | .key _ built value rest =>
    PairsOk t heap built ∧ Code.Sound t.toDiscipline value 0 0 [] ∧ PartsOk t rest ∧
      ResumesAt t heap live a (a.pointer + 1)
  | .value _ built key rest =>
    PairsOk t heap built ∧ t.ValueOk heap key ∧ PartsOk t rest ∧
      ResumesAt t heap live a (a.pointer + 1)

structure SuspendedOk (t : Setting) (heap : Heap) (live : Prop) (s : Suspended) : Prop where
  activation : ActivationOk t heap s.activation
  awaited : AwaitedOk t heap live s.activation s.awaited

/-- All but the place at which the active code stands. -/
structure Machine.Ambient (t : Setting) (m : Machine) : Prop where
  heap : t.HeapOk m.heap
  framed : t.Live m.log → t.Framed m.heap
  log : t.LogOk m.log.toList
  suspended : ∀ s ∈ m.suspended, SuspendedOk t m.heap (t.Live m.log) s
  active : ActivationOk t m.heap m.active

structure Machine.Safe (t : Setting) (m : Machine) : Prop where
  ambient : m.Ambient t
  stands : StandsAt t m.heap (t.Live m.log) m.active m.active.pointer

def Progress.Safe (t : Setting) : Progress → Prop
  | .running m => m.Safe t
  | .finished outcome => outcome.machine.Ambient t

variable {t : Setting} {heap later : Heap} {live live' : Prop}

theorem Setting.ValueOk.mono {value : Value} (h : t.ValueOk heap value)
    (hgrows : heap.Grows later) : t.ValueOk later value :=
  Value.All.mono h fun _ href =>
    ⟨href.1, fun hexact => Nat.lt_of_lt_of_le (href.2 hexact) hgrows.closures_le⟩

theorem Heap.Climbs.mono {blocks id : Nat} (h : heap.Climbs blocks id) (hgrows : heap.Grows later) :
    later.Climbs blocks id := by
  induction blocks generalizing id with
  | zero => trivial
  | succ blocks ih =>
    obtain ⟨hid, outer, houter, hrest⟩ := h
    refine ⟨Nat.lt_of_lt_of_le hid hgrows.size_le, outer, ?_, ih hrest⟩
    rw [hgrows.enclosing id hid, houter]

theorem ActivationOk.mono {a : Activation} (h : ActivationOk t heap a) (hgrows : heap.Grows later) :
    ActivationOk t later a :=
  ⟨fun slot hslot => (h.stack slot hslot).mono hgrows, h.scope, h.climbs.mono hgrows⟩

theorem PairsOk.mono {pairs : List (Value × Value)} (h : PairsOk t heap pairs)
    (hgrows : heap.Grows later) : PairsOk t later pairs :=
  fun pair hpair => ⟨(h pair hpair).1.mono hgrows, (h pair hpair).2.mono hgrows⟩

theorem Value.Takes.mono {value : Value} {names : List String} (h : value.Takes heap names)
    (hgrows : heap.Grows later) : value.Takes later names := by
  intro ref href
  obtain ⟨closure, hclosure, hnames⟩ := h ref href
  exact ⟨closure, hgrows.closure ref closure hclosure, hnames⟩

theorem Setting.Fits.mono {value : Value} {entry : StackEntry} (h : t.Fits heap value entry)
    (hgrows : heap.Grows later) : t.Fits later value entry := by
  cases entry with
  | any => trivial
  | name x => exact h
  | made names => exact Value.Takes.mono h hgrows
  | bound x => exact fun names hfixed => Value.Takes.mono (h names hfixed) hgrows

theorem Matches.mono {stack : List Slot} {shape : Shape} (h : Matches t heap stack shape)
    (hgrows : heap.Grows later) : Matches t later stack shape := by
  induction h with
  | nil stack => exact .nil stack
  | cons head _ ih => exact .cons (head.mono hgrows) ih

theorem ResumesAt.mono {a : Activation} {pointer : Nat} (h : ResumesAt t heap live a pointer)
    (hgrows : heap.Grows later) (hlive : live' → live) : ResumesAt t later live' a pointer := by
  obtain ⟨shape, hsound, hmatches⟩ := h
  exact ⟨shape, hsound, fun h => (hmatches (hlive h)).mono hgrows⟩

theorem SuspendedOk.mono {s : Suspended} (h : SuspendedOk t heap live s)
    (hgrows : heap.Grows later) (hlive : live' → live) : SuspendedOk t later live' s := by
  obtain ⟨a, awaited⟩ := s
  refine ⟨h.activation.mono hgrows, ?_⟩
  cases awaited with
  | arguments callee names origin resume =>
    obtain ⟨hcallee, ⟨entry, hcalls, hfits⟩, hresumes⟩ := h.awaited
    exact ⟨hcallee.mono hgrows, ⟨entry, hcalls, fun h => (hfits (hlive h)).mono hgrows⟩,
      hresumes.mono hgrows hlive⟩
  | result origin resume => exact ResumesAt.mono h.awaited hgrows hlive
  | key origin built value rest =>
    obtain ⟨hbuilt, hvalue, hrest, hresumes⟩ := h.awaited
    exact ⟨hbuilt.mono hgrows, hvalue, hrest, hresumes.mono hgrows hlive⟩
  | value origin built key rest =>
    obtain ⟨hbuilt, hkey, hrest, hresumes⟩ := h.awaited
    exact ⟨hbuilt.mono hgrows, hkey.mono hgrows, hrest, hresumes.mono hgrows hlive⟩

theorem toList_push (log : DiagnosticLog) (d : Diagnostic) :
    (log.push d).toList = log.toList ++ [d] := by
  simp [DiagnosticLog.push, DiagnosticLog.toList]

theorem Setting.Live.of_push {log : DiagnosticLog} {d : Diagnostic} (h : t.Live (log.push d)) :
    t.Live log := by
  refine ⟨h.1, fun ⟨e, he, hfailure⟩ => h.2 ⟨e, ?_, hfailure⟩⟩
  rw [toList_push]
  exact List.mem_append_left _ he

theorem Setting.not_live_push {log : DiagnosticLog} {d : Diagnostic} (hd : d.isFailure = true) :
    ¬ t.Live (log.push d) := by
  intro h
  refine h.2 ⟨d, ?_, hd⟩
  rw [toList_push]
  exact List.mem_append_right _ (List.mem_singleton_self d)

theorem Setting.LogOk.push {log : DiagnosticLog} {d : Diagnostic} (h : t.LogOk log.toList)
    (hd : t.Allows log.toList d) : t.LogOk (log.push d).toList := by
  intro before e after heq
  rw [toList_push] at heq
  -- The new entry is the last one, so a split is one of the old log or the one at the end.
  obtain rfl | ⟨rest, last, rfl⟩ := List.eq_nil_or_concat after
  · obtain ⟨rfl, hlast⟩ := List.append_inj' heq rfl
    obtain rfl : d = e := by simpa using hlast
    exact hd
  · rw [List.concat_eq_append, ← List.cons_append, ← List.append_assoc] at heq
    obtain ⟨hold, -⟩ := List.append_inj' heq rfl
    exact h before e rest hold

end StackScript
