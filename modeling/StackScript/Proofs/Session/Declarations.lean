import StackScript.Proofs.Heap.Assignment
import StackScript.Proofs.Machine.Housed
import StackScript.Proofs.Machine.Writes
import StackScript.Proofs.Session.StackDiscipline

set_option autoImplicit false

/-!
# What a declaration binds

A declaration and an assignment end with the same instruction, which changes the nearest binding of
the name. So a declaration makes a variable of its own only where no scope around it has one of that
name. Where one has, it is the outer variable that gets the value, even one that cannot be assigned
to, and the inner scope gets none.
-/
namespace StackScript

open Code (Placed)
open Generate
open Machine (OutOfSteps Stands)

def Statement.declares? : Statement → Option String
  | .letDecl _ _ name _ _ | .fnDecl _ name _ _ _ => some name.text
  | _ => none

namespace Heap

variable {heap : Heap}

/-- A new variable of that name can be made in the scope: the scopes around it do not have one, or
the scope has one already. -/
def Declarable (heap : Heap) (id : Nat) (x : String) : Prop :=
  (heap.binding? id x).isSome ∨ ∀ other, heap.Chain id other → heap.binding? other x = none

theorem ownerWithin_eq_none {x : String} {count id first : Nat} (hid : heap.Chain first id)
    (h : ∀ other, heap.Chain first other → heap.binding? other x = none) :
    heap.ownerWithin x count id = none := by
  induction count generalizing id with
  | zero => rfl
  | succ count ih =>
    have hcontains : (heap.scope id).bindings.contains x = false := by
      have hnone := h id hid
      rw [binding?] at hnone
      simp [NameTable.contains, hnone]
    simp only [ownerWithin, hcontains, Bool.false_eq_true, if_false]
    cases houter : (heap.scope id).enclosing with
    | none => rfl
    | some outer => exact ih (.outer hid houter)

/-- A search that finds nothing has gone through the whole chain, since every scope of it has a
smaller number than the one before. -/
theorem Housed.binding_of_owner?_eq_none (h : heap.Housed) {id other : Nat} {x : String}
    (hnone : heap.owner? id x = none) (hchain : heap.Chain id other) :
    heap.binding? other x = none := by
  -- Along the chain, what is left of the count is always enough for what is left of the chain.
  have hsearched : ∃ count, other < count ∧ heap.ownerWithin x count other = none := by
    induction hchain with
    | self => exact ⟨id + 1, Nat.lt_succ_self id, hnone⟩
    | @outer inner outer _ houter ih =>
      obtain ⟨count, hcount, hrest⟩ := ih
      have hlt := h.enclosing inner outer houter
      cases count with
      | zero => omega
      | succ count =>
        simp only [ownerWithin] at hrest
        split at hrest
        · simp at hrest
        · rw [houter] at hrest
          exact ⟨count, by omega, hrest⟩
  obtain ⟨count, hcount, hrest⟩ := hsearched
  cases count with
  | zero => omega
  | succ count =>
    simp only [ownerWithin] at hrest
    split at hrest
    · simp at hrest
    · rename_i hcontains
      simpa [NameTable.contains, binding?] using hcontains

theorem Housed.owner_eq_self_iff (h : heap.Housed) (id : Nat) (x : String) :
    (heap.owner? id x).getD id = id ↔ heap.Declarable id x := by
  refine ⟨fun howner => ?_, fun hdeclarable => ?_⟩
  · cases hfound : heap.owner? id x with
    | none => exact .inr fun other hchain => h.binding_of_owner?_eq_none hfound hchain
    | some owner =>
      rw [hfound, Option.getD_some] at howner
      exact .inl (howner ▸ binding_of_ownerWithin hfound)
  · obtain hbound | hfree := hdeclarable
    · rw [owner?_of_binding hbound, Option.getD_some]
    · rw [owner?, ownerWithin_eq_none (.self id) hfree, Option.getD_none]

end Heap

theorem Session.Orderly.housed {session : Session} (h : session.Orderly) :
    session.heap.Housed ∧ Session.globalScope < session.heap.scopes.size := by
  induction h with
  | fresh limits => exact ⟨Heap.housed_withGlobalScope, Nat.zero_lt_one⟩
  | @eval session _ source _ _ _ _ heval ih =>
    obtain ⟨outcome, hrun, -, rfl⟩ := Session.evalWithin_eq_some heval
    obtain ⟨hheap, hglobal⟩ := ih
    have hstart : (session.start source).Housed := Machine.housed_load hheap _ hglobal
    refine ⟨(hstart.of_run hrun).heap, ?_⟩
    obtain ⟨n, hreach, hend⟩ := Machine.reaches_of_run_eq_some hrun
    have hgrows := Machine.grows_step session.limits n
    rw [hend] at hgrows
    exact Nat.lt_of_lt_of_le hglobal (hreach.grows.trans hgrows).size_le

namespace Machine

variable {limits : Limits} {a : Activation} {base : List Suspended} {pointer : Nat}
  {stack : List Slot} {n : Machine}

theorem step_store {stored : Slot} {place origin : Span} {x : String}
    (hn : Stands a base pointer (stored :: ⟨place, .string x⟩ :: stack) n)
    (hat : a.code[pointer]? = some (.store false origin)) :
    OutOfSteps limits n ∨ ∃ k, n.step limits = .running k ∧
      Stands a base (pointer + 1) stack k ∧
      k.heap = n.heap.assign a.scope x stored.value := by
  have hcode : n.active.code[n.active.pointer]? = some (.store false origin) := by
    rw [hn.active, hat]
  refine (step_of_instruction limits hcode).imp_right fun ⟨steps, hstep⟩ => ?_
  have hcounted : Stands a base pointer (stored :: ⟨place, .string x⟩ :: stack)
      { n with steps } := ⟨hn.suspended, hn.active⟩
  have hexecute : ({ n with steps } : Machine).execute limits (.store false origin) =
      ({ n with steps } : Machine).store limits false origin := rfl
  rw [hexecute, store, hcounted.popTwo] at hstep
  have hstored := (hcounted.setStack stack).withHeap (n.heap.assign n.active.scope x stored.value)
  have hscope : n.active.scope = a.scope := by rw [hn.active]
  refine ⟨_, hstep, hstored.next, ?_⟩
  rw [← hscope]
  rfl

end Machine

theorem runs_declaration {t : Setting} {limits : Limits} {bound : BoundTree} {w : Stretch}
    {Q : Machine → Prop} {a : Activation} {past : Heap} {pointer : Nat} {stack : List Slot}
    {s : Statement} {x : String} (hexact : t.exact) (hx : s.declares? = some x)
    (hgaps : statementGaps bound s = []) (hwhole : s.isWhole = true) (hcode : a.code = w.code)
    (hfloor : w.floor <:+ stack) (hcovers : w.Covers pointer (ofStatement bound pointer s))
    (next : ∀ last stored place origin,
      last + 1 = pointer + (ofStatement bound pointer s).length →
      a.code[last]? = some (.store false origin) →
      w.Runs t limits Q a past last (stored :: ⟨place, .string x⟩ :: stack)) :
    w.Runs t limits Q a past pointer stack := by
  -- The code of a declaration puts the name and a value onto the stack. The store comes last.
  have hname : ∀ slot : Slot, w.floor <:+ slot :: stack :=
    fun _ => hfloor.trans (List.suffix_cons _ _)
  cases s with
  | letDecl node isMutable name type initial =>
    obtain rfl : name.text = x := Option.some.inj hx
    refine Stretch.runs_push hcode hfloor hcovers ?_
    refine runs_optional (fun _ he => pushes_optional hexact limits he hgaps hwhole) hcode (hname _)
      hcovers.tail fun slot => ?_
    have hstore := hcovers.tail.right.placed.getElem?
    refine next _ slot name.span node.span ?_ (hcode ▸ hstore)
    simp only [ofStatement, List.length_append, List.length_cons, List.length_nil]
    omega
  | fnDecl node name parameters result body =>
    obtain rfl : name.text = x := Option.some.inj hx
    refine Stretch.runs_push hcode hfloor hcovers ?_
    refine Stretch.runs_proc hcode (hname _) hcovers.tail fun slot => ?_
    exact next _ slot name.span node.span rfl (hcode ▸ hcovers.tail.tail.placed.getElem?)
  | _ => simp [Statement.declares?] at hx

/-- A declaration of `x` that runs in some scope comes to its store, in the same scope, and the store
changes one binding: the nearest one of `x`, or that in the scope itself if there is none. That is
the binding in the scope itself, and the scopes around stay as they are, just where those scopes do
not have the name or the scope has it already. Only a failure in the code of the declaration or the
step limit can prevent the store. -/
theorem declarations_bind_unshadowed_names (session : Session) (source : String)
    (hsession : session.Orderly) (hclean : (session.compile source).diagnostics = []) {m : Machine}
    (hreach : (session.start source).Reaches session.limits m) {bound : BoundTree} {s : Statement}
    {x : String} (hx : s.declares? = some x) (hgaps : statementGaps bound s = [])
    (hwhole : s.isWhole = true)
    (hplaced : Placed m.active.code m.active.pointer (ofStatement bound m.active.pointer s)) :
    let size := (ofStatement bound m.active.pointer s).length
    m.Gets session.limits (m.ahead size).Inside fun n =>
      FailedSince m.log.toList n.log.toList ∨ ∃ last stored place,
        last + 1 = m.active.pointer + size ∧
        n.Stands m.active m.suspended last (stored :: ⟨place, .string x⟩ :: m.active.stack) ∧
        (OutOfSteps session.limits n ∨ ∃ k, n.step session.limits = .running k ∧
          k.Stands m.active m.suspended (m.active.pointer + size) m.active.stack ∧
          let owner := (n.heap.owner? m.active.scope x).getD m.active.scope
          n.heap.Rebinds owner x stored.value k.heap ∧
          (owner = m.active.scope ↔ n.heap.Declarable m.active.scope x)) := by
  intro size
  obtain ⟨hheap, hglobal⟩ := hsession.housed
  have hstart : (session.start source).Housed := Machine.housed_load hheap _ hglobal
  have hm := hreach.safe (hsession.safe hclean)
  have hstore : m.Gets session.limits (m.ahead size).Inside fun n =>
      FailedSince m.log.toList n.log.toList ∨ ∃ last stored place origin,
        last + 1 = m.active.pointer + size ∧
        m.active.code[last]? = some (.store false origin) ∧
        n.Stands m.active m.suspended last
          (stored :: ⟨place, .string x⟩ :: m.active.stack) := by
    refine runs_declaration trivial hx hgaps hwhole rfl (List.suffix_refl _)
      ⟨hplaced, Nat.le_refl _, Nat.le_refl _⟩ ?_ m hm m.stands_self (Heap.Grows.refl _)
      (List.prefix_refl _)
    intro last stored place origin hlast hat n _ hstands _ _
    exact .here (.inr ⟨last, stored, place, origin, hlast, hat, hstands⟩)
  refine hstore.bind fun n hfrom hn => .here (hn.imp_right ?_)
  rintro ⟨last, stored, place, origin, hlast, hat, hstands⟩
  refine ⟨last, stored, place, hlast, hstands, ?_⟩
  refine (Machine.step_store hstands hat).imp_right fun ⟨k, hstep, hk, hkheap⟩ => ?_
  have hhoused : n.Housed := (hreach.trans hfrom).housed hstart
  have hscope : m.active.scope < n.heap.scopes.size := by
    have hactive := hhoused.active
    rwa [hstands.active] at hactive
  rw [hlast] at hk
  refine ⟨k, hstep, hk, ?_, hhoused.heap.owner_eq_self_iff m.active.scope x⟩
  rw [hkheap]
  exact Heap.rebinds_assign hscope x stored.value

set_option maxRecDepth 100000 in
/-- The second text of a session declares a variable, with a value for which a function from the
first text is called. -/
theorem declarations_bind_unshadowed_names_of_second_text :
    let first := "let y = 4; fn f(n) -> n * y;"
    let source := "let x = f(1) + 3; x"
    let session : Session := ((({} : Session).evalWithin 100 first).map (·.2)).getD {}
    let start := session.start source
    session.Orderly ∧ (session.compile source).diagnostics = [] ∧
    ∃ bound s, s.declares? = some "x" ∧ statementGaps bound s = [] ∧ s.isWhole = true ∧
      Placed start.active.code start.active.pointer (ofStatement bound start.active.pointer s) ∧
      let size := (ofStatement bound start.active.pointer s).length
      start.Gets session.limits (start.ahead size).Inside fun n =>
        FailedSince start.log.toList n.log.toList ∨ ∃ last stored place,
          last + 1 = start.active.pointer + size ∧
          n.Stands start.active start.suspended last
            (stored :: ⟨place, .string "x"⟩ :: start.active.stack) ∧
          (OutOfSteps session.limits n ∨ ∃ k, n.step session.limits = .running k ∧
            k.Stands start.active start.suspended (start.active.pointer + size)
              start.active.stack ∧
            let owner := (n.heap.owner? start.active.scope "x").getD start.active.scope
            n.heap.Rebinds owner "x" stored.value k.heap ∧
            (owner = start.active.scope ↔ n.heap.Declarable start.active.scope "x")) := by
  intro first source session start
  have horderly : session.Orderly :=
    (Session.Orderly.fresh {}).next 100 (List.isEmpty_iff.mp (by decide +kernel))
  have hclean : (session.compile source).diagnostics = [] :=
    List.isEmpty_iff.mp (by decide +kernel)
  have hdeclares : (SyntaxTree.read source).tree.statements.head?.bind Statement.declares? =
      some "x" := by
    decide +kernel
  cases hstatements : (SyntaxTree.read source).tree.statements with
  | nil =>
    rw [hstatements] at hdeclares
    simp at hdeclares
  | cons s rest =>
    rw [hstatements] at hdeclares
    have hx : s.declares? = some "x" := hdeclares
    obtain ⟨hgaps, hwhole, hplaced, -⟩ := Session.first_statement hclean hstatements
    exact ⟨horderly, hclean, _, s, hx, hgaps, hwhole, hplaced,
      declarations_bind_unshadowed_names session source horderly hclean (.refl start) hx hgaps
        hwhole hplaced⟩

def Instruction.isStore : Instruction → Bool
  | .mk .store (some (.flag false)) _ => true
  | _ => false

theorem Instruction.eq_store_of_isStore {instruction : Instruction}
    (h : instruction.isStore = true) : ∃ origin, instruction = .store false origin := by
  unfold isStore at h
  split at h
  · exact ⟨_, rfl⟩
  · simp at h

set_option maxRecDepth 100000 in
/-- A declaration in a block overwrites the variable of the same name outside of it, although that
one cannot be assigned to, and the block gets no variable. -/
theorem inner_declaration_overwrites_outer_variable :
    let source := "let x = 1; \x7b let x = 2; \x7d x"
    let start := ({} : Session).start source
    (({} : Session).compile source).diagnostics = [] ∧
    ∃ m n origin, start.Reaches {} m ∧ m.step {} = .running n ∧
      m.active.code[m.active.pointer]? = some (.store false origin) ∧
      (m.heap.scope m.active.scope).enclosing = some 0 ∧
      n.heap.binding? m.active.scope "x" = none ∧
      (m.heap.binding? 0 "x").map Value.display = some "1" ∧
      (n.heap.binding? 0 "x").map Value.display = some "2" := by
  intro source start
  have hruns : ((start.after {} 6).any fun m => (m.after {} 1).any fun n =>
      m.active.code[m.active.pointer]?.any Instruction.isStore &&
      (m.heap.scope m.active.scope).enclosing == some 0 &&
      (n.heap.binding? m.active.scope "x").isNone &&
      (m.heap.binding? 0 "x").map Value.display == some "1" &&
      (n.heap.binding? 0 "x").map Value.display == some "2") = true := by
    decide +kernel
  obtain ⟨m, hm, hstores⟩ := (Option.any_eq_true _ _).mp hruns
  obtain ⟨n, hn, hstores⟩ := (Option.any_eq_true _ _).mp hstores
  simp only [Bool.and_eq_true, beq_iff_eq, Option.isNone_iff_eq_none] at hstores
  obtain ⟨⟨⟨⟨hinstruction, henclosing⟩, hinner⟩, hbefore⟩, hafter⟩ := hstores
  obtain ⟨instruction, hat, hstore⟩ := (Option.any_eq_true _ _).mp hinstruction
  obtain ⟨origin, rfl⟩ := Instruction.eq_store_of_isStore hstore
  refine ⟨List.isEmpty_iff.mp (by decide +kernel), m, n, origin, Machine.reaches_after hm, ?_, hat,
    henclosing, hinner, hbefore, hafter⟩
  simp only [Machine.after] at hn
  split at hn
  · rename_i next hstep
    rw [hstep, Option.some.inj hn]
  · simp at hn

end StackScript
