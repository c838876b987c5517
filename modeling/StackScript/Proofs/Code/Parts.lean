import StackScript.Code.Jumps

set_option autoImplicit false

/-!
# Code inside code

A function body and the keys and values of an object are code of their own inside an operand. `Part`
goes inwards through all of them. The check of jump targets looks at every part, and at the code that
follows a call as part of the code the call stands in.
-/
namespace StackScript

inductive Operand.Holds : Operand → Code → Prop where
  | body (name : String) (parameters : List String) (body : Code) :
      Holds (.proc name parameters body) body
  | key {entries : List (Code × Code)} {entry : Code × Code} (h : entry ∈ entries) :
      Holds (.entries entries) entry.1
  | value {entries : List (Code × Code)} {entry : Code × Code} (h : entry ∈ entries) :
      Holds (.entries entries) entry.2

namespace Operand

@[simp] theorem holds_proc_iff {name : String} {parameters : List String} {body code : Code} :
    (Operand.proc name parameters body).Holds code ↔ code = body :=
  ⟨fun h => by cases h; rfl, fun h => h ▸ .body name parameters body⟩

@[simp] theorem holds_entries_iff {entries : List (Code × Code)} {code : Code} :
    (Operand.entries entries).Holds code ↔ ∃ entry ∈ entries, code = entry.1 ∨ code = entry.2 := by
  constructor
  · intro h
    cases h with
    | key h => exact ⟨_, h, .inl rfl⟩
    | value h => exact ⟨_, h, .inr rfl⟩
  · rintro ⟨entry, h, rfl | rfl⟩
    · exact .key h
    · exact .value h

@[simp] theorem not_holds_value {value : Value} {code : Code} : ¬ (Operand.value value).Holds code :=
  nofun

@[simp] theorem not_holds_index {target : Nat} {code : Code} : ¬ (Operand.index target).Holds code :=
  nofun

@[simp] theorem not_holds_call {count : Nat} {names : List String} {code : Code} :
    ¬ (Operand.call count names).Holds code :=
  nofun

@[simp] theorem not_holds_flag {keep : Bool} {code : Code} : ¬ (Operand.flag keep).Holds code :=
  nofun

end Operand

namespace Code

/-- The code itself, code that an instruction of it holds, and so on inwards. -/
inductive Part : Code → Code → Prop where
  | self (code : Code) : Part code code
  | inner {code inner part : Code} {instruction : Instruction} {operand : Operand}
      (h : instruction ∈ code) (operand_eq : instruction.operand = some operand)
      (holds : operand.Holds inner) (rest : Part inner part) : Part code part

/-- All instructions have the property, those of the code inside as well. -/
def Everywhere (p : Instruction → Prop) (code : Code) : Prop :=
  ∀ part, code.Part part → ∀ instruction ∈ part, p instruction

variable {p : Instruction → Prop} {code first second : Code} {instruction : Instruction}

theorem Everywhere.here (h : code.Everywhere p) (hmem : instruction ∈ code) : p instruction :=
  h code (.self code) instruction hmem

theorem Everywhere.inner (h : code.Everywhere p) (hmem : instruction ∈ code) {operand : Operand}
    (hoperand : instruction.operand = some operand) {inner : Code} (hholds : operand.Holds inner) :
    inner.Everywhere p :=
  fun part hpart => h part (.inner hmem hoperand hholds hpart)

theorem Everywhere.mono {q : Instruction → Prop} (h : code.Everywhere p)
    (hpq : ∀ instruction, p instruction → q instruction) : code.Everywhere q :=
  fun part hpart instruction hmem => hpq instruction (h part hpart instruction hmem)

theorem everywhere_of_forall (hhere : ∀ instruction ∈ code, p instruction)
    (hinner : ∀ instruction ∈ code, ∀ operand, instruction.operand = some operand →
      ∀ inner, operand.Holds inner → inner.Everywhere p) : code.Everywhere p := by
  intro part hpart instruction hmem
  cases hpart with
  | self => exact hhere instruction hmem
  | inner h operand_eq holds rest => exact hinner _ h _ operand_eq _ holds part rest instruction hmem

theorem Everywhere.subset (h : code.Everywhere p) (hsub : first ⊆ code) : first.Everywhere p :=
  everywhere_of_forall (fun _ hmem => h.here (hsub hmem)) fun _ hmem _ hoperand _ hholds =>
    h.inner (hsub hmem) hoperand hholds

@[simp] theorem everywhere_nil : Code.Everywhere p [] :=
  everywhere_of_forall (by simp) (by simp)

theorem everywhere_append : Code.Everywhere p (first ++ second) ↔
    first.Everywhere p ∧ second.Everywhere p := by
  constructor
  · exact fun h =>
      ⟨h.subset (List.subset_append_left _ _), h.subset (List.subset_append_right _ _)⟩
  · rintro ⟨hfirst, hsecond⟩
    refine everywhere_of_forall (fun i hi => ?_) fun i hi operand hoperand inner hholds => ?_
    · obtain h | h := List.mem_append.mp hi
      · exact hfirst.here h
      · exact hsecond.here h
    · obtain h | h := List.mem_append.mp hi
      · exact hfirst.inner h hoperand hholds
      · exact hsecond.inner h hoperand hholds

theorem everywhere_cons : Code.Everywhere p (instruction :: code) ↔ p instruction ∧
    (∀ operand, instruction.operand = some operand →
      ∀ inner, operand.Holds inner → inner.Everywhere p) ∧ code.Everywhere p := by
  constructor
  · intro h
    exact ⟨h.here List.mem_cons_self, fun _ hoperand _ => h.inner List.mem_cons_self hoperand,
      h.subset (List.subset_cons_self _ _)⟩
  · rintro ⟨hhere, hinner, hrest⟩
    refine everywhere_of_forall (fun i hi => ?_) fun i hi operand hoperand inner hholds => ?_
    · obtain rfl | h := List.mem_cons.mp hi
      · exact hhere
      · exact hrest.here h
    · obtain rfl | h := List.mem_cons.mp hi
      · exact hinner operand hoperand inner hholds
      · exact hrest.inner h hoperand hholds

theorem region_subset (code : Code) (pointer count : Nat) :
    (code.drop (pointer + 1)).take count ⊆ code :=
  List.Subset.trans (List.take_subset _ _) (List.drop_subset _ _)

/-- The jump leads to one of the first `size` instructions. -/
def Lands (size : Nat) (instruction : Instruction) : Prop :=
  instruction.opcode.isJump = true → ∃ target, instruction.target? = some target ∧ target < size

end Code

namespace BadJump

theorem check_eq_nil_iff {size index : Nat} {instruction : Instruction} :
    check size index instruction = [] ↔ Code.Lands size instruction := by
  unfold check Code.Lands
  split
  · rename_i hjump
    cases instruction.target? with
    | none => simp [hjump]
    | some target =>
      by_cases h : target < size
      · simp [h]
      · simp [h, hjump]
  · rename_i hjump
    simp [hjump]

theorem ofEntries_eq_nil_iff {entries : List (Code × Code)} :
    ofEntries entries = [] ↔
      ∀ entry ∈ entries, entry.1.badJumps = [] ∧ entry.2.badJumps = [] := by
  induction entries with
  | nil => simp [ofEntries]
  | cons entry rest ih =>
    rw [ofEntries, List.append_eq_nil_iff, ih, ofEntry, List.append_eq_nil_iff, List.forall_mem_cons]
    rfl

theorem ofOperand_eq_nil_iff {operand : Operand} :
    ofOperand operand = [] ↔ ∀ inner, operand.Holds inner → inner.badJumps = [] := by
  cases operand with
  | entries entries =>
    rw [ofOperand, ofEntries_eq_nil_iff]
    refine ⟨fun h inner hholds => ?_, fun h entry hentry => ⟨h _ (.key hentry), h _ (.value hentry)⟩⟩
    cases hholds with
    | key hentry => exact (h _ hentry).1
    | value hentry => exact (h _ hentry).2
  | proc name parameters body =>
    refine ⟨fun h inner hholds => ?_, fun h => h body (.body name parameters body)⟩
    cases hholds with
    | body => exact h
  | _ => exact ⟨fun _ inner hholds => (by cases hholds), fun _ => rfl⟩

theorem ofInstruction_eq_nil_iff {size index : Nat} {instruction : Instruction} :
    ofInstruction size index instruction = [] ↔ Code.Lands size instruction ∧
      ∀ operand, instruction.operand = some operand →
        ∀ inner, operand.Holds inner → inner.badJumps = [] := by
  obtain ⟨opcode, operand, origin⟩ := instruction
  cases operand with
  | none => simp [ofInstruction, check_eq_nil_iff, Instruction.operand]
  | some operand =>
    simp [ofInstruction, check_eq_nil_iff, ofOperand_eq_nil_iff, Instruction.operand]

theorem ofCode_eq_nil_iff {size index : Nat} {code : Code} :
    ofCode size index code = [] ↔ ∀ instruction ∈ code, Code.Lands size instruction ∧
      ∀ operand, instruction.operand = some operand →
        ∀ inner, operand.Holds inner → inner.badJumps = [] := by
  induction code generalizing index with
  | nil => simp [ofCode]
  | cons instruction rest ih =>
    rw [ofCode, List.append_eq_nil_iff, ih, ofInstruction_eq_nil_iff, List.forall_mem_cons]

end BadJump

/-- Code passes the check if its jumps land in it and the code it holds passes. -/
theorem Code.badJumps_eq_nil_iff {code : Code} :
    code.badJumps = [] ↔ ∀ instruction ∈ code, Code.Lands code.length instruction ∧
      ∀ operand, instruction.operand = some operand →
        ∀ inner, operand.Holds inner → inner.badJumps = [] :=
  BadJump.ofCode_eq_nil_iff

end StackScript
