import StackScript.Code.Generate
import StackScript.Proofs.Value.Functions

set_option autoImplicit false

/-!
# Sound code

`Sound` describes code from an instruction on: which values stand on top of the stack there, inside
how many blocks it is, and that all that can follow is in order as well. Jumps stay inside the code,
the arguments of a call follow it, scopes are closed as often as they are opened, and no operation
takes more values than there are. Jumps lead forward in generated code, so the description is finite.

A shape lists what is known of the topmost values. One may be the name pushed for an instruction to
come, a function just made or the value of a variable just loaded; the others may be anything. What
lies below them is not described.
-/
namespace StackScript

/-- What is known of a value on the stack: nothing, that it is this name, that it is a function with
these parameters, or that a variable of this name had it. -/
inductive StackEntry where
  | any
  | name (x : String)
  | made (parameters : List String)
  | bound (x : String)

abbrev Shape := List StackEntry

/-- What is promised of code. -/
structure Discipline where
  /-- Whether shapes are promised. Code for a program with gaps keeps to no shape. -/
  exact : Prop
  /-- The names that are stored to, each with what is known of the value. -/
  stores : String → StackEntry → Prop
  /-- The places of calls in code, each with what is known of the function and the names recorded. -/
  calls : Code → Nat → StackEntry → List String → Prop
  /-- The parameters of the functions that are made. -/
  procs : List String → Prop

namespace Code

inductive Sound (d : Discipline) : Code → Nat → Nat → Shape → Prop where
  | done {code : Code} {pointer blocks : Nat} {shape : Shape} (h : code.length ≤ pointer) :
      Sound d code pointer blocks shape
  | exit {code : Code} {pointer blocks : Nat} {shape : Shape} {origin : Span}
      (h : code[pointer]? = some (.plain .exit origin)) : Sound d code pointer blocks shape
  | giveBack {code : Code} {pointer blocks : Nat} {shape : Shape} {origin : Span}
      (h : code[pointer]? = some (.plain .giveBack origin)) : Sound d code pointer blocks shape
  | push {code : Code} {pointer blocks : Nat} {shape : Shape} {value : Value} {origin : Span}
      (h : code[pointer]? = some (.push value origin)) (plain : value.All fun _ => False)
      (next : Sound d code (pointer + 1) blocks (.any :: shape)) :
      Sound d code pointer blocks shape
  | pushName {code : Code} {pointer blocks : Nat} {shape : Shape} {name : String} {origin : Span}
      (h : code[pointer]? = some (.push (.string name) origin))
      (next : Sound d code (pointer + 1) blocks (.name name :: shape)) :
      Sound d code pointer blocks shape
  | pushNone {code : Code} {pointer blocks : Nat} {shape : Shape} {origin : Span}
      (h : code[pointer]? = some (.plain .pushNone origin))
      (next : Sound d code (pointer + 1) blocks (.any :: shape)) :
      Sound d code pointer blocks shape
  | object {code : Code} {pointer blocks : Nat} {shape : Shape} {entries : List (Code × Code)}
      {origin : Span} (h : code[pointer]? = some (.mk .pushObject (some (.entries entries)) origin))
      (keys : ∀ entry ∈ entries, Sound d entry.1 0 0 [])
      (values : ∀ entry ∈ entries, Sound d entry.2 0 0 [])
      (next : Sound d code (pointer + 1) blocks (.any :: shape)) :
      Sound d code pointer blocks shape
  | unary {code : Code} {pointer blocks : Nat} {shape : Shape} {operand : StackEntry}
      {opcode : Opcode} {f : Value → Except CoercionError Value} {origin : Span}
      (h : code[pointer]? = some (.plain opcode origin)) (plain : opcode.binary? = none)
      (hf : opcode.unary? = some f) (next : Sound d code (pointer + 1) blocks (.any :: shape)) :
      Sound d code pointer blocks (operand :: shape)
  | binary {code : Code} {pointer blocks : Nat} {shape : Shape} {right left : StackEntry}
      {opcode : Opcode} {f : Value → Value → Except CoercionError Value} {origin : Span}
      (h : code[pointer]? = some (.plain opcode origin)) (hf : opcode.binary? = some f)
      (next : Sound d code (pointer + 1) blocks (.any :: shape)) :
      Sound d code pointer blocks (right :: left :: shape)
  | index {code : Code} {pointer blocks : Nat} {shape : Shape} {key target : StackEntry}
      {origin : Span} (h : code[pointer]? = some (.plain .index origin))
      (next : Sound d code (pointer + 1) blocks (.any :: shape)) :
      Sound d code pointer blocks (key :: target :: shape)
  | load {code : Code} {pointer blocks : Nat} {shape : Shape} {name : String} {loaded : StackEntry}
      {origin : Span} (h : code[pointer]? = some (.plain .load origin))
      (knows : loaded = .any ∨ loaded = .bound name)
      (next : Sound d code (pointer + 1) blocks (loaded :: shape)) :
      Sound d code pointer blocks (.name name :: shape)
  | store {code : Code} {pointer blocks : Nat} {shape : Shape} {stored : StackEntry}
      {name : String} {keep : Bool} {origin : Span}
      (h : code[pointer]? = some (.store keep origin)) (stores : d.stores name stored)
      (next : Sound d code (pointer + 1) blocks (if keep then .any :: shape else shape)) :
      Sound d code pointer blocks (stored :: .name name :: shape)
  | beginScope {code : Code} {pointer blocks : Nat} {shape : Shape} {origin : Span}
      (h : code[pointer]? = some (.plain .beginScope origin))
      (next : Sound d code (pointer + 1) (blocks + 1) shape) : Sound d code pointer blocks shape
  | endScope {code : Code} {pointer blocks : Nat} {shape : Shape} {origin : Span}
      (h : code[pointer]? = some (.plain .endScope origin))
      (next : Sound d code (pointer + 1) blocks shape) : Sound d code pointer (blocks + 1) shape
  | jump {code : Code} {pointer blocks target : Nat} {shape : Shape} {origin : Span}
      (h : code[pointer]? = some (.jump .jmp target origin)) (inside : target < code.length)
      (next : Sound d code target blocks shape) : Sound d code pointer blocks shape
  | branch {code : Code} {pointer blocks target : Nat} {shape : Shape} {condition : StackEntry}
      {origin : Span} (h : code[pointer]? = some (.jump .jnz target origin))
      (inside : target < code.length) (taken : Sound d code target blocks shape)
      (other : Sound d code (pointer + 1) blocks shape) :
      Sound d code pointer blocks (condition :: shape)
  | call {code : Code} {pointer blocks count : Nat} {shape : Shape} {callee : StackEntry}
      {names : List String} {origin : Span}
      (h : code[pointer]? = some (.mk .call (some (.call count names)) origin))
      (inside : pointer + 1 + count ≤ code.length) (calls : d.calls code pointer callee names)
      (arguments : Sound d ((code.drop (pointer + 1)).take count) 0 0 [])
      (next : Sound d code (pointer + 1 + count) blocks (.any :: shape)) :
      Sound d code pointer blocks (callee :: shape)
  | proc {code : Code} {pointer blocks : Nat} {shape : Shape} {name : String}
      {parameters : List String} {body : Code} {origin : Span}
      (h : code[pointer]? = some (.mk .proc (some (.proc name parameters body)) origin))
      (procs : d.procs parameters) (inner : Sound d body 0 0 [])
      (next : Sound d code (pointer + 1) blocks (.made parameters :: shape)) :
      Sound d code pointer blocks shape
  | noop {code : Code} {pointer blocks : Nat} {shape after : Shape} {origin : Span}
      (h : code[pointer]? = some (.plain .noop origin)) (keeps : d.exact → after = shape)
      (next : Sound d code (pointer + 1) blocks after) : Sound d code pointer blocks shape

theorem Sound.extend {d : Discipline} {code : Code} {pointer blocks : Nat} {shape : Shape}
    (h : Sound d code pointer blocks shape) (rest : Shape) :
    Sound d code pointer blocks (shape ++ rest) := by
  induction h with
  | done h => exact .done h
  | exit h => exact .exit h
  | giveBack h => exact .giveBack h
  | push h plain _ ih => exact .push h plain ih
  | pushName h _ ih => exact .pushName h ih
  | pushNone h _ ih => exact .pushNone h ih
  | object h keys values _ _ _ ih => exact .object h keys values ih
  | unary h plain hf _ ih => exact .unary h plain hf ih
  | binary h hf _ ih => exact .binary h hf ih
  | index h _ ih => exact .index h ih
  | load h knows _ ih => exact .load h knows ih
  | @store _ _ _ _ _ _ keep _ h stores _ ih =>
    refine .store h stores ?_
    cases keep <;> exact ih
  | beginScope h _ ih => exact .beginScope h ih
  | endScope h _ ih => exact .endScope h ih
  | jump h inside _ ih => exact .jump h inside ih
  | branch h inside _ _ taken other => exact .branch h inside taken other
  | call h inside calls arguments _ _ ih => exact .call h inside calls arguments ih
  | proc h procs inner _ _ ih => exact .proc h procs inner ih
  | noop h keeps _ ih => exact .noop h (fun hexact => by rw [keeps hexact]) ih

/-- The names are recorded at a call in the code or in code inside it. -/
inductive Records : Code → List String → Prop where
  | call {code : Code} {count : Nat} {names : List String} {origin : Span}
      (h : .mk .call (some (.call count names)) origin ∈ code) : Records code names
  | body {code body : Code} {names parameters : List String} {name : String} {origin : Span}
      (h : .mk .proc (some (.proc name parameters body)) origin ∈ code)
      (inner : Records body names) : Records code names
  | key {code : Code} {entries : List (Code × Code)} {entry : Code × Code} {names : List String}
      {origin : Span} (h : .mk .pushObject (some (.entries entries)) origin ∈ code)
      (mem : entry ∈ entries) (inner : Records entry.1 names) : Records code names
  | value {code : Code} {entries : List (Code × Code)} {entry : Code × Code} {names : List String}
      {origin : Span} (h : .mk .pushObject (some (.entries entries)) origin ∈ code)
      (mem : entry ∈ entries) (inner : Records entry.2 names) : Records code names

theorem Records.mono {code more : Code} {names : List String} (h : Records code names)
    (hsubset : code ⊆ more) : Records more names := by
  cases h with
  | call h => exact .call (hsubset h)
  | body h inner => exact .body (hsubset h) inner
  | key h mem inner => exact .key (hsubset h) mem inner
  | value h mem inner => exact .value (hsubset h) mem inner

theorem Sound.restrict {d : Discipline} {calls : Code → Nat → StackEntry → List String → Prop}
    {code : Code} {pointer blocks : Nat} {shape : Shape} (h : Sound d code pointer blocks shape)
    (hcalls : ∀ names, code.Records names → ∀ inner place callee, calls inner place callee names) :
    Sound { d with calls } code pointer blocks shape := by
  induction h with
  | done h => exact .done h
  | exit h => exact .exit h
  | giveBack h => exact .giveBack h
  | push h plain _ ih => exact .push h plain (ih hcalls)
  | pushName h _ ih => exact .pushName h (ih hcalls)
  | pushNone h _ ih => exact .pushNone h (ih hcalls)
  | object h keys values _ keysIh valuesIh ih =>
    have hmem := List.mem_of_getElem? h
    exact .object h
      (fun entry he => keysIh entry he fun names hnames => hcalls names (.key hmem he hnames))
      (fun entry he => valuesIh entry he fun names hnames => hcalls names (.value hmem he hnames))
      (ih hcalls)
  | unary h plain hf _ ih => exact .unary h plain hf (ih hcalls)
  | binary h hf _ ih => exact .binary h hf (ih hcalls)
  | index h _ ih => exact .index h (ih hcalls)
  | load h knows _ ih => exact .load h knows (ih hcalls)
  | store h stores _ ih => exact .store h stores (ih hcalls)
  | beginScope h _ ih => exact .beginScope h (ih hcalls)
  | endScope h _ ih => exact .endScope h (ih hcalls)
  | jump h inside _ ih => exact .jump h inside (ih hcalls)
  | branch h inside _ _ taken other => exact .branch h inside (taken hcalls) (other hcalls)
  | call h inside _ _ _ argumentsIh ih =>
    refine .call h inside (hcalls _ (.call (List.mem_of_getElem? h)) _ _ _) (argumentsIh ?_)
      (ih hcalls)
    exact fun names hnames =>
      hcalls names (hnames.mono (List.Subset.trans (List.take_subset _ _) (List.drop_subset _ _)))
  | proc h procs _ _ innerIh ih =>
    have hmem := List.mem_of_getElem? h
    exact .proc h procs (innerIh fun names hnames => hcalls names (.body hmem hnames)) (ih hcalls)
  | noop h keeps _ ih => exact .noop h keeps (ih hcalls)

end Code

/-- Whatever keeps to the first discipline keeps to the second. -/
structure Discipline.Weakens (d d' : Discipline) : Prop where
  exact : d'.exact → d.exact
  stores : ∀ x entry, d.stores x entry → d'.stores x entry
  calls : ∀ code place callee names, d.calls code place callee names →
    d'.calls code place callee names
  procs : ∀ names, d.procs names → d'.procs names

theorem Code.Sound.weaken {d d' : Discipline} {code : Code} {pointer blocks : Nat} {shape : Shape}
    (h : Sound d code pointer blocks shape) (hweakens : d.Weakens d') :
    Sound d' code pointer blocks shape := by
  induction h with
  | done h => exact .done h
  | exit h => exact .exit h
  | giveBack h => exact .giveBack h
  | push h plain _ ih => exact .push h plain ih
  | pushName h _ ih => exact .pushName h ih
  | pushNone h _ ih => exact .pushNone h ih
  | object h _ _ _ keys values ih => exact .object h keys values ih
  | unary h plain hf _ ih => exact .unary h plain hf ih
  | binary h hf _ ih => exact .binary h hf ih
  | index h _ ih => exact .index h ih
  | load h knows _ ih => exact .load h knows ih
  | store h stores _ ih => exact .store h (hweakens.stores _ _ stores) ih
  | beginScope h _ ih => exact .beginScope h ih
  | endScope h _ ih => exact .endScope h ih
  | jump h inside _ ih => exact .jump h inside ih
  | branch h inside _ _ taken other => exact .branch h inside taken other
  | call h inside calls _ _ arguments ih =>
    exact .call h inside (hweakens.calls _ _ _ _ calls) arguments ih
  | proc h procs _ _ inner ih => exact .proc h (hweakens.procs _ procs) inner ih
  | noop h keeps _ ih => exact .noop h (fun hexact => keeps (hweakens.exact hexact)) ih

end StackScript
