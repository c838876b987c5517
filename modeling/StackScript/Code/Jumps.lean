import StackScript.Code.Basic

set_option autoImplicit false

/-!
# Checking jump targets

A jump must lead to an instruction of the code it stands in. Function bodies and the parts of
objects are code of their own.
-/
namespace StackScript

/-- A jump that leads nowhere: its index in its own code, and its target if it has one. -/
structure BadJump where
  index : Nat
  target : Option Nat
deriving DecidableEq

namespace BadJump

def check (size index : Nat) (instruction : Instruction) : List BadJump :=
  if instruction.opcode.isJump then
    match instruction.target? with
    | some target => if target < size then [] else [⟨index, some target⟩]
    | none => [⟨index, none⟩]
  else []

mutual

/-- The bad jumps of an instruction at `index` in code of the given size, then those of the code
inside it. -/
def ofInstruction (size index : Nat) : Instruction → List BadJump
  | .mk opcode none origin => check size index (.mk opcode none origin)
  | .mk opcode (some operand) origin =>
    check size index (.mk opcode (some operand) origin) ++ ofOperand operand
termination_by structural instruction => instruction

def ofOperand : Operand → List BadJump
  | .entries entries => ofEntries entries
  | .proc _ _ body => ofCode body.length 0 body
  | _ => []
termination_by structural operand => operand

def ofCode (size index : Nat) : List Instruction → List BadJump
  | [] => []
  | instruction :: rest =>
    ofInstruction size index instruction ++ ofCode size (index + 1) rest
termination_by structural code => code

def ofEntry : List Instruction × List Instruction → List BadJump
  | (key, value) => ofCode key.length 0 key ++ ofCode value.length 0 value
termination_by structural entry => entry

def ofEntries : List (List Instruction × List Instruction) → List BadJump
  | [] => []
  | entry :: rest => ofEntry entry ++ ofEntries rest
termination_by structural entries => entries

end

end BadJump

def Code.badJumps (code : Code) : List BadJump := BadJump.ofCode code.length 0 code

end StackScript
