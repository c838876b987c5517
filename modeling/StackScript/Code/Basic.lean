import StackScript.Source.Span
import StackScript.Value.Basic

set_option autoImplicit false

/-!
# Instructions

Code is a list of instructions for a stack machine. An instruction has an operation, an operand
whose shape the operation asks for, and the span of source text it comes from. Operands hold further
code: the body of a function, and the code of the keys and values of an object. The arguments of a
call are code too; they follow the call instruction, which tells their number.
-/
namespace StackScript

inductive Opcode where
  | push
  | pushNone
  | pushObject
  | pop
  | swap
  | dup
  | add
  | sub
  | mul
  | div
  | idiv
  | mod
  | pow
  | unm
  | concat
  | band
  | bor
  | bxor
  | bnot
  | bshl
  | bshr
  | and
  | or
  | not
  | eq
  | lt
  | lte
  | load
  | store
  | index
  | beginScope
  | endScope
  | jmp
  | jnz
  | jz
  | call
  | proc
  | giveBack
  | exit
  | noop
deriving DecidableEq

namespace Opcode

def mnemonic : Opcode → String
  | .push => "PUSH"
  | .pushNone => "PUSHNONE"
  | .pushObject => "PUSHOBJECT"
  | .pop => "POP"
  | .swap => "SWAP"
  | .dup => "DUP"
  | .add => "ADD"
  | .sub => "SUB"
  | .mul => "MUL"
  | .div => "DIV"
  | .idiv => "IDIV"
  | .mod => "MOD"
  | .pow => "POW"
  | .unm => "UNM"
  | .concat => "CONCAT"
  | .band => "BAND"
  | .bor => "BOR"
  | .bxor => "BXOR"
  | .bnot => "BNOT"
  | .bshl => "BSHL"
  | .bshr => "BSHR"
  | .and => "AND"
  | .or => "OR"
  | .not => "NOT"
  | .eq => "EQ"
  | .lt => "LT"
  | .lte => "LTE"
  | .load => "LOAD"
  | .store => "STORE"
  | .index => "INDEX"
  | .beginScope => "BEGINSCOPE"
  | .endScope => "ENDSCOPE"
  | .jmp => "JMP"
  | .jnz => "JNZ"
  | .jz => "JZ"
  | .call => "CALL"
  | .proc => "PROC"
  | .giveBack => "RETURN"
  | .exit => "EXIT"
  | .noop => "NOOP"

def isJump : Opcode → Bool
  | .jmp | .jnz | .jz => true
  | _ => false

end Opcode

mutual

inductive Instruction where
  | mk (opcode : Opcode) (operand : Option Operand) (origin : Span)

inductive Operand where
  | value (value : Value)
  | index (target : Nat)
  /-- The code of the keys and values of an object, in order. -/
  | entries (entries : List (List Instruction × List Instruction))
  /-- The number of argument instructions that follow, and the names of the parameters if known. -/
  | call (count : Nat) (parameters : List String)
  | proc (name : String) (parameters : List String) (body : List Instruction)
  /-- Whether a stored value stays on the stack. -/
  | flag (keep : Bool)

end

abbrev Code := List Instruction

namespace Instruction

instance : Inhabited Instruction := ⟨.mk .noop none default⟩

def opcode : Instruction → Opcode
  | .mk opcode _ _ => opcode

def operand : Instruction → Option Operand
  | .mk _ operand _ => operand

def origin : Instruction → Span
  | .mk _ _ origin => origin

def plain (opcode : Opcode) (origin : Span) : Instruction := .mk opcode none origin

def push (value : Value) (origin : Span) : Instruction := .mk .push (some (.value value)) origin

def jump (opcode : Opcode) (target : Nat) (origin : Span) : Instruction :=
  .mk opcode (some (.index target)) origin

def store (keep : Bool) (origin : Span) : Instruction := .mk .store (some (.flag keep)) origin

def target? : Instruction → Option Nat
  | .mk _ (some (.index target)) _ => some target
  | _ => none

end Instruction

end StackScript
