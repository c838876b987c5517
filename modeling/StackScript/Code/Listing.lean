import StackScript.Code.Basic
import StackScript.Text.Style

set_option autoImplicit false

/-!
# Listings

A listing has a line for every instruction: its index, its operation and its operand. Code inside an
operand is listed below the instruction, further to the right.
-/
namespace StackScript

def fourDigits (n : Nat) : String :=
  let digits := Nat.toDigits 10 n
  String.ofList (List.replicate (4 - digits.length) '0' ++ digits)

def Operand.display : Operand → String
  | .value (.string s) => Text.quotedString s
  | .value (.char c) => Text.quotedChar c
  | .value v => v.display
  | .index target => "-> " ++ fourDigits target
  | .entries es => toString es.length ++ " entries"
  | .call count parameters =>
    toString count ++ " arg instr (" ++ String.intercalate ", " parameters ++ ")"
  | .proc name parameters _ => name ++ "(" ++ String.intercalate ", " parameters ++ ")"
  | .flag b => Value.boolText b

namespace Listing

def margin (depth : Nat) : String := String.ofList (List.replicate (4 * depth) ' ')

def line (depth index : Nat) (opcode : Opcode) (operand : Option Operand) : String :=
  let shown := match operand with
    | none => ""
    | some operand => " " ++ operand.display
  margin depth ++ fourDigits index ++ "  " ++ Text.padRight 10 opcode.mnemonic ++ shown ++ "\n"

mutual

def ofInstruction (depth index : Nat) : Instruction → String
  | .mk opcode none _ => line depth index opcode none
  | .mk opcode (some operand) _ =>
    line depth index opcode (some operand) ++ ofOperand depth operand
termination_by structural instruction => instruction

def ofOperand (depth : Nat) : Operand → String
  | .entries entries => ofEntries depth 0 entries
  | .proc _ _ body => ofCode (depth + 1) 0 body
  | _ => ""
termination_by structural operand => operand

def ofCode (depth index : Nat) : List Instruction → String
  | [] => ""
  | instruction :: rest => ofInstruction depth index instruction ++ ofCode depth (index + 1) rest
termination_by structural code => code

def ofEntry (depth index : Nat) : List Instruction × List Instruction → String
  | (key, value) =>
    margin (depth + 1) ++ "  key " ++ toString index ++ ":\n" ++ ofCode (depth + 2) 0 key ++
      margin (depth + 1) ++ "  value " ++ toString index ++ ":\n" ++ ofCode (depth + 2) 0 value
termination_by structural entry => entry

def ofEntries (depth index : Nat) : List (List Instruction × List Instruction) → String
  | [] => ""
  | entry :: rest => ofEntry depth index entry ++ ofEntries depth (index + 1) rest
termination_by structural entries => entries

end

end Listing

def Code.listing (code : Code) : String := Listing.ofCode 0 0 code

end StackScript
