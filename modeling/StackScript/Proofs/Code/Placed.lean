import StackScript.Code.Generate

set_option autoImplicit false

/-!
# Code inside other code

`Placed code pointer segment` says that `segment` stands in `code` from `pointer` on.
-/
namespace StackScript.Code

def Placed (code : Code) (pointer : Nat) (segment : Code) : Prop := segment <+: code.drop pointer

variable {code first second : Code} {instruction : Instruction} {pointer : Nat}

theorem placed_self (code : Code) : Placed code 0 code := by
  simp [Placed]

theorem Placed.left (h : Placed code pointer (first ++ second)) : Placed code pointer first :=
  (List.prefix_append first second).trans h

theorem Placed.right (h : Placed code pointer (first ++ second)) :
    Placed code (pointer + first.length) second := by
  obtain ⟨rest, hrest⟩ := h
  refine ⟨rest, ?_⟩
  rw [← List.drop_drop, ← hrest, List.append_assoc, List.drop_left]

theorem Placed.getElem? (h : Placed code pointer (instruction :: second)) :
    code[pointer]? = some instruction := by
  obtain ⟨rest, hrest⟩ := h
  have hhead : (code.drop pointer)[0]? = some instruction := by rw [← hrest]; rfl
  simpa using hhead

theorem Placed.tail (h : Placed code pointer (instruction :: second)) :
    Placed code (pointer + 1) second := by
  have happend : Placed code pointer ([instruction] ++ second) := h
  exact happend.right

theorem Placed.take_drop (h : Placed code pointer second) :
    (code.drop pointer).take second.length = second := by
  obtain ⟨rest, hrest⟩ := h
  rw [← hrest, List.take_left]

theorem Placed.bound (h : Placed code pointer (instruction :: second)) :
    pointer + 1 + second.length ≤ code.length := by
  have hle : (instruction :: second).length ≤ (code.drop pointer).length := List.IsPrefix.length_le h
  rw [List.length_cons, List.length_drop] at hle
  omega

end StackScript.Code
