import StackScript.Tree.Basic

set_option autoImplicit false

/-!
# The names in a program

Which variables a program names as ones it makes or changes, which functions it declares, which
expressions stand in it and whether one of them is a hole.
-/
namespace StackScript

namespace Expression

def asName? : Expression → Option String
  | .name _ text => some text
  | _ => none

mutual

def targets : Expression → List String
  | .literal _ _ | .name _ _ | .hole _ => []
  | .paren _ inner => targets inner
  | .unary _ operator operand =>
    match operator with
    | .increment | .decrement => operand.asName?.toList ++ targets operand
    | _ => targets operand
  | .binary _ _ left right => targets left ++ targets right
  | .assign _ _ target value => target.asName?.toList ++ targets target ++ targets value
  | .object _ entries => entryTargets entries
  | .call _ callee arguments => targets callee ++ listTargets arguments
  | .member _ inner _ => targets inner
  | .element _ inner index => targets inner ++ targets index
termination_by structural e => e

def listTargets : List Expression → List String
  | [] => []
  | e :: rest => targets e ++ listTargets rest
termination_by structural es => es

def entryTargets : List (Expression × Expression) → List String
  | [] => []
  | (key, value) :: rest => targets key ++ targets value ++ entryTargets rest
termination_by structural entries => entries

end

mutual

/-- No hole stands in the expression. -/
def isWhole : Expression → Bool
  | .literal _ _ | .name _ _ => true
  | .paren _ inner => isWhole inner
  | .unary _ _ operand => isWhole operand
  | .binary _ _ left right => isWhole left && isWhole right
  | .assign _ _ target value => isWhole target && isWhole value
  | .object _ entries => entriesWhole entries
  | .call _ callee arguments => isWhole callee && listWhole arguments
  | .member _ inner _ => isWhole inner
  | .element _ inner index => isWhole inner && isWhole index
  | .hole _ => false
termination_by structural e => e

def listWhole : List Expression → Bool
  | [] => true
  | e :: rest => isWhole e && listWhole rest
termination_by structural es => es

def entriesWhole : List (Expression × Expression) → Bool
  | [] => true
  | (key, value) :: rest => isWhole key && isWhole value && entriesWhole rest
termination_by structural entries => entries

end

end Expression

namespace Statement

def optionalTargets : Option Expression → List String
  | some e => e.targets
  | none => []

def optionalWhole : Option Expression → Bool
  | some e => e.isWhole
  | none => true

mutual

/-- The names that a statement declares, takes as parameters, assigns to or steps. -/
def written : Statement → List String
  | .expression _ e => e.targets
  | .letDecl _ _ name _ initial => name.text :: optionalTargets initial
  | .fnDecl _ name parameters _ body =>
    name.text :: parameters.map (·.name.text) ++ listWritten body
  | .block _ body => listWritten body
  | .branch _ condition body otherwise =>
    let other := match otherwise with
      | some s => written s
      | none => []
    condition.targets ++ written body ++ other
  | .giveBack _ value => optionalTargets value
  | .hole _ => []
termination_by structural s => s

def listWritten : List Statement → List String
  | [] => []
  | s :: rest => written s ++ listWritten rest
termination_by structural ss => ss

end

mutual

/-- The names of the variables that a statement declares, assigns to or steps. -/
def assigned : Statement → List String
  | .expression _ e => e.targets
  | .letDecl _ _ name _ initial => name.text :: optionalTargets initial
  | .fnDecl _ _ _ _ body => listAssigned body
  | .block _ body => listAssigned body
  | .branch _ condition body otherwise =>
    let other := match otherwise with
      | some s => assigned s
      | none => []
    condition.targets ++ assigned body ++ other
  | .giveBack _ value => optionalTargets value
  | .hole _ => []
termination_by structural s => s

def listAssigned : List Statement → List String
  | [] => []
  | s :: rest => assigned s ++ listAssigned rest
termination_by structural ss => ss

end

mutual

def functions : Statement → List (String × List String)
  | .expression _ _ | .letDecl _ _ _ _ _ | .giveBack _ _ | .hole _ => []
  | .fnDecl _ name parameters _ body =>
    (name.text, parameters.map (·.name.text)) :: listFunctions body
  | .block _ body => listFunctions body
  | .branch _ _ body otherwise =>
    let other := match otherwise with
      | some s => functions s
      | none => []
    functions body ++ other
termination_by structural s => s

def listFunctions : List Statement → List (String × List String)
  | [] => []
  | s :: rest => functions s ++ listFunctions rest
termination_by structural ss => ss

end

mutual

def isWhole : Statement → Bool
  | .expression _ e => e.isWhole
  | .letDecl _ _ _ _ initial => optionalWhole initial
  | .fnDecl _ _ _ _ body => listWhole body
  | .block _ body => listWhole body
  | .branch _ condition body otherwise =>
    let other := match otherwise with
      | some s => isWhole s
      | none => true
    condition.isWhole && isWhole body && other
  | .giveBack _ value => optionalWhole value
  | .hole _ => true
termination_by structural s => s

def listWhole : List Statement → Bool
  | [] => true
  | s :: rest => isWhole s && listWhole rest
termination_by structural ss => ss

end

end Statement

namespace SyntaxTree

def written (tree : SyntaxTree) : List String := Statement.listWritten tree.statements

def assigned (tree : SyntaxTree) : List String := Statement.listAssigned tree.statements

def functions (tree : SyntaxTree) : List (String × List String) :=
  Statement.listFunctions tree.statements

def isWhole (tree : SyntaxTree) : Bool := Statement.listWhole tree.statements

end SyntaxTree

mutual

theorem Statement.assigned_subset_written : (s : Statement) → s.assigned ⊆ s.written
  | .expression _ _ | .letDecl _ _ _ _ _ | .giveBack _ _ | .hole _ => List.Subset.refl _
  | .fnDecl _ name parameters _ body => by
    intro x hx
    have hbody := Statement.listAssigned_subset_written body hx
    exact List.mem_cons_of_mem _ (List.mem_append_right _ hbody)
  | .block _ body => Statement.listAssigned_subset_written body
  | .branch _ condition body none => by
    intro x hx
    simp only [Statement.assigned, List.append_nil, List.mem_append] at hx
    simp only [Statement.written, List.append_nil, List.mem_append]
    exact hx.imp_right fun hbody => Statement.assigned_subset_written body hbody
  | .branch _ condition body (some other) => by
    intro x hx
    simp only [Statement.assigned, List.mem_append] at hx
    simp only [Statement.written, List.mem_append]
    exact hx.imp (fun hfirst => hfirst.imp_right fun hbody =>
      Statement.assigned_subset_written body hbody) fun hother =>
        Statement.assigned_subset_written other hother
termination_by structural s => s

theorem Statement.listAssigned_subset_written : (ss : List Statement) →
    Statement.listAssigned ss ⊆ Statement.listWritten ss
  | [] => List.Subset.refl _
  | s :: rest => by
    intro x hx
    simp only [Statement.listAssigned, List.mem_append] at hx
    simp only [Statement.listWritten, List.mem_append]
    exact hx.imp (fun hfirst => Statement.assigned_subset_written s hfirst) fun hrest =>
      Statement.listAssigned_subset_written rest hrest
termination_by structural ss => ss

end

mutual

theorem Statement.mem_written_of_functions {f : String × List String} {x : String}
    (hx : x = f.1 ∨ x ∈ f.2) : (s : Statement) → f ∈ s.functions → x ∈ s.written
  | .expression _ _, h | .letDecl _ _ _ _ _, h | .giveBack _ _, h | .hole _, h => by
    simp [Statement.functions] at h
  | .fnDecl _ name parameters _ body, h => by
    simp only [Statement.functions, List.mem_cons] at h
    simp only [Statement.written, List.cons_append, List.mem_cons, List.mem_append]
    obtain rfl | hbody := h
    · exact hx.imp_right .inl
    · exact .inr (.inr (Statement.mem_listWritten_of_functions hx body hbody))
  | .block _ body, h => Statement.mem_listWritten_of_functions hx body h
  | .branch _ condition body none, h => by
    simp only [Statement.functions, List.append_nil] at h
    simp only [Statement.written, List.append_nil, List.mem_append]
    exact .inr (Statement.mem_written_of_functions hx body h)
  | .branch _ condition body (some other), h => by
    simp only [Statement.functions, List.mem_append] at h
    simp only [Statement.written, List.mem_append]
    obtain hbody | hother := h
    · exact .inl (.inr (Statement.mem_written_of_functions hx body hbody))
    · exact .inr (Statement.mem_written_of_functions hx other hother)
termination_by structural s => s

theorem Statement.mem_listWritten_of_functions {f : String × List String} {x : String}
    (hx : x = f.1 ∨ x ∈ f.2) : (ss : List Statement) → f ∈ Statement.listFunctions ss →
    x ∈ Statement.listWritten ss
  | [], h => by simp [Statement.listFunctions] at h
  | s :: rest, h => by
    simp only [Statement.listFunctions, List.mem_append] at h
    simp only [Statement.listWritten, List.mem_append]
    obtain hfirst | hrest := h
    · exact .inl (Statement.mem_written_of_functions hx s hfirst)
    · exact .inr (Statement.mem_listWritten_of_functions hx rest hrest)
termination_by structural ss => ss

end

mutual

def Expression.parts : Expression → List Expression
  | .literal node value => [.literal node value]
  | .name node text => [.name node text]
  | .paren node inner => .paren node inner :: inner.parts
  | .unary node operator operand => .unary node operator operand :: operand.parts
  | .binary node operator left right =>
    .binary node operator left right :: (left.parts ++ right.parts)
  | .assign node operator target value =>
    .assign node operator target value :: (target.parts ++ value.parts)
  | .object node properties => .object node properties :: Expression.entriesParts properties
  | .call node callee arguments =>
    .call node callee arguments :: (callee.parts ++ Expression.listParts arguments)
  | .member node inner label => .member node inner label :: inner.parts
  | .element node inner index => .element node inner index :: (inner.parts ++ index.parts)
  | .hole node => [.hole node]
termination_by structural e => e

def Expression.listParts : List Expression → List Expression
  | [] => []
  | e :: rest => e.parts ++ Expression.listParts rest
termination_by structural es => es

def Expression.entriesParts : List (Expression × Expression) → List Expression
  | [] => []
  | (key, value) :: rest => key.parts ++ value.parts ++ Expression.entriesParts rest
termination_by structural entries => entries

end

def Statement.optionalParts : Option Expression → List Expression
  | some e => e.parts
  | none => []

mutual

def Statement.parts : Statement → List Expression
  | .expression _ e => e.parts
  | .letDecl _ _ _ _ initial => Statement.optionalParts initial
  | .fnDecl _ _ _ _ body => Statement.listParts body
  | .block _ body => Statement.listParts body
  | .branch _ condition body otherwise =>
    let other := match otherwise with
      | some s => s.parts
      | none => []
    condition.parts ++ body.parts ++ other
  | .giveBack _ value => Statement.optionalParts value
  | .hole _ => []
termination_by structural s => s

def Statement.listParts : List Statement → List Expression
  | [] => []
  | s :: rest => s.parts ++ Statement.listParts rest
termination_by structural ss => ss

end

def SyntaxTree.expressions (tree : SyntaxTree) : List Expression :=
  Statement.listParts tree.statements

end StackScript
