import StackScript.Code.Generate
import StackScript.Proofs.Tree.Likeness

set_option autoImplicit false

/-!
# Code without places

The code of a program depends on the numbers of its nodes only in that binding recorded things under
them, and on places only in the origins of instructions. So trees of the same form, for whose nodes
the same was recorded, have code that differs in origins alone, and they have gaps at the same nodes.
-/
namespace StackScript

mutual

def Instruction.bare : Instruction → Instruction
  | .mk opcode none _ => .mk opcode none default
  | .mk opcode (some operand) _ => .mk opcode (some operand.bare) default
termination_by structural instruction => instruction

def Operand.bare : Operand → Operand
  | .value value => .value value
  | .index target => .index target
  | .entries entries => .entries (Code.bareEntries entries)
  | .call count parameters => .call count parameters
  | .proc name parameters body => .proc name parameters (Code.bare body)
  | .flag keep => .flag keep
termination_by structural operand => operand

/-- The same instructions, here and inside their operands, from nowhere. -/
def Code.bare : List Instruction → List Instruction
  | [] => []
  | instruction :: rest => instruction.bare :: Code.bare rest
termination_by structural code => code

def Code.bareEntry : List Instruction × List Instruction → List Instruction × List Instruction
  | (key, value) => (Code.bare key, Code.bare value)
termination_by structural entry => entry

def Code.bareEntries :
    List (List Instruction × List Instruction) → List (List Instruction × List Instruction)
  | [] => []
  | entry :: rest => Code.bareEntry entry :: Code.bareEntries rest
termination_by structural entries => entries

end

namespace Code

theorem bare_append (first second : Code) : bare (first ++ second) = bare first ++ bare second := by
  induction first with
  | nil => rfl
  | cons instruction rest ih => exact congrArg (instruction.bare :: ·) ih

theorem length_bare (code : Code) : (bare code).length = code.length := by
  induction code with
  | nil => rfl
  | cons instruction rest ih => exact congrArg (· + 1) ih

theorem length_eq_of_bare {code code' : Code} (h : bare code = bare code') :
    code.length = code'.length := by
  rw [← length_bare code, h, length_bare]

theorem bare_append_of_bare {first first' second second' : Code} (h : bare first = bare first')
    (h' : bare second = bare second') : bare (first ++ second) = bare (first' ++ second') := by
  rw [bare_append, bare_append, h, h']

theorem bare_plain (opcodes : List Opcode) (origin origin' : Span) :
    bare (opcodes.map (.plain · origin)) = bare (opcodes.map (.plain · origin')) := by
  induction opcodes with
  | nil => rfl
  | cons opcode rest ih => exact congrArg (Instruction.mk opcode none default :: ·) ih

end Code

theorem Parameter.texts_of_bare {parameters parameters' : List Parameter}
    (h : parameters.map Parameter.bare = parameters'.map Parameter.bare) :
    parameters.map (·.name.text) = parameters'.map (·.name.text) := by
  have htexts := congrArg (List.map (·.name.text)) h
  rw [List.map_map, List.map_map] at htexts
  exact htexts

def BoundTree.Agrees (bound bound' : BoundTree) (id id' : Nat) : Prop :=
  bound.node? id = bound'.node? id'

namespace Generate

open Code (bare)

variable {bound bound' : BoundTree}

theorem operation?_of_agrees {node node' : Node} (h : bound.Agrees bound' node.id node'.id) :
    bound.operation? node = bound'.operation? node' := by
  rw [BoundTree.operation?, BoundTree.operation?, h]

theorem parameters_of_agrees {node node' : Node} (h : bound.Agrees bound' node.id node'.id) :
    bound.parameters node = bound'.parameters node' := by
  rw [BoundTree.parameters, BoundTree.parameters, h]

theorem bare_stepOf {same : Nat → Nat → Prop} {operand operand' : Expression}
    (h : operand.Like same operand') (origin origin' : Span) (apply undo : Opcode) :
    bare (stepOf operand origin apply undo) = bare (stepOf operand' origin' apply undo) := by
  cases h <;> rfl

theorem bare_ofLiteral (value : Literal) (origin origin' : Span) :
    bare (ofLiteral value origin) = bare (ofLiteral value origin') := by
  cases value <;> rfl

mutual

theorem bare_ofExpression : (e : Expression) → ∀ {e' : Expression},
    e.Like (bound.Agrees bound') e' → bare (ofExpression bound e) = bare (ofExpression bound' e')
  | .literal _ value, _, .literal _ => bare_ofLiteral value _ _
  | .name _ _, _, .name _ => rfl
  | .paren _ inner, _, .paren _ inside => by
    have hinner := bare_ofExpression inner inside
    exact hinner
  | .unary _ operator operand, _, .unary _ inside => by
    have hoperand := bare_ofExpression operand inside
    cases operator with
    | increment | decrement => exact bare_stepOf inside _ _ _ _
    | _ => exact Code.bare_append_of_bare hoperand rfl
  | .binary _ _ left right, _, .binary number first second => by
    simp only [ofExpression, operation?_of_agrees number]
    cases bound'.operation? _ with
    | none => rfl
    | some operation =>
      exact Code.bare_append_of_bare
        (Code.bare_append_of_bare (bare_ofExpression left first) (bare_ofExpression right second))
        (Code.bare_plain _ _ _)
  | .assign _ operator _ value, _, .assign number first second => by
    have hvalue := bare_ofExpression value second
    cases first with
    | name _ =>
      cases operator with
      | none =>
        refine congrArg (Instruction.mk .push _ default :: ·) ?_
        exact Code.bare_append_of_bare hvalue rfl
      | some _ =>
        simp only [ofExpression, operation?_of_agrees number]
        cases bound'.operation? _ with
        | none => rfl
        | some operation =>
          refine Code.bare_append_of_bare (Code.bare_append_of_bare ?_ (Code.bare_plain _ _ _)) rfl
          exact Code.bare_append_of_bare rfl hvalue
    | _ => rfl
  | .object _ properties, _, .object _ inside => by
    have hproperties := bare_ofProperties properties inside
    exact congrArg (fun entries => [Instruction.mk .pushObject (some (.entries entries)) default])
      hproperties
  | .call _ callee arguments, _, .call number first others => by
    have harguments := bare_ofExpressions arguments others
    simp only [ofExpression, parameters_of_agrees number, Code.length_eq_of_bare harguments]
    refine Code.bare_append_of_bare (bare_ofExpression callee first) ?_
    exact congrArg (Instruction.mk .call _ default :: ·) harguments
  | .member _ inner _, _, .member _ inside text => by
    simp only [ofExpression, text]
    exact Code.bare_append_of_bare (bare_ofExpression inner inside) rfl
  | .element _ inner index, _, .element _ first second =>
    Code.bare_append_of_bare
      (Code.bare_append_of_bare (bare_ofExpression inner first) (bare_ofExpression index second)) rfl
  | .hole _, _, .hole _ => rfl
termination_by structural e => e

theorem bare_ofExpressions : (es : List Expression) → ∀ {es' : List Expression},
    Expression.ListLike (bound.Agrees bound') es es' →
    bare (ofExpressions bound es) = bare (ofExpressions bound' es')
  | [], _, .nil => rfl
  | e :: rest, _, .cons head tail =>
    Code.bare_append_of_bare (bare_ofExpression e head) (bare_ofExpressions rest tail)
termination_by structural es => es

theorem bare_ofProperties : (properties : List (Expression × Expression)) →
    ∀ {properties' : List (Expression × Expression)},
      Expression.EntriesLike (bound.Agrees bound') properties properties' →
      Code.bareEntries (ofProperties bound properties) =
        Code.bareEntries (ofProperties bound' properties')
  | [], _, .nil => rfl
  | (key, value) :: rest, _, .cons first second tail => by
    have hkey := bare_ofExpression key first
    have hvalue := bare_ofExpression value second
    have hrest := bare_ofProperties rest tail
    cases first with
    | name _ =>
      simp only [ofProperties, Code.bareEntries, Code.bareEntry, hvalue, hrest]
      rfl
    | _ => simp only [ofProperties, Code.bareEntries, Code.bareEntry, hkey, hvalue, hrest]
termination_by structural properties => properties

end

theorem bare_ofOptional {value value' : Option Expression}
    (h : Statement.OptionalLike (bound.Agrees bound') value value') (origin origin' : Span) :
    bare (ofOptional bound value origin) = bare (ofOptional bound' value' origin') := by
  cases h with
  | none => rfl
  | some inside => exact bare_ofExpression _ inside

theorem bare_branch {test test' other other' taken taken' : Code} (start stop : Nat)
    (htest : bare test = bare test') (hother : bare other = bare other')
    (htaken : bare taken = bare taken') (origin origin' : Span) :
    bare (test ++ .jump .jnz start origin :: other ++ .jump .jmp stop origin :: taken) =
      bare (test' ++ .jump .jnz start origin' :: other' ++ .jump .jmp stop origin' :: taken') := by
  refine Code.bare_append_of_bare (Code.bare_append_of_bare htest ?_) ?_
  · exact congrArg (Instruction.mk .jnz (some (.index start)) default :: ·) hother
  · exact congrArg (Instruction.mk .jmp (some (.index stop)) default :: ·) htaken

mutual

theorem bare_ofStatement : (s : Statement) → ∀ {s' : Statement} (base : Nat),
    s.Like (bound.Agrees bound') s' →
    bare (ofStatement bound base s) = bare (ofStatement bound' base s')
  | .expression _ e, _, _, .expression _ inside => by
    have he := bare_ofExpression e inside
    exact he
  | .letDecl _ _ _ _ _, _, _, .letDecl _ text _ inside => by
    simp only [ofStatement, text]
    refine congrArg (Instruction.mk .push _ default :: ·) ?_
    exact Code.bare_append_of_bare (bare_ofOptional inside _ _) rfl
  | .fnDecl _ _ _ _ body, _, _, .fnDecl _ text taken _ inside => by
    have hbody := bare_ofStatements body 0 inside
    simp only [ofStatement, text, Parameter.texts_of_bare taken, bare, Instruction.bare, Operand.bare,
      Code.bare_append, hbody]
    rfl
  | .block _ body, _, base, .block _ inside => by
    refine congrArg (Instruction.mk .beginScope none default :: ·) ?_
    exact Code.bare_append_of_bare (bare_ofStatements body (base + 1) inside) rfl
  | .branch _ condition body none, _, base, .branch _ tested taken => by
    have htest := bare_ofExpression condition tested
    have htaken := bare_ofStatement body
      (base + (ofExpression bound condition).length + 1 + ([] : Code).length + 1) taken
    simp only [ofStatement, ← Code.length_eq_of_bare htest, ← Code.length_eq_of_bare htaken]
    exact bare_branch _ _ htest rfl htaken _ _
  | .branch _ condition body (some other), _, base, .branchElse _ tested taken otherwise => by
    have htest := bare_ofExpression condition tested
    have hother := bare_ofStatement other (base + (ofExpression bound condition).length + 1)
      otherwise
    have htaken := bare_ofStatement body (base + (ofExpression bound condition).length + 1 +
      (ofStatement bound (base + (ofExpression bound condition).length + 1) other).length + 1) taken
    simp only [ofStatement, ← Code.length_eq_of_bare htest, ← Code.length_eq_of_bare hother,
      ← Code.length_eq_of_bare htaken]
    exact bare_branch _ _ htest hother htaken _ _
  | .giveBack _ _, _, _, .giveBack _ inside =>
    Code.bare_append_of_bare (bare_ofOptional inside _ _) rfl
  | .hole _, _, _, .hole _ => rfl
termination_by structural s => s

theorem bare_ofStatements : (ss : List Statement) → ∀ {ss' : List Statement} (base : Nat),
    Statement.ListLike (bound.Agrees bound') ss ss' →
    bare (ofStatements bound base ss) = bare (ofStatements bound' base ss')
  | [], _, _, .nil => rfl
  | s :: rest, _, base, .cons head tail => by
    have hfirst := bare_ofStatement s base head
    simp only [ofStatements, Code.length_eq_of_bare hfirst]
    exact Code.bare_append_of_bare hfirst (bare_ofStatements rest _ tail)
termination_by structural ss => ss

end

theorem stepGaps_of_like {same : Nat → Nat → Prop} {operand operand' : Expression}
    (h : operand.Like same operand') {origin origin' : Span} (hgaps : stepGaps operand origin = []) :
    stepGaps operand' origin' = [] := by
  cases h with
  | name _ => rfl
  | _ => cases hgaps

mutual

theorem gaps_of_like : (e : Expression) → ∀ {e' : Expression},
    e.Like (bound.Agrees bound') e' → gaps bound e = [] → gaps bound' e' = []
  | .literal _ _, _, .literal _, _ => rfl
  | .name _ _, _, .name _, _ => rfl
  | .paren _ inner, _, .paren _ inside, h => by
    have hinner := gaps_of_like inner inside h
    exact hinner
  | .unary _ operator operand, _, .unary _ inside, h => by
    have hoperand := gaps_of_like operand inside
    cases operator with
    | increment | decrement => exact stepGaps_of_like inside h
    | _ => exact hoperand h
  | .binary _ _ left right, _, .binary number first second, h => by
    simp only [gaps, operation?_of_agrees number] at h ⊢
    cases hoperation : bound'.operation? _ with
    | none =>
      rw [hoperation] at h
      cases h
    | some operation =>
      rw [hoperation] at h
      obtain ⟨hleft, hright⟩ := List.append_eq_nil_iff.mp h
      exact List.append_eq_nil_iff.mpr
        ⟨gaps_of_like left first hleft, gaps_of_like right second hright⟩
  | .assign _ operator _ value, _, .assign number first second, h => by
    have hvalue := gaps_of_like value second
    cases first with
    | name _ =>
      simp only [gaps, operation?_of_agrees number] at h ⊢
      split at h
      · cases h
      · exact hvalue h
    | _ => cases h
  | .object _ properties, _, .object _ inside, h => propertyGaps_of_like properties inside h
  | .call _ callee arguments, _, .call _ first others, h => by
    obtain ⟨hcallee, harguments⟩ := List.append_eq_nil_iff.mp h
    exact List.append_eq_nil_iff.mpr
      ⟨gaps_of_like callee first hcallee, listGaps_of_like arguments others harguments⟩
  | .member _ inner _, _, .member _ inside _, h => by
    have hinner := gaps_of_like inner inside h
    exact hinner
  | .element _ inner index, _, .element _ first second, h => by
    obtain ⟨hinner, hindex⟩ := List.append_eq_nil_iff.mp h
    exact List.append_eq_nil_iff.mpr
      ⟨gaps_of_like inner first hinner, gaps_of_like index second hindex⟩
  | .hole _, _, .hole _, _ => rfl
termination_by structural e => e

theorem listGaps_of_like : (es : List Expression) → ∀ {es' : List Expression},
    Expression.ListLike (bound.Agrees bound') es es' → listGaps bound es = [] →
    listGaps bound' es' = []
  | [], _, .nil, _ => rfl
  | e :: rest, _, .cons head tail, h => by
    obtain ⟨hfirst, hrest⟩ := List.append_eq_nil_iff.mp h
    exact List.append_eq_nil_iff.mpr
      ⟨gaps_of_like e head hfirst, listGaps_of_like rest tail hrest⟩
termination_by structural es => es

theorem propertyGaps_of_like : (properties : List (Expression × Expression)) →
    ∀ {properties' : List (Expression × Expression)},
      Expression.EntriesLike (bound.Agrees bound') properties properties' →
      propertyGaps bound properties = [] → propertyGaps bound' properties' = []
  | [], _, .nil, _ => rfl
  | (key, value) :: rest, _, .cons first second tail, h => by
    obtain ⟨hentry, hrest⟩ := List.append_eq_nil_iff.mp h
    obtain ⟨hkey, hvalue⟩ := List.append_eq_nil_iff.mp hentry
    exact List.append_eq_nil_iff.mpr ⟨List.append_eq_nil_iff.mpr
      ⟨gaps_of_like key first hkey, gaps_of_like value second hvalue⟩,
      propertyGaps_of_like rest tail hrest⟩
termination_by structural properties => properties

end

theorem optionalGaps_of_like {value value' : Option Expression}
    (h : Statement.OptionalLike (bound.Agrees bound') value value')
    (hgaps : optionalGaps bound value = []) : optionalGaps bound' value' = [] := by
  cases h with
  | none => rfl
  | some inside => exact gaps_of_like _ inside hgaps

mutual

theorem statementGaps_of_like : (s : Statement) → ∀ {s' : Statement},
    s.Like (bound.Agrees bound') s' → statementGaps bound s = [] → statementGaps bound' s' = []
  | .expression _ e, _, .expression _ inside, h => gaps_of_like e inside h
  | .letDecl _ _ _ _ _, _, .letDecl _ _ _ inside, h => optionalGaps_of_like inside h
  | .fnDecl _ _ _ _ body, _, .fnDecl _ _ _ _ inside, h => statementsGaps_of_like body inside h
  | .block _ body, _, .block _ inside, h => statementsGaps_of_like body inside h
  | .branch _ condition body none, _, .branch _ tested taken, h => by
    obtain ⟨hfront, hbody⟩ := List.append_eq_nil_iff.mp h
    obtain ⟨hcondition, -⟩ := List.append_eq_nil_iff.mp hfront
    exact List.append_eq_nil_iff.mpr ⟨List.append_eq_nil_iff.mpr
      ⟨gaps_of_like condition tested hcondition, rfl⟩, statementGaps_of_like body taken hbody⟩
  | .branch _ condition body (some other), _, .branchElse _ tested taken otherwise, h => by
    obtain ⟨hfront, hbody⟩ := List.append_eq_nil_iff.mp h
    obtain ⟨hcondition, hother⟩ := List.append_eq_nil_iff.mp hfront
    exact List.append_eq_nil_iff.mpr ⟨List.append_eq_nil_iff.mpr
      ⟨gaps_of_like condition tested hcondition, statementGaps_of_like other otherwise hother⟩,
      statementGaps_of_like body taken hbody⟩
  | .giveBack _ _, _, .giveBack _ inside, h => optionalGaps_of_like inside h
  | .hole _, _, .hole _, _ => rfl
termination_by structural s => s

theorem statementsGaps_of_like : (ss : List Statement) → ∀ {ss' : List Statement},
    Statement.ListLike (bound.Agrees bound') ss ss' → statementsGaps bound ss = [] →
    statementsGaps bound' ss' = []
  | [], _, .nil, _ => rfl
  | s :: rest, _, .cons head tail, h => by
    obtain ⟨hfirst, hrest⟩ := List.append_eq_nil_iff.mp h
    exact List.append_eq_nil_iff.mpr
      ⟨statementGaps_of_like s head hfirst, statementsGaps_of_like rest tail hrest⟩
termination_by structural ss => ss

end

end Generate

end StackScript
