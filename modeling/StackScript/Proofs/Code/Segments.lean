import StackScript.Proofs.Code.Parts

set_option autoImplicit false

/-!
# Segments of code

A segment is a piece of code that can stand between other pieces: its jumps lead forward, at most to
the instruction behind it, its scopes are closed at its end, and what a call takes as arguments lies
in it. Segments can be put one after the other, between the two ends of a scope, and behind a jump
that leads over some of them. That is all that is ever done with them.
-/
namespace StackScript

def Instruction.isStraight (instruction : Instruction) : Bool :=
  !(instruction.opcode.isJump || instruction.opcode == .beginScope ||
    instruction.opcode == .endScope)

namespace Code

def isStraight (code : Code) : Bool := code.all (·.isStraight)

def JumpAt (code : Code) (i t : Nat) : Prop :=
  ∃ j : Instruction, code[i]? = some j ∧ j.opcode.isJump = true ∧ j.target? = some t

/-- A call stands at index `i`, and the `n` instructions behind it are its arguments. -/
def CallAt (code : Code) (i n : Nat) : Prop :=
  ∃ (j : Instruction) (names : List String), code[i]? = some j ∧ j.opcode = .call ∧
    j.operand = some (.call n names)

theorem getElem?_append_cases {first second : Code} {i : Nat} {j : Instruction}
    (h : (first ++ second)[i]? = some j) :
    (i < first.length ∧ first[i]? = some j) ∨
      ∃ k, i = first.length + k ∧ second[k]? = some j := by
  by_cases hi : i < first.length
  · rw [List.getElem?_append_left hi] at h
    exact .inl ⟨hi, h⟩
  · rw [List.getElem?_append_right (Nat.le_of_not_lt hi)] at h
    exact .inr ⟨i - first.length, by omega, h⟩

theorem lt_length_of_getElem? {code : Code} {i : Nat} {j : Instruction} (h : code[i]? = some j) :
    i < code.length :=
  (List.getElem?_eq_some_iff.mp h).1

/-- The arguments of a call lie in the code and in the arguments of every call around it, and they
are straight. -/
structure Regions (code : Code) : Prop where
  counted : ∀ ⦃i j⦄, code[i]? = some j → j.opcode = .call → ∃ n, code.CallAt i n
  inside : ∀ ⦃i n⦄, code.CallAt i n → i + n < code.length
  straight : ∀ ⦃i n⦄, code.CallAt i n → ∀ ⦃k j⦄, i < k → k ≤ i + n → code[k]? = some j →
    j.isStraight = true
  nested : ∀ ⦃i n⦄, code.CallAt i n → ∀ ⦃k m⦄, code.CallAt k m → k < i → i ≤ k + m → i + n ≤ k + m

theorem callAt_append_cases {first second : Code} {i n : Nat} (h : (first ++ second).CallAt i n) :
    (i < first.length ∧ first.CallAt i n) ∨ ∃ k, i = first.length + k ∧ second.CallAt k n := by
  obtain ⟨j, names, hj, hcall⟩ := h
  rcases getElem?_append_cases hj with ⟨hi, hj⟩ | ⟨k, hi, hj⟩
  · exact .inl ⟨hi, j, names, hj, hcall⟩
  · exact .inr ⟨k, hi, j, names, hj, hcall⟩

theorem callAt_append_left {first : Code} {i n : Nat} (h : first.CallAt i n) (second : Code) :
    (first ++ second).CallAt i n := by
  obtain ⟨j, names, hj, hcall⟩ := h
  refine ⟨j, names, ?_, hcall⟩
  rw [List.getElem?_append_left (lt_length_of_getElem? hj)]
  exact hj

theorem callAt_append_right {second : Code} {i n : Nat} (h : second.CallAt i n) (first : Code) :
    (first ++ second).CallAt (first.length + i) n := by
  obtain ⟨j, names, hj, hcall⟩ := h
  refine ⟨j, names, ?_, hcall⟩
  rw [List.getElem?_append_right (Nat.le_add_right _ _), Nat.add_sub_cancel_left]
  exact hj

theorem Regions.append {first second : Code} (h : first.Regions) (h' : second.Regions) :
    Regions (first ++ second) where
  counted i j hj hcall := by
    rcases getElem?_append_cases hj with ⟨-, hfirst⟩ | ⟨k, rfl, hsecond⟩
    · obtain ⟨n, hn⟩ := h.counted hfirst hcall
      exact ⟨n, callAt_append_left hn second⟩
    · obtain ⟨n, hn⟩ := h'.counted hsecond hcall
      exact ⟨n, callAt_append_right hn first⟩
  inside i n hcall := by
    rw [List.length_append]
    rcases callAt_append_cases hcall with ⟨-, hfirst⟩ | ⟨k, rfl, hsecond⟩
    · have hinside := h.inside hfirst
      omega
    · have hinside := h'.inside hsecond
      omega
  straight i n hcall k j hk hk' hj := by
    rcases callAt_append_cases hcall with ⟨-, hfirst⟩ | ⟨i, rfl, hsecond⟩
    · have hinside := h.inside hfirst
      rw [List.getElem?_append_left (by omega)] at hj
      exact h.straight hfirst hk hk' hj
    · rw [List.getElem?_append_right (by omega)] at hj
      exact h'.straight hsecond (by omega) (by omega) hj
  nested i n hcall k m hother hk hm := by
    rcases callAt_append_cases hother with ⟨-, hfirst'⟩ | ⟨k, rfl, hsecond'⟩
    · have hinside := h.inside hfirst'
      rcases callAt_append_cases hcall with ⟨-, hfirst⟩ | ⟨i, rfl, hsecond⟩
      · exact h.nested hfirst hfirst' hk hm
      · omega
    · rcases callAt_append_cases hcall with ⟨hi, -⟩ | ⟨i, rfl, hsecond⟩
      · omega
      · have hnested := h'.nested hsecond hsecond' (by omega) (by omega)
        omega

theorem not_callAt_of_no_call {code : Code} (h : ∀ j ∈ code, j.opcode ≠ .call) {i n : Nat} :
    ¬ code.CallAt i n := by
  rintro ⟨j, names, hj, hcall, -⟩
  exact h j (List.mem_of_getElem? hj) hcall

theorem regions_of_no_call {code : Code} (h : ∀ j ∈ code, j.opcode ≠ .call) : code.Regions where
  counted _ _ hj hcall := absurd hcall (h _ (List.mem_of_getElem? hj))
  inside _ _ hcall := absurd hcall (not_callAt_of_no_call h)
  straight _ _ hcall := absurd hcall (not_callAt_of_no_call h)
  nested _ _ hcall := absurd hcall (not_callAt_of_no_call h)

theorem regions_singleton {instruction : Instruction} (h : instruction.opcode ≠ .call) :
    Regions [instruction] :=
  regions_of_no_call fun _ hj => List.mem_singleton.mp hj ▸ h

theorem Regions.call {arguments : Code} (h : arguments.Regions)
    (hstraight : arguments.isStraight = true) (names : List String) (origin : Span) :
    Regions (.mk .call (some (.call arguments.length names)) origin :: arguments) := by
  have hcases : ∀ {i n}, CallAt (.mk .call (some (.call arguments.length names)) origin ::
      arguments) i n → (i = 0 ∧ n = arguments.length) ∨ ∃ k, i = k + 1 ∧ arguments.CallAt k n := by
    rintro i n ⟨j, others, hj, hcall⟩
    cases i with
    | zero =>
      obtain rfl := Option.some.inj hj
      cases hcall.2
      exact .inl ⟨rfl, rfl⟩
    | succ k => exact .inr ⟨k, rfl, j, others, hj, hcall⟩
  have hlater : ∀ {i n}, arguments.CallAt i n → CallAt (.mk .call (some (.call arguments.length
      names)) origin :: arguments) (i + 1) n := by
    rintro i n ⟨j, others, hj, hcall⟩
    exact ⟨j, others, hj, hcall⟩
  refine ⟨fun i j hj hcall => ?_, fun i n hcall => ?_, fun i n hcall k j hk hk' hj => ?_,
    fun i n hcall k m hother hk hm => ?_⟩
  · cases i with
    | zero => exact ⟨arguments.length, _, names, rfl, rfl, rfl⟩
    | succ i =>
      obtain ⟨n, hn⟩ := h.counted hj hcall
      exact ⟨n, hlater hn⟩
  · rw [List.length_cons]
    rcases hcases hcall with ⟨rfl, rfl⟩ | ⟨k, rfl, hcall⟩
    · omega
    · have hinside := h.inside hcall
      omega
  · cases k with
    | zero => omega
    | succ k => exact List.all_eq_true.mp hstraight j (List.mem_of_getElem? hj)
  · rcases hcases hcall with ⟨rfl, rfl⟩ | ⟨i, rfl, hcall⟩
    · omega
    · have hinside := h.inside hcall
      rcases hcases hother with ⟨rfl, rfl⟩ | ⟨k, rfl, hother⟩
      · omega
      · have hnested := h.nested hcall hother (by omega) (by omega)
        omega

def scopesAfter : Opcode → Nat → Option Nat
  | .beginScope, depth => some (depth + 1)
  | .endScope, depth + 1 => some depth
  | .endScope, 0 => none
  | _, depth => some depth

/-- The number of open scopes behind the code, if it ends none that is not open. -/
def openScopes : Nat → Code → Option Nat
  | depth, [] => some depth
  | depth, instruction :: rest =>
    (scopesAfter instruction.opcode depth).bind fun depth => openScopes depth rest

theorem openScopes_append (depth : Nat) (first second : Code) :
    openScopes depth (first ++ second) =
      (openScopes depth first).bind fun depth => openScopes depth second := by
  induction first generalizing depth with
  | nil => rfl
  | cons instruction rest ih =>
    simp only [List.cons_append, openScopes, Option.bind_assoc]
    congr 1
    funext depth
    exact ih depth

theorem scopesAfter_add {opcode : Opcode} {depth after : Nat} (more : Nat)
    (h : scopesAfter opcode depth = some after) :
    scopesAfter opcode (depth + more) = some (after + more) := by
  cases opcode with
  | beginScope => cases h; simp only [scopesAfter]; congr 1; omega
  | endScope =>
    cases depth with
    | zero => cases h
    | succ depth => cases h; rw [Nat.succ_add]; rfl
  | _ => cases h; rfl

theorem openScopes_add {code : Code} {depth after : Nat} (more : Nat)
    (h : openScopes depth code = some after) :
    openScopes (depth + more) code = some (after + more) := by
  induction code generalizing depth with
  | nil => cases h; rfl
  | cons instruction rest ih =>
    obtain ⟨middle, hfirst, hrest⟩ := Option.bind_eq_some_iff.mp h
    rw [openScopes, scopesAfter_add more hfirst]
    exact ih hrest

theorem scopesAfter_of_isStraight {instruction : Instruction} (h : instruction.isStraight = true)
    (depth : Nat) : scopesAfter instruction.opcode depth = some depth := by
  unfold Instruction.isStraight at h
  generalize instruction.opcode = opcode at h ⊢
  cases opcode <;> first | rfl | cases h

theorem openScopes_of_isStraight {code : Code} (h : code.isStraight = true) (depth : Nat) :
    openScopes depth code = some depth := by
  induction code with
  | nil => rfl
  | cons instruction rest ih =>
    obtain ⟨hfirst, hrest⟩ := List.forall_mem_cons.mp (List.all_eq_true.mp h)
    rw [openScopes, scopesAfter_of_isStraight hfirst]
    exact ih (List.all_eq_true.mpr hrest)

/-- The scope that begins at index `b` ends at index `e`. -/
def ScopeAt (code : Code) (b e : Nat) : Prop :=
  ∃ (before : Code) (opening : Instruction) (inner : Code) (closing : Instruction) (after : Code),
    code = before ++ opening :: (inner ++ closing :: after) ∧ opening.opcode = .beginScope ∧
      closing.opcode = .endScope ∧ openScopes 0 inner = some 0 ∧ b = before.length ∧
      e = before.length + 1 + inner.length

theorem ScopeAt.lt_length {code : Code} {b e : Nat} (h : code.ScopeAt b e) :
    b < e ∧ e < code.length := by
  obtain ⟨before, opening, inner, closing, after, rfl, -, -, -, rfl, rfl⟩ := h
  simp only [List.length_append, List.length_cons]
  omega

theorem openScopes_ne_of_begun {before inner : Code} {opening : Instruction} {depth : Nat}
    (hopening : opening.opcode = .beginScope) (hinner : openScopes 0 inner = some depth) :
    openScopes 0 (before ++ opening :: inner) ≠ some 0 := by
  intro h
  rw [openScopes_append] at h
  obtain ⟨outside, -, hrest⟩ := Option.bind_eq_some_iff.mp h
  rw [openScopes, hopening] at hrest
  have hadd := openScopes_add (outside + 1) hinner
  rw [Nat.zero_add] at hadd
  have hsame := Option.some.inj (hadd.symm.trans hrest)
  omega

theorem scopeAt_append_cases {first second : Code} (hfirst : openScopes 0 first = some 0)
    {b e : Nat} (h : ScopeAt (first ++ second) b e) :
    (e < first.length ∧ first.ScopeAt b e) ∨
      ∃ b' e', b = first.length + b' ∧ e = first.length + e' ∧ second.ScopeAt b' e' := by
  obtain ⟨before, opening, inner, closing, after, hcode, hopening, hclosing, hinner, rfl, rfl⟩ := h
  have hright : ∀ more, before = first ++ more →
      second = more ++ opening :: (inner ++ closing :: after) →
      ∃ b' e', before.length = first.length + b' ∧
        before.length + 1 + inner.length = first.length + e' ∧ second.ScopeAt b' e' := by
    rintro more rfl rfl
    refine ⟨more.length, more.length + 1 + inner.length, ?_, ?_, more, opening, inner, closing,
      after, rfl, hopening, hclosing, hinner, rfl, rfl⟩
    · rw [List.length_append]
    · rw [List.length_append]
      omega
  rcases List.append_eq_append_iff.mp hcode with ⟨more, hbefore, hsecond⟩ | ⟨rest, rfl, hrest⟩
  · exact .inr (hright more hbefore hsecond)
  · cases rest with
    | nil => exact .inr (hright [] (by simp) (by simpa using hrest.symm))
    | cons _ rest =>
      -- the scope begins in the first piece, so it ends there too
      obtain ⟨rfl, htail⟩ := List.cons.inj hrest
      rcases List.append_eq_append_iff.mp htail with ⟨more, rfl, hafter⟩ | ⟨more, rfl, -⟩
      · cases more with
        | nil =>
          rw [List.append_nil] at hfirst
          exact absurd hfirst (openScopes_ne_of_begun hopening hinner)
        | cons _ more =>
          obtain ⟨rfl, -⟩ := List.cons.inj hafter
          refine .inl ⟨?_, before, _, inner, _, more, rfl, hopening, hclosing, hinner, rfl, rfl⟩
          simp only [List.length_append, List.length_cons]
          omega
      · rw [openScopes_append] at hinner
        obtain ⟨depth, hdepth, -⟩ := Option.bind_eq_some_iff.mp hinner
        exact absurd hfirst (openScopes_ne_of_begun hopening hdepth)

theorem scopeAt_cons_cases {instruction : Instruction} {code : Code}
    (hplain : instruction.opcode ≠ .beginScope) {b e : Nat}
    (h : ScopeAt (instruction :: code) b e) :
    ∃ b' e', b = b' + 1 ∧ e = e' + 1 ∧ code.ScopeAt b' e' := by
  obtain ⟨before, opening, inner, closing, after, hcode, hopening, hclosing, hinner, rfl, rfl⟩ := h
  cases before with
  | nil =>
    obtain ⟨rfl, -⟩ := List.cons.inj hcode
    exact absurd hopening hplain
  | cons _ before =>
    obtain ⟨rfl, rfl⟩ := List.cons.inj hcode
    refine ⟨before.length, before.length + 1 + inner.length, rfl, ?_, before, opening, inner,
      closing, after, rfl, hopening, hclosing, hinner, rfl, rfl⟩
    rw [List.length_cons]
    omega

theorem scopeAt_block_cases {opening closing : Instruction} {body : Code}
    (hbody : openScopes 0 body = some 0) {b e : Nat}
    (h : ScopeAt (opening :: (body ++ [closing])) b e) :
    (b = 0 ∧ e = body.length + 1) ∨ ∃ b' e', b = b' + 1 ∧ e = e' + 1 ∧ body.ScopeAt b' e' := by
  obtain ⟨before, opening', inner, closing', after, hcode, hopening', hclosing', hinner, rfl,
    rfl⟩ := h
  cases before with
  | nil =>
    obtain ⟨rfl, htail⟩ := List.cons.inj hcode
    refine .inl ⟨rfl, ?_⟩
    rcases List.append_eq_append_iff.mp htail with ⟨more, rfl, hend⟩ | ⟨more, rfl, hend⟩
    · have hmore : more = [] := by
        have hlength := congrArg List.length hend
        simp only [List.length_append, List.length_cons, List.length_nil] at hlength
        exact List.eq_nil_of_length_eq_zero (by omega)
      simp [hmore, Nat.add_comm]
    · cases more with
      | nil => simp [Nat.add_comm]
      | cons _ more =>
        -- the body would end a scope that it has not begun
        obtain ⟨rfl, -⟩ := List.cons.inj hend
        rw [openScopes_append, hinner] at hbody
        simp [openScopes, hclosing', scopesAfter] at hbody
  | cons _ before =>
    obtain ⟨rfl, hrest⟩ := List.cons.inj hcode
    have hscope : ScopeAt (body ++ [closing]) before.length (before.length + 1 + inner.length) :=
      ⟨before, opening', inner, closing', after, hrest, hopening', hclosing', hinner, rfl, rfl⟩
    rcases scopeAt_append_cases hbody hscope with ⟨-, hin⟩ | ⟨b', e', -, -, hend⟩
    · refine .inr ⟨before.length, before.length + 1 + inner.length, rfl, ?_, hin⟩
      rw [List.length_cons]
      omega
    · have hlt := hend.lt_length
      rw [List.length_singleton] at hlt
      omega

theorem exists_closing {code : Code} {inside outside depth : Nat} (hdepth : depth ≤ outside)
    (h : openScopes (outside + 1 + inside) code = some depth) :
    ∃ (inner : Code) (closing : Instruction) (after : Code), code = inner ++ closing :: after ∧
      closing.opcode = .endScope ∧ openScopes inside inner = some 0 := by
  induction code generalizing inside with
  | nil =>
    have hsame := Option.some.inj h
    omega
  | cons instruction rest ih =>
    -- the scopes behind the instruction, with those outside and without them
    have hnext : ∀ next, scopesAfter instruction.opcode inside = some next →
        ∃ (inner : Code) (closing : Instruction) (after : Code),
          instruction :: rest = inner ++ closing :: after ∧ closing.opcode = .endScope ∧
            openScopes inside inner = some 0 := by
      intro next hinstruction
      have hall := scopesAfter_add (outside + 1) hinstruction
      rw [Nat.add_comm inside, Nat.add_comm next] at hall
      rw [openScopes, hall] at h
      obtain ⟨inner, closing, after, rfl, hclosing, hinner⟩ := ih h
      refine ⟨instruction :: inner, closing, after, rfl, hclosing, ?_⟩
      rw [openScopes, hinstruction]
      exact hinner
    cases hopcode : instruction.opcode with
    | endScope =>
      cases inside with
      | zero => exact ⟨[], instruction, rest, rfl, hopcode, rfl⟩
      | succ inside => exact hnext inside (by rw [hopcode]; rfl)
    | beginScope => exact hnext (inside + 1) (by rw [hopcode]; rfl)
    | _ => exact hnext inside (by rw [hopcode]; rfl)

theorem exists_scopeAt {code : Code} (h : openScopes 0 code = some 0) {b : Nat} {j : Instruction}
    (hj : code[b]? = some j) (hopening : j.opcode = .beginScope) : ∃ e, code.ScopeAt b e := by
  obtain ⟨hb, rfl⟩ := List.getElem?_eq_some_iff.mp hj
  have hcode : code = code.take b ++ code[b] :: code.drop (b + 1) := by simp
  rw [hcode, openScopes_append] at h
  obtain ⟨outside, -, hrest⟩ := Option.bind_eq_some_iff.mp h
  rw [openScopes, hopening] at hrest
  obtain ⟨inner, closing, after, hdrop, hclosing, hinner⟩ :=
    @exists_closing _ 0 outside 0 (Nat.zero_le _) hrest
  refine ⟨b + 1 + inner.length, code.take b, code[b], inner, closing, after, ?_, hopening, hclosing,
    hinner, ?_⟩
  · rw [← hdrop]
    exact hcode
  · rw [List.length_take, Nat.min_eq_left (Nat.le_of_lt hb)]
    exact ⟨rfl, rfl⟩

/-- Code that can stand from index `base` on between other code. -/
structure Segment (base : Nat) (code : Code) : Prop where
  jumps : ∀ ⦃i j⦄, code[i]? = some j → j.opcode.isJump = true →
    ∃ t, j.target? = some t ∧ base + i < t ∧ t ≤ base + code.length
  regions : code.Regions
  balanced : openScopes 0 code = some 0
  crossing : ∀ ⦃b e⦄, code.ScopeAt b e → ∀ ⦃i t⦄, code.JumpAt i t →
    (b < i ∧ i ≤ e ↔ base + b < t ∧ t ≤ base + e)

theorem jumpAt_append_cases {first second : Code} {i t : Nat} (h : (first ++ second).JumpAt i t) :
    (i < first.length ∧ first.JumpAt i t) ∨ ∃ k, i = first.length + k ∧ second.JumpAt k t := by
  obtain ⟨j, hj, hjump⟩ := h
  rcases getElem?_append_cases hj with ⟨hi, hfirst⟩ | ⟨k, hi, hsecond⟩
  · exact .inl ⟨hi, j, hfirst, hjump⟩
  · exact .inr ⟨k, hi, j, hsecond, hjump⟩

theorem Segment.lt_target {base : Nat} {code : Code} (h : Segment base code) {i t : Nat}
    (hjump : code.JumpAt i t) : base + i < t ∧ t ≤ base + code.length := by
  obtain ⟨j, hj, hop, htarget⟩ := hjump
  obtain ⟨t', htarget', hlt, hle⟩ := h.jumps hj hop
  obtain rfl := Option.some.inj (htarget.symm.trans htarget')
  exact ⟨hlt, hle⟩

theorem not_isJump_of_isStraight {code : Code} (h : code.isStraight = true) {i : Nat}
    {j : Instruction} (hj : code[i]? = some j) : j.opcode.isJump ≠ true := by
  have hstraight := List.all_eq_true.mp h j (List.mem_of_getElem? hj)
  intro hjump
  simp [Instruction.isStraight, hjump] at hstraight

theorem segment_of_isStraight {code : Code} (h : code.isStraight = true) (hregions : code.Regions)
    (base : Nat) : Segment base code where
  jumps _ _ hj hjump := absurd hjump (not_isJump_of_isStraight h hj)
  regions := hregions
  balanced := openScopes_of_isStraight h 0
  crossing _ _ _ _ _ hjump := by
    obtain ⟨j, hj, hjump, -⟩ := hjump
    exact absurd hjump (not_isJump_of_isStraight h hj)

/-- Two segments, one behind the other. A jump of the first leads at most to the second, so it
crosses none of its scopes. -/
theorem Segment.append {base : Nat} {first second : Code} (h : Segment base first)
    (h' : Segment (base + first.length) second) : Segment base (first ++ second) where
  jumps i j hj hjump := by
    rw [List.length_append]
    rcases getElem?_append_cases hj with ⟨hi, hfirst⟩ | ⟨k, rfl, hsecond⟩
    · obtain ⟨t, ht, hlt, hle⟩ := h.jumps hfirst hjump
      exact ⟨t, ht, by omega, by omega⟩
    · obtain ⟨t, ht, hlt, hle⟩ := h'.jumps hsecond hjump
      exact ⟨t, ht, by omega, by omega⟩
  regions := h.regions.append h'.regions
  balanced := by
    rw [openScopes_append, h.balanced]
    exact h'.balanced
  crossing b e hscope i t hjump := by
    rcases scopeAt_append_cases h.balanced hscope with ⟨he, hin⟩ | ⟨b, e, rfl, rfl, hin⟩
    · rcases jumpAt_append_cases hjump with ⟨-, hfirst⟩ | ⟨k, rfl, hsecond⟩
      · exact h.crossing hin hfirst
      · have hlt := h'.lt_target hsecond
        omega
    · rcases jumpAt_append_cases hjump with ⟨hi, hfirst⟩ | ⟨k, rfl, hsecond⟩
      · have hlt := h.lt_target hfirst
        omega
      · have hcrossing := h'.crossing hin hsecond
        omega

theorem Segment.block {base : Nat} {body : Code} (h : Segment (base + 1) body) (origin : Span) :
    Segment base (.plain .beginScope origin :: (body ++ [.plain .endScope origin])) := by
  have hcases : ∀ {i : Nat} {j : Instruction}, (Instruction.plain .beginScope origin ::
      (body ++ [.plain .endScope origin]))[i]? = some j → j.opcode.isJump = true →
      ∃ k, i = k + 1 ∧ k < body.length ∧ body[k]? = some j := by
    intro i j hj hjump
    cases i with
    | zero =>
      obtain rfl := Option.some.inj hj
      cases hjump
    | succ i =>
      rcases getElem?_append_cases hj with ⟨hi, hin⟩ | ⟨k, rfl, hend⟩
      · exact ⟨i, rfl, hi, hin⟩
      · obtain rfl := List.mem_singleton.mp (List.mem_of_getElem? hend)
        cases hjump
  refine ⟨fun i j hj hjump => ?_, ?_, ?_, fun b e hscope i t hjump => ?_⟩
  · obtain ⟨k, rfl, -, hin⟩ := hcases hj hjump
    obtain ⟨t, ht, hlt, hle⟩ := h.jumps hin hjump
    refine ⟨t, ht, by omega, ?_⟩
    rw [List.length_cons, List.length_append, List.length_singleton]
    omega
  · have hopening : Regions [.plain .beginScope origin] := regions_singleton nofun
    have hclosing : Regions [.plain .endScope origin] := regions_singleton nofun
    exact hopening.append (h.regions.append hclosing)
  · have hbody := openScopes_add 1 h.balanced
    have hall : openScopes 1 (body ++ [.plain .endScope origin]) = some 0 := by
      rw [openScopes_append]
      rw [Nat.zero_add] at hbody
      rw [hbody]
      rfl
    exact hall
  · obtain ⟨j, hj, hop, htarget⟩ := hjump
    obtain ⟨k, rfl, hk, hin⟩ := hcases hj hop
    have hlt := h.lt_target ⟨j, hin, hop, htarget⟩
    rcases scopeAt_block_cases h.balanced hscope with ⟨rfl, rfl⟩ | ⟨b, e, rfl, rfl, hinner⟩
    · omega
    · have hcrossing := h.crossing hinner ⟨j, hin, hop, htarget⟩
      omega

theorem Segment.jumpOver {base : Nat} {first second : Code}
    (h : Segment (base + 1) (first ++ second))
    (hfirst : openScopes 0 first = some 0) {opcode : Opcode} (hopcode : opcode.isJump = true)
    (origin : Span) :
    Segment base (.jump opcode (base + 1 + first.length) origin :: (first ++ second)) := by
  have hother : opcode ≠ .beginScope ∧ opcode ≠ .call := by
    constructor <;> (rintro rfl; cases hopcode)
  refine ⟨fun i j hj hjump => ?_, ?_, ?_, fun b e hscope i t hjump => ?_⟩
  · cases i with
    | zero =>
      obtain rfl := Option.some.inj hj
      refine ⟨base + 1 + first.length, rfl, by omega, ?_⟩
      rw [List.length_cons, List.length_append]
      omega
    | succ i =>
      obtain ⟨t, ht, hlt, hle⟩ := h.jumps hj hjump
      refine ⟨t, ht, by omega, ?_⟩
      rw [List.length_cons]
      omega
  · have hjump : Regions [.jump opcode (base + 1 + first.length) origin] :=
      regions_singleton hother.2
    exact hjump.append h.regions
  · have hsame : scopesAfter opcode 0 = some 0 := by
      cases opcode <;> first | rfl | cases hopcode
    have hall : openScopes 0 (.jump opcode (base + 1 + first.length) origin :: (first ++ second)) =
        (scopesAfter opcode 0).bind fun depth => openScopes depth (first ++ second) := rfl
    rw [hall, hsame]
    exact h.balanced
  · have hplain : (Instruction.jump opcode (base + 1 + first.length) origin).opcode ≠ .beginScope :=
      hother.1
    obtain ⟨b, e, rfl, rfl, hinner⟩ := scopeAt_cons_cases hplain hscope
    obtain ⟨j, hj, hop, htarget⟩ := hjump
    cases i with
    | zero =>
      obtain rfl := Option.some.inj hj
      obtain rfl := Option.some.inj htarget
      -- no scope contains the end of `first`
      rcases scopeAt_append_cases hfirst hinner with ⟨he, -⟩ | ⟨b, e, rfl, rfl, -⟩ <;> omega
    | succ i =>
      have hcrossing := h.crossing hinner ⟨j, hj, hop, htarget⟩
      omega

end Code

end StackScript
