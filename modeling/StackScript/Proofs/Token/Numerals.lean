import Mathlib.Data.Nat.Digits.Defs
import Mathlib.Tactic.IntervalCases
import StackScript.Proofs.Token.Front
import StackScript.Proofs.Token.Lexing

set_option autoImplicit false

/-!
# Integer literals

Main statement: `integer_literals_have_their_value`. A literal is a decimal digit and more digits,
or a zero with the mark of a radix and digits of that radix, with underscores among the digits. It
is read as the number its digits stand for as long as that number fits, and otherwise, or if it has
no digit, as one malformed number. `Grouped` says what the digits of a literal are without a look at
how they are scanned, and `Nat.ofDigits` what they are worth.
-/
namespace StackScript

/-- How a digit is written, from ten on by a letter of either case. -/
def IsDigit (c : Char) (d : Nat) : Prop :=
  "0123456789abcdef".toList[d]? = some c ∨ "0123456789ABCDEF".toList[d]? = some c

instance (c : Char) (d : Nat) : Decidable (IsDigit c d) := inferInstanceAs (Decidable (_ ∨ _))

/-- Digits of the radix, the first one first, with underscores anywhere among them. -/
inductive Grouped (radix : Nat) : List Char → List Nat → Prop where
  | nil : Grouped radix [] []
  | digit {c : Char} {d : Nat} {text : List Char} {digits : List Nat} (written : IsDigit c d)
      (lt : d < radix) (tail : Grouped radix text digits) : Grouped radix (c :: text) (d :: digits)
  | underscore {text : List Char} {digits : List Nat} (tail : Grouped radix text digits) :
      Grouped radix ('_' :: text) digits

def radixMarks : List (Char × Nat) :=
  [('x', 16), ('X', 16), ('o', 8), ('O', 8), ('b', 2), ('B', 2)]

/-- An integer literal of a radix, with its digits. -/
inductive IntegerLiteral : Nat → List Char → List Nat → Prop where
  | decimal {c : Char} {d : Nat} {text : List Char} {digits : List Nat} (written : IsDigit c d)
      (lt : d < 10) (tail : Grouped 10 text digits) : IntegerLiteral 10 (c :: text) (d :: digits)
  | marked {mark : Char} {radix : Nat} {text : List Char} {digits : List Nat}
      (isMark : (mark, radix) ∈ radixMarks) (tail : Grouped radix text digits) :
      IntegerLiteral radix ('0' :: mark :: text) digits

/-- What comes behind cannot be taken for a part of the literal. -/
structure EndsBefore (radix : Nat) (literal behind : List Char) : Prop where
  digit : ∀ c ∈ behind.head?, ∀ d < radix, ¬ IsDigit c d
  underscore : '_' ∉ behind.head?
  fraction : radix = 10 → ∀ c rest, behind = '.' :: c :: rest → ∀ d < 10, ¬ IsDigit c d
  mark : literal = ['0'] → ∀ marked ∈ radixMarks, marked.1 ∉ behind.head?

theorem IntegerLiteral.exists_cons {radix : Nat} {text : List Char} {digits : List Nat}
    (h : IntegerLiteral radix text digits) : ∃ first taken, text = first :: taken := by
  cases h with
  | decimal written lt tail => exact ⟨_, _, rfl⟩
  | marked isMark tail => exact ⟨_, _, rfl⟩

namespace IsDigit

variable {c : Char} {d : Nat}

theorem lt (h : IsDigit c d) : d < 16 := by
  obtain h | h := h
  · exact (List.getElem?_eq_some_iff.mp h).1
  · exact (List.getElem?_eq_some_iff.mp h).1

theorem digitValue_eq (h : IsDigit c d) : Decimal.digitValue c = d := by
  have hlt := h.lt
  interval_cases d <;> obtain h | h := h <;> cases h <;> decide

theorem ne_underscore (h : IsDigit c d) : c ≠ '_' := by
  rintro rfl
  have hlt := h.lt
  rw [← h.digitValue_eq] at hlt
  exact absurd hlt (by decide)

theorem isDigit (h : IsDigit c d) (hlt : d < 10) : c.isDigit = true := by
  interval_cases d <;> obtain h | h := h <;> cases h <;> rfl

end IsDigit

theorem isDigit_digitValue {c : Char} (h : Decimal.digitValue c < 16) :
    IsDigit c (Decimal.digitValue c) := by
  have hall : ∀ n < 128, Decimal.digitValue (Char.ofNat n) < 16 →
      IsDigit (Char.ofNat n) (Decimal.digitValue (Char.ofNat n)) := by decide
  have hascii : c.toNat < 128 := by
    unfold Decimal.digitValue at h
    split_ifs at h with hdigit hupper hlower
    · have hrange := Bool.and_eq_true_iff.mp hdigit
      exact Nat.lt_of_le_of_lt (of_decide_eq_true hrange.2) (by decide)
    · have hrange : c.val ≥ 'A'.val ∧ c.val ≤ 'Z'.val := of_decide_eq_true hupper
      exact Nat.lt_of_le_of_lt hrange.2 (by decide)
    · have hrange := Bool.and_eq_true_iff.mp hlower
      exact Nat.lt_of_le_of_lt (of_decide_eq_true hrange.2) (by decide)
    · omega
  have hdigit := hall c.toNat hascii
  rw [Char.ofNat_toNat] at hdigit
  exact hdigit h

theorem valueOf_eq_ofDigits (radix : Nat) (text : List Char) :
    Decimal.valueOf radix text = Nat.ofDigits radix (text.map Decimal.digitValue).reverse := by
  rw [Nat.ofDigits_eq_foldr, List.foldr_reverse, List.foldl_map, Decimal.valueOf]
  congr 1
  funext n c
  simp only [Nat.cast_id]
  rw [Nat.mul_comm, Nat.add_comm]

namespace Grouped

variable {radix : Nat} {text : List Char} {digits : List Nat}

theorem inDigits (h : Grouped radix text digits) : ∀ c ∈ text, Lexeme.inDigits radix c = true := by
  induction h with
  | nil => simp
  | @digit c d text digits written lt tail ih =>
    refine List.forall_mem_cons.mpr ⟨?_, ih⟩
    simp [Lexeme.inDigits, Decimal.isDigitOf, written.digitValue_eq, lt]
  | underscore tail ih => exact List.forall_mem_cons.mpr ⟨by simp [Lexeme.inDigits], ih⟩

theorem withoutGroups (h : Grouped radix text digits) :
    (Lexeme.withoutGroups text).map Decimal.digitValue = digits := by
  induction h with
  | nil => rfl
  | @digit c d text digits written lt tail ih =>
    have hkept : Lexeme.withoutGroups (c :: text) = c :: Lexeme.withoutGroups text :=
      List.filter_cons_of_pos (by simp [written.ne_underscore])
    rw [hkept, List.map_cons, ih, written.digitValue_eq]
  | underscore tail ih => exact ih

end Grouped

theorem mem_radixMarks {mark : Char} {radix : Nat} :
    (mark, radix) ∈ radixMarks ↔ Lexeme.radixOf? mark = some radix := by
  constructor
  · intro h
    simp only [radixMarks, List.mem_cons, Prod.mk.injEq, List.not_mem_nil, or_false] at h
    rcases h with ⟨rfl, rfl⟩ | ⟨rfl, rfl⟩ | ⟨rfl, rfl⟩ | ⟨rfl, rfl⟩ | ⟨rfl, rfl⟩ | ⟨rfl, rfl⟩
    all_goals rfl
  · intro h
    unfold Lexeme.radixOf? at h
    simp only [Bool.or_eq_true, beq_iff_eq] at h
    split_ifs at h with hhex hoctal hbinary
    · cases h
      obtain rfl | rfl := hhex <;> decide
    · cases h
      obtain rfl | rfl := hoctal <;> decide
    · cases h
      obtain rfl | rfl := hbinary <;> decide

theorem radixOf?_of_inDigits {c : Char} (h : Lexeme.inDigits 10 c = true) :
    Lexeme.radixOf? c = none := by
  rw [Option.eq_none_iff_forall_ne_some]
  intro radix hradix
  have hmem := mem_radixMarks.mpr hradix
  simp only [radixMarks, List.mem_cons, Prod.mk.injEq, List.not_mem_nil, or_false] at hmem
  rcases hmem with ⟨rfl, -⟩ | ⟨rfl, -⟩ | ⟨rfl, -⟩ | ⟨rfl, -⟩ | ⟨rfl, -⟩ | ⟨rfl, -⟩
  all_goals exact absurd h (by decide)

namespace EndsBefore

variable {radix : Nat} {literal behind : List Char}

theorem inDigits (h : EndsBefore radix literal behind) (hradix : radix ≤ 16) :
    ∀ c ∈ behind.head?, Lexeme.inDigits radix c = false := by
  intro c hc
  have hplain : c ≠ '_' := fun heq => h.underscore (heq ▸ hc)
  have hvalue : ¬ Decimal.digitValue c < radix := fun hlt =>
    h.digit c hc _ hlt (isDigit_digitValue (by omega))
  simp [Lexeme.inDigits, Decimal.isDigitOf, hplain, hvalue]

theorem startsFraction (h : EndsBefore 10 literal behind) :
    Lexeme.startsFraction behind = false := by
  by_contra hstarts
  rw [Bool.not_eq_false] at hstarts
  obtain ⟨c, rest, rfl, hdigit⟩ := Lexeme.eq_of_startsFraction hstarts
  have hlt := Decimal.digitValue_lt_ten hdigit
  exact h.fraction rfl c rest rfl _ hlt (isDigit_digitValue (by omega))

end EndsBefore

theorem span_of_ends {p : Char → Bool} {text behind : List Char} (htext : ∀ c ∈ text, p c = true)
    (hbehind : ∀ c ∈ behind.head?, p c = false) :
    (text ++ behind).takeWhile p = text ∧ (text ++ behind).dropWhile p = behind := by
  rw [List.takeWhile_append_of_pos htext, List.dropWhile_append_of_pos htext]
  cases behind with
  | nil => simp
  | cons c rest => simp [hbehind c rfl]

namespace Lexeme

variable {radix : Nat} {behind : List Char} {digits : List Nat}

theorem read_of_isDigit {c : Char} (h : c.isDigit = true) (rest : List Char) :
    read c rest = ofNumber c rest := by
  have hspellings : (Symbol.all.all fun s => s.spelling.head?.all fun c => !c.isDigit) = true := by
    decide
  have hsymbol : startsNoSymbol c = true := by
    refine List.all_eq_true.mpr fun s hs => ?_
    have hspelling := List.all_eq_true.mp hspellings s hs
    cases hhead : s.spelling.head? with
    | none => rfl
    | some e =>
      rw [hhead] at hspelling
      have hne : e ≠ c := by
        rintro rfl
        simp [h] at hspelling
      simp [hne]
  have hquote : c ≠ '"' := by rintro rfl; cases h
  have hsingle : c ≠ '\'' := by rintro rfl; cases h
  rw [read_eq_continued hsymbol]
  simp [continued, hquote, hsingle, h]

theorem ofNumber_decimal {c : Char} {text : List Char} (htext : Grouped 10 text digits)
    (hend : EndsBefore 10 (c :: text) behind) :
    ofNumber c (text ++ behind) = ofInteger 10 (withoutGroups (c :: text)) (c :: text) behind := by
  have hunmarked : c = '0' → ∀ mark ∈ (text ++ behind).head?, radixOf? mark = none := by
    rintro rfl mark hmark
    cases text with
    | nil =>
      rw [Option.eq_none_iff_forall_ne_some]
      intro radix hradix
      exact hend.mark rfl (mark, radix) (mem_radixMarks.mpr hradix) hmark
    | cons e text =>
      obtain rfl : e = mark := by simpa using hmark
      exact radixOf?_of_inDigits (htext.inDigits e List.mem_cons_self)
  obtain ⟨htake, hdrop⟩ := span_of_ends htext.inDigits (hend.inDigits (by decide))
  rw [ofNumber_of_unmarked hunmarked, ofDecimal, htake, hdrop, hend.startsFraction]
  rfl

theorem ofNumber_marked {mark : Char} {text : List Char} (hmark : (mark, radix) ∈ radixMarks)
    (htext : Grouped radix text digits) (hend : EndsBefore radix ('0' :: mark :: text) behind) :
    ofNumber '0' (mark :: (text ++ behind)) =
      ofInteger radix (withoutGroups text) ('0' :: mark :: text) behind := by
  have hradix := mem_radixMarks.mp hmark
  obtain ⟨htake, hdrop⟩ := span_of_ends htext.inDigits (hend.inDigits (radix_le hradix))
  simp [ofNumber, hradix, ofRadix, htake, hdrop]

theorem read_integerLiteral {first : Char} {taken : List Char}
    (h : IntegerLiteral radix (first :: taken) digits)
    (hend : EndsBefore radix (first :: taken) behind) :
    first.isDigit = true ∧ ∃ written, written.map Decimal.digitValue = digits ∧
      read first (taken ++ behind) = ofInteger radix written (first :: taken) behind := by
  cases h with
  | @decimal _ d _ digits written lt tail =>
    have hdigit := written.isDigit lt
    have hwhole : Grouped 10 (first :: taken) (d :: digits) := .digit written lt tail
    refine ⟨hdigit, withoutGroups (first :: taken), hwhole.withoutGroups, ?_⟩
    rw [read_of_isDigit hdigit, ofNumber_decimal tail hend]
  | @marked mark _ text _ isMark tail =>
    refine ⟨rfl, withoutGroups text, tail.withoutGroups, ?_⟩
    rw [read_of_isDigit rfl, List.cons_append, ofNumber_marked isMark tail hend]

theorem ofInteger_eq {written : List Char} (hdigits : written.map Decimal.digitValue = digits)
    (text : List Char) :
    ofInteger radix written text behind =
      if digits = [] ∨ 2 ^ 63 ≤ Nat.ofDigits radix digits.reverse then
        faulty .malformedNumber text behind
      else
        { kind := .int (Int64.ofNat (Nat.ofDigits radix digits.reverse)), text, rest := behind } := by
  have hvalue := valueOf_eq_ofDigits radix written
  rw [hdigits] at hvalue
  have hempty : written = [] ↔ digits = [] := by rw [← hdigits, List.map_eq_nil_iff]
  simp only [ofInteger, hvalue]
  refine if_congr ?_ rfl rfl
  rw [Bool.or_eq_true, decide_eq_true_eq, List.isEmpty_iff]
  exact or_congr_left hempty

end Lexeme

theorem startsToken_of_isDigit {c : Char} (h : c.isDigit = true) : startsToken c = true := by
  simp only [startsToken, Bool.not_eq_true', Bool.or_eq_false_iff, beq_eq_false_iff_ne]
  refine ⟨⟨⟨⟨?_, ?_⟩, ?_⟩, ?_⟩, ?_⟩ <;> rintro rfl <;> cases h

/-- An integer literal in front of a text that does not go on with it is read as one token with the
span of the literal. It is the number its digits stand for, and nothing is reported, if there is a
digit and the number is below `2 ^ 63`; otherwise it is invalid and reported once. -/
theorem integer_literals_have_their_value {radix : Nat} {literal behind : String}
    {digits : List Nat} (h : IntegerLiteral radix literal.toList digits)
    (hend : EndsBefore radix literal.toList behind.toList) :
    (digits ≠ [] → Nat.ofDigits radix digits.reverse < 2 ^ 63 →
      ∃ n : Int64, n.toInt = Nat.ofDigits radix digits.reverse ∧
        ReadsFirst literal behind (.int n) none) ∧
    (digits = [] ∨ 2 ^ 63 ≤ Nat.ofDigits radix digits.reverse →
      ∃ fault : LexicalFault, fault.code.text = "H003" ∧
        ReadsFirst literal behind .invalid (some fault)) := by
  obtain ⟨first, taken, hliteral⟩ := h.exists_cons
  rw [hliteral] at h hend
  obtain ⟨hdigit, written, hdigits, hread⟩ := Lexeme.read_integerLiteral h hend
  have hfirst := startsToken_of_isDigit hdigit
  constructor
  · intro hsome hlt
    have hfits : ¬ (digits = [] ∨ 2 ^ 63 ≤ Nat.ofDigits radix digits.reverse) :=
      not_or.mpr ⟨hsome, Nat.not_le.mpr hlt⟩
    refine ⟨Int64.ofNat (Nat.ofDigits radix digits.reverse), Int64.toInt_ofNat_of_lt hlt, ?_⟩
    refine readsFirst_of_read hfirst hliteral ?_
    rw [hread, Lexeme.ofInteger_eq hdigits, if_neg hfits]
  · intro hfaulty
    refine ⟨.malformedNumber, rfl, readsFirst_of_read hfirst hliteral ?_⟩
    rw [hread, Lexeme.ofInteger_eq hdigits, if_pos hfaulty]
    rfl

/-- The largest number, the least one that is too large, and a literal without a digit; behind them
stands what would go on with a literal of another radix. -/
theorem integer_literals_have_their_value_at_limit :
    (IntegerLiteral 16 "0x7FFF_ffff_FFFF_ffff".toList
        [7, 15, 15, 15, 15, 15, 15, 15, 15, 15, 15, 15, 15, 15, 15, 15] ∧
      EndsBefore 16 "0x7FFF_ffff_FFFF_ffff".toList ".5".toList ∧
      ∃ n : Int64, n.toInt = 9223372036854775807 ∧
        ReadsFirst "0x7FFF_ffff_FFFF_ffff" ".5" (.int n) none) ∧
    (IntegerLiteral 10 "922_3372036854775808".toList
        [9, 2, 2, 3, 3, 7, 2, 0, 3, 6, 8, 5, 4, 7, 7, 5, 8, 0, 8] ∧
      EndsBefore 10 "922_3372036854775808".toList ".x".toList ∧
      ∃ fault : LexicalFault, fault.code.text = "H003" ∧
        ReadsFirst "922_3372036854775808" ".x" .invalid (some fault)) ∧
    (IntegerLiteral 2 "0B_".toList [] ∧ EndsBefore 2 "0B_".toList "2".toList ∧
      ∃ fault : LexicalFault, fault.code.text = "H003" ∧
        ReadsFirst "0B_" "2" .invalid (some fault)) := by
  have hlargest : IntegerLiteral 16 "0x7FFF_ffff_FFFF_ffff".toList
      [7, 15, 15, 15, 15, 15, 15, 15, 15, 15, 15, 15, 15, 15, 15, 15] := by
    refine IntegerLiteral.marked (by decide) ?_
    repeat first
      | exact .nil
      | apply Grouped.underscore
      | refine Grouped.digit (by decide) (by decide) ?_
  have htooLarge : IntegerLiteral 10 "922_3372036854775808".toList
      [9, 2, 2, 3, 3, 7, 2, 0, 3, 6, 8, 5, 4, 7, 7, 5, 8, 0, 8] := by
    refine IntegerLiteral.decimal (by decide) (by decide) ?_
    repeat first
      | exact .nil
      | apply Grouped.underscore
      | refine Grouped.digit (by decide) (by decide) ?_
  have hempty : IntegerLiteral 2 "0B_".toList [] := .marked (by decide) (.underscore .nil)
  have hpoint : EndsBefore 16 "0x7FFF_ffff_FFFF_ffff".toList ".5".toList := by
    refine ⟨?_, by decide, fun h => absurd h (by decide), by decide⟩
    rintro c ⟨⟩
    decide
  have hletter : EndsBefore 10 "922_3372036854775808".toList ".x".toList := by
    refine ⟨?_, by decide, ?_, by decide⟩
    · rintro c ⟨⟩
      decide
    · rintro - c rest ⟨⟩
      decide
  have hdigit : EndsBefore 2 "0B_".toList "2".toList := by
    refine ⟨?_, by decide, fun h => absurd h (by decide), by decide⟩
    rintro c ⟨⟩
    decide
  exact ⟨⟨hlargest, hpoint,
      (integer_literals_have_their_value hlargest hpoint).1 (by decide) (by decide)⟩,
    ⟨htooLarge, hletter, (integer_literals_have_their_value htooLarge hletter).2 (by decide)⟩,
    hempty, hdigit, (integer_literals_have_their_value hempty hdigit).2 (.inl rfl)⟩

end StackScript
