import StackScript.Proofs.Token.Spans

set_option autoImplicit false

/-!
# Tokens of texts that are joined

Main statement: `Lexes.append`. Where the tokens of two texts are in order, those of the two texts
with a line break between them are the tokens of the first and then those of the second. A token
ends at a blank at the latest, unless it is a string or a character, and those that are in order
have their closing quote.
-/
namespace StackScript

def Parts (c : Char) : Prop := c = ' ' ∨ c = '\n'

/-- A token of the text, neither the end of it nor an invalid one. -/
def TokenKind.isProper (kind : TokenKind) : Bool :=
  !kind.isEndOfFile && !kind.isInvalid

section Lists

variable {p : Char → Bool} {c : Char}

theorem takeWhile_append_cons (hc : p c = false) (text rest : List Char) :
    (text ++ c :: rest).takeWhile p = text.takeWhile p := by
  induction text with
  | nil => simp [hc]
  | cons d text ih =>
    rw [List.cons_append, List.takeWhile_cons, List.takeWhile_cons, ih]

theorem dropWhile_append_cons (hc : p c = false) (text rest : List Char) :
    (text ++ c :: rest).dropWhile p = text.dropWhile p ++ c :: rest := by
  induction text with
  | nil => simp [hc]
  | cons d text ih =>
    rw [List.cons_append, List.dropWhile_cons, List.dropWhile_cons, ih]
    split <;> rfl

end Lists

namespace Lexeme

variable {c : Char}

def followedBy (lexeme : Lexeme) (more : List Char) : Lexeme :=
  { lexeme with rest := lexeme.rest ++ more }

theorem stringBody_append {text : List Char} (h : (stringBody text).closed = true)
    (more : List Char) :
    stringBody (text ++ more) = { stringBody text with rest := (stringBody text).rest ++ more } := by
  fun_induction stringBody text with
  | case1 => simp at h
  | case2 rest => simp [stringBody]
  | case3 => simp at h
  | case4 c rest body ih => simp [stringBody, ih h, body]
  | case5 c rest hquote hslash hescape body ih =>
    have hplain : c ≠ '\\' := by
      rintro rfl
      cases rest with
      | nil => exact hslash rfl rfl
      | cons d rest => exact hescape d rest rfl rfl
    have hfirst : stringBody (c :: (rest ++ more)) =
        { stringBody (rest ++ more) with
          value := c :: (stringBody (rest ++ more)).value
          text := c :: (stringBody (rest ++ more)).text } :=
      stringBody.eq_5 c _ hquote (fun h => absurd h hplain) (fun _ _ h => absurd h hplain)
    simp [hfirst, ih h, body]

theorem ofString_append {rest : List Char} (h : (ofString rest).fault = none)
    (more : List Char) : ofString (rest ++ more) = (ofString rest).followedBy more := by
  have hclosed : (stringBody rest).closed = true := by
    cases hbody : (stringBody rest).closed with
    | true => rfl
    | false => simp [ofString, hbody] at h
  simp [ofString, followedBy, stringBody_append hclosed]

theorem fault_malformedChar (taken rest : List Char) :
    (malformedChar taken rest).fault = some .malformedChar := rfl

theorem ofChar_append {rest : List Char} (h : (ofChar rest).fault = none)
    (more : List Char) : ofChar (rest ++ more) = (ofChar rest).followedBy more := by
  fun_cases ofChar rest with
  | case1 c rest => rfl
  | case6 c rest _ hslash hquote hline =>
    exact ofChar.eq_6 c (rest ++ more) (fun _ h _ => hslash h) hslash hquote hline
  | _ => simp_all [fault_malformedChar, ofChar]

theorem fault_faulty (fault : LexicalFault) (text rest : List Char) :
    (faulty fault text rest).fault = some fault := rfl

theorem inDigits_of_parts (hc : Parts c) {radix : Nat} (hradix : radix ≤ 16) :
    inDigits radix c = false := by
  obtain rfl | rfl := hc
  · have hvalue : 16 ≤ Decimal.digitValue ' ' := by decide
    have hmark : (' ' == '_') = false := by decide
    simp only [inDigits, Decimal.isDigitOf, hmark, Bool.or_false, decide_eq_false_iff_not]
    omega
  · have hvalue : 16 ≤ Decimal.digitValue '\n' := by decide
    have hmark : ('\n' == '_') = false := by decide
    simp only [inDigits, Decimal.isDigitOf, hmark, Bool.or_false, decide_eq_false_iff_not]
    omega

theorem startsFraction_append (hc : Parts c) (text more : List Char) :
    startsFraction (text ++ c :: more) = startsFraction text := by
  match text with
  | [] => obtain rfl | rfl := hc <;> rfl
  | [d] =>
    by_cases hd : d = '.'
    · subst hd
      obtain rfl | rfl := hc <;> rfl
    · simp [startsFraction, hd]
  | d :: e :: rest =>
    by_cases hd : d = '.'
    · subst hd
      rfl
    · simp [startsFraction, hd]

theorem ofInteger_append {radix : Nat} {digits text rest : List Char} (more : List Char) :
    ofInteger radix digits text (rest ++ more) =
      (ofInteger radix digits text rest).followedBy more := by
  simp only [ofInteger]
  split <;> rfl

theorem ofFraction_append (hc : Parts c) {whole rest : List Char}
    (hstarts : startsFraction rest = true) (h : (ofFraction whole rest).fault = none)
    (more : List Char) :
    ofFraction whole (rest ++ c :: more) = (ofFraction whole rest).followedBy (c :: more) := by
  have hdigits := inDigits_of_parts hc (Nat.le_of_lt (by decide : 10 < 16))
  obtain ⟨d, rest, rfl, -⟩ := eq_of_startsFraction hstarts
  simp only [ofFraction, List.cons_append, List.drop_one, List.tail_cons] at h ⊢
  rw [← List.cons_append, takeWhile_append_cons hdigits, dropWhile_append_cons hdigits,
    startsFraction_append hc]
  split
  · rename_i hagain
    simp [hagain, fault_faulty] at h
  · split <;> rfl

theorem ofDecimal_append (hc : Parts c) {first : Char} {rest : List Char}
    (h : (ofDecimal first rest).fault = none) (more : List Char) :
    ofDecimal first (rest ++ c :: more) = (ofDecimal first rest).followedBy (c :: more) := by
  have hdigits := inDigits_of_parts hc (Nat.le_of_lt (by decide : 10 < 16))
  simp only [ofDecimal] at h ⊢
  rw [takeWhile_append_cons hdigits, dropWhile_append_cons hdigits, startsFraction_append hc]
  split
  · rename_i hstarts
    rw [if_pos hstarts] at h
    exact ofFraction_append hc hstarts h more
  · exact ofInteger_append _

theorem radix_le {mark : Char} {radix : Nat} (h : radixOf? mark = some radix) : radix ≤ 16 := by
  unfold radixOf? at h
  split at h
  · simp at h; omega
  · split at h
    · simp at h; omega
    · split at h
      · simp at h; omega
      · simp at h

theorem ofNumber_append (hc : Parts c) {first : Char} {rest : List Char}
    (h : (ofNumber first rest).fault = none) (more : List Char) :
    ofNumber first (rest ++ c :: more) = (ofNumber first rest).followedBy (c :: more) := by
  cases rest with
  | nil =>
    have hmark : radixOf? c = none := by obtain rfl | rfl := hc <;> decide
    have hdecimal := ofDecimal_append hc h more
    simp only [ofNumber, List.nil_append, hmark, ite_self] at hdecimal ⊢
    exact hdecimal
  | cons mark digits =>
    simp only [ofNumber, List.cons_append] at h ⊢
    split
    · rename_i hfirst
      rw [if_pos hfirst] at h
      split
      · rename_i radix hradix
        have hdigits := inDigits_of_parts hc (radix_le hradix)
        simp only [ofRadix]
        rw [takeWhile_append_cons hdigits, dropWhile_append_cons hdigits]
        exact ofInteger_append _
      · rename_i hradix
        simp only [hradix] at h
        exact ofDecimal_append hc h more
    · rename_i hfirst
      rw [if_neg hfirst] at h
      exact ofDecimal_append hc h more

theorem wordOf_append {isTail : Char → Bool} (htail : isTail c = false) (first : Char)
    (rest more : List Char) :
    wordOf isTail first (rest ++ c :: more) =
      (wordOf isTail first rest).followedBy (c :: more) := by
  simp only [wordOf]
  rw [takeWhile_append_cons htail, dropWhile_append_cons htail]
  rfl

theorem isIdentifierTail_of_parts (hc : Parts c) : Text.isIdentifierTail c = false := by
  obtain rfl | rfl := hc <;> decide +kernel

theorem not_mem_spelling (hc : Parts c) (s : Symbol) : c ∉ s.spelling := by
  obtain rfl | rfl := hc <;> cases s <;> decide

theorem isPrefixOf_append {spelling text : List Char} (hc : c ∉ spelling) (more : List Char) :
    spelling.isPrefixOf (text ++ c :: more) = spelling.isPrefixOf text := by
  induction spelling generalizing text with
  | nil => simp
  | cons d spelling ih =>
    have hd : c ≠ d := List.ne_of_not_mem_cons hc
    have hrest : c ∉ spelling := List.not_mem_of_not_mem_cons hc
    cases text with
    | nil => simp [List.isPrefixOf, Ne.symm hd]
    | cons e text => simp [List.isPrefixOf, ih hrest]

theorem symbol?_append (hc : Parts c) (text more : List Char) :
    symbol? (text ++ c :: more) = symbol? text := by
  simp only [symbol?, isPrefixOf_append (not_mem_spelling hc _)]

/-- A token that is in order is not changed by what comes behind a blank. -/
theorem read_append (hc : Parts c) {first : Char} {rest : List Char}
    (h : (read first rest).fault = none) (more : List Char) :
    read first (rest ++ c :: more) = (read first rest).followedBy (c :: more) := by
  have hsymbol := symbol?_append hc (first :: rest) more
  rw [List.cons_append] at hsymbol
  unfold read at h ⊢
  rw [hsymbol]
  split
  · rename_i s hs
    have hfront : s.spelling.isPrefixOf (first :: rest) = true := by
      rw [symbol?] at hs
      simpa using List.find?_some hs
    have hle := (List.isPrefixOf_iff_prefix.mp hfront).length_le
    rw [followedBy, ← List.cons_append, List.drop_append_of_le_length hle]
  · rename_i hnone
    simp only [hnone] at h
    split
    · rename_i hquote
      rw [if_pos hquote] at h
      exact ofString_append h _
    · rename_i hquote
      rw [if_neg hquote] at h
      split
      · rename_i hsingle
        rw [if_pos hsingle] at h
        exact ofChar_append h _
      · rename_i hsingle
        rw [if_neg hsingle] at h
        split
        · rename_i hdigit
          rw [if_pos hdigit] at h
          exact ofNumber_append hc h more
        · split
          · exact wordOf_append (isIdentifierTail_of_parts hc) first rest more
          · rfl

def Sane (lexeme : Lexeme) : Prop := lexeme.fault = none → lexeme.kind.isProper = true

theorem sane_faulty (fault : LexicalFault) (text rest : List Char) :
    (faulty fault text rest).Sane := fun h => by simp [faulty] at h

theorem sane_ofChar (rest : List Char) : (ofChar rest).Sane := by
  fun_cases ofChar rest with
  | case1 c rest => exact fun _ => rfl
  | case6 c rest => exact fun _ => rfl
  | _ => exact sane_faulty _ _ _

theorem sane_ofInteger (radix : Nat) (digits text rest : List Char) :
    (ofInteger radix digits text rest).Sane := by
  simp only [ofInteger]
  split
  · exact sane_faulty _ _ _
  · exact fun _ => rfl

theorem sane_ofDecimal (first : Char) (rest : List Char) : (ofDecimal first rest).Sane := by
  simp only [ofDecimal]
  split
  · simp only [ofFraction]
    split
    · exact sane_faulty _ _ _
    · split
      · exact fun _ => rfl
      · exact sane_faulty _ _ _
  · exact sane_ofInteger _ _ _ _

theorem sane_ofNumber (first : Char) (rest : List Char) : (ofNumber first rest).Sane := by
  fun_cases ofNumber first rest with
  | case1 mark digits _ radix _ => exact sane_ofInteger _ _ _ _
  | _ => exact sane_ofDecimal _ _

theorem sane_ofWord (first : Char) (rest : List Char) : (ofWord first rest).Sane := by
  simp only [Sane, ofWord, wordOf, TokenKind.ofWord?]
  split <;> exact fun _ => rfl

theorem sane_read (first : Char) (rest : List Char) : (read first rest).Sane := by
  unfold read
  split
  · exact fun _ => rfl
  · split
    · exact fun _ => rfl
    · split
      · exact sane_ofChar rest
      · split
        · exact sane_ofNumber first rest
        · split
          · exact sane_ofWord first rest
          · exact sane_faulty _ _ _

end Lexeme

theorem layout_suffix (inComment : Bool) (text : List Char) : (layout inComment text).2 <:+ text :=
  ⟨_, append_layout inComment text⟩

theorem layout_append_of_eq_nil {inComment : Bool} {text : List Char}
    (h : (layout inComment text).2 = []) (more : List Char) :
    (layout inComment (text ++ '\n' :: more)).2 = (layout false more).2 := by
  induction text generalizing inComment with
  | nil => simp [layout]
  | cons c rest ih =>
    simp only [layout, List.cons_append] at h ⊢
    split
    · rename_i hblank
      rw [if_pos hblank] at h
      exact ih h
    · rename_i hblank
      rw [if_neg hblank] at h
      simp at h

theorem layout_append_of_eq_cons {inComment : Bool} {text rest : List Char} {first : Char}
    (h : (layout inComment text).2 = first :: rest) (more : List Char) :
    (layout inComment (text ++ more)).2 = first :: (rest ++ more) := by
  induction text generalizing inComment with
  | nil => simp [layout] at h
  | cons c tail ih =>
    simp only [layout, List.cons_append] at h ⊢
    split
    · rename_i hblank
      rw [if_pos hblank] at h
      exact ih h
    · rename_i hblank
      rw [if_neg hblank] at h
      rw [← List.cons_append, ← List.cons_append]
      exact congrArg (· ++ more) h

/-- The kinds of the tokens of a text, all of which are in order. -/
inductive Lexes : List Char → List TokenKind → Prop where
  | nil {text : List Char} (h : (layout false text).2 = []) : Lexes text []
  | cons {text rest : List Char} {first : Char} {kinds : List TokenKind}
      (h : (layout false text).2 = first :: rest)
      (clean : (Lexeme.read first rest).fault = none)
      (tail : Lexes (Lexeme.read first rest).rest kinds) :
      Lexes text ((Lexeme.read first rest).kind :: kinds)

theorem Lexes.append {text more : List Char} {kinds moreKinds : List TokenKind}
    (h : Lexes text kinds) (hmore : Lexes more moreKinds) :
    Lexes (text ++ '\n' :: more) (kinds ++ moreKinds) := by
  induction h with
  | nil hlayout =>
    have hlater := layout_append_of_eq_nil hlayout more
    rw [List.nil_append]
    cases hmore with
    | nil hend => exact .nil (hlater.trans hend)
    | cons hstart clean tail => exact .cons (hlater.trans hstart) clean tail
  | @cons text rest first kinds hlayout clean tail ih =>
    have hlater := layout_append_of_eq_cons hlayout ('\n' :: more)
    have hread := Lexeme.read_append (.inr rfl) clean more
    have hfirst : Lexes (text ++ '\n' :: more)
        ((Lexeme.read first (rest ++ '\n' :: more)).kind :: (kinds ++ moreKinds)) := by
      refine .cons hlater ?_ ?_
      · rw [hread]
        exact clean
      · rw [hread]
        exact ih
    rwa [hread] at hfirst

/-- Every token is in order, and the tokens have these kinds, with the end of the text behind
them. -/
def Scans (scanned : List ScannedToken) (kinds : List TokenKind) : Prop :=
  scanned.map (·.token.kind) = kinds ++ [.endOfFile] ∧ ∀ token ∈ scanned, token.fault = none

theorem Lexes.scans {text : List Char} {kinds : List TokenKind} (h : Lexes text kinds)
    {rounds : Nat} (hrounds : text.length < rounds) (position : Nat) :
    Scans (scan rounds position text) kinds := by
  induction h generalizing rounds position with
  | @nil text hlayout =>
    obtain ⟨rounds, rfl⟩ : ∃ n, rounds = n + 1 := ⟨rounds - 1, by omega⟩
    simp only [scan, hlayout]
    exact ⟨rfl, by simp⟩
  | @cons text rest first kinds hlayout clean tail ih =>
    obtain ⟨rounds, rfl⟩ : ∃ n, rounds = n + 1 := ⟨rounds - 1, by omega⟩
    have hshorter : (Lexeme.read first rest).rest.length < rounds := by
      have hread := (Lexeme.takes_read first rest).rest_suffix.length_le
      have hgap := (layout_suffix false text).length_le
      rw [hlayout, List.length_cons] at hgap
      omega
    simp only [scan, hlayout]
    obtain ⟨hkinds, hfaults⟩ := ih hshorter (position + Source.byteLength (layout false text).1 +
      Source.byteLength (Lexeme.read first rest).text)
    refine ⟨by rw [List.map_cons, hkinds]; rfl, fun token htoken => ?_⟩
    obtain rfl | htail := List.mem_cons.mp htoken
    · exact clean
    · exact hfaults token htail

theorem lexes_of_scan {rounds position : Nat} {text : List Char} (hrounds : text.length < rounds)
    (hclean : ∀ token ∈ scan rounds position text, token.fault = none) :
    ∃ kinds, Lexes text kinds := by
  induction rounds generalizing position text with
  | zero => omega
  | succ rounds ih =>
    cases hlayout : (layout false text).2 with
    | nil => exact ⟨[], .nil hlayout⟩
    | cons first rest =>
      simp only [scan, hlayout] at hclean
      have hshorter : (Lexeme.read first rest).rest.length < rounds := by
        have hread := (Lexeme.takes_read first rest).rest_suffix.length_le
        have hgap := (layout_suffix false text).length_le
        rw [hlayout, List.length_cons] at hgap
        omega
      obtain ⟨kinds, htail⟩ := ih hshorter fun token htoken =>
        hclean token (List.mem_cons_of_mem _ htoken)
      exact ⟨_, .cons hlayout (hclean _ List.mem_cons_self) htail⟩

theorem Lexes.isProper {text : List Char} {kinds : List TokenKind} (h : Lexes text kinds) :
    ∀ kind ∈ kinds, kind.isProper = true := by
  induction h with
  | nil _ => simp
  | cons _ clean _ ih =>
    intro kind hkind
    obtain rfl | htail := List.mem_cons.mp hkind
    · exact Lexeme.sane_read _ _ clean
    · exact ih kind htail

theorem diagnostics_tokenize_eq_nil_iff (source : String) :
    (tokenize source).diagnostics = [] ↔
      ∀ token ∈ scan (source.toList.length + 1) 0 source.toList, token.fault = none := by
  simp only [tokenize, List.filterMap_eq_nil_iff, ScannedToken.diagnostic?, Option.map_eq_none_iff]

theorem lexes_of_tokenize {source : String} (h : (tokenize source).diagnostics = []) :
    ∃ kinds, Lexes source.toList kinds :=
  lexes_of_scan (Nat.lt_succ_self _) ((diagnostics_tokenize_eq_nil_iff source).mp h)

theorem Lexes.tokenized {source : String} {kinds : List TokenKind} (h : Lexes source.toList kinds) :
    (tokenize source).diagnostics = [] ∧
      (tokenize source).tokens.map (·.kind) = kinds ++ [.endOfFile] := by
  obtain ⟨hkinds, hclean⟩ := h.scans (Nat.lt_succ_self _) 0
  refine ⟨(diagnostics_tokenize_eq_nil_iff source).mpr hclean, ?_⟩
  rw [tokenize, List.map_map]
  exact hkinds

/-- Two texts with a semicolon on a line of its own between them. -/
theorem Lexes.joined {first second : String} {kinds moreKinds : List TokenKind}
    (h : Lexes first.toList kinds) (hmore : Lexes second.toList moreKinds) :
    Lexes (first ++ "\n;\n" ++ second).toList (kinds ++ .symbol .semicolon :: moreKinds) := by
  have hblank : Lexes ([] ++ '\n' :: second.toList) ([] ++ moreKinds) := .append (.nil rfl) hmore
  have hsemicolon : Lexes (';' :: '\n' :: second.toList) (.symbol .semicolon :: moreKinds) :=
    @Lexes.cons (';' :: '\n' :: second.toList) ('\n' :: second.toList) ';' moreKinds rfl rfl hblank
  simpa using h.append hsemicolon

end StackScript
