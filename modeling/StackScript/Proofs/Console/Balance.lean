import StackScript.Console.Entry
import StackScript.Proofs.Tree.Nesting

set_option autoImplicit false

/-!
# Balanced entries

Main statement: `complete_programs_are_balanced`. The console goes over the characters of an entry
with rules of its own for quotes, escapes and comments. On a text whose tokens are all in order it
finds the brackets that are tokens, and no others, so it never waits for the rest of a program that
is complete.
-/
namespace StackScript.Console

open Lexeme

def marks : List Char := ['"', '\'', '#', '(', ')', '[', ']', '\x7b', '\x7d']

def isPlain (c : Char) : Bool := !marks.contains c

theorem isPlain_of {p : Char → Bool} (h : marks.any p = false) {c : Char} (hc : p c = true) :
    isPlain c = true := by
  have hmark : c ∉ marks := fun hin =>
    Bool.false_ne_true (h.symm.trans (List.any_eq_true.mpr ⟨c, hin, hc⟩))
  simp [isPlain, hmark]

/-- A text that leaves the check as it was. -/
def Neutral (text : List Char) : Prop :=
  ∀ awaited rest, closesAll .code awaited (text ++ rest) = closesAll .code awaited rest

theorem Neutral.append {text more : List Char} (h : Neutral text) (hmore : Neutral more) :
    Neutral (text ++ more) := by
  intro awaited rest
  rw [List.append_assoc, h, hmore]

theorem neutral_singleton {c : Char} (h : isPlain c = true) : Neutral [c] := by
  intro awaited rest
  have hmark : c ∉ marks := by simpa [isPlain] using h
  simp only [marks, List.mem_cons, List.not_mem_nil, or_false, not_or] at hmark
  obtain ⟨hquote, hsingle, hcomment, hp, hp', hb, hb', hc, hc'⟩ := hmark
  have hopener : closer? c = none := by
    unfold closer?
    split <;> first | rfl | contradiction
  simp [closesAll, hquote, hsingle, hcomment, hp', hb', hc', isCloser, hopener]

theorem neutral_of_plain {text : List Char} (h : ∀ c ∈ text, isPlain c = true) : Neutral text := by
  induction text with
  | nil => exact fun _ _ => rfl
  | cons c text ih =>
    have hrest : Neutral text := ih fun d hd => h d (List.mem_cons_of_mem _ hd)
    exact (neutral_singleton (h c List.mem_cons_self)).append hrest

def markOf (s : Symbol) : Char := s.spelling.headD ' '

/-- The check goes over the text of this token as it goes over the token. -/
def Walks (lexeme : Lexeme) : Prop :=
  lexeme.fault = none →
    match lexeme.kind.bracket? with
    | some s => lexeme.text = [markOf s]
    | none => Neutral lexeme.text

theorem walks_of_neutral {lexeme : Lexeme} (hkind : lexeme.kind.bracket? = none)
    (h : Neutral lexeme.text) : Walks lexeme := by
  intro _
  rw [hkind]
  exact h

theorem walks_faulty (fault : LexicalFault) (text rest : List Char) :
    Walks (faulty fault text rest) := fun h => absurd h (by simp [faulty])

theorem closesAll_stringBody {text : List Char} (h : (stringBody text).closed = true)
    (awaited rest : List Char) :
    closesAll (.quoted '"') awaited ((stringBody text).text ++ rest) =
      closesAll .code awaited rest := by
  fun_induction stringBody text with
  | case1 => simp at h
  | case2 rest => simp [closesAll]
  | case3 => simp at h
  | case4 c rest body ih => simpa [closesAll] using ih h
  | case5 c rest hquote hslash hescape body ih =>
    have hplain : c ≠ '\\' := by
      rintro rfl
      cases rest with
      | nil => exact hslash rfl rfl
      | cons d rest => exact hescape d rest rfl rfl
    have hother : c ≠ '"' := hquote
    simpa [closesAll, hplain, hother] using ih h

theorem walks_ofString (rest : List Char) : Walks (ofString rest) := by
  intro hclean
  have hclosed : (stringBody rest).closed = true := by
    cases hbody : (stringBody rest).closed with
    | true => rfl
    | false => simp [ofString, hbody] at hclean
  exact fun awaited more => closesAll_stringBody hclosed awaited more

theorem walks_ofChar (rest : List Char) : Walks (ofChar rest) := by
  fun_cases ofChar rest with
  | case1 c rest => exact walks_of_neutral rfl fun awaited more => by simp [closesAll]
  | case6 c rest _ hslash hquote hline =>
    refine walks_of_neutral rfl fun awaited more => ?_
    have hslash : c ≠ '\\' := fun h => by simp [h] at hslash
    have hquote : c ≠ '\'' := fun h => by simp [h] at hquote
    simp [closesAll, hslash, hquote]
  | _ => exact walks_faulty _ _ _

theorem isPlain_of_inDigits {radix : Nat} (hradix : radix ≤ 16) {c : Char}
    (h : inDigits radix c = true) : isPlain c = true := by
  have hmarks : marks.any (inDigits 16) = false := by decide +kernel
  refine isPlain_of hmarks ?_
  simp only [inDigits, Decimal.isDigitOf, Bool.or_eq_true, decide_eq_true_eq] at h ⊢
  exact h.imp (fun hlt => by omega) fun hmark => hmark

theorem isPlain_of_isDigit {c : Char} (h : c.isDigit = true) : isPlain c = true :=
  isPlain_of (by decide) h

theorem plain_takeWhile {p : Char → Bool} (h : ∀ c, p c = true → isPlain c = true)
    (text : List Char) : ∀ c ∈ text.takeWhile p, isPlain c = true := by
  intro c hc
  exact h c (List.all_eq_true.mp List.all_takeWhile c hc)

theorem walks_ofInteger {text : List Char} (h : ∀ c ∈ text, isPlain c = true) (radix : Nat)
    (digits rest : List Char) : Walks (ofInteger radix digits text rest) := by
  simp only [ofInteger]
  split
  · exact walks_faulty _ _ _
  · exact walks_of_neutral rfl (neutral_of_plain h)

theorem walks_ofDecimal {first : Char} (h : isPlain first = true) (rest : List Char) :
    Walks (ofDecimal first rest) := by
  have hdigits := plain_takeWhile fun c => @isPlain_of_inDigits 10 (by decide) c
  have hwhole : ∀ c ∈ first :: rest.takeWhile (inDigits 10), isPlain c = true :=
    List.forall_mem_cons.mpr ⟨h, hdigits rest⟩
  simp only [ofDecimal]
  split
  · simp only [ofFraction]
    split
    · exact walks_faulty _ _ _
    · split
      · refine walks_of_neutral rfl ((neutral_of_plain hwhole).append (neutral_of_plain ?_))
        exact List.forall_mem_cons.mpr ⟨rfl, hdigits _⟩
      · exact walks_faulty _ _ _
  · exact walks_ofInteger hwhole _ _ _

theorem walks_ofNumber {first : Char} (h : isPlain first = true) (rest : List Char) :
    Walks (ofNumber first rest) := by
  fun_cases ofNumber first rest with
  | case1 mark digits _ radix hradix =>
    refine walks_ofInteger ?_ _ _ _
    have hmark : isPlain mark = true :=
      isPlain_of (p := fun c => (radixOf? c).isSome) (by decide) (by rw [hradix]; rfl)
    exact List.forall_mem_cons.mpr ⟨rfl, List.forall_mem_cons.mpr ⟨hmark,
      plain_takeWhile (fun c => isPlain_of_inDigits (radix_le hradix)) digits⟩⟩
  | _ => exact walks_ofDecimal h _

theorem walks_ofWord {first : Char} (h : Text.isIdentifierStart first = true) (rest : List Char) :
    Walks (ofWord first rest) := by
  have hfirst : isPlain first = true := isPlain_of (by decide +kernel) h
  have htail : ∀ c, Text.isIdentifierTail c = true → isPlain c = true := fun c =>
    isPlain_of (by decide +kernel)
  refine walks_of_neutral ?_ (neutral_of_plain
    (List.forall_mem_cons.mpr ⟨hfirst, plain_takeWhile htail rest⟩))
  simp only [ofWord, wordOf, TokenKind.ofWord?]
  split <;> rfl

theorem spelling_of_isBracket {s : Symbol} (h : s.isBracket = true) : s.spelling = [markOf s] := by
  have hall : ∀ s ∈ Symbol.brackets, s.spelling = [markOf s] := by decide
  exact hall s (List.contains_iff_mem.mp h)

theorem isPlain_of_mem_spelling {s : Symbol} (h : s.isBracket = false) :
    ∀ c ∈ s.spelling, isPlain c = true := by
  have hall : s.spelling.all isPlain = true := by cases s <;> first | rfl | contradiction
  exact List.all_eq_true.mp hall

theorem walks_symbol (s : Symbol) (rest : List Char) :
    Walks { kind := .symbol s, text := s.spelling, rest } := by
  intro _
  cases hs : s.isBracket with
  | true => simpa [TokenKind.bracket?, hs] using spelling_of_isBracket hs
  | false => simpa [TokenKind.bracket?, hs] using neutral_of_plain (isPlain_of_mem_spelling hs)

theorem walks_read (first : Char) (rest : List Char) : Walks (Lexeme.read first rest) := by
  unfold Lexeme.read
  split
  · exact walks_symbol _ _
  · split
    · exact walks_ofString rest
    · split
      · exact walks_ofChar rest
      · split
        case isTrue hdigit => exact walks_ofNumber (isPlain_of_isDigit hdigit) rest
        · split
          case isTrue hstart => exact walks_ofWord hstart rest
          · exact walks_faulty _ _ _

theorem closesAll_layout (inComment : Bool) (awaited text : List Char) :
    closesAll (if inComment then .comment else .code) awaited text =
      closesAll .code awaited (layout inComment text).2 := by
  induction text generalizing inComment with
  | nil => cases inComment <;> rfl
  | cons c rest ih =>
    cases inComment with
    | true =>
      have hnext : (layout true (c :: rest)).2 = (layout (c != '\n') rest).2 := by simp [layout]
      rw [hnext, ← ih]
      by_cases hline : c = '\n' <;> simp [closesAll, hline]
    | false =>
      by_cases hcomment : c = '#'
      · subst hcomment
        exact ih true
      · change closesAll .code awaited (c :: rest) = _
        rw [layout]
        split
        case isTrue hblank =>
          have hplain : isPlain c = true := by
            simp only [Bool.false_or, Bool.or_eq_true, beq_iff_eq, hcomment, or_false] at hblank
            rcases hblank with ((rfl | rfl) | rfl) | rfl <;> decide
          have hnext : ((false || c == '#') && c != '\n') = false := by simp [hcomment]
          rw [hnext]
          exact (neutral_singleton hplain awaited rest).trans (ih false)
        · rfl

theorem markOf_inj {s t : Symbol} (hs : s.isBracket = true) (ht : t.isBracket = true)
    (h : markOf s = markOf t) : s = t := by
  have hall : ∀ s ∈ Symbol.brackets, ∀ t ∈ Symbol.brackets, markOf s = markOf t → s = t := by decide
  exact hall s (List.contains_iff_mem.mp hs) t (List.contains_iff_mem.mp ht) h

theorem isBracket_of_closer? {s closer : Symbol} (h : s.closer? = some closer) :
    closer.isBracket = true := by
  cases s <;> cases h <;> rfl

theorem closesAll_opener {s closer : Symbol} (h : s.closer? = some closer)
    (awaited rest : List Char) :
    closesAll .code awaited (markOf s :: rest) =
      closesAll .code (markOf closer :: awaited) rest := by
  cases s <;> cases h <;> rfl

theorem isCloser_markOf {s : Symbol} (hs : s.isBracket = true) (h : s.closer? = none) :
    isCloser (markOf s) = true ∧ markOf s ≠ '"' ∧ markOf s ≠ '\'' ∧ markOf s ≠ '#' := by
  have hall : ∀ s ∈ Symbol.brackets, s.closer? = none →
      isCloser (markOf s) = true ∧ markOf s ≠ '"' ∧ markOf s ≠ '\'' ∧ markOf s ≠ '#' := by decide
  exact hall s (List.contains_iff_mem.mp hs) h

theorem closes_bracket {s : Symbol} (hs : s.isBracket = true) {awaited : List Symbol}
    (hawaited : ∀ t ∈ awaited, t.isBracket = true) {rest : List Char} {brackets : List Symbol}
    (hrest : ∀ awaited : List Symbol, (∀ t ∈ awaited, t.isBracket = true) →
      closesAll .code (awaited.map markOf) rest = Brackets.closes awaited brackets) :
    closesAll .code (awaited.map markOf) (markOf s :: rest) =
      Brackets.closes awaited (s :: brackets) := by
  cases hs' : s.closer? with
  | some closer =>
    rw [closesAll_opener hs', Brackets.closes_opener hs']
    exact hrest (closer :: awaited) (List.forall_mem_cons.mpr ⟨isBracket_of_closer? hs', hawaited⟩)
  | none =>
    obtain ⟨hcloser, hquote, hsingle, hcomment⟩ := isCloser_markOf hs hs'
    cases awaited with
    | nil => simp [closesAll, hquote, hsingle, hcomment, hcloser, Brackets.closes_unexpected hs']
    | cons expected awaited =>
      obtain ⟨hexpected, hothers⟩ := List.forall_mem_cons.mp hawaited
      have hsame : (markOf expected == markOf s) = (expected == s) := by
        rw [Bool.eq_iff_iff, beq_iff_eq, beq_iff_eq]
        exact ⟨markOf_inj hexpected hs, congrArg markOf⟩
      rw [Brackets.closes_closer hs', ← hsame, ← hrest awaited hothers]
      simp [closesAll, hquote, hsingle, hcomment, hcloser]

/-- The check of the characters of a text is the check of its tokens. -/
theorem closesAll_of_lexes {text : List Char} {kinds : List TokenKind} (h : Lexes text kinds)
    (awaited : List Symbol) (hawaited : ∀ t ∈ awaited, t.isBracket = true) :
    closesAll .code (awaited.map markOf) text = Brackets.closes awaited (Brackets.of kinds) := by
  induction h generalizing awaited with
  | @nil text hlayout =>
    refine (closesAll_layout false _ text).trans ?_
    rw [hlayout]
    exact List.isEmpty_map
  | @cons text rest first kinds hlayout clean tail ih =>
    refine (closesAll_layout false _ text).trans ?_
    rw [hlayout, ← (takes_read first rest).text_append]
    have hwalks := walks_read first rest clean
    cases hkind : (Lexeme.read first rest).kind.bracket? with
    | none =>
      rw [hkind] at hwalks
      rw [hwalks, ih awaited hawaited]
      exact (Brackets.passes_plain hkind kinds).symm
    | some s =>
      rw [hkind] at hwalks
      rw [hwalks, Brackets.of, List.filterMap_cons_some hkind]
      exact closes_bracket (Brackets.isBracket_of_bracket? hkind) hawaited ih

theorem isBalanced_of_lexes {source : String} {kinds : List TokenKind}
    (h : Lexes source.toList kinds) :
    isBalanced source.toList = Brackets.closes [] (Brackets.of kinds) :=
  closesAll_of_lexes h [] (by simp)

/-- A program about which nothing is reported is balanced. More generally, an entry whose tokens are
all in order is balanced just if the brackets among its tokens are. -/
theorem complete_programs_are_balanced (source : String) :
    ((SyntaxTree.read source).diagnostics = [] → isBalanced source.toList = true) ∧
    ((tokenize source).diagnostics = [] → isBalanced source.toList =
      Brackets.closes [] (Brackets.of ((tokenize source).tokens.map (·.kind)))) := by
  constructor
  · intro hclean
    obtain ⟨kinds, hlex⟩ := lexes_of_tokenize (List.append_eq_nil_iff.mp hclean).1
    rw [isBalanced_of_lexes hlex]
    exact SyntaxTree.closes_of_read hlex hclean
  · intro hclean
    obtain ⟨kinds, hlex⟩ := lexes_of_tokenize hclean
    rw [isBalanced_of_lexes hlex, hlex.tokenized.2]
    congr 1
    simp [Brackets.of, TokenKind.bracket?]

/-- Brackets in strings, characters and comments do not count, and neither do quotes behind a
backslash. The second text is in order as far as its tokens go, but it is no program. -/
theorem quoted_brackets_are_balanced :
    ((SyntaxTree.read "f(\"(\\\"[\", '\x7b', '\\''); # )]\n").diagnostics = [] ∧
      isBalanced "f(\"(\\\"[\", '\x7b', '\\''); # )]\n".toList = true) ∧
    ((tokenize "(\"]\" # )").diagnostics = [] ∧ isBalanced "(\"]\" # )".toList =
      Brackets.closes [] (Brackets.of ((tokenize "(\"]\" # )").tokens.map (·.kind)))) := by
  have hprogram : (SyntaxTree.read "f(\"(\\\"[\", '\x7b', '\\''); # )]\n").diagnostics = [] := by
    decide +kernel
  have htokens : (tokenize "(\"]\" # )").diagnostics = [] := by decide +kernel
  exact ⟨⟨hprogram, (complete_programs_are_balanced _).1 hprogram⟩,
    htokens, (complete_programs_are_balanced _).2 htokens⟩

end StackScript.Console
