import Mathlib.Data.List.TakeWhile
import Mathlib.Data.String.Basic
import StackScript.Proofs.Token.Front
import StackScript.Proofs.Token.Lexing
import StackScript.Proofs.Token.Tiling

set_option autoImplicit false

/-!
# Layout between tokens

Main statement: `layout_does_not_matter`. The texts of the tokens of a source that are all in order,
written one after another with single blanks between them, are read as the same tokens again. What a
token is depends on its own text only, as long as nothing comes behind it that could belong to it,
and a blank cannot. Nothing is said about texts with a lexical fault: there a blank in another place
may end up inside a string that is never closed.
-/
namespace StackScript

namespace Lexeme

def alone (lexeme : Lexeme) : Lexeme := { lexeme with rest := [] }

theorem dropWhile_takeWhile {p : Char → Bool} (text : List Char) :
    (text.takeWhile p).dropWhile p = [] :=
  List.dropWhile_eq_nil_iff.mpr fun _ hc => List.mem_takeWhile_imp hc

theorem stringBody_alone {text : List Char} (h : (stringBody text).closed = true) :
    stringBody (stringBody text).text = { stringBody text with rest := [] } := by
  fun_induction stringBody text with
  | case1 => simp at h
  | case2 rest => rfl
  | case3 => simp at h
  | case4 c rest body ih => simp [stringBody, ih h, body]
  | case5 c rest hquote hslash hescape body ih =>
    have hplain : c ≠ '\\' := by
      rintro rfl
      cases rest with
      | nil => exact hslash rfl rfl
      | cons d rest => exact hescape d rest rfl rfl
    simp [stringBody_plain hquote hplain, ih h, body]

theorem ofString_alone {rest : List Char} (h : (ofString rest).fault = none) :
    ofString (ofString rest).text.tail = (ofString rest).alone := by
  have hclosed : (stringBody rest).closed = true := by
    cases hbody : (stringBody rest).closed with
    | true => rfl
    | false => simp [ofString, hbody] at h
  simp [ofString, alone, stringBody_alone hclosed]

theorem ofChar_alone {rest : List Char} (h : (ofChar rest).fault = none) :
    ofChar (ofChar rest).text.tail = (ofChar rest).alone := by
  fun_cases ofChar rest with
  | case1 c rest => rfl
  | case6 c rest _ hslash hquote hline =>
    exact ofChar.eq_6 c [] (fun _ h _ => hslash h) hslash hquote hline
  | _ => simp_all [fault_malformedChar, ofChar]

theorem ofInteger_alone (radix : Nat) (digits text rest : List Char) :
    ofInteger radix digits text [] = (ofInteger radix digits text rest).alone := by
  simp only [ofInteger]
  split <;> rfl

theorem text_ofInteger (radix : Nat) (digits text rest : List Char) :
    (ofInteger radix digits text rest).text = text := by
  simp only [ofInteger]
  split <;> rfl

theorem inDigits_of_isDigit {c : Char} (h : c.isDigit = true) : inDigits 10 c = true := by
  simp [inDigits, Decimal.isDigitOf, Decimal.digitValue_lt_ten h]

theorem ofFraction_alone {whole rest : List Char} (hstarts : startsFraction rest = true)
    (h : (ofFraction whole rest).fault = none) :
    ∃ digits, (ofFraction whole rest).text = whole ++ '.' :: digits ∧
      startsFraction ('.' :: digits) = true ∧
      ofFraction whole ('.' :: digits) = (ofFraction whole rest).alone := by
  obtain ⟨d, rest, rfl, hdigit⟩ := eq_of_startsFraction hstarts
  have hfirst : (d :: rest).takeWhile (inDigits 10) = d :: rest.takeWhile (inDigits 10) :=
    List.takeWhile_cons_of_pos (inDigits_of_isDigit hdigit)
  have hsingle : ¬ startsFraction ((d :: rest).dropWhile (inDigits 10)) = true := by
    intro hagain
    simp [ofFraction, hagain, fault_faulty] at h
  refine ⟨(d :: rest).takeWhile (inDigits 10), ?_, hfirst ▸ hstarts, ?_⟩
  · simp only [ofFraction, List.drop_one, List.tail_cons]
    rw [if_neg hsingle]
    split <;> rfl
  · simp only [ofFraction, List.drop_one, List.tail_cons]
    rw [List.takeWhile_idem, dropWhile_takeWhile, if_neg hsingle,
      if_neg (by simp [startsFraction])]
    split <;> rfl

theorem ofDecimal_alone {first : Char} {rest : List Char}
    (h : (ofDecimal first rest).fault = none) :
    ofDecimal first (ofDecimal first rest).text.tail = (ofDecimal first rest).alone := by
  have hpoint : inDigits 10 '.' = false := by decide
  by_cases hstarts : startsFraction (rest.dropWhile (inDigits 10)) = true
  · have hread : ofDecimal first rest =
        ofFraction (first :: rest.takeWhile (inDigits 10)) (rest.dropWhile (inDigits 10)) :=
      if_pos hstarts
    rw [hread] at h ⊢
    obtain ⟨digits, htext, hagain, halone⟩ := ofFraction_alone hstarts h
    rw [htext, List.cons_append, List.tail_cons, ofDecimal, takeWhile_append_cons hpoint,
      dropWhile_append_cons hpoint, List.takeWhile_idem, dropWhile_takeWhile, List.nil_append,
      if_pos hagain, halone]
  · have hread : ofDecimal first rest =
        ofInteger 10 (withoutGroups (first :: rest.takeWhile (inDigits 10)))
          (first :: rest.takeWhile (inDigits 10)) (rest.dropWhile (inDigits 10)) :=
      if_neg hstarts
    rw [hread, text_ofInteger, List.tail_cons, ofDecimal, List.takeWhile_idem,
      dropWhile_takeWhile, if_neg (by simp [startsFraction])]
    exact ofInteger_alone _ _ _ _

theorem ofNumber_alone {first : Char} {rest : List Char} (h : (ofNumber first rest).fault = none) :
    ofNumber first (ofNumber first rest).text.tail = (ofNumber first rest).alone := by
  by_cases hmark : first = '0' → ∀ mark ∈ rest.head?, radixOf? mark = none
  · rw [ofNumber_of_unmarked hmark] at h ⊢
    obtain ⟨taken, htext, hrest⟩ := takes_ofDecimal first rest
    rw [ofNumber_of_unmarked, ofDecimal_alone h]
    -- The character behind the first one is the same with less text.
    intro hzero mark hfront
    apply hmark hzero
    rw [htext, List.tail_cons] at hfront
    rw [← hrest]
    cases taken with
    | nil => simp at hfront
    | cons c taken => exact hfront
  · push Not at hmark
    obtain ⟨rfl, mark, hfront, hmark⟩ := hmark
    obtain ⟨radix, hradix⟩ := Option.ne_none_iff_exists'.mp hmark
    obtain ⟨digits, rfl⟩ : ∃ digits, rest = mark :: digits := List.head?_eq_some_iff.mp hfront
    have hread : ∀ digits, ofNumber '0' (mark :: digits) = ofRadix radix mark digits := by
      intro digits
      simp [ofNumber, hradix]
    rw [hread, ofRadix, text_ofInteger, List.tail_cons, hread, ofRadix, List.takeWhile_idem,
      dropWhile_takeWhile]
    exact ofInteger_alone _ _ _ _

theorem wordOf_alone (isTail : Char → Bool) (first : Char) (rest : List Char) :
    wordOf isTail first (wordOf isTail first rest).text.tail =
      (wordOf isTail first rest).alone := by
  simp only [wordOf, List.tail_cons, List.takeWhile_idem, dropWhile_takeWhile]
  rfl

theorem symbol?_spelling (s : Symbol) : symbol? s.spelling = some s := by
  cases s <;> rfl

theorem symbol?_eq_none_of_longer {text more : List Char} (hle : text <+: more)
    (h : symbol? more = none) : symbol? text = none := by
  rw [symbol?, List.find?_eq_none] at h ⊢
  intro s hs hfront
  apply h s hs
  rw [List.isPrefixOf_iff_prefix] at hfront ⊢
  exact hfront.trans hle

theorem continued_alone {first : Char} {rest : List Char}
    (h : (continued first rest).fault = none) :
    continued first (continued first rest).text.tail = (continued first rest).alone := by
  unfold continued at h ⊢
  split_ifs at h ⊢ with hquote hsingle hdigit hword
  · exact ofString_alone h
  · exact ofChar_alone h
  · exact ofNumber_alone h
  · exact wordOf_alone Text.isIdentifierTail first rest
  · cases h

theorem exists_read_alone {first : Char} {rest : List Char} (h : (read first rest).fault = none) :
    ∃ taken, (read first rest).text = first :: taken ∧
      read first taken = (read first rest).alone := by
  obtain ⟨taken, htext, hrest⟩ := takes_read first rest
  refine ⟨taken, htext, ?_⟩
  cases hsymbol : symbol? (first :: rest) with
  | some s =>
    have hread : read first rest =
        { kind := .symbol s
          text := s.spelling
          rest := (first :: rest).drop s.spelling.length } := by
      rw [read, hsymbol]
    have hspelling : s.spelling = first :: taken := by rw [← htext, hread]
    have hagain : symbol? (first :: taken) = some s := hspelling ▸ symbol?_spelling s
    rw [hread, read, hagain]
    simp [hspelling, alone]
  | none =>
    have hagain : symbol? (first :: taken) = none := by
      refine symbol?_eq_none_of_longer ?_ hsymbol
      rw [← hrest]
      exact List.prefix_append (first :: taken) _
    have hread := read_of_symbol?_eq_none hsymbol
    rw [hread] at h htext ⊢
    have halone := continued_alone h
    rw [htext, List.tail_cons] at halone
    rw [read_of_symbol?_eq_none hagain, halone]

end Lexeme

namespace Lexes

theorem blank {text : List Char} {kinds : List TokenKind} (h : Lexes text kinds) :
    Lexes (' ' :: text) kinds := by
  have hlayout : (layout false (' ' :: text)).2 = (layout false text).2 := rfl
  cases h with
  | nil hend => exact .nil (hlayout.trans hend)
  | cons hstart clean tail => exact .cons (hlayout.trans hstart) clean tail

variable {first : Char} {rest : List Char}

theorem consText (hfirst : startsToken first = true)
    (clean : (Lexeme.read first rest).fault = none) {behind : List Char} {kinds : List TokenKind}
    (hbehind : behind = [] ∨ ∃ text, behind = ' ' :: text) (h : Lexes behind kinds) :
    Lexes ((Lexeme.read first rest).text ++ behind) ((Lexeme.read first rest).kind :: kinds) := by
  obtain ⟨taken, htext, halone⟩ := Lexeme.exists_read_alone clean
  have hread : Lexeme.read first (taken ++ behind) =
      (Lexeme.read first rest).alone.followedBy behind := by
    obtain rfl | ⟨text, rfl⟩ := hbehind
    · rw [List.append_nil, halone]
      rfl
    · rw [← halone]
      refine Lexeme.read_append (.inl rfl) ?_ text
      rw [halone]
      exact clean
  have hlexes : Lexes (first :: (taken ++ behind))
      ((Lexeme.read first (taken ++ behind)).kind :: kinds) := by
    refine .cons (by rw [layout_cons hfirst]) ?_ ?_
    · rw [hread]
      exact clean
    · rw [hread]
      exact h
  rw [hread] at hlexes
  rw [htext]
  exact hlexes

theorem consPiece (hfirst : startsToken first = true)
    (clean : (Lexeme.read first rest).fault = none) {pieces : List (List Char)}
    {kinds : List TokenKind} (h : Lexes ([' '].intercalate pieces) kinds) :
    Lexes ([' '].intercalate ((Lexeme.read first rest).text :: pieces))
      ((Lexeme.read first rest).kind :: kinds) := by
  cases pieces with
  | nil =>
    have hlexes := consText hfirst clean (.inl rfl) h
    simpa using hlexes
  | cons piece pieces =>
    have hlexes := consText hfirst clean (.inr ⟨_, rfl⟩) h.blank
    simpa using hlexes

end Lexes

def Token.textIn (source : String) (token : Token) : String :=
  String.Pos.Raw.extract source ⟨token.span.start⟩ ⟨token.span.stop⟩

theorem Source.utf8Len_eq_byteLength (text : List Char) :
    String.utf8Len text = byteLength text := by
  induction text with
  | nil => rfl
  | cons c rest ih =>
    rw [String.utf8Len_cons, byteLength, ih, Nat.add_comm]

theorem Token.textIn_eq {source : String} {before taken behind : List Char} (kind : TokenKind)
    (h : source.toList = before ++ taken ++ behind) :
    Token.textIn source ⟨kind, ⟨Source.byteLength before,
      Source.byteLength before + Source.byteLength taken⟩⟩ = String.ofList taken := by
  have hsource : source = String.ofList (before ++ taken ++ behind) := by
    rw [← h, String.ofList_toList]
  rw [hsource, Token.textIn, ← Source.utf8Len_eq_byteLength, ← Source.utf8Len_eq_byteLength]
  exact String.extract_of_valid before taken behind

/-- The texts of the given tokens, without the end of the text. -/
def piecesOf (source : String) (tokens : List Token) : List String :=
  (tokens.filter fun token => !token.kind.isEndOfFile).map (·.textIn source)

/-- The tokens of the source, with a single blank between any two of them. -/
def respaced (source : String) : String :=
  " ".intercalate (piecesOf source (tokenize source).tokens)

theorem piecesOf_cons {source : String} {token : Token} (h : token.kind.isEndOfFile = false)
    (tokens : List Token) :
    piecesOf source (token :: tokens) = token.textIn source :: piecesOf source tokens := by
  simp [piecesOf, h]

theorem lexes_pieces {source : String} {before text : List Char} {rounds : Nat}
    (hsource : source.toList = before ++ text) (hrounds : text.length < rounds)
    (hclean : ∀ token ∈ scan rounds (Source.byteLength before) text, token.fault = none) :
    ∃ kinds, (scan rounds (Source.byteLength before) text).map (·.token.kind) =
        kinds ++ [.endOfFile] ∧
      Lexes ([' '].intercalate ((piecesOf source ((scan rounds (Source.byteLength before) text).map
        (·.token))).map String.toList)) kinds := by
  -- `before` is what has been read, and its length in bytes is the position.
  induction rounds generalizing before text with
  | zero => omega
  | succ rounds ih =>
    have hgap := append_layout false text
    have hstarts := @startsToken_of_layout false text
    rw [scan] at hclean ⊢
    generalize layout false text = parts at hgap hstarts hclean ⊢
    obtain ⟨gap, behind⟩ := parts
    subst hgap
    cases behind with
    | nil => exact ⟨[], rfl, .nil rfl⟩
    | cons first rest =>
      have htakes := Lexeme.takes_read first rest
      have hread : source.toList = before ++ gap ++ (Lexeme.read first rest).text ++
          (Lexeme.read first rest).rest := by
        rw [List.append_assoc _ (Lexeme.read first rest).text, htakes.text_append, hsource,
          List.append_assoc]
      have hstart : Source.byteLength before + Source.byteLength gap =
          Source.byteLength (before ++ gap) := (Source.byteLength_append _ _).symm
      have hstop : Source.byteLength (before ++ gap) +
          Source.byteLength (Lexeme.read first rest).text =
            Source.byteLength (before ++ gap ++ (Lexeme.read first rest).text) :=
        (Source.byteLength_append _ _).symm
      have hshorter : (Lexeme.read first rest).rest.length < rounds := by
        have hle := htakes.rest_suffix.length_le
        simp only [List.length_append, List.length_cons] at hrounds
        omega
      simp only [hstart] at hclean ⊢
      obtain ⟨hfirst, hlater⟩ := List.forall_mem_cons.mp hclean
      rw [hstop] at hlater
      obtain ⟨kinds, hkinds, hlexes⟩ := ih hread hshorter hlater
      refine ⟨(Lexeme.read first rest).kind :: kinds, ?_, ?_⟩
      · rw [List.map_cons, hstop, hkinds, List.cons_append]
      · rw [List.map_cons, piecesOf_cons (Lexeme.isEndOfFile_read first rest), List.map_cons,
          Token.textIn_eq _ hread, String.toList_ofList, hstop]
        exact hlexes.consPiece (hstarts rfl) hfirst

/-- Where all tokens of a source are in order, the same tokens are read from their texts with single
blanks between them, whatever layout was there before. -/
theorem layout_does_not_matter (source : String) (h : (tokenize source).diagnostics = []) :
    (tokenize (respaced source)).diagnostics = [] ∧
      (tokenize (respaced source)).tokens.map (·.kind) =
        (tokenize source).tokens.map (·.kind) := by
  obtain ⟨kinds, hkinds, hlexes⟩ := @lexes_pieces source [] source.toList
    (source.toList.length + 1) rfl (Nat.lt_succ_self _)
    ((diagnostics_tokenize_eq_nil_iff source).mp h)
  have hrespaced : Lexes (respaced source).toList kinds := by
    rw [respaced, String.toList_intercalate]
    exact hlexes
  obtain ⟨hclean, hagain⟩ := hrespaced.tokenized
  refine ⟨hclean, hagain.trans ?_⟩
  rw [tokenize, List.map_map]
  exact hkinds.symm

/-- A comment, a line break and a missing blank; the blanks in the string stay. -/
theorem layout_does_not_matter_of_comment :
    (tokenize "let s=\"a  b\"# text\n;s+=0x1F").diagnostics = [] ∧
    respaced "let s=\"a  b\"# text\n;s+=0x1F" = "let s = \"a  b\" ; s += 0x1F" ∧
    (tokenize (respaced "let s=\"a  b\"# text\n;s+=0x1F")).diagnostics = [] ∧
    (tokenize (respaced "let s=\"a  b\"# text\n;s+=0x1F")).tokens.map (·.kind) =
      (tokenize "let s=\"a  b\"# text\n;s+=0x1F").tokens.map (·.kind) := by
  have hclean : (tokenize "let s=\"a  b\"# text\n;s+=0x1F").diagnostics = [] := by decide +kernel
  exact ⟨hclean, by decide +kernel, layout_does_not_matter _ hclean⟩

end StackScript
