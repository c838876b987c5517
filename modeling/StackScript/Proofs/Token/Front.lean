import StackScript.Proofs.Token.Spans

set_option autoImplicit false

/-!
# The token at the front of a text

Main statement: `readsFirst_of_read`. Where `Lexeme.read` takes just a certain piece of the text,
the scanner makes a token with the span of that piece, wherever in a source it stands, and goes on
with what is behind the piece as if nothing had been before it.
-/
namespace StackScript

theorem Decimal.digitValue_lt_ten {c : Char} (h : c.isDigit = true) : digitValue c < 10 := by
  have hvalue : digitValue c = c.toNat - '0'.toNat := if_pos h
  have hle : c.toNat ≤ 57 := by
    simp only [Char.isDigit, Bool.and_eq_true, decide_eq_true_eq] at h
    exact h.2
  have hzero : '0'.toNat = 48 := rfl
  omega

namespace Lexeme

/-- How a token is read that is no symbol, by its first character. -/
def continued (first : Char) (rest : List Char) : Lexeme :=
  if first == '"' then ofString rest
  else if first == '\'' then ofChar rest
  else if first.isDigit then ofNumber first rest
  else if Text.isIdentifierStart first then ofWord first rest
  else faulty (.unexpectedCharacter first) [first] rest

theorem read_of_symbol?_eq_none {first : Char} {rest : List Char}
    (h : symbol? (first :: rest) = none) : read first rest = continued first rest := by
  rw [read, h]
  rfl

def startsNoSymbol (c : Char) : Bool := Symbol.all.all fun s => s.spelling.head? != some c

theorem symbol?_eq_none_of_first {first : Char} (h : startsNoSymbol first = true)
    (rest : List Char) : symbol? (first :: rest) = none := by
  rw [symbol?, List.find?_eq_none]
  intro s hs hfront
  have hhead := List.all_eq_true.mp h s hs
  rw [List.isPrefixOf_iff_prefix] at hfront
  cases hspelling : s.spelling with
  | nil => cases s <;> cases hspelling
  | cons c spelling =>
    rw [hspelling, List.cons_prefix_cons] at hfront
    simp [hspelling, hfront.1] at hhead

theorem read_eq_continued {first : Char} (h : startsNoSymbol first = true) (rest : List Char) :
    read first rest = continued first rest :=
  read_of_symbol?_eq_none (symbol?_eq_none_of_first h rest)

theorem stringBody_plain {c : Char} (hquote : c ≠ '"') (hslash : c ≠ '\\') (rest : List Char) :
    stringBody (c :: rest) =
      { stringBody rest with
        value := c :: (stringBody rest).value
        text := c :: (stringBody rest).text } :=
  stringBody.eq_5 c rest (fun h => absurd h hquote) (fun h => absurd h hslash)
    fun _ _ h => absurd h hslash

theorem ofNumber_of_unmarked {first : Char} {rest : List Char}
    (h : first = '0' → ∀ mark ∈ rest.head?, radixOf? mark = none) :
    ofNumber first rest = ofDecimal first rest := by
  cases rest with
  | nil => rfl
  | cons mark digits =>
    rw [ofNumber]
    split
    · rename_i hzero
      rw [h (eq_of_beq hzero) mark rfl]
    · rfl

end Lexeme

def startsToken (c : Char) : Bool :=
  !(c == ' ' || c == '\t' || c == '\n' || c == '\r' || c == '#')

theorem layout_cons {first : Char} (h : startsToken first = true) (more : List Char) :
    layout false (first :: more) = ([], first :: more) := by
  simp only [startsToken, Bool.not_eq_true'] at h
  simp [layout, h]

theorem startsToken_of_layout {inComment : Bool} {text rest : List Char} {first : Char}
    (h : (layout inComment text).2 = first :: rest) : startsToken first = true := by
  induction text generalizing inComment with
  | nil => simp [layout] at h
  | cons c tail ih =>
    simp only [layout] at h
    split at h
    · exact ih h
    · rename_i hplain
      obtain ⟨rfl, -⟩ := List.cons.inj h
      simp only [Bool.or_eq_true, not_or, Bool.not_eq_true] at hplain
      simp [startsToken, hplain]

def Span.shift (offset : Nat) (span : Span) : Span := ⟨span.start + offset, span.stop + offset⟩

def Token.shift (offset : Nat) (token : Token) : Token := ⟨token.kind, token.span.shift offset⟩

def ScannedToken.shift (offset : Nat) (scanned : ScannedToken) : ScannedToken :=
  ⟨scanned.token.shift offset, scanned.fault⟩

def Diagnostic.shift (offset : Nat) (d : Diagnostic) : Diagnostic :=
  { d with span := d.span.shift offset }

theorem ScannedToken.diagnostic?_shift (offset : Nat) (scanned : ScannedToken) :
    (scanned.shift offset).diagnostic? = scanned.diagnostic?.map (·.shift offset) := by
  rw [diagnostic?, diagnostic?, Option.map_map]
  rfl

theorem diagnostics_shift (offset : Nat) (scanned : List ScannedToken) :
    (scanned.map (·.shift offset)).filterMap (·.diagnostic?) =
      (scanned.filterMap (·.diagnostic?)).map (·.shift offset) := by
  rw [List.filterMap_map, List.map_filterMap]
  congr 1
  funext token
  exact token.diagnostic?_shift offset

theorem scan_shift (rounds position offset : Nat) (text : List Char) :
    scan rounds (position + offset) text = (scan rounds position text).map (·.shift offset) := by
  induction rounds generalizing position text with
  | zero => rfl
  | succ rounds ih =>
    rw [scan, scan]
    generalize layout false text = parts
    obtain ⟨gap, behind⟩ := parts
    have hstart : position + offset + Source.byteLength gap =
        position + Source.byteLength gap + offset := by omega
    cases behind with
    | nil =>
      simp only [hstart]
      rfl
    | cons first rest =>
      have hstop : position + Source.byteLength gap + offset +
          Source.byteLength (Lexeme.read first rest).text = position + Source.byteLength gap +
            Source.byteLength (Lexeme.read first rest).text + offset := by omega
      simp only [hstart, hstop, ih, List.map_cons]
      rfl

theorem scan_rounds {rounds rounds' : Nat} {text : List Char} (h : text.length < rounds)
    (h' : text.length < rounds') (position : Nat) :
    scan rounds position text = scan rounds' position text := by
  induction rounds generalizing rounds' text position with
  | zero => omega
  | succ rounds ih =>
    obtain ⟨rounds', rfl⟩ : ∃ n, rounds' = n + 1 := ⟨rounds' - 1, by omega⟩
    have hgap := append_layout false text
    rw [scan, scan]
    generalize layout false text = parts at hgap
    obtain ⟨gap, behind⟩ := parts
    subst hgap
    cases behind with
    | nil => rfl
    | cons first rest =>
      have hle := (Lexeme.takes_read first rest).rest_suffix.length_le
      simp only [List.length_append, List.length_cons] at h h'
      simp only [List.cons.injEq, true_and]
      exact ih (by omega) (by omega) _

/-- Scanning reads `literal` as one token of this kind, and then `behind` as if it stood alone. -/
structure ReadsFirst (literal behind : String) (kind : TokenKind) (fault : Option LexicalFault) :
    Prop where
  next (rounds position : Nat) : scan (rounds + 1) position (literal ++ behind).toList =
    ⟨⟨kind, ⟨position, position + literal.utf8ByteSize⟩⟩, fault⟩ ::
      scan rounds (position + literal.utf8ByteSize) behind.toList
  tokens : (tokenize (literal ++ behind)).tokens = ⟨kind, ⟨0, literal.utf8ByteSize⟩⟩ ::
    (tokenize behind).tokens.map (·.shift literal.utf8ByteSize)
  diagnostics : (tokenize (literal ++ behind)).diagnostics =
    (fault.map fun f => ⟨f.code, .error, f.message, ⟨0, literal.utf8ByteSize⟩⟩).toList ++
      (tokenize behind).diagnostics.map (·.shift literal.utf8ByteSize)

theorem readsFirst_of_read {literal behind : String} {kind : TokenKind}
    {fault : Option LexicalFault} {first : Char} {taken : List Char}
    (hfirst : startsToken first = true) (hliteral : literal.toList = first :: taken)
    (h : Lexeme.read first (taken ++ behind.toList) =
      { kind, text := first :: taken, rest := behind.toList, fault }) :
    ReadsFirst literal behind kind fault := by
  have htext : (literal ++ behind).toList = first :: (taken ++ behind.toList) := by
    rw [String.toList_append, hliteral, List.cons_append]
  have hsize : Source.byteLength (first :: taken) = literal.utf8ByteSize := by
    rw [← hliteral, Source.byteLength_toList]
  have hnext : ∀ rounds position, scan (rounds + 1) position (literal ++ behind).toList =
      ⟨⟨kind, ⟨position, position + literal.utf8ByteSize⟩⟩, fault⟩ ::
        scan rounds (position + literal.utf8ByteSize) behind.toList := by
    intro rounds position
    rw [htext, scan, layout_cons hfirst]
    simp only [h, hsize, Source.byteLength, Nat.add_zero]
  have hwhole : scan ((literal ++ behind).toList.length + 1) 0 (literal ++ behind).toList =
      ⟨⟨kind, ⟨0, literal.utf8ByteSize⟩⟩, fault⟩ ::
        (scan (behind.toList.length + 1) 0 behind.toList).map (·.shift literal.utf8ByteSize) := by
    have hrounds : behind.toList.length < (literal ++ behind).toList.length := by
      rw [htext, List.length_cons, List.length_append]
      omega
    rw [hnext, scan_rounds hrounds (Nat.lt_succ_self _), scan_shift, Nat.zero_add]
  refine ⟨hnext, ?_, ?_⟩
  · simp only [tokenize, hwhole, List.map_cons, List.map_map]
    rfl
  · simp only [tokenize, hwhole]
    rw [List.filterMap_cons, diagnostics_shift]
    cases fault <;> rfl

end StackScript
