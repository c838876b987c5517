import StackScript.Proofs.Source.Places
import StackScript.Token.Scan

set_option autoImplicit false

/-!
# Where tokens stand

Main statement: `liesIn_of_mem_tokenize`. A token and the text left behind it make up the text it was
read from, whether or not the token is in order, and so do the layout and what follows it. So every
token, and every report about one, has a span that lies in the source.
-/
namespace StackScript

namespace Lexeme

/-- The token at the front of `first :: rest` takes the first character and perhaps more, and what it
does not take is left behind it. -/
def Takes (lexeme : Lexeme) (first : Char) (rest : List Char) : Prop :=
  ∃ taken, lexeme.text = first :: taken ∧ taken ++ lexeme.rest = rest

theorem text_append_stringBody (text : List Char) :
    (stringBody text).text ++ (stringBody text).rest = text := by
  fun_induction stringBody text with
  | case1 => rfl
  | case2 rest => rfl
  | case3 => rfl
  | case4 c rest body ih => exact congrArg ('\\' :: c :: ·) ih
  | case5 c rest _ _ _ body ih => exact congrArg (c :: ·) ih

theorem append_malformedTail (text : List Char) :
    (malformedTail text).1 ++ (malformedTail text).2 = text := by
  fun_induction malformedTail text with
  | case1 => rfl
  | case2 c rest hline => rfl
  | case3 c rest hline hquote => rfl
  | case4 c rest hline hquote text rest' hrest ih =>
    rw [hrest] at ih
    exact congrArg (c :: ·) ih

theorem takes_malformedChar (taken rest : List Char) :
    (malformedChar taken rest).Takes '\'' (taken ++ rest) := by
  refine ⟨taken ++ (malformedTail rest).1, rfl, ?_⟩
  show taken ++ (malformedTail rest).1 ++ (malformedTail rest).2 = _
  rw [List.append_assoc, append_malformedTail]

theorem takes_ofChar (rest : List Char) : (ofChar rest).Takes '\'' rest := by
  fun_cases ofChar rest with
  | case1 c rest => exact ⟨_, rfl, rfl⟩
  | case6 c rest => exact ⟨_, rfl, rfl⟩
  | _ => exact takes_malformedChar _ _

section Numbers

variable {first : Char} {taken rest whole : List Char}

theorem eq_of_startsFraction (h : startsFraction rest = true) :
    ∃ d after, rest = '.' :: d :: after ∧ d.isDigit = true := by
  unfold startsFraction at h
  split at h
  · exact ⟨_, _, rfl, h⟩
  · cases h

theorem takes_ofInteger (radix : Nat) (digits : List Char) (h : taken ++ rest = whole) :
    (ofInteger radix digits (first :: taken) rest).Takes first whole := by
  simp only [ofInteger]
  split <;> exact ⟨taken, rfl, h⟩

theorem takes_ofFraction (hstarts : startsFraction rest = true) (h : taken ++ rest = whole) :
    (ofFraction (first :: taken) rest).Takes first whole := by
  obtain ⟨d, rest, rfl, -⟩ := eq_of_startsFraction hstarts
  have hdigits : (taken ++ '.' :: (d :: rest).takeWhile (inDigits 10)) ++
      (d :: rest).dropWhile (inDigits 10) = whole := by
    rw [List.append_assoc, List.cons_append, List.takeWhile_append_dropWhile, h]
  simp only [ofFraction, List.drop_one, List.tail_cons]
  split
  · refine ⟨_, List.cons_append, ?_⟩
    show _ ++ List.takeWhile _ _ ++ List.dropWhile _ _ = _
    rw [List.append_assoc, List.takeWhile_append_dropWhile]
    exact hdigits
  · split <;> exact ⟨_, rfl, hdigits⟩

theorem takes_ofDecimal (first : Char) (rest : List Char) :
    (ofDecimal first rest).Takes first rest := by
  simp only [ofDecimal]
  split
  · rename_i hstarts
    exact takes_ofFraction hstarts List.takeWhile_append_dropWhile
  · exact takes_ofInteger _ _ List.takeWhile_append_dropWhile

theorem takes_ofNumber (first : Char) (rest : List Char) :
    (ofNumber first rest).Takes first rest := by
  fun_cases ofNumber first rest with
  | case1 mark digits hzero radix _ =>
    rw [eq_of_beq hzero]
    exact takes_ofInteger _ _ (congrArg (mark :: ·) List.takeWhile_append_dropWhile)
  | _ => exact takes_ofDecimal _ _

end Numbers

theorem takes_read (first : Char) (rest : List Char) : (read first rest).Takes first rest := by
  unfold read
  split
  · rename_i s hs
    have hfront : s.spelling <+: first :: rest := by
      rw [symbol?] at hs
      exact List.isPrefixOf_iff_prefix.mp (by simpa using List.find?_some hs)
    obtain ⟨c, spelling, hspelling⟩ : ∃ c spelling, s.spelling = c :: spelling := by
      cases s <;> exact ⟨_, _, rfl⟩
    rw [hspelling, List.cons_prefix_cons] at hfront
    rw [hspelling, hfront.1]
    exact ⟨spelling, rfl, List.prefix_iff_eq_append.mp hfront.2⟩
  · split
    · rename_i hquote
      rw [eq_of_beq hquote]
      exact ⟨_, rfl, text_append_stringBody rest⟩
    · split
      · rename_i hquote
        rw [eq_of_beq hquote]
        exact takes_ofChar rest
      · split
        · exact takes_ofNumber first rest
        · split
          · exact ⟨_, rfl, List.takeWhile_append_dropWhile⟩
          · exact ⟨_, rfl, rfl⟩

theorem Takes.text_append {lexeme : Lexeme} {first : Char} {rest : List Char}
    (h : lexeme.Takes first rest) : lexeme.text ++ lexeme.rest = first :: rest := by
  obtain ⟨taken, htext, rfl⟩ := h
  rw [htext, List.cons_append]

theorem Takes.rest_suffix {lexeme : Lexeme} {first : Char} {rest : List Char}
    (h : lexeme.Takes first rest) : lexeme.rest <:+ rest := by
  obtain ⟨taken, _, rfl⟩ := h
  exact List.suffix_append taken lexeme.rest

end Lexeme

theorem append_layout (inComment : Bool) (text : List Char) :
    (layout inComment text).1 ++ (layout inComment text).2 = text := by
  induction text generalizing inComment with
  | nil => rfl
  | cons c rest ih =>
    simp only [layout]
    split
    · exact congrArg (c :: ·) (ih _)
    · rfl

theorem liesIn_of_mem_scan {source : String} {before text : List Char} {rounds : Nat}
    (hsource : source.toList = before ++ text) :
    ∀ scanned ∈ scan rounds (Source.byteLength before) text, scanned.token.span.LiesIn source := by
  have hend : ∀ front back, source.toList = front ++ back →
      Source.IsBoundary source.toList (Source.byteLength front) :=
    fun front back h => ⟨front, back, h, rfl⟩
  -- `before` is what has been read, and its length in bytes is the position.
  induction rounds generalizing before text with
  | zero =>
    intro scanned hmem
    obtain rfl := List.mem_singleton.mp hmem
    exact Span.liesIn_of_isBoundary (Nat.le_refl _) (hend before text hsource)
      (hend before text hsource)
  | succ rounds ih =>
    intro scanned hmem
    have hgap := append_layout false text
    rw [scan] at hmem
    generalize layout false text = parts at hmem hgap
    obtain ⟨gap, behind⟩ := parts
    have hfront : source.toList = before ++ gap ++ behind := by
      rw [hsource, ← hgap, List.append_assoc]
    have hgapEnd : Source.byteLength before + Source.byteLength gap =
        Source.byteLength (before ++ gap) := (Source.byteLength_append before gap).symm
    cases behind with
    | nil =>
      obtain rfl := List.mem_singleton.mp hmem
      have hstart := hgapEnd ▸ hend _ _ hfront
      exact Span.liesIn_of_isBoundary (Nat.le_refl _) hstart hstart
    | cons first rest =>
      have hbehind : source.toList = before ++ gap ++ (Lexeme.read first rest).text ++
          (Lexeme.read first rest).rest := by
        rw [List.append_assoc, (Lexeme.takes_read first rest).text_append, hfront]
      have hlexemeEnd : Source.byteLength before + Source.byteLength gap +
          Source.byteLength (Lexeme.read first rest).text =
            Source.byteLength (before ++ gap ++ (Lexeme.read first rest).text) := by
        rw [Source.byteLength_append _ (Lexeme.read first rest).text, hgapEnd]
      obtain rfl | htail := List.mem_cons.mp hmem
      · exact Span.liesIn_of_isBoundary (Nat.le_add_right _ _) (hgapEnd ▸ hend _ _ hfront)
          (hlexemeEnd ▸ hend _ _ hbehind)
      · exact ih hbehind scanned (hlexemeEnd ▸ htail)

theorem liesIn_of_mem_tokenize (source : String) :
    (∀ token ∈ (tokenize source).tokens, token.span.LiesIn source) ∧
      ∀ d ∈ (tokenize source).diagnostics, d.span.LiesIn source := by
  have hscan := @liesIn_of_mem_scan source [] source.toList (source.toList.length + 1) rfl
  constructor
  · intro token htoken
    obtain ⟨scanned, hscanned, rfl⟩ := List.mem_map.mp htoken
    exact hscan scanned hscanned
  · intro d hd
    obtain ⟨scanned, hscanned, hfault⟩ := List.mem_filterMap.mp hd
    obtain ⟨fault, _, rfl⟩ := Option.map_eq_some_iff.mp hfault
    exact hscan scanned hscanned

end StackScript
