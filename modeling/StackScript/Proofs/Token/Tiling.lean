import StackScript.Proofs.Token.Spans

set_option autoImplicit false

/-!
# Tokens tile the source

Main statement: `tokens_tile_source`. The tokens of a text, in order or not, and the layout before
each of them and before the end make up the text: no character is left out and none is read twice.
`Tiles` says so piece by piece, and from it follows what the spans of the tokens say about the text
between them.
-/
namespace StackScript

namespace Source

/-- Blanks, and comments from a number sign to just before the end of the line or of the whole text.
What comes behind the layout tells whether a comment at its end is complete. -/
inductive IsLayout (behind : List Char) : List Char → Prop where
  | nil : IsLayout behind []
  | blank {c : Char} {rest : List Char} (h : c = ' ' ∨ c = '\t' ∨ c = '\n' ∨ c = '\r')
      (tail : IsLayout behind rest) : IsLayout behind (c :: rest)
  | comment {words rest : List Char} (inLine : '\n' ∉ words)
      (ends : rest ++ behind = [] ∨ (rest ++ behind).head? = some '\n')
      (tail : IsLayout behind rest) : IsLayout behind ('#' :: words ++ rest)

/-- The text from one offset to another is layout. -/
def LayoutBetween (text : List Char) (start stop : Nat) : Prop :=
  ∃ before gap behind, text = before ++ gap ++ behind ∧ byteLength before = start ∧
    byteLength (before ++ gap) = stop ∧ IsLayout behind gap

theorem byteLength_pos {text : List Char} (h : text ≠ []) : 0 < byteLength text := by
  cases text with
  | nil => exact absurd rfl h
  | cons c rest =>
    have hc := c.utf8Size_pos
    rw [byteLength]
    omega

end Source

open Source (IsLayout LayoutBetween byteLength byteLength_append)

/-- Layout and a token, again and again, and at last layout and the end of the text. The first piece
starts at the given offset. -/
inductive Tiles : Nat → List Char → List Token → Prop where
  | done {position : Nat} {gap : List Char} (layout : IsLayout [] gap) :
      Tiles position gap
        [⟨.endOfFile, ⟨position + byteLength gap, position + byteLength gap⟩⟩]
  | token {position : Nat} {gap taken rest : List Char} {kind : TokenKind} {tokens : List Token}
      (layout : IsLayout (taken ++ rest) gap) (nonempty : taken ≠ [])
      (inside : kind.isEndOfFile = false)
      (tail : Tiles (position + byteLength gap + byteLength taken) rest tokens) :
      Tiles position (gap ++ taken ++ rest)
        (⟨kind, ⟨position + byteLength gap, position + byteLength gap + byteLength taken⟩⟩ ::
          tokens)

/-- What is split off as layout is layout; inside a comment, the rest of the line comes first. -/
theorem isLayout_layout (text : List Char) :
    IsLayout (layout false text).2 (layout false text).1 ∧
      ∃ words rest, (layout true text).1 = words ++ rest ∧ '\n' ∉ words ∧
        (rest ++ (layout true text).2 = [] ∨ (rest ++ (layout true text).2).head? = some '\n') ∧
        IsLayout (layout true text).2 rest := by
  induction text with
  | nil => exact ⟨.nil, [], [], rfl, List.not_mem_nil, .inl rfl, .nil⟩
  | cons c text ih =>
    obtain ⟨hcode, words, rest, hsplit, hline, hends, hrest⟩ := ih
    have hinComment : layout true (c :: text) =
        (c :: (layout (c != '\n') text).1, (layout (c != '\n') text).2) := rfl
    constructor
    · simp only [layout, Bool.false_or]
      split
      · rename_i hfirst
        by_cases hmark : c = '#'
        · subst hmark
          change IsLayout (layout true text).2 ('#' :: (layout true text).1)
          rw [hsplit]
          exact .comment hline hends hrest
        · have hflag : ((c == '#') && (c != '\n')) = false := by simp [hmark]
          have hblank : c = ' ' ∨ c = '\t' ∨ c = '\n' ∨ c = '\r' := by
            simpa [hmark, or_assoc] using hfirst
          rw [hflag]
          exact .blank hblank hcode
      · exact .nil
    · by_cases hnewline : c = '\n'
      · subst hnewline
        rw [hinComment]
        exact ⟨[], _, rfl, List.not_mem_nil, .inr rfl, .blank (.inr (.inr (.inl rfl))) hcode⟩
      · have hflag : (c != '\n') = true := by simp [hnewline]
        rw [hinComment, hflag]
        refine ⟨c :: words, rest, congrArg (c :: ·) hsplit, ?_, hends, hrest⟩
        rw [List.mem_cons, not_or]
        exact ⟨Ne.symm hnewline, hline⟩

namespace Lexeme

theorem isEndOfFile_read (first : Char) (rest : List Char) :
    (read first rest).kind.isEndOfFile = false := by
  have hinteger : ∀ radix digits text rest,
      (ofInteger radix digits text rest).kind.isEndOfFile = false := by
    intro radix digits text rest
    simp only [ofInteger]
    split <;> rfl
  have hdecimal : (ofDecimal first rest).kind.isEndOfFile = false := by
    simp only [ofDecimal, ofFraction]
    split
    · split
      · rfl
      · split <;> rfl
    · exact hinteger _ _ _ _
  unfold read
  split
  · rfl
  · split
    · rfl
    · split
      · fun_cases ofChar rest <;> rfl
      · split
        · fun_cases ofNumber first rest with
          | case1 mark digits _ radix _ => exact hinteger _ _ _ _
          | _ => exact hdecimal
        · split
          · simp only [ofWord, wordOf, TokenKind.ofWord?]
            split <;> rfl
          · rfl

end Lexeme

/-- Every round takes a character, so the rounds are enough to come to the end of the text. -/
theorem tiles_scan {rounds : Nat} {text : List Char} (h : text.length < rounds) (position : Nat) :
    Tiles position text ((scan rounds position text).map (·.token)) := by
  induction rounds generalizing text position with
  | zero => omega
  | succ rounds ih =>
    have hgap := append_layout false text
    have hlayout := (isLayout_layout text).1
    rw [scan]
    generalize layout false text = parts at hgap hlayout
    obtain ⟨gap, behind⟩ := parts
    subst hgap
    cases behind with
    | nil =>
      rw [List.append_nil]
      exact .done hlayout
    | cons first rest =>
      have htakes := Lexeme.takes_read first rest
      have hshorter : (Lexeme.read first rest).rest.length < rounds := by
        have hle := htakes.rest_suffix.length_le
        simp only [List.length_append, List.length_cons] at h
        omega
      have hnonempty : (Lexeme.read first rest).text ≠ [] := by
        obtain ⟨taken, htext, -⟩ := htakes
        rw [htext]
        exact List.cons_ne_nil _ _
      have htext : gap ++ first :: rest =
          gap ++ (Lexeme.read first rest).text ++ (Lexeme.read first rest).rest := by
        rw [List.append_assoc, htakes.text_append]
      rw [htext, List.map_cons]
      refine .token ?_ hnonempty (Lexeme.isEndOfFile_read first rest) (ih hshorter _)
      rw [htakes.text_append]
      exact hlayout

theorem tiles_tokenize (source : String) :
    Tiles 0 source.toList (tokenize source).tokens :=
  tiles_scan (Nat.lt_succ_self _) 0

namespace Tiles

variable {position : Nat} {text : List Char} {tokens : List Token}

/-- The last token is the end of the text, at its end, and all others have a text of their own. -/
theorem exists_last (h : Tiles position text tokens) :
    ∃ inner, tokens = inner ++ [⟨.endOfFile,
        ⟨position + byteLength text, position + byteLength text⟩⟩] ∧
      ∀ token ∈ inner, token.kind.isEndOfFile = false ∧ token.span.start < token.span.stop := by
  induction h with
  | done layout => exact ⟨[], rfl, by simp⟩
  | @token position gap taken rest kind tokens layout nonempty inside tail ih =>
    obtain ⟨inner, rfl, hinner⟩ := ih
    have hpos := Source.byteLength_pos nonempty
    refine ⟨⟨kind, ⟨position + byteLength gap, position + byteLength gap + byteLength taken⟩⟩ ::
      inner, ?_, List.forall_mem_cons.mpr ⟨⟨inside, Nat.lt_add_of_pos_right hpos⟩, hinner⟩⟩
    simp only [byteLength_append, List.cons_append, Nat.add_assoc]

theorem start_ge (h : Tiles position text tokens) :
    ∀ token ∈ tokens, position ≤ token.span.start := by
  induction h with
  | done layout =>
    intro token htoken
    obtain rfl := List.mem_singleton.mp htoken
    exact Nat.le_add_right _ _
  | @token position gap taken rest kind tokens layout nonempty inside tail ih =>
    refine List.forall_mem_cons.mpr ⟨Nat.le_add_right _ _, fun token htoken => ?_⟩
    have hlater := ih token htoken
    omega

theorem pairwise (h : Tiles position text tokens) :
    tokens.Pairwise fun first second => first.span.stop ≤ second.span.start := by
  induction h with
  | done layout => exact List.pairwise_singleton _ _
  | token layout nonempty inside tail ih => exact List.pairwise_cons.mpr ⟨tail.start_ge, ih⟩

theorem layoutBetween {before : List Char} (h : Tiles position text tokens)
    (hposition : byteLength before = position) {front back : List Token} {token : Token}
    (htokens : tokens = front ++ token :: back) :
    LayoutBetween (before ++ text) ((front.getLast?.map (·.span.stop)).getD position)
      token.span.start := by
  -- `before` is the part of the text that lies before the tiles.
  induction h generalizing before front with
  | @done position gap layout =>
    obtain ⟨rfl, htoken⟩ : front = [] ∧ token = _ := by
      cases front with
      | nil => exact ⟨rfl, (List.cons.inj htokens).1.symm⟩
      | cons first front => simp at htokens
    subst htoken
    refine ⟨before, gap, [], (List.append_nil _).symm, hposition, ?_, layout⟩
    rw [byteLength_append, hposition]
  | @token position gap taken rest kind tokens layout nonempty inside tail ih =>
    cases front with
    | nil =>
      obtain rfl := (List.cons.inj htokens).1
      refine ⟨before, gap, taken ++ rest, by simp, hposition, ?_, layout⟩
      rw [byteLength_append, hposition]
    | cons first front =>
      obtain ⟨rfl, htail⟩ := List.cons.inj htokens
      have hbefore : byteLength (before ++ gap ++ taken) =
          position + byteLength gap + byteLength taken := by
        simp only [byteLength_append, hposition]
      have hlater := ih hbefore htail
      rw [List.getLast?_cons, Option.map_some, Option.getD_some]
      have hstop : ((front.getLast?).getD ⟨kind, ⟨position + byteLength gap,
          position + byteLength gap + byteLength taken⟩⟩).span.stop =
          (front.getLast?.map (·.span.stop)).getD
            (position + byteLength gap + byteLength taken) := by
        cases front.getLast? <;> rfl
      rw [hstop]
      simpa only [List.append_assoc] using hlater

end Tiles

/-- The tokens of a source are followed by a single end, at the end of the text. Each of the others
takes some text, they come one after another without overlap, they begin and end between
characters, and from the end of one to the start of the next, as before the first and before the
end, there is nothing but layout. -/
theorem tokens_tile_source (source : String) :
    Tiles 0 source.toList (tokenize source).tokens ∧
      (∃ inner, (tokenize source).tokens =
          inner ++ [⟨.endOfFile, ⟨source.utf8ByteSize, source.utf8ByteSize⟩⟩] ∧
        ∀ token ∈ inner, token.kind.isEndOfFile = false ∧ token.span.start < token.span.stop) ∧
      (tokenize source).tokens.Pairwise (fun first second => first.span.stop ≤ second.span.start) ∧
      (∀ token ∈ (tokenize source).tokens, token.span.LiesIn source) ∧
      ∀ front token back, (tokenize source).tokens = front ++ token :: back →
        LayoutBetween source.toList ((front.getLast?.map (·.span.stop)).getD 0)
          token.span.start := by
  have htiles := tiles_tokenize source
  refine ⟨htiles, ?_, htiles.pairwise, (liesIn_of_mem_tokenize source).1, ?_⟩
  · have hlast := htiles.exists_last
    rwa [Nat.zero_add, Source.byteLength_toList] at hlast
  · intro front token back htokens
    exact @Tiles.layoutBetween _ _ _ [] htiles rfl _ _ _ htokens

end StackScript
