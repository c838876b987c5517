set_option autoImplicit false

/-!
# Places in a source text

A span is a pair of byte offsets into the UTF-8 form of a source text, the end exclusive. A location
is the line and the column of a place, both counted from one, columns in characters.
-/
namespace StackScript

structure Span where
  start : Nat
  stop : Nat
deriving DecidableEq, Inhabited

namespace Source

/-- The number of bytes of a text in UTF-8. -/
def byteLength (text : List Char) : Nat :=
  match text with
  | [] => 0
  | c :: rest => c.utf8Size + byteLength rest

theorem byteLength_append (a b : List Char) :
    byteLength (a ++ b) = byteLength a + byteLength b := by
  induction a with
  | nil => simp [byteLength]
  | cons c a ih => simp [byteLength, ih]; omega

structure Location where
  line : Nat
  column : Nat
deriving DecidableEq

def Location.first : Location := ⟨1, 1⟩

/-- The location of the character after `c`, if `c` is here. -/
def Location.after (here : Location) (c : Char) : Location :=
  if c == '\n' then ⟨here.line + 1, 1⟩ else ⟨here.line, here.column + 1⟩

/-- The location of a byte offset: that of the first character that starts at it or later, or the
end of the text. -/
def locate (here : Location) (offset : Nat) : List Char → Location
  | [] => here
  | c :: rest => if offset == 0 then here else locate (here.after c) (offset - c.utf8Size) rest

end Source

/-- The least span that covers both. -/
def Span.merge (a b : Span) : Span := ⟨min a.start b.start, max a.stop b.stop⟩

def Span.location (span : Span) (source : String) : Source.Location :=
  Source.locate .first span.start source.toList

end StackScript
