/-!
# Byte spans

A place in a source is a span of the bytes of its UTF-8 form. The text itself stays a list of
characters, so a cut can fall inside a character; `splitAtByte?` and `Span.slice?` have no answer
there, and `onBoundary` says when they have one.

Offsets are unbounded here, and so are the lines and columns that come of them. A span of 32-bit
offsets is one of these as long as the source is shorter than 4 GiB; everything said of spans,
places and tokens is about such sources.
-/

namespace JackCompiler

namespace Text

/-- The number of bytes of the UTF-8 form. -/
def byteLength : List Char → Nat
  | [] => 0
  | c :: text => c.utf8Size + byteLength text

/-- The text before a byte offset, and the text from there on. -/
def splitAtByte? : Nat → List Char → Option (List Char × List Char)
  | 0, text => some ([], text)
  | _ + 1, [] => none
  | n + 1, c :: text =>
    if c.utf8Size ≤ n + 1 then
      (splitAtByte? (n + 1 - c.utf8Size) text).map fun (before, after) => (c :: before, after)
    else none

/-- Whether an offset lies between two characters. Every offset at or past the end does. -/
def onBoundary : Nat → List Char → Bool
  | 0, _ => true
  | _, [] => true
  | n + 1, c :: text => c.utf8Size ≤ n + 1 && onBoundary (n + 1 - c.utf8Size) text

/-- The characters that begin before a byte offset. -/
def before : Nat → List Char → List Char
  | 0, _ => []
  | _, [] => []
  | n + 1, c :: text => c :: before (n + 1 - c.utf8Size) text

@[simp]
theorem byteLength_append (a b : List Char) :
    byteLength (a ++ b) = byteLength a + byteLength b := by
  induction a with
  | nil => simp [byteLength]
  | cons c a ih => simp [byteLength, ih, Nat.add_assoc]

end Text

/-- A run of bytes: where it begins, and how many there are. -/
structure Span where
  index : Nat
  size : Nat
  deriving DecidableEq, Repr, Inhabited

namespace Span

/-- The offset just past the span. -/
def stop (span : Span) : Nat := span.index + span.size

/-- The characters the span covers, when it lies inside the text and both ends are boundaries. -/
def slice? (span : Span) (text : String) : Option String := do
  let (_, rest) ← Text.splitAtByte? span.index text.toList
  let (slice, _) ← Text.splitAtByte? span.size rest
  return String.ofList slice

end Span

end JackCompiler
