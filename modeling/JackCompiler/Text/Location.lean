import JackCompiler.Text.Span
/-!
# Lines, columns and snippets

Lines end at `\n` alone, for counting: a position is one more than the number of line ends before
it, and one more than the number of characters since the last of them. For showing, the line around
a position also takes in a `\r` that follows its `\n`, and a `\r` right after the `\n` before it is
skipped.
-/

namespace JackCompiler

/-- A one-based line and column. Columns count characters. -/
structure Position where
  line : Nat
  column : Nat
  deriving DecidableEq, Repr

/-- The position right after `head`, the text from the start of the source. -/
def Position.after (head : List Char) : Position where
  line := head.count '\n' + 1
  column := (head.reverse.takeWhile (· ≠ '\n')).length + 1

namespace Text

/-- The last line start at or before the offset `index`, as an offset and the text from there.
`start` is the line start found so far, and `offset` that of the text still to be searched. -/
def lineStart (index : Nat) (start : Nat × List Char) (offset : Nat) :
    List Char → Nat × List Char
  | [] => start
  | c :: text =>
    if index ≤ offset then start
    else if c = '\n' then
      match text with
      | '\r' :: rest => lineStart index (offset + 2, rest) (offset + 2) rest
      | text => lineStart index (offset + 1, text) (offset + 1) text
    else lineStart index start (offset + c.utf8Size) text

/-- The text up to the first line end at or after the offset `index`, with that line end. -/
def throughLineEnd (index : Nat) (offset : Nat) : List Char → List Char
  | [] => []
  | c :: text =>
    if c = '\n' ∧ index ≤ offset then
      match text with
      | '\r' :: _ => ['\n', '\r']
      | _ => ['\n']
    else c :: throughLineEnd index (offset + c.utf8Size) text

/-- The text without the line ends and carriage returns it closes with. -/
def trimLineEnd (line : List Char) : List Char :=
  (line.reverse.dropWhile fun c => c = '\n' || c = '\r').reverse

end Text

namespace Span

/-- The position of the span's first character. -/
def position (span : Span) (text : String) : Position :=
  .after (Text.before span.index text.toList)

/-- The position of the span's first character, when the span begins between two characters. -/
def position? (span : Span) (text : String) : Option Position :=
  if Text.onBoundary span.index text.toList then some (span.position text) else none

/-- The line the span begins on, with its line end, and where that line lies. -/
def surroundingLine (span : Span) (text : String) : String × Span :=
  let (start, rest) := Text.lineStart span.index (0, text.toList) 0 text.toList
  let line := Text.throughLineEnd span.index start rest
  (String.ofList line, ⟨start, Text.byteLength line⟩)

end Span

/-- Where something went wrong, with the line to show for it. -/
structure Location where
  position : Position
  text : String
  deriving DecidableEq, Repr

namespace Location

/-- The location of a span of a source. -/
def ofSpan (source : String) (span : Span) : Location where
  position := span.position source
  text := String.ofList (Text.trimLineEnd (span.surroundingLine source).1.toList)

/-- The location of a span of a source, when the span begins between two characters. -/
def ofSpan? (source : String) (span : Span) : Option Location :=
  if Text.onBoundary span.index source.toList then some (ofSpan source span) else none

/-- The line and column as `line:column`. -/
def label (location : Location) : String :=
  toString location.position.line ++ ":" ++ toString location.position.column

/-- The line, and below it a caret under the column. The caret's indent repeats the tabs of the
line, so that both lines shift alike. -/
def snippet (location : Location) : String :=
  let indent := (location.text.toList.take (location.position.column - 1)).map fun c =>
    if c = '\t' then '\t' else ' '
  "    " ++ location.text ++ "\n    " ++ String.ofList indent ++ "^"

end Location

end JackCompiler
