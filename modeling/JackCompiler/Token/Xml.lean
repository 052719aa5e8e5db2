import JackCompiler.Token.Stream
/-!
# The token document

One element per token, named for its category, between `<tokens>` and `</tokens>`. Characters that
XML reserves are escaped, a string constant stands without its quotes, and an integer constant is
written by its value, so without leading zeros.
-/

namespace JackCompiler.Xml

/-- The form of a character inside an element. -/
def escape (c : Char) : List Char :=
  if c = '<' then "&lt;".toList
  else if c = '>' then "&gt;".toList
  else if c = '&' then "&amp;".toList
  else if c = '"' then "&quot;".toList
  else [c]

def escapeText (text : String) : String := String.ofList (text.toList.flatMap escape)

/-- The text of a lexeme in the document. -/
def contents : Lexeme → String
  | .string contents => contents
  | .integer digits => toString (decimalValue digits.toList)
  | lexeme => lexeme.text

/-- The element of a lexeme, on a line of its own. -/
def element (lexeme : Lexeme) : String :=
  let name := lexeme.kind.category.name
  "<" ++ name ++ "> " ++ escapeText (contents lexeme) ++ " </" ++ name ++ ">\n"

/-- The document of a list of tokens. -/
def document (tokens : List Token) : String :=
  "<tokens>\n" ++ String.join (tokens.map fun token => element token.lexeme) ++ "</tokens>\n"

end JackCompiler.Xml
