import JackCompiler.Text.Concealed
/-!
# Quoting a character

A character is shown between single quotes. A NUL, a tab, a carriage return, a line feed, a single
quote and a backslash have a short escape, and a character that does not show is written by its
code point.
-/

namespace JackCompiler.Text

/-- The code point in lower-case hexadecimal between `\u{` and `}`. -/
def codePointEscape (c : Char) : String :=
  "\\u\x7b" ++ String.ofList (Nat.toDigits 16 c.toNat) ++ "\x7d"

/-- The escape of a character that is not shown as itself. -/
def escape? (c : Char) : Option String :=
  if c = '\x00' then some "\\0"
  else if c = '\t' then some "\\t"
  else if c = '\r' then some "\\r"
  else if c = '\n' then some "\\n"
  else if c = '\'' then some "\\'"
  else if c = '\\' then some "\\\\"
  else if isConcealed c then some (codePointEscape c)
  else none

/-- The character between single quotes. -/
def quoted (c : Char) : String := "'" ++ (escape? c).getD (String.singleton c) ++ "'"

end JackCompiler.Text
