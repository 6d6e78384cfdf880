/-!
# String literals of PostScript

A literal stands between parentheses, which nest; a backslash takes the next character as it is.
Here every parenthesis and backslash is escaped and line ends become spaces, so a literal never
leaves its line.
-/

namespace LSystem.PostScript

def literalChar (c : Char) : List Char :=
  if c = '(' ∨ c = ')' ∨ c = '\\' then ['\\', c]
  else if c = '\n' ∨ c = '\r' then [' ']
  else [c]

/-- The text between the parentheses of a literal. -/
def literal (s : String) : String :=
  String.ofList (s.toList.flatMap literalChar)

end LSystem.PostScript
