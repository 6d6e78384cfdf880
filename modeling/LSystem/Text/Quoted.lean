import LSystem.Text.Hidden

/-!
# Quoted text

Text between double quotes, as messages show it: on one line, with everything visible.
-/

namespace LSystem.Text

/-- The number in hexadecimal, in small letters. -/
def hexText (n : Nat) : String :=
  String.ofList (Nat.toDigits 16 n)

def escaped (c : Char) : String :=
  if c = '"' then "\\\""
  else if c = '\\' then "\\\\"
  else if c = '\n' then "\\n"
  else if c = '\r' then "\\r"
  else if c = '\t' then "\\t"
  else if c.toNat = 0 then "\\0"
  else if isHidden c then "\\u\x7b" ++ hexText c.toNat ++ "\x7d"
  else c.toString

def quoted (s : String) : String :=
  "\"" ++ String.join (s.toList.map escaped) ++ "\""

end LSystem.Text
