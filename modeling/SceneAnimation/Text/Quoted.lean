import SceneAnimation.Text.Shapeless
/-!
# Quoted text

A text between double quotes.  Quotes and backslashes follow a backslash; tab, line feed, carriage return and NUL are
written as letters, and other characters without a shape of their own by their code point.
-/
namespace SceneAnimation.Text

def hexText (n : Nat) : String := String.ofList (Nat.toDigits 16 n)

def quotedChar (c : Char) : String :=
  if c = '"' then "\\\""
  else if c = '\\' then "\\\\"
  else if c = '\n' then "\\n"
  else if c = '\t' then "\\t"
  else if c = '\r' then "\\r"
  else if c = '\x00' then "\\0"
  else if isShapeless c then "\\u\x7b" ++ hexText c.toNat ++ "\x7d"
  else String.singleton c

def quoted (s : String) : String := "\"" ++ String.join (s.toList.map quotedChar) ++ "\""

end SceneAnimation.Text
