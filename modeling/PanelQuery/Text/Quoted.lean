import PanelQuery.Text.Unprintable

/-! # Quoted text

Text between double quotes, with a backslash before a quote or a backslash and escapes for what a
reader would not see.

* **`Text.quoted`** — the quoted form;
* **`Text.asciiLower`** — text with its ASCII letters in lower case. -/

namespace PanelQuery.Text

/-- A character as it stands between quotes. -/
def escaped (c : Char) : List Char :=
  if c = '"' then ['\\', '"']
  else if c = '\\' then ['\\', '\\']
  else if c = '\n' then ['\\', 'n']
  else if c = '\r' then ['\\', 'r']
  else if c = '\t' then ['\\', 't']
  else if c.toNat = 0 then ['\\', '0']
  else if isUnprintable c then '\\' :: 'u' :: '\x7b' :: Nat.toDigits 16 c.toNat ++ ['\x7d']
  else [c]

/-- Text between double quotes. -/
def quoted (s : String) : String :=
  String.ofList ('"' :: s.toList.flatMap escaped ++ ['"'])

/-- The text with its ASCII letters in lower case. -/
def asciiLower (s : String) : String := String.ofList (s.toList.map Char.toLower)

end PanelQuery.Text
