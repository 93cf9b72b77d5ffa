import TagWrap.Text.Printable

/-!
# Quoted text

Messages quote a text that came from the outside, so that its ends and its
invisible characters can be seen. The text stands between double quotes. A double
quote and a backslash get a backslash, a few controls have a letter, and every
other character that is not shown as it is becomes its code point in braces.
-/
namespace TagWrap.Text

/-- The written form of one character inside quotes. -/
def quotedChar (char : Char) : Text :=
  if char = '"' then ['\\', '"']
  else if char = '\\' then ['\\', '\\']
  else if char = '\n' then ['\\', 'n']
  else if char = '\r' then ['\\', 'r']
  else if char = '\t' then ['\\', 't']
  else if char = '\x00' then ['\\', '0']
  else if isPrintable char then [char]
  else '\\' :: 'u' :: '\x7b' :: (Nat.toDigits 16 char.toNat ++ ['\x7d'])

/-- A text in double quotes. -/
def quoted (text : Text) : Text := '"' :: (text.flatMap quotedChar ++ ['"'])

end TagWrap.Text

namespace TagWrap

/-- A string in double quotes, with what cannot be shown written out. -/
def quotedString (text : String) : String := String.ofList (Text.quoted text.toList)

end TagWrap
