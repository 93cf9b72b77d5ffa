import TagWrap.Text.Offset

/-!
# White space

The characters with the Unicode property `White_Space`, and the cutting of such
characters from the ends of a text. A tab, a line feed and a no-break space are
blank alike; a zero-width space is not.
-/
namespace TagWrap.Text

/-- Whether a character has the property `White_Space`. -/
def isBlank (char : Char) : Bool :=
  let code := char.toNat
  (0x09 ≤ code && code ≤ 0x0D) || code == 0x20 || code == 0x85 || code == 0xA0 ||
    code == 0x1680 || (0x2000 ≤ code && code ≤ 0x200A) || code == 0x2028 ||
    code == 0x2029 || code == 0x202F || code == 0x205F || code == 0x3000

/-- A text without its leading blanks. -/
def trimStart (text : Text) : Text := text.dropWhile isBlank

/-- A text without its trailing blanks. -/
def trimEnd (text : Text) : Text := (text.reverse.dropWhile isBlank).reverse

/-- A text without the blanks at either end. -/
def trim (text : Text) : Text := trimEnd (trimStart text)

end TagWrap.Text
