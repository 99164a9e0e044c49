import ProtectedRegions.Text.Unprintable

/-
  Quoted texts — a text between quotes, on one line, with nothing invisible

  The quote is the apostrophe, unless the text has apostrophes and no double
  quotes. A backslash and the quote are written behind a backslash, the tab
  and the line controls by their letters, and what cannot be printed by its
  code point in two, four or eight hexadecimal digits.
-/

namespace ProtectedRegions
namespace Text

def apostrophe : Char := Char.ofNat 39

def doubleQuote : Char := Char.ofNat 34

def backslash : Char := Char.ofNat 92

/-- A number in hexadecimal, with zeros in front up to `width` digits. -/
def hex (width n : Nat) : Text :=
  let digits := Nat.toDigits 16 n
  List.replicate (width - digits.length) '0' ++ digits

/-- The written form of one character between `quote`s, given which characters
can be printed. -/
def quotedChar (printable : Char → Bool) (quote c : Char) : Text :=
  if c = quote ∨ c = backslash then [backslash, c]
  else if c = '\t' then [backslash, 't']
  else if c = '\n' then [backslash, 'n']
  else if c = '\r' then [backslash, 'r']
  else if printable c then [c]
  else if c.toNat < 0x100 then backslash :: 'x' :: hex 2 c.toNat
  else if c.toNat < 0x10000 then backslash :: 'u' :: hex 4 c.toNat
  else backslash :: 'U' :: hex 8 c.toNat

/-- The quote that a text is written between. -/
def quoteFor (t : Text) : Char :=
  if t.contains apostrophe && !t.contains doubleQuote then doubleQuote else apostrophe

/-- The text between quotes, given which characters can be printed. -/
def quotedWith (printable : Char → Bool) (t : Text) : Text :=
  let quote := quoteFor t
  quote :: t.flatMap (quotedChar printable quote) ++ [quote]

def quoted (t : Text) : Text := quotedWith isPrintable t

def isPrintableAscii (c : Char) : Bool := 0x20 ≤ c.toNat && c.toNat < 0x7F

/-- Bytes between quotes, each as the character of its number, with a letter in
front. -/
def quotedBytes (bytes : List UInt8) : Text :=
  'b' :: quotedWith isPrintableAscii (bytes.map fun b => Char.ofNat b.toNat)

end Text
end ProtectedRegions
