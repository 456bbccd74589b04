import SampleSchema.Text.Printable
import SampleSchema.Text.Utf8
/-!
# Quoted texts

Messages show a text inside quotes. The quotes are single ones, unless the text has a single
quote and no double one. Inside, a backslash, the quote itself, the three common controls
and everything that is not printable are escapes; the longer the number of a character, the
longer its escape. Octets are quoted the same way behind a letter, and there only the
printable characters of ASCII stand for themselves.
-/

namespace SampleSchema.Text

/-- The quote that a text is put in. -/
def quoteFor (cs : List Char) : Char :=
  if cs.contains '\'' && !cs.contains '"' then '"' else '\''

/-- The numeric escape of a character, of the least width that holds it. -/
def numericEscape (c : Char) : List Char :=
  let n := c.toNat
  if n ≤ 0xff then '\\' :: 'x' :: hexDigits 2 n
  else if n ≤ 0xffff then '\\' :: 'u' :: hexDigits 4 n
  else '\\' :: 'U' :: hexDigits 8 n

/-- A character inside quotes; `shown` says which ones stand for themselves. -/
def quotedChar (quote : Char) (shown : Char → Bool) (c : Char) : List Char :=
  if c = '\\' ∨ c = quote then ['\\', c]
  else if c = '\t' then ['\\', 't']
  else if c = '\n' then ['\\', 'n']
  else if c = '\r' then ['\\', 'r']
  else if shown c then [c]
  else numericEscape c

/-- A text in quotes. -/
def quoted (cs : List Char) : List Char :=
  let quote := quoteFor cs
  quote :: (cs.flatMap (quotedChar quote isPrintable) ++ [quote])

/-- Octets in quotes, one character for each. -/
def quotedOctets (octets : List UInt8) : List Char :=
  let cs := octets.map fun octet => Char.ofNat octet.toNat
  let quote := quoteFor cs
  let shown c := 0x20 ≤ c.toNat && c.toNat < 0x7f
  'b' :: quote :: (cs.flatMap (quotedChar quote shown) ++ [quote])

end SampleSchema.Text
