import Gemfile.Text.Printable

/-!
# Quoted text

The form in which messages show a text so that every character of it can be told.

* `quoteFor cs`     the quote that encloses `cs`: `'`, or `"` if `cs` has `'` and no `"`
* `encodeChar q c`  how `c` is written between two quotes `q`
* `quoted cs`       the whole written form

The backslash and the quote are escaped, line breaks and tabs have names, other characters that
cannot be printed are written by number, and everything else is itself.
-/

namespace Gemfile.Text

/-- the lower case hexadecimal digit worth `n < 16` -/
def hexDigit (n : Nat) : Char :=
  if n < 10 then Char.ofNat (0x30 + n) else Char.ofNat (0x57 + n)

/-- the last `width` hexadecimal digits of `n` -/
def hexDigits : Nat → Nat → List Char
  | 0, _ => []
  | width + 1, n => hexDigits width (n / 16) ++ [hexDigit (n % 16)]

/-- a character by its number, with two, four or eight digits as it needs -/
def encodeNumber (n : Nat) : List Char :=
  if n < 0x100 then '\\' :: 'x' :: hexDigits 2 n
  else if n < 0x10000 then '\\' :: 'u' :: hexDigits 4 n
  else '\\' :: 'U' :: hexDigits 8 n

def encodeChar (quote c : Char) : List Char :=
  if c = quote ∨ c = '\\' then ['\\', c]
  else if c = '\n' then ['\\', 'n']
  else if c = '\r' then ['\\', 'r']
  else if c = '\t' then ['\\', 't']
  else if isPrintable c then [c]
  else encodeNumber c.toNat

def quoteFor (cs : List Char) : Char :=
  if cs.contains '\x27' && !cs.contains '"' then '"' else '\x27'

def quotedChars (cs : List Char) : List Char :=
  let q := quoteFor cs
  q :: cs.flatMap (encodeChar q) ++ [q]

def quoted (s : String) : String := String.ofList (quotedChars s.toList)

end Gemfile.Text
