import BlockLang.Text.Printable

/-!
# Quoted text

The quoted form of a text stands on one line and shows every character. It is set in single quotes,
or in double quotes if the text holds a single quote and no double quote. The enclosing quote and
the backslash are escaped by a backslash, tab, line feed and carriage return have letters of their
own, and any other character that is not printable is written by its code point, with as few
hexadecimal digits as its size allows: two, four or eight.

## Main definitions

* `hexDigits width n`: the lowest hexadecimal digits of a number
* `quoteMark s`: the quote a text is set in
* `escapeChar mark c`: the form of one character
* `quoted s`: the quoted form of a text
-/

namespace BlockLang.Text

/-- The hexadecimal digit of a number below sixteen. -/
def hexDigit (n : Nat) : Char := Char.ofNat (if n < 10 then 48 + n else 87 + n)

/-- The lowest `width` hexadecimal digits of a number, the highest first. -/
def hexDigits : Nat → Nat → List Char
  | 0, _ => []
  | width + 1, n => hexDigits width (n / 16) ++ [hexDigit (n % 16)]

/-- The quote that encloses a text. -/
def quoteMark (s : List Char) : Char :=
  if '\'' ∈ s ∧ '"' ∉ s then '"' else '\''

/-- The form of a character that is not printable. -/
def escapeCode (n : Nat) : List Char :=
  if n < 0x100 then '\\' :: 'x' :: hexDigits 2 n
  else if n < 0x10000 then '\\' :: 'u' :: hexDigits 4 n
  else '\\' :: 'U' :: hexDigits 8 n

/-- The form of a character inside quotes. -/
def escapeChar (mark c : Char) : List Char :=
  if c = mark ∨ c = '\\' then ['\\', c]
  else if c = '\t' then ['\\', 't']
  else if c = '\n' then ['\\', 'n']
  else if c = '\r' then ['\\', 'r']
  else if isPrintable c then [c]
  else escapeCode c.toNat

/-- The quoted form of a text. -/
def quoted (s : String) : String :=
  let mark := quoteMark s.toList
  String.ofList (mark :: s.toList.flatMap (escapeChar mark) ++ [mark])

end BlockLang.Text
