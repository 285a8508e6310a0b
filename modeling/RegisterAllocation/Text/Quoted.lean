import RegisterAllocation.Text.Printable

namespace RegisterAllocation.Text

def hexDigit (n : Nat) : Char :=
  if n < 10 then Char.ofNat ('0'.toNat + n) else Char.ofNat ('a'.toNat + (n - 10))

def hexDigits : Nat → Nat → List Char
  | 0, _ => []
  | width + 1, n => hexDigits width (n / 16) ++ [hexDigit (n % 16)]

-- Seven controls have a letter of their own; of the rest the short ones take two digits, those of
-- the first plane four and all others eight.
def escaped (c : Char) : List Char :=
  match c with
  | '"' => ['\\', '"']
  | '\\' => ['\\', '\\']
  | '\n' => ['\\', 'n']
  | '\r' => ['\\', 'r']
  | '\t' => ['\\', 't']
  | '\x07' => ['\\', 'a']
  | '\x08' => ['\\', 'b']
  | '\x0b' => ['\\', 'v']
  | '\x0c' => ['\\', 'f']
  | c =>
    if isPrintable c then [c]
    else if c.toNat < 0x80 then '\\' :: 'x' :: hexDigits 2 c.toNat
    else if c.toNat < 0x10000 then '\\' :: 'u' :: hexDigits 4 c.toNat
    else '\\' :: 'U' :: hexDigits 8 c.toNat

def quoted (s : String) : String :=
  String.ofList ('"' :: s.toList.flatMap escaped ++ ['"'])

end RegisterAllocation.Text
