namespace RegisterAllocation.Json

inductive Token where
  | openObj | closeObj | openArr | closeArr | colon | comma
  | null
  | bool (value : Bool)
  | int (value : Int)
  | real (text : String)
  | str (value : String)
  deriving DecidableEq, Repr

namespace Token

def hexValue? (c : Char) : Option Nat :=
  if c.isDigit then some (c.toNat - '0'.toNat)
  else if 'a' ≤ c ∧ c ≤ 'f' then some (c.toNat - 'a'.toNat + 10)
  else if 'A' ≤ c ∧ c ≤ 'F' then some (c.toNat - 'A'.toNat + 10)
  else none

def isHighSurrogate (n : Nat) : Bool := 0xd800 ≤ n && n < 0xdc00

def isLowSurrogate (n : Nat) : Bool := 0xdc00 ≤ n && n < 0xe000

def replacement : Char := Char.ofNat 0xfffd

def ofUnit (n : Nat) : Char :=
  if isHighSurrogate n || isLowSurrogate n then replacement else Char.ofNat n

def ofPair (high low : Nat) : Char := Char.ofNat (0x10000 + (high - 0xd800) * 0x400 + (low - 0xdc00))

-- The state inside a string: what has been read, last character first, and a high surrogate that
-- waits for its partner.
structure Text where
  read : List Char := []
  high : Option Nat := none

namespace Text

def settle (t : Text) : List Char :=
  match t.high with
  | none => t.read
  | some _ => replacement :: t.read

def push (t : Text) (c : Char) : Text := { read := c :: t.settle }

def pushUnit (t : Text) (n : Nat) : Text :=
  match t.high with
  | some high =>
    if isLowSurrogate n then { read := ofPair high n :: t.read }
    else if isHighSurrogate n then { read := t.settle, high := some n }
    else { read := ofUnit n :: t.settle }
  | none => if isHighSurrogate n then { t with high := some n } else { read := ofUnit n :: t.read }

def value (t : Text) : String := String.ofList t.settle.reverse

end Text

-- How far a number has been read. Digits are needed after the sign, the point and the exponent, and
-- a leading zero stands alone.
inductive NumberPart where
  | sign | zero | whole | point | fraction | exponent | exponentSign | exponentDigits
  deriving DecidableEq, Repr

namespace NumberPart

def next? (part : NumberPart) (c : Char) : Option NumberPart :=
  match part with
  | .sign => if c = '0' then some .zero else if c.isDigit then some .whole else none
  | .zero =>
    if c = '.' then some .point else if c = 'e' ∨ c = 'E' then some .exponent else none
  | .whole =>
    if c.isDigit then some .whole else if c = '.' then some .point
    else if c = 'e' ∨ c = 'E' then some .exponent else none
  | .point => if c.isDigit then some .fraction else none
  | .fraction =>
    if c.isDigit then some .fraction else if c = 'e' ∨ c = 'E' then some .exponent else none
  | .exponent =>
    if c.isDigit then some .exponentDigits else if c = '+' ∨ c = '-' then some .exponentSign
    else none
  | .exponentSign => if c.isDigit then some .exponentDigits else none
  | .exponentDigits => if c.isDigit then some .exponentDigits else none

def isComplete : NumberPart → Bool
  | .zero | .whole | .fraction | .exponentDigits => true
  | .sign | .point | .exponent | .exponentSign => false

end NumberPart

def digitsValue (digits : List Char) : Nat :=
  digits.foldl (fun n c => 10 * n + (c.toNat - '0'.toNat)) 0

def ofNumber (part : NumberPart) (chars : List Char) : Token :=
  match part, chars with
  | .zero, '-' :: digits | .whole, '-' :: digits => .int (-(digitsValue digits : Int))
  | .zero, digits | .whole, digits => .int (digitsValue digits)
  | _, chars => .real (String.ofList chars)

inductive Scan where
  | idle
  | word (read : List Char)
  | number (part : NumberPart) (read : List Char)
  | string (text : Text)
  | escape (text : Text)
  | unicode (text : Text) (left value : Nat)

def isBlank (c : Char) : Bool := c = ' ' || c = '\t' || c = '\n' || c = '\r'

def ofWord? (word : String) : Option Token :=
  match word with
  | "null" => some .null
  | "true" => some (.bool true)
  | "false" => some (.bool false)
  | _ => none

def begin? (c : Char) : Option (Scan × List Token) :=
  match c with
  | '\x7b' => some (.idle, [.openObj])
  | '\x7d' => some (.idle, [.closeObj])
  | '[' => some (.idle, [.openArr])
  | ']' => some (.idle, [.closeArr])
  | ':' => some (.idle, [.colon])
  | ',' => some (.idle, [.comma])
  | '"' => some (.string {}, [])
  | '-' => some (.number .sign [c], [])
  | '0' => some (.number .zero [c], [])
  | c =>
    if isBlank c then some (.idle, [])
    else if c.isDigit then some (.number .whole [c], [])
    else if c.isLower then some (.word [c], [])
    else none

def unescaped? (c : Char) : Option Char :=
  match c with
  | '"' | '\\' | '/' => some c
  | 'b' => some '\x08'
  | 'f' => some '\x0c'
  | 'n' => some '\n'
  | 'r' => some '\r'
  | 't' => some '\t'
  | _ => none

def close? : Scan → Option (List Token)
  | .idle => some []
  | .word read => (ofWord? (String.ofList read.reverse)).map fun t => [t]
  | .number part read => if part.isComplete then some [ofNumber part read.reverse] else none
  | .string _ | .escape _ | .unicode .. => none

def step? (state : Scan) (c : Char) : Option (Scan × List Token) :=
  let restart : Option (Scan × List Token) := do
    let done ← close? state
    let (state, more) ← begin? c
    some (state, done ++ more)
  match state with
  | .idle => restart
  | .word read => if c.isLower then some (.word (c :: read), []) else restart
  | .number part read =>
    match part.next? c with
    | some part => some (.number part (c :: read), [])
    | none => restart
  | .string text =>
    if c = '"' then some (.idle, [.str text.value])
    else if c = '\\' then some (.escape text, [])
    else if c.toNat < 0x20 then none
    else some (.string (text.push c), [])
  | .escape text =>
    if c = 'u' then some (.unicode text 4 0, [])
    else (unescaped? c).map fun c => (.string (text.push c), [])
  | .unicode text left value => do
    let digit ← hexValue? c
    let value := value * 16 + digit
    if left ≤ 1 then some (.string (text.pushUnit value), [])
    else some (.unicode text (left - 1) value, [])

structure Progress where
  state : Scan := .idle
  done : List Token := []

def Progress.step? (p : Progress) (c : Char) : Option Progress :=
  (Token.step? p.state c).map fun (state, found) => ⟨state, found.reverse ++ p.done⟩

def scan? (chars : List Char) : Option (List Token) := do
  let p ← chars.foldlM Progress.step? {}
  let last ← close? p.state
  some (p.done.reverse ++ last)

end Token

end RegisterAllocation.Json
