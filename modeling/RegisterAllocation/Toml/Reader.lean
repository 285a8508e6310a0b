import RegisterAllocation.Toml
import RegisterAllocation.Toml.Text

namespace RegisterAllocation.Toml

def taken (cs rest : List Char) : String := String.ofList (cs.take (cs.length - rest.length))

def decimal? (read : List Char) (isFloat : Bool) : List Char → Option (Value × List Char)
  | 'i' :: 'n' :: 'f' :: rest => some (.float (String.ofList ("fni".toList ++ read).reverse), rest)
  | 'n' :: 'a' :: 'n' :: rest => some (.float (String.ofList ("nan".toList ++ read).reverse), rest)
  | c :: rest =>
    if c = 'i' ∨ c = 'n' then none
    else if c.isDigit ∨ c = '+' ∨ c = '-' ∨ c = '_' then decimal? (c :: read) isFloat rest
    else if c = '.' ∨ c = 'e' ∨ c = 'E' then decimal? (c :: read) true rest
    else finish (c :: rest)
  | [] => finish []
where
  finish (rest : List Char) : Option (Value × List Char) :=
    let text := String.ofList read.reverse
    if read.isEmpty then none
    else if isFloat then some (.float text, rest)
    else some (.integer text, rest)

def isDigitOf (base : Char) (c : Char) : Bool :=
  c = '_' ||
    match base with
    | 'x' => (Json.Token.hexValue? c).isSome
    | 'o' => '0' ≤ c && c ≤ '7'
    | _ => c = '0' || c = '1'

def number? (cs : List Char) : Option (Value × List Char) :=
  match cs with
  | '0' :: base :: c :: rest =>
    if base = 'x' ∨ base = 'o' ∨ base = 'b' then
      let digits := (c :: rest).takeWhile (isDigitOf base)
      some (.integer (String.ofList ('0' :: base :: digits)), (c :: rest).drop digits.length)
    else if base = '.' ∨ base = 'e' ∨ base = 'E' then decimal? [] false cs
    else some (.integer "0", base :: c :: rest)
  | _ => decimal? [] false cs

def scalar? (cs : List Char) : Option (Value × List Char) :=
  if startsMoment cs then
    (moment? 0 {} false cs).map fun (form, rest) => (.moment form (taken cs rest), rest)
  else number? cs

def isKeyChar (c : Char) : Bool := c.isAlphanum || c = '-' || c = '_'

def keyPart? (cs : List Char) : Option (KeyPart × List Char) :=
  match cs with
  | '\x27' :: rest => (literal? [] rest).map fun (name, after) => ({ name := name }, after)
  | '"' :: rest => (basic? [] rest).map fun (name, after) =>
    ({ name := name, escaped := (taken rest after).toList.contains '\\' }, after)
  | cs =>
    match cs.takeWhile isKeyChar with
    | [] => none
    | bare => some ({ name := String.ofList bare }, cs.drop bare.length)

-- The parts of a key with points between them. Every part takes a character, so the length of the
-- text is fuel enough, here and below.
def key? : Nat → List Char → Option (Key × List Char)
  | 0, _ => none
  | fuel + 1, cs => do
    let (part, rest) ← keyPart? cs
    match skipBlanks rest with
    | '.' :: more =>
      let (parts, rest) ← key? fuel (skipBlanks more)
      some (part :: parts, rest)
    | rest => some ([part], rest)

mutual

def value? : Nat → List Char → Option (Value × List Char)
  | 0, _ => none
  | fuel + 1, cs =>
    match cs with
    | '"' :: '"' :: '"' :: rest => do
      let (s, rest) ← multiBasic? false [] (afterOpening rest)
      some (.str s, rest)
    | '\x27' :: '\x27' :: '\x27' :: rest => do
      let (s, rest) ← multiLiteral? [] (afterOpening rest)
      some (.str s, rest)
    | '"' :: rest => do
      let (s, rest) ← basic? [] rest
      some (.str s, rest)
    | '\x27' :: rest => do
      let (s, rest) ← literal? [] rest
      some (.str s, rest)
    | 't' :: 'r' :: 'u' :: 'e' :: rest => some (.bool true, rest)
    | 'f' :: 'a' :: 'l' :: 's' :: 'e' :: rest => some (.bool false, rest)
    | '[' :: rest => items? fuel [] rest
    | '\x7b' :: rest => pairs? fuel [] rest
    | cs => scalar? cs

def items? : Nat → List Value → List Char → Option (Value × List Char)
  | 0, _, _ => none
  | fuel + 1, read, cs => do
    match ← gap? false cs with
    | ']' :: rest => some (.arr read.reverse, rest)
    | ',' :: rest =>
      if read.isEmpty then none
      else
        match ← gap? false rest with
        | ']' :: rest => some (.arr read.reverse, rest)
        | cs => do
          let (v, rest) ← value? fuel cs
          items? fuel (v :: read) rest
    | cs =>
      if read.isEmpty then do
        let (v, rest) ← value? fuel cs
        items? fuel (v :: read) rest
      else none

def pairs? : Nat → List (Key × Value) → List Char → Option (Value × List Char)
  | 0, _, _ => none
  | fuel + 1, read, cs =>
    match skipBlanks cs, read with
    | '\x7d' :: rest, read => some (.table read.reverse, rest)
    | ',' :: rest, pair :: read => do
      let (next, rest) ← pair? fuel (skipBlanks rest)
      pairs? fuel (next :: pair :: read) rest
    | cs, [] => do
      let (next, rest) ← pair? fuel cs
      pairs? fuel [next] rest
    | _, _ => none

def pair? : Nat → List Char → Option ((Key × Value) × List Char)
  | 0, _ => none
  | fuel + 1, cs => do
    let (key, rest) ← key? fuel cs
    match skipBlanks rest with
    | '=' :: rest =>
      let (v, rest) ← value? fuel (skipBlanks rest)
      some ((key, v), rest)
    | _ => none

end

def head? (fuel : Nat) (cs : List Char) : Option (Line × List Char) :=
  match cs with
  | '[' :: rest => do
    let (key, rest) ← key? fuel (skipBlanks rest)
    match skipBlanks rest with
    | ']' :: ']' :: rest => some (.arrayTable key, rest)
    | _ => none
  | cs => do
    let (key, rest) ← key? fuel (skipBlanks cs)
    match skipBlanks rest with
    | ']' :: rest => some (.table key, rest)
    | _ => none

def line? (fuel : Nat) (cs : List Char) : Option (List Line × List Char) :=
  match skipBlanks cs with
  | [] => some ([], [])
  | '#' :: rest => (comment? rest).map fun rest => ([], rest)
  | '\n' :: rest => some ([], '\n' :: rest)
  | '\r' :: rest => some ([], '\r' :: rest)
  | cs => do
    let (line, rest) ← match cs with
      | '[' :: rest => head? fuel rest
      | cs => (pair? fuel cs).map fun ((key, v), rest) => (.pair key v, rest)
    match skipBlanks rest with
    | '#' :: rest => (comment? rest).map fun rest => ([line], rest)
    | rest => some ([line], rest)

-- A line counts as read before the break behind it is looked at.
def document (size : Nat) : Nat → List Char → Document
  | 0, _ => {}
  | fuel + 1, cs =>
    match line? size cs with
    | none => {}
    | some (found, []) => { lines := found, complete := true }
    | some (found, rest) =>
      match newline? rest with
      | none => { lines := found }
      | some rest =>
        let more := document size fuel rest
        { more with lines := found ++ more.lines }

def parse (text : String) : Document :=
  let cs := text.toList
  let size := 2 * cs.length + 2
  document size size cs

end RegisterAllocation.Toml
