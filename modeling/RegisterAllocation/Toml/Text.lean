import RegisterAllocation.Json.Token

namespace RegisterAllocation.Toml

def isBlank (c : Char) : Bool := c = ' ' || c = '\t'

def isControl (c : Char) : Bool :=
  (c.toNat < 0x20 && c ≠ '\t' && c ≠ '\n' && c ≠ '\r') || c.toNat = 0x7f

def skipBlanks (cs : List Char) : List Char := cs.dropWhile isBlank

def newline? : List Char → Option (List Char)
  | '\n' :: rest => some rest
  | '\r' :: '\n' :: rest => some rest
  | _ => none

def comment? : List Char → Option (List Char)
  | [] => some []
  | '\n' :: rest => some ('\n' :: rest)
  | '\r' :: '\n' :: rest => some ('\n' :: rest)
  | '\r' :: _ => none
  | c :: rest => if isControl c then none else comment? rest

def gap? : Bool → List Char → Option (List Char)
  | _, [] => some []
  | _, '\n' :: rest => gap? false rest
  | _, '\r' :: '\n' :: rest => gap? false rest
  | _, '\r' :: _ => none
  | true, c :: rest => if isControl c then none else gap? true rest
  | false, '#' :: rest => gap? true rest
  | false, c :: rest => if isBlank c then gap? false rest else some (c :: rest)

def codePoint? (digits : List Char) : Option Char := do
  let n ← digits.foldlM (fun n c => (Json.Token.hexValue? c).map (n * 16 + ·)) 0
  if n.isValidChar then some (Char.ofNat n) else none

def escape? (c : Char) : Option Char :=
  match c with
  | '"' | '\\' => some c
  | 'b' => some '\x08'
  | 'e' => some '\x1b'
  | 'f' => some '\x0c'
  | 'n' => some '\n'
  | 'r' => some '\r'
  | 't' => some '\t'
  | _ => none

def basic? (read : List Char) : List Char → Option (String × List Char)
  | [] => none
  | '"' :: rest => some (String.ofList read.reverse, rest)
  | '\\' :: 'u' :: a :: b :: c :: d :: rest => do
    let x ← codePoint? [a, b, c, d]
    basic? (x :: read) rest
  | '\\' :: 'U' :: a :: b :: c :: d :: e :: f :: g :: h :: rest => do
    let x ← codePoint? [a, b, c, d, e, f, g, h]
    basic? (x :: read) rest
  | '\\' :: c :: rest => do
    let x ← escape? c
    basic? (x :: read) rest
  | c :: rest => if c = '\n' ∨ c = '\r' ∨ c = '\\' ∨ isControl c then none else basic? (c :: read) rest

def literal? (read : List Char) : List Char → Option (String × List Char)
  | [] => none
  | '\x27' :: rest => some (String.ofList read.reverse, rest)
  | c :: rest => if c = '\n' ∨ c = '\r' ∨ isControl c then none else literal? (c :: read) rest

-- After three closing quotes up to two more belong to the text, and a third is one too many.
def closing? (quote : Char) (read : List Char) (rest : List Char) : Option (String × List Char) :=
  let extra := (rest.takeWhile (· = quote)).length
  if extra < 3 then
    some (String.ofList (read.reverse ++ List.replicate extra quote), rest.drop extra)
  else none

-- A backslash with nothing but blanks behind it on its line joins the next line that has text.
def joinsLines (rest : List Char) : Bool := (newline? (skipBlanks rest)).isSome

def multiBasic? (joining : Bool) (read : List Char) : List Char → Option (String × List Char)
  | [] => none
  | '"' :: '"' :: '"' :: rest => closing? '"' read rest
  | '\\' :: 'u' :: a :: b :: c :: d :: rest => do
    let x ← codePoint? [a, b, c, d]
    multiBasic? false (x :: read) rest
  | '\\' :: 'U' :: a :: b :: c :: d :: e :: f :: g :: h :: rest => do
    let x ← codePoint? [a, b, c, d, e, f, g, h]
    multiBasic? false (x :: read) rest
  | '\\' :: c :: rest =>
    if joinsLines (c :: rest) then multiBasic? true read (c :: rest)
    else do
      let x ← escape? c
      multiBasic? false (x :: read) rest
  | '\r' :: '\n' :: rest =>
    if joining then multiBasic? true read rest else multiBasic? false ('\n' :: '\r' :: read) rest
  | c :: rest =>
    if joining ∧ (isBlank c ∨ c = '\n') then multiBasic? true read rest
    else if c = '\r' ∨ c = '\\' ∨ isControl c then none
    else multiBasic? false (c :: read) rest

def multiLiteral? (read : List Char) : List Char → Option (String × List Char)
  | [] => none
  | '\x27' :: '\x27' :: '\x27' :: rest => closing? '\x27' read rest
  | '\r' :: '\n' :: rest => multiLiteral? ('\n' :: '\r' :: read) rest
  | c :: rest => if c = '\r' ∨ isControl c then none else multiLiteral? (c :: read) rest

def afterOpening (cs : List Char) : List Char := (newline? cs).getD cs

end RegisterAllocation.Toml
