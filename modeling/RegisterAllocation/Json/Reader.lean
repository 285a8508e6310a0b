import RegisterAllocation.Json
import RegisterAllocation.Json.Token

namespace RegisterAllocation.Json

namespace Reader

-- A container that is still open, with its members so far, last one first. An object whose next
-- value is awaited also holds the key of that value.
inductive Frame where
  | arr (items : List Json)
  | obj (fields : List (String × Json))
  | field (fields : List (String × Json)) (key : String)

inductive Expect where
  | value
  | valueOrClose
  | keyOrClose
  | key
  | colon (key : String)
  | commaOrClose
  | nothing (value : Json)

structure State where
  expect : Expect := .value
  stack : List Frame := []

def supply (v : Json) (stack : List Frame) : Option State :=
  match stack with
  | [] => some { expect := .nothing v }
  | .arr items :: rest => some { expect := .commaOrClose, stack := .arr (v :: items) :: rest }
  | .field fields key :: rest =>
    some { expect := .commaOrClose, stack := .obj ((key, v) :: fields) :: rest }
  | .obj _ :: _ => none

def openValue (t : Token) (stack : List Frame) : Option State :=
  match t with
  | .null => supply .null stack
  | .bool b => supply (.bool b) stack
  | .int n => supply (.int n) stack
  | .real text => supply (.real text) stack
  | .str s => supply (.str s) stack
  | .openArr => some { expect := .valueOrClose, stack := .arr [] :: stack }
  | .openObj => some { expect := .keyOrClose, stack := .obj [] :: stack }
  | .closeObj | .closeArr | .colon | .comma => none

def close (t : Token) (stack : List Frame) : Option State :=
  match t, stack with
  | .closeArr, .arr items :: rest => supply (.arr items.reverse) rest
  | .closeObj, .obj fields :: rest => supply (.obj fields.reverse) rest
  | _, _ => none

def step (s : State) (t : Token) : Option State :=
  match s.expect, t with
  | .value, t => openValue t s.stack
  | .valueOrClose, .closeArr => close t s.stack
  | .valueOrClose, t => openValue t s.stack
  | .keyOrClose, .closeObj => close t s.stack
  | .keyOrClose, .str key | .key, .str key => some { s with expect := .colon key }
  | .colon key, .colon =>
    match s.stack with
    | .obj fields :: rest => some { expect := .value, stack := .field fields key :: rest }
    | _ => none
  | .commaOrClose, .comma =>
    match s.stack with
    | .arr _ :: _ => some { s with expect := .value }
    | .obj _ :: _ => some { s with expect := .key }
    | _ => none
  | .commaOrClose, t => close t s.stack
  | _, _ => none

end Reader

def ofTokens? (tokens : List Token) : Option Json := do
  let s ← tokens.foldlM Reader.step {}
  match s.expect with
  | .nothing v => some v
  | _ => none

def parse? (text : String) : Option Json := (Token.scan? text.toList).bind ofTokens?

end RegisterAllocation.Json
