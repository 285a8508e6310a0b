import RegisterAllocation.Json
import RegisterAllocation.Text.Quoted

namespace RegisterAllocation.Json

-- Quote, backslash and controls must be escaped. The characters that mean something to a web page
-- and the two line separators are escaped as well.
def escapedChar (c : Char) : List Char :=
  match c with
  | '"' => ['\\', '"']
  | '\\' => ['\\', '\\']
  | '\n' => ['\\', 'n']
  | '\r' => ['\\', 'r']
  | '\t' => ['\\', 't']
  | c =>
    if c.toNat < 0x20 || c = '<' || c = '>' || c = '&' || c.toNat = 0x2028 || c.toNat = 0x2029 then
      '\\' :: 'u' :: Text.hexDigits 4 c.toNat
    else [c]

def writeString (s : String) : String :=
  String.ofList ('"' :: s.toList.flatMap escapedChar ++ ['"'])

def newline (depth : Nat) : String := "\n" ++ String.ofList (List.replicate (2 * depth) ' ')

def bracketed (depth : Nat) (left right : String) (members : List String) : String :=
  match members with
  | [] => left ++ right
  | members =>
    left ++ ",".intercalate (members.map (newline (depth + 1) ++ ·)) ++ newline depth ++ right

mutual

def render (depth : Nat) : Json → String
  | .null => "null"
  | .bool true => "true"
  | .bool false => "false"
  | .int n => toString n
  | .real text => text
  | .str s => writeString s
  | .arr items => bracketed depth "[" "]" (renderItems (depth + 1) items)
  | .obj fields => bracketed depth "\x7b" "\x7d" (renderFields (depth + 1) fields)

def renderItems (depth : Nat) : List Json → List String
  | [] => []
  | item :: rest => render depth item :: renderItems depth rest

def renderFields (depth : Nat) : List (String × Json) → List String
  | [] => []
  | (key, value) :: rest =>
    (writeString key ++ ": " ++ render depth value) :: renderFields depth rest

end

def text (v : Json) : String := v.render 0

end RegisterAllocation.Json
