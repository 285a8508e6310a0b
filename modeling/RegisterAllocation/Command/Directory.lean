namespace RegisterAllocation.Command

inductive PathFault where
  | missing | notDirectory | isDirectory | nameTooLong
  deriving DecidableEq, Repr

def PathFault.text : PathFault → String
  | .missing => "no such file or directory"
  | .notDirectory => "not a directory"
  | .isDirectory => "is a directory"
  | .nameTooLong => "file name too long"

def PathFault.message (fault : PathFault) (action path : String) : String :=
  s!"{action} {path}: {fault.text}"

inductive Device where
  | null | input | output | errors
  deriving DecidableEq, Repr

def device? (name : String) : Option Device :=
  match name with
  | "null" => some .null
  | "stdin" => some .input
  | "stdout" => some .output
  | "stderr" => some .errors
  | _ => none

inductive Place where
  | here
  | file (name : String)
  | free (name : String)
  | around
  | root
  | devices
  | device (device : Device)
  | elsewhere
  deriving DecidableEq, Repr

def Place.isDirectory : Place → Bool
  | .here | .around | .root | .devices => true
  | .file _ | .free _ | .device _ | .elsewhere => false

def longestName : Nat := 255

def longestPath : Nat := 4095

-- The files of the working directory by name. It has no directories in it, and nothing but the
-- devices is known to lie outside.
abbrev Directory := List (String × String)

namespace Directory

def parent : Place → Place
  | .root | .devices => .root
  | _ => .around

def entry (d : Directory) (place : Place) (name : String) : Place :=
  match place with
  | .here => if d.any fun file => file.1 = name then .file name else .free name
  | .root => if name = "dev" then .devices else .elsewhere
  | .devices => (device? name).elim .elsewhere .device
  | _ => .elsewhere

-- One part of a path further. Two slashes in a row and a point stay in place, and only directories
-- lead on.
def step (d : Directory) (place : Place) (part : String) : Except PathFault Place :=
  match place with
  | .file _ | .device _ => .error .notDirectory
  | .free _ | .elsewhere => .error .missing
  | _ =>
    if part = "" ∨ part = "." then .ok place
    else if part = ".." then .ok (parent place)
    else if longestName < part.utf8ByteSize then .error .nameTooLong
    else .ok (d.entry place part)

def parts (path : String) : List String := path.splitOn "/"

def walk (d : Directory) (path : String) (parts : List String) : Except PathFault Place :=
  if longestPath < path.utf8ByteSize then .error .nameTooLong
  else parts.foldlM d.step (if path.startsWith "/" then .root else .here)

def find (d : Directory) (path : String) : Except PathFault Place := d.walk path (parts path)

def read (d : Directory) (input path : String) : Except String String :=
  match d.find path with
  | .error fault => .error (fault.message "open" path)
  | .ok (.file name) => .ok ((d.lookup name).getD "")
  | .ok (.device .input) => .ok input
  | .ok (.device _) => .ok ""
  | .ok (.free _) | .ok .elsewhere => .error (PathFault.missing.message "open" path)
  | .ok _ => .error (PathFault.isDirectory.message "read" path)

-- The place where a path lets a file be made. A name with a slash behind it can only be that of a
-- directory.
def target (d : Directory) (path : String) : Except PathFault Place := do
  let named := (parts path).reverse.dropWhile (· = "")
  let place ← d.walk path named.reverse
  if place.isDirectory ∨ path.endsWith "/" then .error .isDirectory else .ok place

def refusal? (d : Directory) (path : String) : Option String :=
  match d.target path with
  | .error fault => some (fault.message "open" path)
  | .ok _ => none

def set (d : Directory) (name text : String) : Directory :=
  (name, text) :: d.filter fun file => file.1 ≠ name

end Directory

end RegisterAllocation.Command
