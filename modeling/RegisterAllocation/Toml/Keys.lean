import RegisterAllocation.Toml

namespace RegisterAllocation.Toml

inductive KeyKind where
  | value | table | arrayTable
  deriving DecidableEq, Repr

-- What is known of a key: whether its table has had a head of its own, and whether it came up as
-- part of the key of a pair.
structure KeyInfo where
  kind : KeyKind
  explicit : Bool := false
  fromPair : Bool := false
  deriving DecidableEq, Repr

structure Keys where
  entries : List (List String × KeyInfo) := []
  current : List String := []
  deriving DecidableEq, Repr

namespace Keys

def find? (k : Keys) (path : List String) : Option KeyInfo := k.entries.lookup path

def set (k : Keys) (path : List String) (info : KeyInfo) : Keys :=
  { k with entries := (path, info) :: k.entries.filter fun e => e.1 ≠ path }

def isBelow (top path : List String) : Bool := top.isPrefixOf path && top ≠ path

-- Tables made by the keys of pairs are complete once the next head comes.
def complete (k : Keys) : Keys :=
  { k with entries := k.entries.map fun (path, info) =>
      if isBelow k.current path && info.fromPair then
        (path, { info with explicit := true, fromPair := false })
      else (path, info) }

def forget (k : Keys) (top : List String) : Keys :=
  { k with entries := k.entries.filter fun e => !isBelow top e.1 }

def descend? (k : Keys) : List (List String) → Option Keys
  | [] => some k
  | path :: rest =>
    match k.find? path with
    | none => (k.set path { kind := .table }).descend? rest
    | some info => if info.kind = .value then none else k.descend? rest

def properPrefixes (path : List String) : List (List String) :=
  (List.range path.length).tail.map path.take

def table? (k : Keys) (path : List String) : Option Keys := do
  let k ← k.complete.descend? (properPrefixes path)
  match k.find? path with
  | none => some { k.set path { kind := .table, explicit := true } with current := path }
  | some info =>
    if info.kind = .table ∧ ¬ info.explicit then
      some { k.set path { info with explicit := true } with current := path }
    else none

def arrayTable? (k : Keys) (path : List String) : Option Keys := do
  let k ← k.complete.descend? (properPrefixes path)
  match k.find? path with
  | none => some { k.set path { kind := .arrayTable, explicit := true } with current := path }
  | some info =>
    if info.kind = .arrayTable then some { k.forget path with current := path } else none

-- A pair defines its key once, and extends only tables that have no head.
def pair? (k : Keys) (parent : List String) : List String → Option Keys
  | [] => none
  | part :: rest =>
    let path := parent ++ [part]
    match k.find? path, rest with
    | none, [] => some (k.set path { kind := .value, fromPair := true })
    | none, rest => (k.set path { kind := .table, fromPair := true }).pair? path rest
    | some _, [] => none
    | some info, rest =>
      if info.kind = .table ∧ ¬ info.explicit then k.pair? path rest else none

end Keys

mutual

def Value.wellKeyed : Value → Bool
  | .arr items => wellKeyedItems items
  | .table pairs => wellKeyedPairs {} pairs
  | _ => true

def wellKeyedItems : List Value → Bool
  | [] => true
  | item :: rest => item.wellKeyed && wellKeyedItems rest

def wellKeyedPairs (k : Keys) : List (Key × Value) → Bool
  | [] => true
  | (key, value) :: rest =>
    match k.pair? [] key.names with
    | none => false
    | some k => value.wellKeyed && wellKeyedPairs k rest

end

end RegisterAllocation.Toml
