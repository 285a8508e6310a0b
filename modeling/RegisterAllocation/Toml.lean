import RegisterAllocation.Toml.Moment

namespace RegisterAllocation.Toml

structure KeyPart where
  name : String
  escaped : Bool := false
  deriving DecidableEq, Repr, Inhabited

abbrev Key := List KeyPart

def Key.names (key : Key) : List String := key.map (·.name)

-- A TOML value. Numbers and dates are kept as written: what they stand for is up to the one who
-- asks.
inductive Value where
  | str (value : String)
  | integer (text : String)
  | float (text : String)
  | bool (value : Bool)
  | moment (form : Moment) (text : String)
  | arr (items : List Value)
  | table (pairs : List (Key × Value))
  deriving Repr, Inhabited

inductive Line where
  | pair (key : Key) (value : Value)
  | table (key : Key)
  | arrayTable (key : Key)
  deriving Repr, Inhabited

structure Document where
  lines : List Line := []
  complete : Bool := false
  deriving Repr, Inhabited

end RegisterAllocation.Toml
