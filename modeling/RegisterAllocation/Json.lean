namespace RegisterAllocation

-- A JSON value. Whole numbers are kept as numbers and all others as written. The fields of an
-- object stand in the order given, and a key may occur more than once.
inductive Json where
  | null
  | bool (value : Bool)
  | int (value : Int)
  | real (text : String)
  | str (value : String)
  | arr (items : List Json)
  | obj (fields : List (String × Json))
  deriving Repr, Inhabited

end RegisterAllocation
