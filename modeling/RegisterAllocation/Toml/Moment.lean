import RegisterAllocation.Word

namespace RegisterAllocation.Toml

inductive Moment where
  | date | time | dateTime | instant
  deriving DecidableEq, Repr

structure Signs where
  date : Bool := false
  time : Bool := false
  zone : Bool := false
  deriving DecidableEq, Repr

-- A hyphen is the sign of a date, and far enough in also of a zone.
def Signs.add (s : Signs) (offset : Nat) (c : Char) : Signs :=
  if c = '-' then { s with date := true, zone := s.zone || 8 ≤ offset }
  else if "Tt:.".contains c then { s with time := true }
  else if "+Zz".contains c then { s with zone := true }
  else s

def Signs.moment (s : Signs) : Moment :=
  match s.time, s.date, s.zone with
  | false, _, _ => .date
  | true, false, _ => .time
  | true, true, false => .dateTime
  | true, true, true => .instant

def isMomentChar (c : Char) : Bool := c.isDigit || "-Tt:.+Zz".contains c

-- The form of a date or time and what follows it. One blank may stand between the two if a digit
-- comes next; the character after that digit belongs to the time, whatever it is.
def moment? (offset : Nat) (signs : Signs) (blankSeen : Bool) :
    List Char → Option (Moment × List Char)
  | ' ' :: d :: rest =>
    if blankSeen ∨ ¬ d.isDigit then some (signs.moment, ' ' :: d :: rest)
    else
      let signs := { signs with time := true }
      match rest with
      | [] => some (signs.moment, [])
      | c :: rest => if c.toNat < 0x80 then moment? (offset + 3) signs true rest else none
  | c :: rest =>
    if isMomentChar c then moment? (offset + 1) (signs.add offset c) blankSeen rest
    else some (signs.moment, c :: rest)
  | [] => some (signs.moment, [])

def startsMoment : List Char → Bool
  | a :: b :: ':' :: _ => a.isDigit && b.isDigit
  | a :: b :: c :: d :: '-' :: _ => a.isDigit && b.isDigit && c.isDigit && d.isDigit
  | _ => false

def isLeapYear (year : Nat) : Bool := year % 4 = 0 && (year % 100 ≠ 0 || year % 400 = 0)

def daysInMonth (year : Nat) : Nat → Nat
  | 2 => if isLeapYear year then 29 else 28
  | 4 | 6 | 9 | 11 => 30
  | _ => 31

def isUpTo (limit : Nat) (digits : List Char) : Bool := (Word.digitsValue? digits).any (· ≤ limit)

def isDate : List Char → Bool
  | [y1, y2, y3, y4, '-', m1, m2, '-', d1, d2] =>
    match Word.digitsValue? [y1, y2, y3, y4], Word.digitsValue? [m1, m2],
        Word.digitsValue? [d1, d2] with
    | some year, some month, some day =>
      1 ≤ month && month ≤ 12 && 1 ≤ day && day ≤ daysInMonth year month
    | _, _, _ => false
  | _ => false

-- What follows a time of the day. A minute may have a leap second, and a second any number of
-- decimals but none.
def afterTime? : List Char → Option (List Char)
  | h1 :: h2 :: ':' :: m1 :: m2 :: ':' :: s1 :: s2 :: rest =>
    if isUpTo 23 [h1, h2] && isUpTo 59 [m1, m2] && isUpTo 60 [s1, s2] then
      match rest with
      | '.' :: d :: rest => if d.isDigit then some (rest.dropWhile Char.isDigit) else none
      | ['.'] => none
      | rest => some rest
    else none
  | _ => none

def afterDateTime? (cs : List Char) : Option (List Char) :=
  match cs.drop 10 with
  | c :: rest =>
    if isDate (cs.take 10) ∧ (c = 'T' ∨ c = 't' ∨ c = ' ') then afterTime? rest else none
  | [] => none

def isZone : List Char → Bool
  | [c] => c = 'Z' || c = 'z'
  | [sign, h1, h2, ':', m1, m2] =>
    (sign = '+' || sign = '-') && isUpTo 23 [h1, h2] && isUpTo 59 [m1, m2]
  | _ => false

def Moment.isReal (form : Moment) (text : String) : Bool :=
  let cs := text.toList
  match form with
  | .date => isDate cs
  | .time => (afterTime? cs).any List.isEmpty
  | .dateTime => (afterDateTime? cs).any List.isEmpty
  | .instant => (afterDateTime? cs).any isZone

end RegisterAllocation.Toml
