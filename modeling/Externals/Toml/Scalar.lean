import Externals.Toml.Basic

/-!
# `Externals.Toml.Scalar`: numbers, booleans, dates and times

A scalar that is no string is a run of letters, digits and a few
marks. `scalar?` decides which kind of scalar a run is, if any.

Integers have 64 bits. A float may not round to positive infinity.
Dates exist in the calendar, and a minute may have a second 60.
-/

set_option autoImplicit false

namespace Externals.Toml

/-- A decimal digit. -/
def isDecimal (c : Char) : Bool := '0' ≤ c && c ≤ '9'

/-- The characters scalars are made of. -/
def isScalarChar (c : Char) : Bool :=
  c.isAlphanum || c == '+' || c == '-' || c == '_' || c == '.' || c == ':'

/-! ### Integers -/

/-- Digits with single underscores between them. -/
def areDigits (isDigit : Char → Bool) : List Char → Bool
  | [] => false
  | [c] => isDigit c
  | c :: '_' :: cs => isDigit c && areDigits isDigit cs
  | c :: cs => isDigit c && areDigits isDigit cs

/-- The value of a digit in base sixteen. -/
def hexValue (c : Char) : Nat :=
  if isDecimal c then c.toNat - '0'.toNat else c.toLower.toNat - 'a'.toNat + 10

/-- The number that digits of a base write; underscores are skipped. -/
def natOf (base : Nat) (cs : List Char) : Nat :=
  cs.foldl (fun n c => if c == '_' then n else n * base + hexValue c) 0

/-- The sign of a number and what follows it. -/
def splitSign : List Char → Bool × List Char
  | '+' :: cs => (false, cs)
  | '-' :: cs => (true, cs)
  | cs => (false, cs)

/-- Decimal digits without a zero before others. -/
def isDecimalInteger (cs : List Char) : Bool :=
  areDigits isDecimal cs && (cs.head? != some '0' || cs.length == 1)

/-- A number if it has 64 bits. -/
def fit (n : Int) : Option Int := if -(Int.pow 2 63) ≤ n && n < Int.pow 2 63 then some n else none

/-- A digit in base eight. -/
def isOctal (c : Char) : Bool := '0' ≤ c && c ≤ '7'

/-- A digit in base two. -/
def isBinary (c : Char) : Bool := c == '0' || c == '1'

/-- A digit in base sixteen, in either case. -/
def isHexDigit (c : Char) : Bool :=
  isDecimal c || ('a' ≤ c && c ≤ 'f') || ('A' ≤ c && c ≤ 'F')

/-- An integer that fits 64 bits. A base is given in front, and only
decimal integers have a sign. -/
def integer? (cs : List Char) : Option Int :=
  match cs with
  | '0' :: 'x' :: digits => if areDigits isHexDigit digits then fit (natOf 16 digits) else none
  | '0' :: 'o' :: digits => if areDigits isOctal digits then fit (natOf 8 digits) else none
  | '0' :: 'b' :: digits => if areDigits isBinary digits then fit (natOf 2 digits) else none
  | _ =>
      let (negative, digits) := splitSign cs
      if isDecimalInteger digits then
        fit (if negative then -(natOf 10 digits : Int) else natOf 10 digits)
      else none

/-! ### Floats -/

/-- A decimal fraction: the digits of a whole number, and the power of
ten it is multiplied with. -/
structure Decimal where
  negative : Bool
  digits : Nat
  exponent : Int

/-- Half a unit above the greatest finite number of double precision.
From here on a decimal rounds to infinity. -/
def overflowLimit : Nat := Nat.pow 2 1024 - Nat.pow 2 970

/-- Whether a decimal rounds to positive infinity. Its order of
magnitude decides most cases, so that large powers are not computed. -/
def Decimal.isInfinite (d : Decimal) : Bool :=
  let order : Int := (toString d.digits).length + d.exponent
  if d.negative || d.digits == 0 || order < 300 then false
  else if 320 < order then true
  else if 0 ≤ d.exponent then overflowLimit ≤ d.digits * Nat.pow 10 d.exponent.toNat
  else overflowLimit * Nat.pow 10 (-d.exponent).toNat ≤ d.digits

/-- What a number can go on with: underscores may stand between digits. -/
def isDigitOrUnderscore (c : Char) : Bool := isDecimal c || c == '_'

/-- The exponent part of a float: nothing, or the letter with a signed
number. -/
def exponent? : List Char → Option Int
  | [] => some 0
  | c :: cs =>
      let (negative, digits) := splitSign cs
      if (c == 'e' || c == 'E') && areDigits isDecimal digits then
        some (if negative then -(natOf 10 digits : Int) else natOf 10 digits)
      else none

/-- A number with a fraction, an exponent or both. -/
def decimal? (cs : List Char) : Option Decimal :=
  let (negative, cs) := splitSign cs
  let whole := cs.takeWhile isDigitOrUnderscore
  let rest := cs.dropWhile isDigitOrUnderscore
  if !isDecimalInteger whole then none
  else
    match rest with
    | [] => none
    | '.' :: rest =>
        let fraction := rest.takeWhile isDigitOrUnderscore
        if areDigits isDecimal fraction then
          (exponent? (rest.dropWhile isDigitOrUnderscore)).map fun e =>
            ⟨negative, natOf 10 (whole ++ fraction), e - (fraction.filter isDecimal).length⟩
        else none
    | rest => (exponent? rest).map fun e => ⟨negative, natOf 10 whole, e⟩

/-- A number with a fraction or an exponent, or one of the words for
infinity and for no number. A number that is too large for a finite
value is none. -/
def isFloat (cs : List Char) : Bool :=
  let unsigned := (splitSign cs).2
  unsigned == ['i', 'n', 'f'] || unsigned == ['n', 'a', 'n']
    || ((decimal? cs).map fun d => !d.isInfinite).getD false

/-! ### Dates and times -/

/-- The number that exactly two digits write. -/
def twoDigits? (a b : Char) : Option Nat :=
  if isDecimal a && isDecimal b then some (natOf 10 [a, b]) else none

/-- A year with a day more. -/
def isLeapYear (y : Nat) : Bool := y % 4 == 0 && (y % 100 != 0 || y % 400 == 0)

/-- The number of days of a month. -/
def daysIn (year month : Nat) : Nat :=
  if month == 2 then if isLeapYear year then 29 else 28
  else if month == 4 || month == 6 || month == 9 || month == 11 then 30
  else 31

/-- What follows a date. -/
def afterDate? : List Char → Option (List Char)
  | a :: b :: c :: d :: '-' :: e :: f :: '-' :: g :: h :: cs => do
      let century ← twoDigits? a b
      let year ← twoDigits? c d
      let month ← twoDigits? e f
      let day ← twoDigits? g h
      if 1 ≤ month && month ≤ 12 && 1 ≤ day && day ≤ daysIn (century * 100 + year) month then
        return cs
      else none
  | _ => none

/-- What follows a time of day. -/
def afterTime? : List Char → Option (List Char)
  | a :: b :: ':' :: c :: d :: ':' :: e :: f :: cs => do
      let hour ← twoDigits? a b
      let minute ← twoDigits? c d
      let second ← twoDigits? e f
      if hour ≤ 23 && minute ≤ 59 && second ≤ 60 then
        match cs with
        | '.' :: fraction =>
            if (fraction.head?.map isDecimal).getD false then return fraction.dropWhile isDecimal
            else none
        | cs => return cs
      else none
  | _ => none

/-- The distance of a time from universal time, or nothing. -/
def isOffset : List Char → Bool
  | [] => true
  | [c] => c == 'Z' || c == 'z'
  | [sign, a, b, ':', c, d] =>
      (sign == '+' || sign == '-')
        && ((twoDigits? a b).map fun hour => decide (hour ≤ 23)).getD false
        && ((twoDigits? c d).map fun minute => decide (minute ≤ 59)).getD false
  | _ => false

/-- A time of day with a distance from universal time. -/
def isOffsetTime (cs : List Char) : Bool := ((afterTime? cs).map isOffset).getD false

/-- A date, a time of day, or a date and a time. -/
def isDatetime (cs : List Char) : Bool :=
  match afterDate? cs with
  | some [] => true
  | some (c :: cs) => (c == 'T' || c == 't') && isOffsetTime cs
  | none => afterTime? cs == some []

/-- The value of a run of scalar characters. -/
def scalar? (cs : List Char) : Option Value :=
  if cs == ['t', 'r', 'u', 'e'] then some (.boolean true)
  else if cs == ['f', 'a', 'l', 's', 'e'] then some (.boolean false)
  else if isDatetime cs then some (.datetime (String.ofList cs))
  else if isFloat cs then some (.float (String.ofList cs))
  else (integer? cs).map .integer

end Externals.Toml
