import MarkupRepair.Toml.Value

/-!
# Numbers, dates and truth values of TOML

The values that are written without quotes or brackets.
-/

namespace MarkupRepair.TomlScalar

/-- Characters of values without quotes. -/
def isScalarChar (c : Char) : Bool :=
  c.isAlphanum || c == '+' || c == '-' || c == '.' || c == '_' || c == ':'

/-- Digits without the underscores between them; every underscore has a digit on both
sides. -/
def digits? (isDigit : Char → Bool) : List Char → Option (List Char)
  | [] => none
  | [c] => if isDigit c then some [c] else none
  | c :: '_' :: d :: r => do
      if isDigit c then return c :: (← digits? isDigit (d :: r)) else none
  | c :: d :: r => do
      if isDigit c then return c :: (← digits? isDigit (d :: r)) else none

/-- The value of a digit; letters count from ten. -/
def digitValue (c : Char) : Nat :=
  if c.isDigit then c.toNat - '0'.toNat else c.toLower.toNat - 'a'.toNat + 10

/-- Whether a character is a digit in a base of at most 16. -/
def isDigitIn (base : Nat) (c : Char) : Bool :=
  (c.isDigit || c.isAlpha) && digitValue c < base

/-- The number written in digits of a base. -/
def natural? (base : Nat) (t : List Char) : Option Nat :=
  (digits? (isDigitIn base) t).map fun ds => ds.foldl (fun n c => base * n + digitValue c) 0

/-- Digits of base ten without a needless zero in front. -/
def isPlainDecimal (t : List Char) : Bool :=
  match digits? Char.isDigit t with
  | some ['0'] => true
  | some ('0' :: _) => false
  | some _ => true
  | none => false

/-- The text without a sign in front, and whether the sign is a minus. -/
def splitSign : List Char → Bool × List Char
  | '-' :: r => (true, r)
  | '+' :: r => (false, r)
  | r => (false, r)

/-- The integers that can be read. -/
def isRepresentable (i : Int) : Bool := -((1 <<< 127 : Nat) : Int) ≤ i && i < (1 <<< 128 : Nat)

/-- The integer that a text is, in base ten with an optional sign, or in another base. -/
def integer? (t : List Char) : Option Int :=
  let value := match t with
    | '0' :: 'x' :: ds => (natural? 16 ds).map Int.ofNat
    | '0' :: 'o' :: ds => (natural? 8 ds).map Int.ofNat
    | '0' :: 'b' :: ds => (natural? 2 ds).map Int.ofNat
    | t =>
        let (negative, ds) := splitSign t
        if isPlainDecimal ds then
          (natural? 10 ds).map fun n => if negative then -(n : Int) else n
        else none
  value.filter isRepresentable

/-- Whether a character starts an exponent. -/
def isExponentMark (c : Char) : Bool := c == 'e' || c == 'E'

/-- The exponent written behind its mark: an optional sign and digits. -/
def exponent? (t : List Char) : Option Int :=
  let (negative, ds) := splitSign t
  (natural? 10 ds).map fun n => if negative then -(n : Int) else n

/-- The number `digits * 10 ^ exponent` that a text without a sign is, if it has a fraction or
an exponent. -/
def decimal? (t : List Char) : Option (Nat × Int) := do
  let mantissa := t.takeWhile fun c => !isExponentMark c
  let whole := mantissa.takeWhile (· != '.')
  if !isPlainDecimal whole then none
  let exponent ← match t.drop mantissa.length with
    | [] => some 0
    | _ :: r => exponent? r
  match mantissa.drop whole.length with
  | [] =>
      if mantissa.length = t.length then none else return (← natural? 10 whole, exponent)
  | _ :: r =>
      let fraction ← digits? Char.isDigit r
      return (← natural? 10 (whole ++ '_' :: fraction), exponent - fraction.length)

/-- The least number that is no longer rounded to a finite one: half a unit above the greatest
of 53 significant bits below `2 ^ 1024`. -/
def overflowBound : Nat := (1 <<< 1024) - (1 <<< 970)

/-- Whether `digits * 10 ^ exponent` is below the bound. Powers are only taken where the number
of digits does not decide. -/
def isFinite (digits : Nat) (exponent : Int) : Bool :=
  let magnitude := (Nat.toDigits 10 digits).length + exponent
  digits == 0 || magnitude ≤ 308 ||
    (magnitude < 310 &&
      digits * Nat.pow 10 exponent.toNat < overflowBound * Nat.pow 10 (-exponent).toNat)

/-- Whether a text is a number with a fraction or an exponent, an infinity or a NaN. A number
that is too large to be told from an infinity is none. -/
def isFloat (t : List Char) : Bool :=
  let body := (splitSign t).2
  body = "inf".toList || body = "nan".toList ||
    (decimal? body).any fun (digits, exponent) => isFinite digits exponent

/-- The number that a given count of digits gives, and the rest. -/
def fixedDigits? (count : Nat) (t : List Char) : Option (Nat × List Char) :=
  let ds := t.take count
  if ds.length = count && ds.all Char.isDigit then
    some (ds.foldl (fun n c => 10 * n + digitValue c) 0, t.drop count)
  else none

/-- Number of days in a month. -/
def daysIn (year month : Nat) : Nat :=
  if month = 2 then
    if year % 4 = 0 && (year % 100 != 0 || year % 400 = 0) then 29 else 28
  else if month = 4 || month = 6 || month = 9 || month = 11 then 30
  else 31

/-- What follows a date. -/
def afterDate? (t : List Char) : Option (List Char) := do
  let (year, r) ← fixedDigits? 4 t
  let '-' :: r := r | none
  let (month, r) ← fixedDigits? 2 r
  let '-' :: r := r | none
  let (day, r) ← fixedDigits? 2 r
  if 1 ≤ month && month ≤ 12 && 1 ≤ day && day ≤ daysIn year month then some r else none

/-- What follows the seconds of a time of day, which may have a fraction. -/
def afterSeconds? (t : List Char) : Option (List Char) := do
  let (second, r) ← fixedDigits? 2 t
  if 60 < second then none
  else
    match r with
    | '.' :: r =>
        if (r.takeWhile Char.isDigit).isEmpty then none else some (r.dropWhile Char.isDigit)
    | r => some r

/-- What follows a time of day, which may lack the seconds. -/
def afterTime? (t : List Char) : Option (List Char) := do
  let (hour, r) ← fixedDigits? 2 t
  let ':' :: r := r | none
  let (minute, r) ← fixedDigits? 2 r
  if 23 < hour || 59 < minute then none
  else
    match r with
    | ':' :: r => afterSeconds? r
    | r => some r

/-- Whether a text is the distance of a zone from universal time. -/
def isZone : List Char → Bool
  | ['Z'] | ['z'] => true
  | sign :: r =>
      (sign == '+' || sign == '-') &&
        match fixedDigits? 2 r with
        | some (hour, ':' :: r) =>
            match fixedDigits? 2 r with
            | some (minute, []) => hour ≤ 23 && minute ≤ 59
            | _ => false
        | _ => false
  | [] => false

/-- Whether a text is a date, a time, or a date and a time with or without a zone. -/
def isDateTime (t : List Char) : Bool :=
  match afterDate? t with
  | some [] => true
  | some (separator :: r) =>
      (separator == 'T' || separator == 't' || separator == ' ') &&
        match afterTime? r with
        | some [] => true
        | some zone => isZone zone
        | none => false
  | none => afterTime? t == some []

/-- The value that a text without quotes stands for. -/
def ofText? (t : List Char) : Option Toml :=
  if t = "true".toList then some (.boolean true)
  else if t = "false".toList then some (.boolean false)
  else
    match integer? t with
    | some i => some (.integer i)
    | none =>
        if isFloat t then some (.float (String.ofList t))
        else if isDateTime t then some (.dateTime (String.ofList t))
        else none

/-- The characters at the front of a text that can belong to such a value. A date may be
followed by a blank and a time. -/
def span (t : List Char) : List Char × List Char :=
  let first := t.takeWhile isScalarChar
  match afterDate? first, t.drop first.length with
  | some [], ' ' :: c :: r =>
      if c.isDigit then
        let second := (c :: r).takeWhile isScalarChar
        (first ++ ' ' :: second, (c :: r).drop second.length)
      else (first, ' ' :: c :: r)
  | _, rest => (first, rest)

end MarkupRepair.TomlScalar
