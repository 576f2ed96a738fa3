import SqlAudit.Text.Decimal
/-!
Numbers in JSON text: digits, perhaps a fraction and an exponent. A number has to stay within the
range of the doubles. Its magnitude is taken to be a double times a power of ten that is a double
too: the digits come first, as many of them as 64 bits hold, and are scaled afterwards.
-/
namespace SqlAudit.Json

/-- A whole number times a power of ten. -/
structure Scaled where
  significand : Nat
  exponent : Int
  deriving DecidableEq, Repr

namespace Scaled

/-- Appends digits to a significand until the next one would take it beyond 64 bits; also the
digits that are left over. -/
def appendDigits (significand : Nat) : List Char → Nat × List Char
  | [] => (significand, [])
  | c :: rest =>
    let longer := 10 * significand + (c.toNat - '0'.toNat)
    if longer < Nat.pow 2 64 then appendDigits longer rest else (significand, c :: rest)

/-- The magnitude of a number of these digits. Whole digits that are left over count as zeros,
those of the fraction not at all. -/
def ofDigits (whole fraction : List Char) (power : Int) : Scaled :=
  let (significand, zeros) := appendDigits 0 whole
  let (significand, ignored) := appendDigits significand fraction
  ⟨significand, power + zeros.length + ignored.length - fraction.length⟩

/-- The nearest number of at most 53 binary digits and zeros after them; of two that are equally
near the one whose digits are even. -/
def roundToDouble (n : Nat) : Nat :=
  let unit := Nat.pow 2 (n.log2 - 52)
  let digits := n / unit
  let rest := n % unit
  if unit < 2 * rest || (unit = 2 * rest && digits % 2 = 1) then (digits + 1) * unit
  else digits * unit

/-- The least whole number that rounds beyond the largest double. -/
def doubleBound : Nat := Nat.pow 2 1024 - Nat.pow 2 970

/-- Scaling gives a double. Up to `10 ^ 308` powers of ten are doubles. -/
def fitsDouble (x : Scaled) : Bool :=
  x.significand = 0 || x.exponent < 0 ||
    (x.exponent ≤ 308 &&
      roundToDouble x.significand * roundToDouble (Nat.pow 10 x.exponent.toNat) < doubleBound)

end Scaled

/-- A point and at least one digit, if there is a point: the digits and the rest. -/
def readFraction : List Char → Option (List Char × List Char)
  | '.' :: rest =>
    let digits := rest.takeWhile Char.isDigit
    if digits.isEmpty then none else some (digits, rest.dropWhile Char.isDigit)
  | chars => some ([], chars)

/-- An E, a sign and at least one digit, if there is an E: the characters, the exponent and the
rest. -/
def readPower : List Char → Option (List Char × Int × List Char)
  | [] => some ([], 0, [])
  | e :: rest =>
    if e = 'e' || e = 'E' then
      let sign := (rest.take 1).filter fun c => c == '+' || c == '-'
      let digits := (rest.drop sign.length).takeWhile Char.isDigit
      if digits.isEmpty then none
      else
        let size : Int := Text.ofDigits digits
        some (e :: sign ++ digits, if sign == ['-'] then -size else size,
          (rest.drop sign.length).dropWhile Char.isDigit)
    else some ([], 0, e :: rest)

/-- A number, as it is written, and the rest. Only zero starts with a zero. -/
def readNumber (chars : List Char) : Option (String × List Char) :=
  let sign := (chars.take 1).filter (· == '-')
  let rest := chars.drop sign.length
  let whole := rest.takeWhile Char.isDigit
  if whole.isEmpty || (whole.length > 1 && whole.head? == some '0') then none
  else
    match readFraction (rest.dropWhile Char.isDigit) with
    | none => none
    | some (fraction, rest) =>
      match readPower rest with
      | none => none
      | some (mark, power, rest) =>
        let point := if fraction.isEmpty then [] else ['.']
        if (Scaled.ofDigits whole fraction power).fitsDouble then
          some (String.ofList (sign ++ whole ++ point ++ fraction ++ mark), rest)
        else none

end SqlAudit.Json
