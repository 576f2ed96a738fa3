/-! Whole numbers in decimal digits, and how many bits they take. -/
namespace SqlAudit.Text

/-- The number that digits stand for. -/
def ofDigits (digits : List Char) : Nat :=
  digits.foldl (fun n c => 10 * n + (c.toNat - '0'.toNat)) 0

/-- One digit or more, and nothing else. -/
def natural? (chars : List Char) : Option Nat :=
  if !chars.isEmpty && chars.all Char.isDigit then some (ofDigits chars) else none

/-- Digits after at most one sign. -/
def integer? : List Char → Option Int
  | '-' :: digits => (natural? digits).map fun n => -(n : Int)
  | '+' :: digits => (natural? digits).map fun n => (n : Int)
  | digits => (natural? digits).map fun n => (n : Int)

/-- The least number that is too great for `bits` bits, one of which is the sign. -/
def signedBound (bits : Nat) : Int := Int.pow 2 (bits - 1)

/-- The number and its sign take at most `bits` bits. -/
def fitsSigned (bits : Nat) (n : Int) : Bool := -signedBound bits ≤ n && n < signedBound bits

end SqlAudit.Text
