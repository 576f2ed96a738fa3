import SqlAudit.Text.Decimal
/-!
Whether a sequence can be shared between routers. Each router is handed chunks of values, so the
range has to hold enough of them, the cache has to fit a chunk, and the first chunk has to end
within the data type.
-/
namespace SqlAudit

/-- A sequence with every option settled. -/
structure Sequence where
  dataType : String
  increment : Int
  minValue : Int
  maxValue : Int
  start : Int
  cache : Int
  deriving DecidableEq, Repr

namespace Sequence

/-- The layout that a sequence is checked against. -/
structure Limits where
  routers : Int
  maxChunk : Int
  minSize : Int
  deriving DecidableEq, Repr

namespace Limits

def standard : Limits := ⟨2, 250000, 16⟩

def isUsable (limits : Limits) : Bool := 0 < limits.routers && 0 < limits.maxChunk

end Limits

inductive Problem where
  | zeroIncrement
  | tooFewValues (chunk increment routers : Int)
  | cacheExceeds (chunk : Int)
  | belowType (boundary : Int) (dataType : String)
  | aboveType (boundary : Int) (dataType : String)
  deriving DecidableEq, Repr

def Problem.message : Problem → String
  | .zeroIncrement => "INCREMENT must not be zero"
  | .tooFewValues chunk increment routers =>
    "Not enough values to create distributed sequence. The sequence must hold more than " ++
      "2 * chunk_size * increment * routers values (chunk_size=" ++ toString chunk ++
      ", increment=" ++ toString increment ++ ", routers=" ++ toString routers ++ ")"
  | .cacheExceeds chunk => "CACHE parameter must be less than chunk size: " ++ toString chunk
  | .belowType boundary dataType =>
    "MINVALUE (" ++ toString boundary ++ ") is out of range for sequence data type " ++ dataType
  | .aboveType boundary dataType =>
    "MAXVALUE (" ++ toString boundary ++ ") is out of range for sequence data type " ++ dataType

/-- The least and the greatest value of a data type. -/
def typeRange (dataType : String) : Int × Int :=
  let bits :=
    if ["smallint", "int2"].contains dataType then 16
    else if ["int", "integer", "int4"].contains dataType then 32
    else 64
  (-Text.signedBound bits, Text.signedBound bits - 1)

def isAscending (s : Sequence) : Bool := 0 < s.increment

/-- How many integers there are from the start to the bound that the sequence moves towards. -/
def size (s : Sequence) : Int :=
  max 0 (if s.isAscending then s.maxValue - s.start + 1 else s.start - s.minValue + 1)

/-- How many values a router is handed at once. -/
def chunk (s : Sequence) (limits : Limits) : Int :=
  min (s.size / (2 * limits.routers) / 2) limits.maxChunk

/-- How far the first chunk reaches. -/
def boundary (s : Sequence) (limits : Limits) : Int := s.increment * s.chunk limits

/-- The first reason why a sequence cannot be shared. -/
def problem? (s : Sequence) (limits : Limits) : Option Problem :=
  let chunk := s.chunk limits
  let boundary := s.boundary limits
  let (low, high) := typeRange s.dataType
  if s.increment = 0 then some .zeroIncrement
  else if s.size < limits.minSize then some (.tooFewValues chunk s.increment limits.routers)
  else if chunk < s.cache then some (.cacheExceeds chunk)
  else if !s.isAscending && boundary < low then some (.belowType boundary s.dataType)
  else if s.isAscending && high < boundary then some (.aboveType boundary s.dataType)
  else none

end Sequence
end SqlAudit
