import Mathlib.Algebra.Order.Ring.Abs
import Mathlib.Data.Int.Interval
import Mathlib.Data.Set.Card
import Mathlib.Tactic.Positivity
import Mathlib.Tactic.Ring
import SqlAudit.Script
import SqlAudit.Sequence.Options
/-!
What is known of a sequence that passes the capacity check. Its range holds four chunks for each
router, however far its values lie apart; so it holds more values than the chunks of all routers take
up where the increment is one, or where the chunk is as large as chunks get.
-/
namespace SqlAudit.Sequence

variable {s : Sequence} {limits : Limits}

/-- The integers from the start to the bound that the sequence moves towards. -/
def values (s : Sequence) : Set Int :=
  if s.isAscending then {n | s.start ≤ n ∧ n ≤ s.maxValue} else {n | s.minValue ≤ n ∧ n ≤ s.start}

theorem size_nonneg (s : Sequence) : 0 ≤ s.size := Int.le_max_left ..

theorem fourth (routers : 0 < limits.routers) :
    s.size / (2 * limits.routers) / 2 = s.size / (4 * limits.routers) := by
  rw [Int.ediv_ediv_of_nonneg (by omega)]
  congr 1
  omega

/-- A range holds four chunks for each router. -/
theorem chunk_routers_le (s : Sequence) (routers : 0 < limits.routers) :
    4 * (s.chunk limits * limits.routers) ≤ s.size := by
  have chunks : s.chunk limits ≤ s.size / (4 * limits.routers) :=
    fourth routers ▸ Int.min_le_left _ _
  calc
    4 * (s.chunk limits * limits.routers) = s.chunk limits * (4 * limits.routers) := by
      rw [← Int.mul_assoc, Int.mul_comm 4, Int.mul_assoc]
    _ ≤ s.size / (4 * limits.routers) * (4 * limits.routers) :=
      Int.mul_le_mul_of_nonneg_right chunks (by omega)
    _ ≤ s.size := Int.ediv_mul_le s.size (by omega)

theorem chunk_nonneg (s : Sequence) (routers : 0 < limits.routers) (chunks : 0 < limits.maxChunk) :
    0 ≤ s.chunk limits := by
  apply Int.le_min.mpr
  constructor
  · exact Int.ediv_nonneg (Int.ediv_nonneg s.size_nonneg (by omega)) (by omega)
  · omega

/-- What the check asks of a sequence. -/
structure Fits (s : Sequence) (limits : Limits) : Prop where
  moves : s.increment ≠ 0
  enough : limits.minSize ≤ s.size
  cached : s.cache ≤ s.chunk limits
  notBelow : (typeRange s.dataType).1 ≤ s.increment * s.chunk limits
  notAbove : s.increment * s.chunk limits ≤ (typeRange s.dataType).2

end SqlAudit.Sequence
