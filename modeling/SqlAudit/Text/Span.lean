/-! Byte ranges of a text: the start is inside, the end is outside. -/
namespace SqlAudit

structure Span where
  start : Nat
  stop : Nat
  deriving DecidableEq, Repr, Inhabited

namespace Span

def length (a : Span) : Nat := a.stop - a.start

def isEmpty (a : Span) : Bool := a.start == a.stop

/-- The least span that covers both. -/
def merge (a b : Span) : Span := ⟨min a.start b.start, max a.stop b.stop⟩

/-- The second span lies within the first. -/
def contains (a b : Span) : Bool := a.start ≤ b.start && b.stop ≤ a.stop

/-- The spans share a byte. -/
def overlaps (a b : Span) : Bool := a.start < b.stop && b.start < a.stop

/-- Spans are ordered by their start, then by their end. -/
def order (a b : Span) : Ordering := (compare a.start b.start).then (compare a.stop b.stop)

/-- The same range of a text that has `n` more bytes in front. -/
def shift (n : Nat) (a : Span) : Span := ⟨a.start + n, a.stop + n⟩

def render (a : Span) : String :=
  "Span \x7b start: " ++ toString a.start ++ ", end: " ++ toString a.stop ++ " \x7d"

end Span
end SqlAudit
