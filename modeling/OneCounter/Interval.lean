import OneCounter.Bound

/-!
Intervals of counter values. Each end is open or closed on its own. The ends stand in any
order: an interval whose ends cross, or meet without both being closed, holds no value.
-/

namespace OneCounter

structure Interval where
  low : Bound
  lowClosed : Bool
  high : Bound
  highClosed : Bool
deriving DecidableEq

namespace Interval

/-- The closed interval of one value. -/
def point (value : Bound) : Interval := ⟨value, true, value, true⟩

def isEmpty (i : Interval) : Bool :=
  i.high < i.low || (i.low = i.high && !(i.lowClosed && i.highClosed))

def contains (i : Interval) (value : Bound) : Bool :=
  (i.low < value || (i.low = value && i.lowClosed)) &&
    (value < i.high || (value = i.high && i.highClosed))

/-- Compares the ends: those of `inner` lie within `i`, and where two ends coincide `i` is
closed if `inner` is. -/
def covers (i inner : Interval) : Bool :=
  (i.low < inner.low || (i.low = inner.low && (i.lowClosed || !inner.lowClosed))) &&
    (inner.high < i.high || (inner.high = i.high && (i.highClosed || !inner.highClosed)))

def width (i : Interval) : Bound := i.high - i.low

/-- The number of open ends. -/
def openEnds (i : Interval) : Nat := (!i.lowClosed).toNat + (!i.highClosed).toNat

def setLow (i : Interval) (low : Bound) (closed : Bool) : Interval :=
  { i with low := low, lowClosed := closed }

def setHigh (i : Interval) (high : Bound) (closed : Bool) : Interval :=
  { i with high := high, highClosed := closed }

/-- Sums of values of the two intervals; an end is closed if it is in both. -/
protected def add (i j : Interval) : Interval :=
  ⟨i.low + j.low, i.lowClosed && j.lowClosed, i.high + j.high, i.highClosed && j.highClosed⟩

instance : Add Interval := ⟨Interval.add⟩

def lowerHigh (i : Interval) (limit : Bound) : Interval :=
  if limit < i.high then i.setHigh limit true else i

def raiseHigh (i : Interval) (limit : Bound) : Interval :=
  if i.high < limit then i.setHigh limit true else i

def raiseLow (i : Interval) (limit : Bound) : Interval :=
  if i.low < limit then i.setLow limit true else i

def lowerLow (i : Interval) (limit : Bound) : Interval :=
  if limit < i.low then i.setLow limit true else i

/-- Moves both ends into the closed range from `lower` to `upper`. An end that moves becomes
closed. -/
def clamp (i : Interval) (lower upper : Bound) : Interval :=
  (((i.lowerHigh upper).raiseHigh lower).raiseLow lower).lowerLow upper

/-- Whether an interval that starts no earlier than `i` overlaps it or touches it without a
gap. -/
def absorbs (i next : Interval) : Bool :=
  next.low < i.high ||
    (next.low = i.high && (i.highClosed || next.lowClosed || next.high = i.high))

def mergeLow (i next : Interval) : Interval :=
  if next.low < i.low then i.setLow next.low next.lowClosed
  else if next.low = i.low then i.setLow i.low (i.lowClosed || next.lowClosed)
  else i

def mergeHigh (i next : Interval) : Interval :=
  if i.high < next.high then i.setHigh next.high next.highClosed
  else if next.high = i.high then i.setHigh i.high (i.highClosed || next.highClosed)
  else i

/-- The least interval with the ends of both. -/
def merge (i next : Interval) : Interval := (i.mergeLow next).mergeHigh next

def text (i : Interval) : String :=
  (if i.lowClosed then "[" else "(") ++ i.low.text ++ ", " ++ i.high.text ++
    (if i.highClosed then "]" else ")")

end Interval

end OneCounter
