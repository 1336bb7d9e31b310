import OneCounter.Interval

/-!
Sets of counter values as lists of intervals. A union is sorted by lower end and merged as
far as possible; the other operations work piece by piece and keep the order.
-/

namespace OneCounter

structure Region where
  pieces : List Interval
deriving DecidableEq

namespace Region

def empty : Region := ⟨[]⟩

instance : Inhabited Region := ⟨empty⟩

def ofInterval (i : Interval) : Region := ⟨[i]⟩

def point (value : Bound) : Region := ofInterval (.point value)

/-- What one passage along an edge can add to the counter: any part of the change but none of
it, up to all of it. No change at all has no such set. -/
def ofDelta? (delta : Count) : Option Region :=
  if delta = 0 then none
  else if 0 < delta then some (ofInterval ⟨0, false, .finite delta, true⟩)
  else some (ofInterval ⟨.finite delta, true, 0, false⟩)

def isEmpty (r : Region) : Bool := r.pieces.all Interval.isEmpty

def contains (r : Region) (value : Bound) : Bool := r.pieces.any (·.contains value)

/-- The order of the pieces of a union: by lower end, a closed one first. -/
def startsBefore (i j : Interval) : Bool :=
  i.low < j.low || (i.low = j.low && i.lowClosed && !j.lowClosed)

def insertPiece (i : Interval) : List Interval → List Interval
  | [] => [i]
  | j :: rest => if startsBefore j i then j :: insertPiece i rest else i :: j :: rest

/-- Sorts by `startsBefore` and leaves pieces that start alike in their order. -/
def sortPieces (pieces : List Interval) : List Interval := pieces.foldr insertPiece []

/-- Joins each piece with those that follow as long as they touch. An empty piece gives way
to the next one. -/
def coalesce (current : Interval) : List Interval → List Interval
  | [] => [current]
  | next :: rest =>
      if current.absorbs next then coalesce (current.merge next) rest
      else if current.isEmpty then coalesce next rest
      else current :: coalesce next rest

/-- Drops the pieces that hold no value. -/
def clean (r : Region) : Region := ⟨r.pieces.filter (!·.isEmpty)⟩

def ofSorted : List Interval → Region
  | [] => empty
  | first :: rest => clean ⟨coalesce first rest⟩

def union (r s : Region) : Region := ofSorted (sortPieces (r.pieces ++ s.pieces))

def shift (r : Region) (step : Interval) : Region := ⟨r.pieces.map (· + step)⟩

/-- Sums of a value of `r` and a value of `s`. -/
protected def add (r s : Region) : Region :=
  s.pieces.foldl (fun sum step => sum.union (r.shift step)) empty

instance : Add Region := ⟨Region.add⟩

/-- Drops the pieces outside the closed range from `lower` to `upper` and clamps the rest. -/
def rescale (r : Region) (lower upper : Bound) : Region :=
  ⟨(r.pieces.filter fun i => !(upper < i.low || i.high < lower)).map (·.clamp lower upper)⟩

/-- The values that are at most `limit`. -/
def clipAbove (r : Region) (limit : Count) : Region :=
  ⟨(r.pieces.filter fun i => i.low < .finite limit || (i.low = .finite limit && i.lowClosed)).map
    (·.lowerHigh (.finite limit))⟩

/-- The values that are at least `limit`. -/
def clipBelow (r : Region) (limit : Count) : Region :=
  ⟨(r.pieces.filter fun i => .finite limit < i.high || (i.high = .finite limit && i.highClosed)).map
    (·.raiseLow (.finite limit))⟩

/-- The one value, if it is in the set. -/
def onlyPoint (r : Region) (value : Count) : Region :=
  if r.contains (.finite value) then point (.finite value) else empty

/-- The sum of the widths of the pieces. -/
def width (r : Region) : Bound := r.pieces.foldl (fun total i => total + i.width) 0

def openEnds (r : Region) : Nat := r.pieces.foldl (fun total i => total + i.openEnds) 0

/-- Less wide, or equally wide with more open ends. -/
def isSmallerThan (r s : Region) : Bool :=
  r.width < s.width || (r.width = s.width && s.openEnds < r.openEnds)

/-- Whether `r` has grown out of `before`, or stayed: it is no smaller, and one of its pieces
covers each piece of `before`. -/
def expands (r before : Region) : Bool :=
  !r.isSmallerThan before && before.pieces.all fun old => r.pieces.any (·.covers old)

/-- Whether the upper end has moved up since `before`, or has become closed. -/
def extendsAbove (r before : Region) : Bool :=
  match r.pieces.getLast?, before.pieces.getLast? with
  | some new, some old =>
      old.high < new.high || (new.high = old.high && new.highClosed && !old.highClosed)
  | some _, none => true
  | none, _ => false

/-- Whether the lower end has moved down since `before`, or has become closed. -/
def extendsBelow (r before : Region) : Bool :=
  match r.pieces.head?, before.pieces.head? with
  | some new, some old =>
      new.low < old.low || (new.low = old.low && new.lowClosed && !old.lowClosed)
  | some _, none => true
  | none, _ => false

/-- The lower end and whether it is closed. -/
def inf? (r : Region) : Option (Bound × Bool) := r.pieces.head?.map fun i => (i.low, i.lowClosed)

/-- The upper end and whether it is closed. -/
def sup? (r : Region) : Option (Bound × Bool) :=
  r.pieces.getLast?.map fun i => (i.high, i.highClosed)

def setInf (r : Region) (low : Bound) (closed : Bool) : Region :=
  match r.pieces with
  | [] => r
  | first :: rest => ⟨first.setLow low closed :: rest⟩

def setLastHigh (high : Bound) (closed : Bool) : List Interval → List Interval
  | [] => []
  | [last] => [last.setHigh high closed]
  | i :: j :: rest => i :: setLastHigh high closed (j :: rest)

def setSup (r : Region) (high : Bound) (closed : Bool) : Region :=
  ⟨setLastHigh high closed r.pieces⟩

def text (r : Region) : String := " ".intercalate (r.pieces.map Interval.text)

end Region

end OneCounter
