/-!
# Spans

Half-open ranges of character positions in the text of a file. Positions are 32-bit words. A
malformed node may have its bounds in reverse order, so the order is no part of the type and a
reversed span has length zero.
-/

namespace NameLowering

/-- The positions from `start` up to, but not including, `stop`. -/
@[ext]
structure Span where
  start : UInt32 := 0
  stop : UInt32 := 0
deriving DecidableEq, Repr, Inhabited

namespace Span

/-- The number of positions. -/
def length (span : Span) : UInt32 :=
  if span.start ≤ span.stop then span.stop - span.start else 0

def isEmpty (span : Span) : Bool :=
  span.length == 0

/-- The least span that covers both, taken bound by bound. -/
def cover (left right : Span) : Span where
  start := min left.start right.start
  stop := max left.stop right.stop

/-- The least span that covers all of a list; the empty span at the start of the text for none. -/
def hull : List Span → Span
  | [] => {}
  | first :: rest => rest.foldl cover first

end Span

end NameLowering
