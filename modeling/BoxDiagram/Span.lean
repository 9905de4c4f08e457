/-!
Half-open byte ranges of a text.
-/

namespace BoxDiagram

/-- The bytes from `start` up to, but not including, `stop`. -/
structure Span where
  start : Nat
  stop : Nat
  start_le_stop : start ≤ stop := by omega
  deriving DecidableEq

namespace Span

def zero : Span := ⟨0, 0, Nat.le_refl 0⟩

instance : Inhabited Span := ⟨zero⟩

/-- The span from `start` to `stop`, empty at `start` when they are the wrong way round. -/
def clamped (start stop : Nat) : Span := ⟨start, max start stop, Nat.le_max_left ..⟩

def ofLength (start length : Nat) : Span := ⟨start, start + length, Nat.le_add_right ..⟩

def length (span : Span) : Nat := span.stop - span.start

def isEmpty (span : Span) : Bool := span.start == span.stop

def union (left right : Span) : Span where
  start := min left.start right.start
  stop := max left.stop right.stop
  start_le_stop := by
    have := left.start_le_stop
    omega

def shift (distance : Nat) (span : Span) : Span where
  start := span.start + distance
  stop := span.stop + distance
  start_le_stop := Nat.add_le_add_right span.start_le_stop distance

theorem ext {left right : Span} (starts : left.start = right.start)
    (stops : left.stop = right.stop) : left = right := by
  cases left; cases right; simp_all

end Span

structure Located (α : Type) where
  value : α
  span : Span
  deriving DecidableEq, Inhabited

end BoxDiagram
