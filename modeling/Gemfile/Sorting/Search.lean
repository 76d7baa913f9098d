/-!
# Searching for a place

A place among some elements is the number of elements in front of it.  `before i` tells whether the
element with number `i` belongs in front of the place that is searched for.

* `Sorting.bisect before low high`   the place, between two places, by halves
* `Sorting.gallop before n hint`     the place among `n` elements, by steps from an element on that
                                     grow until they go too far, and then by halves

Both look at few elements, so what they find hangs on which ones where no place fits them all.
-/

namespace Gemfile.Sorting

def bisect (before : Nat → Bool) (low high : Nat) : Nat :=
  if low < high then
    let middle := low + (high - low) / 2
    if before middle then bisect before (middle + 1) high else bisect before low middle
  else low
termination_by high - low

/-- the last step and the next, both below `limit` or the next at it: a step is followed by one that
is twice as long and one more, as long as `far` holds of it -/
def stride (far : Nat → Bool) (limit last next : Nat) : Nat × Nat :=
  if next < limit then
    if far next then stride far limit next (2 * next + 1) else (last, next)
  else (last, limit)
termination_by limit - next

def gallop (before : Nat → Bool) (n hint : Nat) : Nat :=
  if before hint then
    let s := stride (fun k => before (hint + k)) (n - hint) 0 1
    bisect before (hint + s.1 + 1) (hint + s.2)
  else
    let s := stride (fun k => !before (hint - k)) (hint + 1) 0 1
    bisect before (hint + 1 - s.2) (hint - s.1)

end Gemfile.Sorting
