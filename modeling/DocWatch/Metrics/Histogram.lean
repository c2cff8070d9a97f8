import DocWatch.Binary64.Reading

/-!
# Histograms of durations

A histogram counts observations by ranges, whose upper bounds are fixed, and
adds them up. Each observation falls into the first range that it does not
exceed, or into none of them.
-/

namespace DocWatch.Metrics

/-- Observations by ranges. -/
structure Histogram where
  /-- The observations in each range, in the order of the ranges. -/
  counts : List Nat
  sum : Binary64
  total : Nat
  deriving Repr

namespace Histogram

/-- The upper bounds of the ranges, in seconds. -/
def bounds : List Binary64 :=
  [5, 10, 25, 50, 100, 250, 500, 1000, 2500, 5000, 10000].map fun millis =>
    .ofDecimal false millis (-3)

/-- A histogram without observations. -/
def empty : Histogram :=
  ⟨bounds.map fun _ => 0, .zero, 0⟩

/-- Counts an observation in the first range that it does not exceed. -/
def countIn (x : Binary64) : List Binary64 → List Nat → List Nat
  | bound :: bounds, n :: counts =>
      if x.atMost bound then (n + 1) :: counts else n :: countIn x bounds counts
  | _, counts => counts

/-- Adds an observation. -/
def observe (h : Histogram) (x : Binary64) : Histogram :=
  ⟨countIn x bounds h.counts, h.sum.add x, h.total + 1⟩

/-- The number of observations up to each bound. -/
def cumulativeFrom (before : Nat) : List Nat → List Nat
  | [] => []
  | n :: counts => (before + n) :: cumulativeFrom (before + n) counts

/-- Each bound with the number of observations up to it. -/
def buckets (h : Histogram) : List (Binary64 × Nat) :=
  bounds.zip (cumulativeFrom 0 h.counts)

end Histogram

end DocWatch.Metrics
