/-!
# Durations

- `Duration`: whole seconds and nanoseconds, of which a full second is carried over.
- `Duration.milliseconds`: the whole milliseconds of a duration.
-/

namespace ItemNeighbors

/-- A length of time. -/
structure Duration where
  seconds : UInt64
  nanoseconds : Nat
  nanoseconds_lt : nanoseconds < 1000000000
deriving DecidableEq

namespace Duration

/-- The length of some seconds and nanoseconds. -/
def make (seconds : UInt64) (nanoseconds : UInt32) : Duration where
  seconds := seconds + (nanoseconds / 1000000000).toUInt64
  nanoseconds := nanoseconds.toNat % 1000000000
  nanoseconds_lt := Nat.mod_lt _ (by decide)

/-- The whole milliseconds, as a number of 64 bits: a duration of more than 584 million years
wraps around. -/
def milliseconds (d : Duration) : UInt64 :=
  d.seconds * 1000 + UInt64.ofNat (d.nanoseconds / 1000000)

end Duration

end ItemNeighbors
