import Mathlib

namespace rust

/-- `std::time::Duration`. -/
structure Duration where
  secs : UInt64
  nanos : Nat
  nanos_lt : nanos < 1000000000
deriving DecidableEq

namespace Duration

def as_nanos (duration : Duration) : Nat := duration.secs.toNat * 1000000000 + duration.nanos

def is_zero (duration : Duration) : Bool := duration.secs == 0 && duration.nanos == 0

end Duration

end rust
