/-! # Spans of time

Time limits and what a clock shows are counted in nanoseconds.
-/

namespace XbrlNetworks

/-- A span of time in nanoseconds. -/
abbrev Duration := Nat

namespace Duration

def ofSeconds (seconds : Nat) : Duration := seconds * 1000000000

/-- A part of a unit as a decimal fraction, without zeros at its end. -/
def fraction (places part : Nat) : String :=
  let digits := part.repr
  let padded := "".pushn '0' (places - digits.length) ++ digits
  .ofList (padded.toList.reverse.dropWhile (· == '0')).reverse

def inUnit (duration : Duration) (places : Nat) (unit : String) : String :=
  let whole := duration / Nat.pow 10 places
  let part := duration % Nat.pow 10 places
  if part = 0 then s!"{whole}{unit}" else s!"{whole}.{fraction places part}{unit}"

/-- A span as it stands in messages, in the largest unit that it fills. -/
def text (duration : Duration) : String :=
  if 1000000000 ≤ duration then duration.inUnit 9 "s"
  else if 1000000 ≤ duration then duration.inUnit 6 "ms"
  else if 1000 ≤ duration then duration.inUnit 3 "µs"
  else duration.inUnit 0 "ns"

example : text 1500000000 = "1.5s" := by decide +kernel

end Duration

end XbrlNetworks
