import DependencyAudit.Number.Power
import DependencyAudit.Text.Basic

/-!
# Instants and durations

An instant is a number of seconds since the start of 1970, seen from a time zone. It is
written as date, time and offset. A duration is a number of nanoseconds; it is written in the
largest units that fit.
-/

namespace DependencyAudit

/-- A point in time, seen `zone` seconds east of Greenwich. -/
structure Instant where
  seconds : Int
  zone : Int
  deriving DecidableEq, Repr

namespace Instant

/-- Year, month and day of a number of days since the start of 1970, in the Gregorian
calendar. -/
def date (days : Int) : Int × Nat × Nat :=
  -- days since 1 March of the year 0, in eras of 400 years
  let z := days + 719468
  let era := z.fdiv 146097
  let dayOfEra := (z - era * 146097).toNat
  let yearOfEra := (dayOfEra - dayOfEra / 1460 + dayOfEra / 36524 - dayOfEra / 146096) / 365
  let dayOfYear := dayOfEra - (365 * yearOfEra + yearOfEra / 4 - yearOfEra / 100)
  let m := (5 * dayOfYear + 2) / 153
  let day := dayOfYear - (153 * m + 2) / 5 + 1
  let month := if m < 10 then m + 3 else m - 9
  let year := era * 400 + yearOfEra + if month ≤ 2 then 1 else 0
  (year, month, day)

/-- A number with leading zeros. -/
def padded (width : Nat) (n : Int) : Text :=
  let digits := Text.ofNat n.natAbs
  (if n < 0 then [Ascii.dash] else []) ++
    List.replicate (width - digits.length) Ascii.zero ++ digits

/-- The offset of a zone in hours and minutes. -/
def offset (zone : Int) : Text :=
  if zone = 0 then "Z"
  else
    let minutes := zone.tdiv 60
    Text.concat
      [if minutes < 0 then "-" else "+", padded 2 (minutes.natAbs / 60), ":",
       padded 2 (minutes.natAbs % 60)]

/-- The year of an instant. -/
def year (t : Instant) : Int :=
  (date ((t.seconds + t.zone).fdiv 86400)).1

/-- Date, time and offset. -/
def format (t : Instant) : Text :=
  let local' := t.seconds + t.zone
  let days := local'.fdiv 86400
  let rest := (local' - days * 86400).toNat
  let (year, month, day) := date days
  Text.concat
    [padded 4 year, "-", padded 2 month, "-", padded 2 day, "T", padded 2 (rest / 3600), ":",
     padded 2 (rest / 60 % 60), ":", padded 2 (rest % 60), offset t.zone]

end Instant

/-- A length of time in nanoseconds. -/
abbrev Nanoseconds := Int

namespace Nanoseconds

/-- The longest duration that fits 64 bits. -/
def longest : Nanoseconds := signedLimit - 1

/-- Rounds to whole microseconds, a half away from zero; what would leave 64 bits stays at the
end of the range. -/
def roundToMicros (d : Nanoseconds) : Nanoseconds :=
  let q := (2 * d.natAbs + 1000) / 2000 * 1000
  if d < 0 then max (-(signedLimit : Int)) (-(q : Int)) else min longest q

/-- A number of units of `10 ^ places`, with the fraction as far as it is not zero. -/
def fraction (n : Nat) (places : Nat) : Text :=
  let unit := tenPow places
  let digits := Text.dropRightWhile (· = Ascii.zero) (Instant.padded places (n % unit : Nat))
  Text.ofNat (n / unit) ++ if digits.isEmpty then [] else Ascii.dot :: digits

/-- Hours, minutes and seconds; below a second the largest unit that fits. -/
def format (d : Nanoseconds) : Text :=
  let n := d.natAbs
  let body : Text :=
    if n = 0 then "0s"
    else if n < 1000 then Text.concat [Text.ofNat n, "ns"]
    else if n < 1000000 then Text.concat [fraction n 3, "µs"]
    else if n < 1000000000 then Text.concat [fraction n 6, "ms"]
    else
      let seconds := n / 1000000000
      let hours := seconds / 3600
      let minutes := seconds / 60 % 60
      Text.concat
        [if hours = 0 then [] else Text.concat [Text.ofNat hours, "h"],
         if seconds < 60 then [] else Text.concat [Text.ofNat minutes, "m"],
         fraction (n - (hours * 3600 + minutes * 60) * 1000000000) 9, "s"]
  if d < 0 then Ascii.dash :: body else body

end Nanoseconds

end DependencyAudit
