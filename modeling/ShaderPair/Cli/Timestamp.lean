import ShaderPair.Text.Basic

/-!
# Timestamps

`Timestamp.text` writes a moment, given in seconds since the start of 1970, as a date and a time of
day in universal time.
-/

namespace ShaderPair

namespace Timestamp

/-- The digits of `n`, with zeros in front of them up to the width. -/
def padded (width n : Nat) : Text :=
  let digits := Text.ofNat n
  List.replicate (width - digits.length) '0' ++ digits

/-- The number of days from the first of March of the year 0 to the start of 1970. -/
def epochDay : Nat := 719468

/-- The number of days in 400 years. -/
def eraDays : Nat := 146097

/-- The year since a multiple of 400 in which a day of these 400 years lies; years begin in
March. -/
def yearOfEra (day : Nat) : Nat :=
  (day - day / 1460 + day / 36524 - day / (eraDays - 1)) / 365

/-- The year, month and day of a day counted from the start of 1970. -/
def date (day : Nat) : Nat × Nat × Nat :=
  let z := day + epochDay
  let day := z % eraDays
  let year := yearOfEra day
  let dayOfYear := day - (365 * year + year / 4 - year / 100)
  let shifted := (5 * dayOfYear + 2) / 153
  let dayOfMonth := dayOfYear - (153 * shifted + 2) / 5 + 1
  let month := if shifted < 10 then shifted + 3 else shifted - 9
  (400 * (z / eraDays) + year + (if month ≤ 2 then 1 else 0), month, dayOfMonth)

/-- A moment in universal time. -/
def text (seconds : Nat) : Text :=
  let (year, month, day) := date (seconds / 86400)
  let time := seconds % 86400
  padded 4 year ++ "-" ++ padded 2 month ++ "-" ++ padded 2 day ++ " "
    ++ padded 2 (time / 3600) ++ ":" ++ padded 2 (time / 60 % 60) ++ ":" ++ padded 2 (time % 60)
    ++ " UTC"

end Timestamp

end ShaderPair
