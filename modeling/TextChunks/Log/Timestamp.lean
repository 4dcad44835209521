import TextChunks.Text.Basic

namespace TextChunks.Log

/-- Days since 1970-01-01 as year, month and day. -/
def dateOf (days : Int) : Int × Int × Int :=
  let shifted := days + 719468
  let era := Int.fdiv shifted 146097
  let dayOfEra := shifted - era * 146097
  let yearOfEra := (dayOfEra - dayOfEra / 1460 + dayOfEra / 36524 - dayOfEra / 146096) / 365
  let dayOfYear := dayOfEra - (365 * yearOfEra + yearOfEra / 4 - yearOfEra / 100)
  let shiftedMonth := (5 * dayOfYear + 2) / 153
  let day := dayOfYear - (153 * shiftedMonth + 2) / 5 + 1
  let month := if shiftedMonth < 10 then shiftedMonth + 3 else shiftedMonth - 9
  let year := yearOfEra + era * 400 + (if month ≤ 2 then 1 else 0)
  (year, month, day)

def padTo (width : Nat) (n : Int) : Text :=
  let ds := Text.ofInt n
  List.replicate (width - ds.length) '0' ++ ds

def isYear (year : Int) : Bool := -2147481748 ≤ year && year ≤ 2147483647

/-- Seconds since 1970 as year, month, day and time of day, as in `2000-02-29T23:59:59`. -/
def timestamp? (seconds : Int) : Option Text :=
  let days := Int.fdiv seconds 86400
  let s := seconds - days * 86400
  let (year, month, day) := dateOf days
  if isYear year then
    some (Text.ofInt year ++ '-' :: padTo 2 month ++ '-' :: padTo 2 day ++ 'T' ::
      padTo 2 (s / 3600) ++ ':' :: padTo 2 (s / 60 % 60) ++ ':' :: padTo 2 (s % 60))
  else none

end TextChunks.Log
