/-!
The times that log lines show: one for the console, one with the date for files.
-/

namespace ModelTypes

structure Clock where
  time : String
  dateTime : String
deriving DecidableEq, Repr

namespace Clock

/-- A number of at least `width` digits. -/
def padded (width n : Nat) : String :=
  let digits := toString n
  String.ofList (List.replicate (width - digits.length) '0') ++ digits

def timeText (seconds : Nat) : String :=
  padded 2 (seconds / 3600) ++ ":" ++ padded 2 (seconds / 60 % 60) ++ ":" ++ padded 2 (seconds % 60)

/-- Year, month and day of a day, counted from the first of March of the year 0. Years end with
February here, so that a leap day is the last of its year. -/
def dateOfDay (day : Nat) : Nat × Nat × Nat :=
  let cycle := day % 146097
  let year := (cycle - cycle / 1460 + cycle / 36524 - cycle / 146096) / 365
  let rest := cycle - (365 * year + year / 4 - year / 100)
  let month := (5 * rest + 2) / 153
  let date := (day / 146097 * 400 + year, rest - (153 * month + 2) / 5 + 1)
  if month < 10 then (date.1, month + 3, date.2) else (date.1 + 1, month - 9, date.2)

/-- The number of days from the first of March of the year 0 to the start of the year 1970. -/
def epochDay : Nat := 719468

/-- The clock at a number of seconds after the start of the year 1970. -/
def ofSeconds (seconds : Nat) : Clock :=
  let time := timeText (seconds % 86400)
  let (year, month, day) := dateOfDay (epochDay + seconds / 86400)
  ⟨time, padded 4 year ++ "-" ++ padded 2 month ++ "-" ++ padded 2 day ++ " " ++ time⟩

end Clock
end ModelTypes
