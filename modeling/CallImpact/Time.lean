import CallImpact.Text.Number

/-!
# Instants

Points in time to the nanosecond, the calendar dates they fall on, and their written form. Every
date of the proleptic Gregorian calendar corresponds to one number of days since 1970.
-/

namespace CallImpact

/-- A point in time: whole seconds since 1970, and the nanoseconds that follow. Within a leap second
there are more than 10^9 of them. -/
structure Instant where
  seconds : Int
  nanos : Nat
  deriving Repr, BEq, DecidableEq, Inhabited

namespace Instant

/-- Whether one instant is not later than another. -/
def le (a b : Instant) : Bool :=
  a.seconds < b.seconds || (a.seconds == b.seconds && a.nanos ≤ b.nanos)

/-! ## Dates -/

/-- The number of days from 1970-01-01 to a date. Years are counted from March, so that the leap day
comes last. -/
def daysOfDate (year : Int) (month day : Nat) : Int :=
  let year := if month ≤ 2 then year - 1 else year
  let era := Int.fdiv year 400
  let yearOfEra := year - era * 400
  let dayOfYear : Int := (153 * ((month + 9) % 12) + 2) / 5 + day - 1
  era * 146097 +
    (yearOfEra * 365 + Int.fdiv yearOfEra 4 - Int.fdiv yearOfEra 100 + dayOfYear) - 719468

/-- The date that is a number of days after 1970-01-01, as year, month and day. -/
def dateOfDays (days : Int) : Int × Nat × Nat :=
  let z := days + 719468
  let era := Int.fdiv z 146097
  let dayOfEra := (z - era * 146097).toNat
  let yearOfEra := (dayOfEra - dayOfEra / 1460 + dayOfEra / 36524 - dayOfEra / 146096) / 365
  let dayOfYear := dayOfEra - (365 * yearOfEra + yearOfEra / 4 - yearOfEra / 100)
  let fromMarch := (5 * dayOfYear + 2) / 153
  let month := if fromMarch < 10 then fromMarch + 3 else fromMarch - 9
  let year := era * 400 + yearOfEra
  (if month ≤ 2 then year + 1 else year, month, dayOfYear - (153 * fromMarch + 2) / 5 + 1)

/-- Whether a year has a leap day. -/
def isLeap (year : Int) : Bool :=
  year % 4 == 0 && (year % 100 != 0 || year % 400 == 0)

/-- The number of days of a month. -/
def daysInMonth (year : Int) (month : Nat) : Nat :=
  if month = 2 then (if isLeap year then 29 else 28)
  else if month = 4 || month = 6 || month = 9 || month = 11 then 30 else 31

/-- The first and the last year with dates. -/
def yearRange : Int × Int := (-262143, 262142)

/-- The seconds of a day. -/
def secondsPerDay : Nat := 86400

/-- The first instant with a date. -/
def earliest : Instant :=
  ⟨daysOfDate yearRange.1 1 1 * secondsPerDay, 0⟩

/-- The instant a number of days earlier; none when it has no date. -/
def daysBefore? (i : Instant) (days : Nat) : Option Instant :=
  let earlier : Instant := { i with seconds := i.seconds - days * secondsPerDay }
  if earliest.le earlier then some earlier else none

/-! ## Writing -/

/-- A year with at least four digits. -/
def yearText (year : Int) : String :=
  if year < 0 then "-" ++ Text.padZeros 4 year.natAbs
  else if 9999 < year then "+" ++ toString year
  else Text.padZeros 4 year.toNat

/-- The date of an instant. -/
def dateText (i : Instant) : String :=
  let (year, month, day) := dateOfDays (Int.fdiv i.seconds secondsPerDay)
  yearText year ++ "-" ++ Text.padZeros 2 month ++ "-" ++ Text.padZeros 2 day

/-- The hour and the minute of an instant. -/
def minuteText (i : Instant) : String :=
  let s := (Int.fmod i.seconds secondsPerDay).toNat
  Text.padZeros 2 (s / 3600) ++ ":" ++ Text.padZeros 2 (s / 60 % 60)

/-- The hour, the minute and the second of an instant. -/
def secondText (i : Instant) : String :=
  let s := (Int.fmod i.seconds 60).toNat + i.nanos / 1000000000
  i.minuteText ++ ":" ++ Text.padZeros 2 s

/-- The fraction of a second, without one when it is zero, in groups of three digits. -/
def fractionText (i : Instant) : String :=
  let n := i.nanos % 1000000000
  if n = 0 then ""
  else if n % 1000000 = 0 then "." ++ Text.padZeros 3 (n / 1000000)
  else if n % 1000 = 0 then "." ++ Text.padZeros 6 (n / 1000)
  else "." ++ Text.padZeros 9 n

/-- The date and the time of day of an instant. -/
def dateTimeText (i : Instant) : String :=
  i.dateText ++ "T" ++ i.secondText ++ i.fractionText

/-- The written form of an instant in documents. -/
def text (i : Instant) : String :=
  i.dateTimeText ++ "Z"

/-- The written form of an instant in snapshots, where the offset from universal time has digits. -/
def offsetText (i : Instant) : String :=
  i.dateTimeText ++ "+00:00"

/-! ## Reading -/

/-- A reader of a part of a written instant. -/
abbrev Reader := StateT (List Char) Option

namespace Reader

/-- Skips blanks. -/
def blanks : Reader Unit :=
  modify (·.dropWhile Text.isBlank)

/-- Takes one of the given characters. -/
def oneOf (allowed : List Char) : Reader Char := do
  match ← get with
  | c :: rest => if allowed.contains c then set rest; return c else failure
  | [] => failure

/-- Takes a sign, if there is one. -/
def sign? : Reader (Option Char) := do
  match ← get with
  | c :: rest => if c = '-' || c = '+' then set rest; return some c else return none
  | [] => return none

/-- Takes digits, at least one and at most the given number. -/
def number (most : Nat) : Reader Nat := do
  let digits := ((← get).take most).takeWhile Text.isDecimalDigit
  guard (!digits.isEmpty)
  modify (·.drop digits.length)
  return Text.digitsValue digits

/-- Takes a number of at most two digits within bounds, after blanks. -/
def part (low high : Nat) : Reader Nat := do
  blanks
  let n ← number 2
  guard (low ≤ n && n ≤ high)
  return n

/-- Takes a separator after blanks. -/
def separator (c : Char) : Reader Unit := do
  blanks
  discard (oneOf [c])

/-- Takes a year: four digits, or a sign and any number of them. -/
def year : Reader Int := do
  blanks
  match ← sign? with
  | some '-' => return - (← number (← get).length : Int)
  | some _ => return (← number (← get).length : Int)
  | none => return (← number 4 : Int)

/-- Takes a date and gives its number of days. -/
def date : Reader Int := do
  let y ← year
  separator '-'
  let m ← part 1 12
  separator '-'
  let d ← part 1 31
  guard (yearRange.1 ≤ y && y ≤ yearRange.2 && d ≤ daysInMonth y m)
  return daysOfDate y m d

/-- Takes the fraction of a second in nanoseconds; digits beyond the ninth do not count. -/
def fraction : Reader Nat := do
  match ← get with
  | '.' :: rest =>
    let digits := rest.takeWhile Text.isDecimalDigit
    guard (!digits.isEmpty)
    set (rest.drop digits.length)
    let nine := digits.take 9
    return Text.digitsValue (nine ++ List.replicate (9 - nine.length) '0')
  | _ => return 0

/-- Takes a time of day. -/
def timeOfDay : Reader Instant := do
  let h ← part 0 23
  separator ':'
  let m ← part 0 59
  separator ':'
  let s ← part 0 60
  let n ← fraction
  if s = 60 then return ⟨h * 3600 + m * 60 + 59, 1000000000 + n⟩
  else return ⟨h * 3600 + m * 60 + s, n⟩

/-- Takes two digits of an offset, at most the given number. -/
def twoDigits (most : Nat) : Reader Nat := do
  let before := (← get).length
  let n ← number 2
  guard (before = (← get).length + 2 && n ≤ most)
  return n

/-- Takes an offset from universal time and gives its seconds. -/
def offset : Reader Int := do
  match ← get with
  | 'Z' :: rest | 'z' :: rest => set rest; return 0
  | u :: t :: c :: rest =>
    if u.toUpper = 'U' && t.toUpper = 'T' && c.toUpper = 'C' then set rest; return 0
    else
      let sign ← oneOf ['+', '-', '\u2212']
      let h ← twoDigits 99
      modify (·.dropWhile fun c => c = ':' || Text.isBlank c)
      let m ← twoDigits 59
      let s : Int := h * 3600 + m * 60
      guard (s < secondsPerDay)
      return if sign = '+' then s else -s
  | _ => failure

/-- Takes a whole instant. -/
def instant : Reader Instant := do
  let days ← date
  discard (oneOf ['T', 't', ' '])
  let time ← timeOfDay
  blanks
  let shift ← offset
  blanks
  guard (← get).isEmpty
  return { time with seconds := days * secondsPerDay + time.seconds - shift }

end Reader

/-- Reads a written instant. -/
def parse? (s : String) : Option Instant :=
  (Reader.instant.run s.toList).map (·.1)

end Instant

end CallImpact
