import Scheduling.Decimal.Read
import Scheduling.Json.Basic

/-!
# Dates and times in TOML

A date, a time of day, or both with or without an offset from universal time. Each has one canonical
text, and as a JSON value it is an object that holds this text.
-/

namespace Scheduling

/-- A day of the calendar. -/
structure TomlDate where
  year : Nat
  month : Nat
  day : Nat
deriving DecidableEq, Repr

/-- A time of day. -/
structure TomlTime where
  hour : Nat
  minute : Nat
  second : Nat
  nanosecond : Nat
deriving DecidableEq, Repr

/-- An offset from universal time. -/
inductive TomlOffset where
  | zero
  /-- So many minutes ahead of it. -/
  | minutes (m : Int)
deriving DecidableEq, Repr

/-- A date, a time of day, or both. -/
structure TomlDateTime where
  date : Option TomlDate
  time : Option TomlTime
  offset : Option TomlOffset
deriving DecidableEq, Repr

/-! ## Texts -/

/-- A number with zeros in front, up to a width. -/
def paddedText (width n : Nat) : String :=
  let digits := Nat.repr n
  String.ofList (List.replicate (width - digits.length) '0') ++ digits

/-- The text of a day. -/
def TomlDate.text (d : TomlDate) : String :=
  paddedText 4 d.year ++ "-" ++ paddedText 2 d.month ++ "-" ++ paddedText 2 d.day

/-- The text of a time of day, without zeros at the end of a fraction. -/
def TomlTime.text (t : TomlTime) : String :=
  let fraction :=
    if t.nanosecond = 0 then ""
    else
      let digits := (paddedText 9 t.nanosecond).toList.reverse.dropWhile (· = '0')
      "." ++ String.ofList digits.reverse
  paddedText 2 t.hour ++ ":" ++ paddedText 2 t.minute ++ ":" ++ paddedText 2 t.second ++ fraction

/-- The text of an offset. -/
def TomlOffset.text : TomlOffset → String
  | zero => "Z"
  | minutes m =>
    (if m < 0 then "-" else "+") ++ paddedText 2 (m.natAbs / 60) ++ ":"
      ++ paddedText 2 (m.natAbs % 60)

namespace TomlDateTime

/-- The text of a date, a time or both. -/
def text (d : TomlDateTime) : String :=
  ((d.date.map TomlDate.text).getD "")
    ++ (if d.date.isSome ∧ d.time.isSome then "T" else "")
    ++ ((d.time.map TomlTime.text).getD "")
    ++ ((d.offset.map TomlOffset.text).getD "")

/-- The JSON value of a date, a time or both. -/
def toJson (d : TomlDateTime) : Json := .obj [("$__toml_private_datetime", .str d.text)]

end TomlDateTime

/-! ## Reading -/

namespace TomlDateTime

/-- The text after a character. -/
def after? (c : Char) : List Char → Option (List Char)
  | d :: rest => if d = c then some rest else none
  | [] => none

/-- A number of exactly `width` digits that lies in a range. -/
def number? (width least greatest : Nat) (cs : List Char) : Option (Nat × List Char) :=
  let digits := cs.take width
  let n := readDigits 0 digits
  if digits.length = width ∧ digits.all Char.isDigit ∧ least ≤ n ∧ n ≤ greatest then
    some (n, cs.drop width)
  else none

/-- The number of days of a month. -/
def daysOfMonth (year month : Nat) : Nat :=
  if month = 2 then
    if year % 4 = 0 ∧ (year % 100 ≠ 0 ∨ year % 400 = 0) then 29 else 28
  else if month ∈ [4, 6, 9, 11] then 30
  else 31

/-- Whether a text starts like a date: four digits and a hyphen. -/
def startsDate (cs : List Char) : Bool :=
  (cs.take 4).all Char.isDigit && cs[4]? == some '-'

/-- Whether a text starts like a time of day: an hour and a colon. -/
def startsTime (cs : List Char) : Bool :=
  match number? 2 0 23 cs with
  | some (_, ':' :: _) => true
  | _ => false

/-- A day, and the text after it. -/
def date? (cs : List Char) : Option (TomlDate × List Char) := do
  let (year, rest) ← number? 4 0 9999 cs
  let (month, rest) ← number? 2 1 12 (← after? '-' rest)
  let (day, rest) ← number? 2 1 (daysOfMonth year month) (← after? '-' rest)
  some (⟨year, month, day⟩, rest)

/-- The fraction of a second in nanoseconds, and the text after it; digits beyond the ninth do not
count. -/
def fraction (cs : List Char) : Nat × List Char :=
  match cs with
  | '.' :: rest =>
    match spanDigits rest with
    | ([], _) => (0, cs)
    | (digits, rest) =>
      let digits := digits.take 9
      (readDigits 0 (digits ++ List.replicate (9 - digits.length) '0'), rest)
  | _ => (0, cs)

/-- A time of day, and the text after it. -/
def time? (cs : List Char) : Option (TomlTime × List Char) := do
  let (hour, rest) ← number? 2 0 23 cs
  let (minute, rest) ← number? 2 0 59 (← after? ':' rest)
  let (second, rest) ← number? 2 0 60 (← after? ':' rest)
  let (nanosecond, rest) := fraction rest
  some (⟨hour, minute, second, nanosecond⟩, rest)

/-- The offset at the start of a text, if there is one, and the text after it. -/
def offset? (cs : List Char) : Option (Option TomlOffset × List Char) :=
  let shifted (sign : Int) (rest : List Char) : Option (Option TomlOffset × List Char) := do
    let (hours, rest) ← number? 2 0 23 rest
    let (minutes, rest) ← number? 2 0 59 (← after? ':' rest)
    some (some (.minutes (sign * (60 * hours + minutes : Nat))), rest)
  match cs with
  | 'Z' :: rest | 'z' :: rest => some (some .zero, rest)
  | '+' :: rest => shifted 1 rest
  | '-' :: rest => shifted (-1) rest
  | _ => some (none, cs)

/-- The date or time at the start of a text that starts like one, and the text after it. -/
def read? (cs : List Char) : Option (TomlDateTime × List Char) := do
  if startsDate cs then
    let (date, rest) ← date? cs
    match rest with
    | c :: after =>
      if (c = 'T' ∨ c = 't' ∨ c = ' ') ∧ startsTime after then
        let (time, rest) ← time? after
        let (offset, rest) ← offset? rest
        some (⟨some date, some time, offset⟩, rest)
      else some (⟨some date, none, none⟩, rest)
    | [] => some (⟨some date, none, none⟩, rest)
  else
    let (time, rest) ← time? cs
    some (⟨none, some time, none⟩, rest)

/-- Whether a text starts like a date or a time. -/
def starts (cs : List Char) : Bool := startsDate cs || startsTime cs

end TomlDateTime

end Scheduling
