import XbrlNetworks.Decimal.Numeral
import XbrlNetworks.Toml.Reader

/-! # TOML dates and times

A moment is a date, a time of day, or both, and then perhaps an offset from
universal time.  It is only checked: the day has to exist in its month, and a
minute may have a leap second.
-/

namespace XbrlNetworks.Toml

def digits (count : Nat) : Reader Nat := fun input =>
  let digits := input.take count
  if digits.length == count && digits.all Char.isDigit then
    some (Numeral.valueOfDigits digits, input.drop count)
  else
    none

def twoDigits (least greatest : Nat) : Reader Nat := do
  let value ← digits 2
  if least ≤ value ∧ value ≤ greatest then return value else failure

def isLeapYear (year : Nat) : Bool :=
  year % 4 == 0 && (year % 100 != 0 || year % 400 == 0)

def daysInMonth (year month : Nat) : Nat :=
  match month with
  | 2 => if isLeapYear year then 29 else 28
  | 4 | 6 | 9 | 11 => 30
  | _ => 31

def date : Reader Unit := do
  let year ← digits 4
  expect '-'
  let month ← twoDigits 1 12
  expect '-'
  let _ ← twoDigits 1 (daysInMonth year month)

def fraction : Reader Unit := do
  expect '.'
  let digits ← run Char.isDigit
  if digits.isEmpty then failure

def time : Reader Unit := do
  let _ ← twoDigits 0 23
  expect ':'
  let _ ← twoDigits 0 59
  expect ':'
  let _ ← twoDigits 0 60
  let _ ← optional fraction

def offset : Reader Unit := do
  let sign ← next
  if sign = '+' ∨ sign = '-' then
    let _ ← twoDigits 0 23
    expect ':'
    let _ ← twoDigits 0 59
  else if sign ≠ 'Z' ∧ sign ≠ 'z' then
    failure

/-- Reads the time that may follow a date. -/
def timeAfterDate : Reader Unit := do
  let separator ← next
  if separator = 'T' ∨ separator = 't' ∨ separator = ' ' then
    time
    let _ ← optional offset
  else
    failure

def moment : Reader Unit :=
  (do date; let _ ← optional timeAfterDate) <|> time

end XbrlNetworks.Toml
