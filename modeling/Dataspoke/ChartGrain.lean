import Dataspoke.Calendar
import Dataspoke.DecimalText
import Dataspoke.LastPerKey

/-!
# Chart grain

How a chart collapses its rows: one point per hour, day or week of the display time zone, the
last measurement of each.
-/

namespace Dataspoke
namespace Charts

open Python Calendar DecimalText LastPerKey

inductive ChartGrain
  | hourly | daily | weekly
  deriving DecidableEq

inductive TzMode
  | utc | «local»

/-- The wall-clock fields of an instant; January is month 0 and Sunday weekday 0. -/
structure TzParts where
  year : ℤ
  month : ℕ
  day : ℤ
  hours : ℤ
  minutes : ℤ
  weekday : ℤ

/-- What the host gives: the instant that `new Date(iso)` reads, none if it is invalid, and the
fields in the zone of the host. -/
structure Host where
  date : Str → Option ℤ
  localParts : ℤ → TzParts

def msPerHour : ℤ := 3600000

def msPerDay : ℤ := 86400000

def dayOf (t : ℤ) : ℤ := t/msPerDay

def utcParts (t : ℤ) : TzParts where
  year := yearFromDay (dayOf t)
  month := monthFromDay (dayOf t)
  day := dateFromDay (dayOf t)
  hours := t/msPerHour%24
  minutes := t/60000%60
  weekday := weekDay (dayOf t)

variable (host : Host)

def tzParts (iso : Str) (tz : TzMode) : Option TzParts :=
  if iso = [] then none
  else (host.date iso).map fun t =>
    match tz with
    | .utc => utcParts t
    | .local => host.localParts t

/-- `String(n)`. -/
def numeral (n : ℤ) : Str :=
  if n < 0 then '-' :: Nat.toDigits 10 n.natAbs else Nat.toDigits 10 n.toNat

def pad (n : ℤ) : Str := (numeral n).leftpad 2 '0'

def ymd (year : ℤ) (month : ℕ) (day : ℤ) : Str :=
  numeral year ++ '-' :: pad (month+1) ++ '-' :: pad day

/-- `Date.UTC(year, month, day)` as a day; a year of two digits is one of the last century. -/
def dateUTC (year : ℤ) (month : ℕ) (day : ℤ) : ℤ :=
  makeDay (if 0 ≤ year ∧ year ≤ 99 then 1900+year else year) month day

def bucketOf (grain : ChartGrain) (p : TzParts) : Str :=
  match grain with
  | .hourly => ymd p.year p.month p.day ++ ' ' :: pad p.hours ++ ":00".toList
  | .daily => ymd p.year p.month p.day
  | .weekly =>
    let offset := (p.weekday+6)%7
    let monday := dateUTC p.year p.month (p.day-offset)
    ymd (yearFromDay monday) (monthFromDay monday) (dateFromDay monday)

def grainBucket (iso : Str) (grain : ChartGrain) (tz : TzMode) : Option Str :=
  (tzParts host iso tz).map (bucketOf grain)

/-- A point; `values` are the keys of the row that the label and the instant do not overwrite. -/
structure GrainPoint (V : Type) where
  values : List (Str × V)
  date : Str
  timestamp : ℤ

section Collapse

variable {T V : Type} (grain : ChartGrain) (tz : TzMode) (timeOf : T → Str)
  (valuesOf : T → List (Str × V))

def grainPoint (date : Str) (t : ℤ) (row : T) : GrainPoint V where
  values := (valuesOf row).filter fun v => v.1 ≠ "date".toList && v.1 ≠ "timestamp".toList
  date := date
  timestamp := t

/-- One round of the loop over the rows. -/
def keepLatest (latest : List (Str × ℤ × T)) (row : T) : List (Str × ℤ × T) :=
  let iso := timeOf row
  match grainBucket host iso grain tz, host.date iso with
  | some bucket, some t =>
    match get? bucket latest with
    | none => setItem bucket (t,row) latest
    | some held => if held.1 ≤ t then setItem bucket (t,row) latest else latest
  | _, _ => latest

def toGrainPoints (rows : List T) : List (GrainPoint V) :=
  ((rows.foldl (keepLatest host grain tz timeOf) []).insertionSort fun a b => a.1 ≤ b.1).map
    fun (date,t,row) => grainPoint valuesOf date t row

end Collapse

example : ymd 2026 0 5 = "2026-01-05".toList := by decide

end Charts
end Dataspoke
