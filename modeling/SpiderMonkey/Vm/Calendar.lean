import SpiderMonkey.Lib.ExactDouble
import SpiderMonkey.Lib.IntSteps

/-! # Dates

The functions of ES5 15.9.1 in `jsdate.cpp`, on doubles in exact arithmetic. The tests for numbers
that are not finite are left out: none comes about.
-/

namespace SpiderMonkey.Vm

open Lib.Exact

abbrev hoursPerDay : ℚ := 24
abbrev minutesPerHour : ℚ := 60
abbrev secondsPerMinute : ℚ := 60
abbrev msPerSecond : ℚ := 1000
abbrev msPerMinute : ℚ := msPerSecond * secondsPerMinute
abbrev msPerHour : ℚ := msPerMinute * minutesPerHour
abbrev msPerDay : ℚ := 86400000

def day (t : ℚ) : ℚ := floor (t / msPerDay)

def isLeapYear (year : ℚ) : Bool :=
  fmod year 4 = 0 && (fmod year 100 ≠ 0 || fmod year 400 = 0)

def daysInYear (year : ℚ) : ℚ := if isLeapYear year then 366 else 365

def dayFromYear (y : ℚ) : ℚ :=
  365 * (y - 1970) + floor ((y - 1969) / 4) - floor ((y - 1901) / 100) + floor ((y - 1601) / 400)

def timeFromYear (y : ℚ) : ℚ := dayFromYear y * msPerDay

/-- The year by the average length of years. -/
def averageYear (t : ℚ) : ℚ := floor (t / (msPerDay * 365.2425)) + 1970

def yearFromTime (t : ℚ) : ℚ :=
  let y := averageYear t
  let t2 := timeFromYear y
  if t < t2 then y - 1
  else if t2 + msPerDay * daysInYear y ≤ t then y + 1
  else y

def daysInFebruary (year : ℤ) : ℤ := if isLeapYear year then 29 else 28

def dayWithinYear (t year : ℚ) : ℚ := day t - dayFromYear year

def monthFromTime (t : ℚ) : ℚ :=
  let year := yearFromTime t
  let d := dayWithinYear t year
  let step : ℤ := 31
  if d < step then 0
  else
    let step := step + daysInFebruary (toInt year)
    if d < step then 1
    else
      let step := step + 31
      if d < step then 2
      else
        let step := step + 30
        if d < step then 3
        else
          let step := step + 31
          if d < step then 4
          else
            let step := step + 30
            if d < step then 5
            else
              let step := step + 31
              if d < step then 6
              else
                let step := step + 31
                if d < step then 7
                else
                  let step := step + 30
                  if d < step then 8
                  else
                    let step := step + 31
                    if d < step then 9
                    else
                      let step := step + 30
                      if d < step then 10 else 11

def dateFromTime (t : ℚ) : ℚ :=
  let year := yearFromTime t
  let d := dayWithinYear t year
  let next : ℤ := 30
  if d ≤ next then d + 1
  else
    let step := next
    let next := next + daysInFebruary (toInt year)
    if d ≤ next then d - step
    else
      let step := next
      let next := next + 31
      if d ≤ next then d - step
      else
        let step := next
        let next := next + 30
        if d ≤ next then d - step
        else
          let step := next
          let next := next + 31
          if d ≤ next then d - step
          else
            let step := next
            let next := next + 30
            if d ≤ next then d - step
            else
              let step := next
              let next := next + 31
              if d ≤ next then d - step
              else
                let step := next
                let next := next + 31
                if d ≤ next then d - step
                else
                  let step := next
                  let next := next + 30
                  if d ≤ next then d - step
                  else
                    let step := next
                    let next := next + 31
                    if d ≤ next then d - step
                    else
                      let step := next
                      let next := next + 30
                      if d ≤ next then d - step
                      else
                        let step := next
                        d - step

/-- The days of the year before each month. -/
def firstDayOfMonth (isLeapYear : Bool) : List ℤ :=
  if isLeapYear then [0, 31, 60, 91, 121, 152, 182, 213, 244, 274, 305, 335, 366]
  else [0, 31, 59, 90, 120, 151, 181, 212, 243, 273, 304, 334, 365]

def dayFromMonth (month : ℤ) (isLeapYear : Bool) : ℤ :=
  (firstDayOfMonth isLeapYear).getD month.toNat 0

def makeDay (year month date : ℚ) : ℚ :=
  let y : ℚ := toInt year
  let m : ℚ := toInt month
  let dt : ℚ := toInt date
  let ym := y + floor (m / 12)
  let mn := toInt (fmod m 12)
  let mn := if mn < 0 then mn + 12 else mn
  let leap := isLeapYear ym
  let yearday := floor (timeFromYear ym / msPerDay)
  let monthday := dayFromMonth mn leap
  yearday + monthday + dt - 1

def makeDate (day time : ℚ) : ℚ := day * msPerDay + time

def hourFromTime (t : ℚ) : ℚ :=
  let result := fmod (floor (t / msPerHour)) hoursPerDay
  if result < 0 then result + hoursPerDay else result

def minFromTime (t : ℚ) : ℚ :=
  let result := fmod (floor (t / msPerMinute)) minutesPerHour
  if result < 0 then result + minutesPerHour else result

def secFromTime (t : ℚ) : ℚ :=
  let result := fmod (floor (t / msPerSecond)) secondsPerMinute
  if result < 0 then result + secondsPerMinute else result

def msFromTime (t : ℚ) : ℚ :=
  let result := fmod t msPerSecond
  if result < 0 then result + msPerSecond else result

def makeTime (hour min sec ms : ℚ) : ℚ :=
  let h : ℚ := toInt hour
  let m : ℚ := toInt min
  let s : ℚ := toInt sec
  let milli : ℚ := toInt ms
  h * msPerHour + m * msPerMinute + s * msPerSecond + milli

end SpiderMonkey.Vm
