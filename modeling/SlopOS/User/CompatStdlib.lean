import SlopOS.Kernel.Types
import SlopOS.Support.Decimal
/-!
# `compat_stdlib.c`

`strtol`.  A `long` is an `Int`, and `none` is a signed operation that leaves its range.
-/

namespace SlopOS.User

open SlopOS.Kernel SlopOS.Support

def longMax : Int := 2147483647

def longMin : Int := -2147483647 - 1

def einval : Int := 22

def erange : Int := 34

def checked (v : Int) : Option Int := if longMin ≤ v ∧ v ≤ longMax then some v else none

/-- `*p == ' ' || *p == '\t' || *p == '\n' || *p == '\r'` -/
def IsBlank (c : U8) : Prop := c = chr ' ' ∨ c = chr '\t' ∨ c = chr '\n' ∨ c = chr '\r'

instance (c : U8) : Decidable (IsBlank c) := inferInstanceAs (Decidable (_ ∨ _ ∨ _ ∨ _))

/-- `value`, `any`, whether `errno` became `ERANGE`, and `p`. -/
structure StrtolScan where
  value : Int
  any : Bool
  range : Bool
  p : CStr

def strtolLoop (base : Int) : CStr → Int → Bool → Option StrtolScan
  | [], value, any => some ⟨value, any, false, []⟩
  | c :: p, value, any =>
    if Decimal.IsDigit c then
      let digit : Int := c.toNat - 48
      if base ≤ digit then some ⟨value, any, false, c :: p⟩
      else do
        let room ← checked (longMax - digit)
        if room.tdiv base < value then
          some ⟨longMax, true, true, (c :: p).dropWhile fun c => Decimal.IsDigit c⟩
        else
          let product ← checked (value * base)
          let value ← checked (product + digit)
          strtolLoop base p value true
    else some ⟨value, any, false, c :: p⟩

/-- What `strtol` returns, `errno`, and `*endptr` as an offset from `nptr`. -/
structure StrtolDone where
  value : Int
  errno : Int
  endptr : Nat
deriving DecidableEq

def strtol (nptr : Option CStr) (base : Int) : Option StrtolDone :=
  match nptr with
  | none => some ⟨0, einval, 0⟩
  | some nptr =>
    if base ≠ 0 ∧ base ≠ 10 then some ⟨0, einval, 0⟩
    else do
      let p := nptr.dropWhile fun c => IsBlank c
      let sign := p.head?
      let neg := sign = some (chr '-')
      let p := if sign = some (chr '+') ∨ sign = some (chr '-') then p.tail else p
      let base := if base = 0 then 10 else base
      let scan ← strtolLoop base p 0 false
      let errno := if scan.range then erange else 0
      if scan.any = false then some ⟨0, errno, 0⟩
      else
        let value ← if neg then checked (-scan.value) else some scan.value
        some ⟨value, errno, nptr.length - scan.p.length⟩

end SlopOS.User
