import SlopOS.Kernel.Types
/-!
# `util.c`

The string helpers and `mem_zero`.  A C string is a list of its bytes, so the
NUL tests of the source are tests for the end of the list.
-/

namespace SlopOS.Kernel

open SlopOS.Support

def strEq (a b : CStr) : Bool := decide (a = b)

def strStartswith (s : CStr) : CStr → Bool
  | [] => true
  | p :: ps =>
    match s with
    | [] => false
    | c :: cs => decide (p = c) && strStartswith cs ps

def strLen (s : CStr) : Nat := s.length

/-- What `str_copy(dst, src, size)` leaves in `dst`, for `size` at least 1. -/
def strCopy (src : CStr) (size : Nat) : CStr := src.take (size - 1)

/-- The loop of `parse_u32_dec`: the number it returns and `*ok`. -/
def parseU32DecLoop (value : U32) : CStr → U32 × Bool
  | [] => (value, true)
  | c :: s =>
    if c < chr '0' ∨ chr '9' < c then (0, false)
    else parseU32DecLoop (value * 10 + (c - chr '0').setWidth 32) s

def parseU32Dec (s : CStr) : U32 × Bool := if s = [] then (0, false) else parseU32DecLoop 0 s

def memZeroBytes (m : ByteMem.Mem) (bytes : U32) : Nat → ByteMem.Mem
  | 0 => m
  | size + 1 => memZeroBytes (Function.update m bytes 0) (bytes + 1) size

/-- `mem_zero`: words while at least four bytes are left. -/
def memZero (m : ByteMem.Mem) (words : U32) : Nat → ByteMem.Mem
  | size + 4 => memZero (ByteMem.storeWord m words 0) (words + 4) size
  | size => memZeroBytes m words size

theorem memZeroBytes_eq (m : ByteMem.Mem) (dst : U32) (size : Nat) (hsize : size ≤ 2 ^ 32) :
    memZeroBytes m dst size = ByteMem.store m dst size fun _ => 0 := by
  induction size generalizing m dst with
  | zero => rw [memZeroBytes, ByteMem.store_zero]
  | succ size ih =>
      have hnext := ByteMem.store_store_next m dst 1 size (fun _ => 0) (fun _ => 0) (by omega)
      simp only [ite_self] at hnext
      rw [memZeroBytes, ih _ _ (by omega), ← ByteMem.store_one m dst fun _ => 0, Nat.add_comm]
      exact hnext

theorem memZero_eq (m : ByteMem.Mem) (dst : U32) (size : Nat) (hsize : size ≤ 2 ^ 32) :
    memZero m dst size = ByteMem.store m dst size fun _ => 0 := by
  fun_induction memZero m dst size with
  | case1 m dst size ih =>
      have hword : ByteMem.storeWord m dst 0 = ByteMem.store m dst 4 fun _ => 0 := by
        apply ByteMem.store_congr
        intro j hj
        exact (by decide : ∀ j < 4, ByteMem.byteOf 0 j = 0) j hj
      have hnext := ByteMem.store_store_next m dst 4 size (fun _ => 0) (fun _ => 0) (by omega)
      simp only [ite_self] at hnext
      rw [ih (by omega), hword, show size.succ.succ.succ.succ = 4 + size by omega]
      exact hnext
  | case2 m dst size hsmall => exact memZeroBytes_eq m dst size hsize

theorem strStartswith_iff {s pre : CStr} :
    strStartswith s pre = true ↔ pre <+: s := by
  induction pre generalizing s with
  | nil => simp [strStartswith]
  | cons p ps ih =>
      cases s with
      | nil => simp [strStartswith]
      | cons c cs => simp [strStartswith, ih, List.cons_prefix_cons]

end SlopOS.Kernel
