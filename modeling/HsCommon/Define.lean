import Mathlib.Data.Nat.Notation
import Mathlib.Tactic

/-!
# Constants and machine arithmetic

The constants of `hs_define.h`, the ways a run can go wrong, and unsigned
arithmetic at the widths the sources use. Counters of type `size_t` and
`uint16_t` are naturals below the width, and their arithmetic wraps.
-/

namespace HsCommon

/-- Undefined behaviour, a failed assertion, or a loop that outlives its budget. -/
inductive Fault
  | nullPointer
  | overrun
  | assertFailed
  | intOverflow
  | divByZero
  | outOfFuel
  deriving DecidableEq, Repr

theorem exists_ok_of_map {α β : Type*} {f : α → β} {x : Except Fault α} {y : β}
    (h : x.map f = .ok y) : ∃ a, x = .ok a ∧ f a = y := by
  cases x with
  | error e => cases h
  | ok a => exact ⟨a, rfl, Except.ok.inj h⟩

theorem error_of_map {α β : Type*} {f : α → β} {x : Except Fault α} {e : Fault}
    (h : x.map f = .error e) : x = .error e := by
  cases x with
  | error e' => exact congrArg Except.error (Except.error.inj h)
  | ok a => cases h

def sizeAdd (a b : ℕ) : ℕ := (a + b) % 2 ^ 64
def sizeSub (a b : ℕ) : ℕ := (a + (2 ^ 64 - b)) % 2 ^ 64

theorem sizeAdd_eq {a b : ℕ} (h : a + b < 2 ^ 64) : sizeAdd a b = a + b := Nat.mod_eq_of_lt h

theorem sizeSub_eq {a b : ℕ} (h : b ≤ a) (ha : a < 2 ^ 64) : sizeSub a b = a - b := by
  unfold sizeSub
  omega

/-- The value of a `size_t` expression that would be `z` without wrapping. -/
def sizeT (z : ℤ) : ℕ := (z % 2 ^ 64).toNat

theorem sizeT_natCast {n : ℕ} (h : n < 2 ^ 64) : sizeT n = n := by
  unfold sizeT
  omega

theorem sizeT_natCast_le (n : ℕ) : sizeT n ≤ n := by
  unfold sizeT
  omega

def u16Add (a b : ℕ) : ℕ := (a + b) % 65536
def u16Sub (a b : ℕ) : ℕ := (a + (65536 - b)) % 65536

theorem u16Add_eq {a b : ℕ} (h : a + b < 65536) : u16Add a b = a + b := Nat.mod_eq_of_lt h

theorem u16Sub_eq {a b : ℕ} (h : b ≤ a) (ha : a < 65536) : u16Sub a b = a - b := by
  unfold u16Sub
  omega

def int32Max : ℤ := 2 ^ 31 - 1
def int32Min : ℤ := -2 ^ 31

/-- A signed 32-bit result, or the overflow fault. -/
def int32 (z : ℤ) : Except Fault ℤ :=
  if int32Min ≤ z ∧ z ≤ int32Max then .ok z else .error .intOverflow

def hsNetPacketMaxSize : ℕ := 8192
def hsNetPacketHeaderLength : ℕ := 4
def hsNetPacketIdentifyNumber : ℕ := 0xEDCBA98

def sessionDataBufferDefaultSize : ℕ := hsNetPacketMaxSize * 4
def clientSessionDataBufferDefaultSize : ℕ := hsNetPacketMaxSize * 4
def serverSessionDataBufferDefaultSize : ℕ := hsNetPacketMaxSize * 4 * 16

end HsCommon
