import Mathlib.Algebra.Group.Nat.Defs
import Mathlib.Logic.Function.Basic
import Mathlib.Tactic.Common

/-!
# Numbers as eight bytes

`u64::to_be_bytes` and `u64::from_be_bytes`, the highest byte first.  Each undoes the
other: a number is its bytes (`fromBeBytes_toBeBytes`), and eight bytes are those of a
number (`toBeBytes_fromBeBytes`).  So what is written with a number in it, at a known
place, says which number it was (`toBeBytes_injective`).
-/

namespace HorsieActor.Verified

/-- `u64::to_be_bytes`. -/
def toBeBytes (n : UInt64) : List UInt8 :=
  [(n >>> 56).toUInt8, (n >>> 48).toUInt8, (n >>> 40).toUInt8, (n >>> 32).toUInt8,
    (n >>> 24).toUInt8, (n >>> 16).toUInt8, (n >>> 8).toUInt8, n.toUInt8]

/-- `u64::from_be_bytes`. -/
def fromBeBytes : List UInt8 → UInt64
  | [a, b, c, d, e, f, g, h] =>
      UInt64.ofNat (a.toNat * 2 ^ 56 + b.toNat * 2 ^ 48 + c.toNat * 2 ^ 40 + d.toNat * 2 ^ 32 +
        e.toNat * 2 ^ 24 + f.toNat * 2 ^ 16 + g.toNat * 2 ^ 8 + h.toNat)
  | _ => 0

/-- Numbers that agree below a byte and on it agree below the next. -/
theorem mod_eq_of_byte {n m k : Nat} (hlow : n % 2 ^ k = m % 2 ^ k)
    (hbyte : n / 2 ^ k % 2 ^ 8 = m / 2 ^ k % 2 ^ 8) : n % 2 ^ (k + 8) = m % 2 ^ (k + 8) := by
  rw [Nat.pow_add, Nat.mod_mul, Nat.mod_mul, hlow, hbyte]

theorem toBeBytes_injective : Function.Injective toBeBytes := by
  intro a b h
  simp only [toBeBytes, List.cons.injEq, ← UInt8.toNat_inj, UInt64.toNat_toUInt8,
    UInt64.toNat_shiftRight, Nat.shiftRight_eq_div_pow] at h
  obtain ⟨h7, h6, h5, h4, h3, h2, h1, h0, -⟩ := h
  -- from the lowest byte up, one byte more each time
  have h8 : a.toNat % 2 ^ 8 = b.toNat % 2 ^ 8 := h0
  have h16 : a.toNat % 2 ^ 16 = b.toNat % 2 ^ 16 := mod_eq_of_byte h8 h1
  have h24 : a.toNat % 2 ^ 24 = b.toNat % 2 ^ 24 := mod_eq_of_byte h16 h2
  have h32 : a.toNat % 2 ^ 32 = b.toNat % 2 ^ 32 := mod_eq_of_byte h24 h3
  have h40 : a.toNat % 2 ^ 40 = b.toNat % 2 ^ 40 := mod_eq_of_byte h32 h4
  have h48 : a.toNat % 2 ^ 48 = b.toNat % 2 ^ 48 := mod_eq_of_byte h40 h5
  have h56 : a.toNat % 2 ^ 56 = b.toNat % 2 ^ 56 := mod_eq_of_byte h48 h6
  have h64 : a.toNat % 2 ^ 64 = b.toNat % 2 ^ 64 := mod_eq_of_byte h56 h7
  rw [Nat.mod_eq_of_lt a.toNat_lt, Nat.mod_eq_of_lt b.toNat_lt] at h64
  exact UInt64.toNat_inj.mp h64

theorem length_toBeBytes (n : UInt64) : (toBeBytes n).length = 8 := rfl

theorem toBeBytes_fromBeBytes {bytes : List UInt8} (h : bytes.length = 8) :
    toBeBytes (fromBeBytes bytes) = bytes := by
  match bytes with
  | [a, b, c, d, e, f, g, h] =>
      have ha := a.toNat_lt
      have hb := b.toNat_lt
      have hc := c.toNat_lt
      have hd := d.toNat_lt
      have he := e.toNat_lt
      have hf := f.toNat_lt
      have hg := g.toNat_lt
      have hh := h.toNat_lt
      have hn : (fromBeBytes [a, b, c, d, e, f, g, h]).toNat =
          a.toNat * 2 ^ 56 + b.toNat * 2 ^ 48 + c.toNat * 2 ^ 40 + d.toNat * 2 ^ 32 +
            e.toNat * 2 ^ 24 + f.toNat * 2 ^ 16 + g.toNat * 2 ^ 8 + h.toNat := by
        rw [fromBeBytes, UInt64.toNat_ofNat', Nat.mod_eq_of_lt (by omega)]
      simp only [toBeBytes, List.cons.injEq, ← UInt8.toNat_inj, UInt64.toNat_toUInt8,
        UInt64.toNat_shiftRight, Nat.shiftRight_eq_div_pow, and_true, hn, UInt64.reduceToNat,
        Nat.reduceMod]
      -- one byte at a time, the highest first
      refine ⟨?_, ?_, ?_, ?_, ?_, ?_, ?_, ?_⟩ <;> omega

theorem fromBeBytes_toBeBytes (n : UInt64) : fromBeBytes (toBeBytes n) = n :=
  toBeBytes_injective (toBeBytes_fromBeBytes (length_toBeBytes n))

end HorsieActor.Verified
