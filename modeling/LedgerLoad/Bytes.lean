import LedgerLoad.Arithmetic

/-! # Octet strings

A message is a list of octets. Numbers of a fixed width are written least significant octet
first. Main statements: `leValue_leOctets`, reading back what was written gives the number modulo
the width, and `leOctets_leValue`, writing what was read gives the octets back. -/

namespace LedgerLoad

/-- A string of octets. -/
abbrev Bytes := List UInt8

namespace Bytes

/-- The `width` low octets of a number, least significant first. -/
def leOctets : (width value : Nat) → Bytes
  | 0, _ => []
  | width + 1, value => UInt8.ofNat value :: leOctets width (value / 256)

/-- The number whose octets, least significant first, are given. -/
def leValue : Bytes → Nat
  | [] => 0
  | b :: bs => b.toNat + 256 * leValue bs

@[simp] theorem length_leOctets (width value : Nat) : (leOctets width value).length = width := by
  induction width generalizing value with
  | zero => rfl
  | succ width ih => simp [leOctets, ih]

/-- Writing keeps as much of the number as the width holds. -/
theorem leValue_leOctets (width value : Nat) :
    leValue (leOctets width value) = value % 256 ^ width := by
  induction width generalizing value with
  | zero => simp [leOctets, leValue, Nat.mod_one]
  | succ width ih =>
    have head : (UInt8.ofNat value).toNat = value % 256 := by simp
    rw [leOctets, leValue, ih, head, Nat.pow_succ, Nat.mul_comm (256 ^ width), Nat.mod_mul]

/-- The octets of a read number are the octets read. -/
theorem leOctets_leValue (bs : Bytes) : leOctets bs.length (leValue bs) = bs := by
  induction bs with
  | nil => rfl
  | cons b bs ih =>
    have hb := b.toNat_lt
    have hdiv : (b.toNat + 256 * leValue bs) / 256 = leValue bs := by omega
    have hmod : UInt8.ofNat (b.toNat + 256 * leValue bs) = b := by
      apply UInt8.toNat_inj.mp
      simp
    rw [List.length_cons, leOctets, leValue, hdiv, hmod, ih]

end Bytes

end LedgerLoad
