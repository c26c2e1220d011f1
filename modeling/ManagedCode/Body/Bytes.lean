/-
# ManagedCode.Body.Bytes — numbers as bytes, least significant byte first.
-/

namespace ManagedCode.Body

/-- The `width` low bytes of a number, least significant first; higher bytes are dropped. -/
def littleEndian : (width : Nat) → Nat → List UInt8
  | 0, _ => []
  | width + 1, n => UInt8.ofNat n :: littleEndian width (n / 256)

/-- The number that the bytes spell, least significant first. -/
def ofLittleEndian : List UInt8 → Nat
  | [] => 0
  | byte :: rest => byte.toNat + 256 * ofLittleEndian rest

/-- The two's complement of a signed number in `width` bytes. -/
def littleEndianInt (width : Nat) (i : Int) : List UInt8 :=
  littleEndian width (i % Nat.pow 256 width).toNat

@[simp] theorem length_littleEndian (width n : Nat) : (littleEndian width n).length = width := by
  induction width generalizing n with
  | zero => rfl
  | succ width ih => simp [littleEndian, ih]

@[simp] theorem length_littleEndianInt (width : Nat) (i : Int) :
    (littleEndianInt width i).length = width := by
  simp [littleEndianInt]

/-- Reading back gives the number modulo the width. -/
theorem ofLittleEndian_littleEndian (width n : Nat) :
    ofLittleEndian (littleEndian width n) = n % Nat.pow 256 width := by
  induction width generalizing n with
  | zero => simp [littleEndian, ofLittleEndian, Nat.mod_one]
  | succ width ih =>
    have hpow : Nat.pow 256 (width + 1) = 256 * Nat.pow 256 width := Nat.pow_succ'
    rw [hpow, Nat.mod_mul]
    simp only [littleEndian, ofLittleEndian, ih, UInt8.toNat_ofNat', Nat.reducePow]

end ManagedCode.Body
