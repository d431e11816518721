import ApfsCore.Format.Reader

/-!
# What the crate is built for and linked with

The width of `usize` on the target, and the three decompressors the crate calls
(`flate2`, `lzvn` and `lzfse_rust`). A decompressor is known only by what it returns: the
decoded bytes, or nothing when it rejects its input.
-/

namespace ApfsCore

/-- The target and the linked decompressors. -/
structure Host where
  usizeBits : ℕ
  /-- `flate2::read::ZlibDecoder`, read to its end. -/
  inflate : Bytes → Option Bytes
  /-- `lzvn::decode`, given the expected output length. -/
  lzvn : Bytes → ℕ → Option Bytes
  /-- `lzfse_rust::decode_bytes`. -/
  lzfse : Bytes → Option Bytes

/-- The cast `x as usize`. -/
def Host.asUsize (host : Host) (x : ℕ) : ℕ :=
  x % 2 ^ host.usizeBits

/-- `usize::checked_add`. -/
def Host.checkedAdd (host : Host) (a b : ℕ) : Option ℕ :=
  if a + b < 2 ^ host.usizeBits then some (a + b) else none

/-- `usize::checked_mul`. -/
def Host.checkedMulUsize (host : Host) (a b : ℕ) : Option ℕ :=
  if a * b < 2 ^ host.usizeBits then some (a * b) else none

theorem Host.asUsize_of_lt {host : Host} {x : ℕ} (h : x < 2 ^ host.usizeBits) :
    host.asUsize x = x :=
  Nat.mod_eq_of_lt h

theorem Host.checkedAdd_of_lt {host : Host} {a b : ℕ} (h : a + b < 2 ^ host.usizeBits) :
    host.checkedAdd a b = some (a + b) :=
  if_pos h

theorem Host.checkedMulUsize_of_lt {host : Host} {a b : ℕ} (h : a * b < 2 ^ host.usizeBits) :
    host.checkedMulUsize a b = some (a * b) :=
  if_pos h

end ApfsCore
