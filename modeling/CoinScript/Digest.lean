import CoinScript.Bytes

/-!
# Digests

Byte strings of a fixed size: what the hash functions return and what output scripts commit to.
-/

namespace CoinScript

/-- A byte string of exactly `size` bytes. -/
structure Digest (size : Nat) where
  bytes : Bytes
  length_bytes : bytes.length = size
  deriving DecidableEq, Repr

namespace Digest

/-- The digest with the given bytes, if there are `size` of them. -/
def ofBytes? (size : Nat) (bytes : Bytes) : Option (Digest size) :=
  if h : bytes.length = size then some ⟨bytes, h⟩ else none

@[ext] theorem ext {size : Nat} {d e : Digest size} (h : d.bytes = e.bytes) : d = e := by
  cases d; cases e; simp_all

@[simp] theorem ofBytes?_bytes {size : Nat} (d : Digest size) : ofBytes? size d.bytes = some d := by
  simp [ofBytes?, d.length_bytes]

theorem ofBytes?_eq_some_iff {size : Nat} {bytes : Bytes} {d : Digest size} :
    ofBytes? size bytes = some d ↔ bytes = d.bytes := by
  constructor
  · intro h
    unfold ofBytes? at h
    split at h
    · cases h; rfl
    · cases h
  · rintro rfl; simp

end Digest

end CoinScript
