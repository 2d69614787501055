import CoinScript.Bytes

/-!
# CompactSize numbers

The length in front of a serialized script. Values up to `0xfc` are one byte; larger ones are a tag
and a little-endian number of two, four or eight bytes, and only the shortest form is accepted:

| value                    | encoding        |
|--------------------------|-----------------|
| `0 .. 0xfc`              | the byte itself |
| `0xfd .. 0xffff`         | `fd`, 2 bytes   |
| `0x10000 .. 0xffffffff`  | `fe`, 4 bytes   |
| larger                   | `ff`, 8 bytes   |
-/

namespace CoinScript.CompactSize

/-- Why no CompactSize number could be read. -/
inductive Error where
  /-- The input ended within a field of `expected` bytes. -/
  | truncated (expected : Nat)
  /-- The value has a shorter encoding. -/
  | nonCanonical (value : Nat)
  deriving DecidableEq, Repr

def Error.message : Error → String
  | .truncated expected =>
    "expected " ++ toString expected ++ " bytes for a varint, but the input ended early"
  | .nonCanonical value =>
    "varint " ++ toString value ++ " was not encoded in its shortest form"

/-- How many bytes a value takes once encoded. -/
def encodedLength (value : Nat) : Nat :=
  if value < 0xfd then 1
  else if value < 0x10000 then 3
  else if value < 0x100000000 then 5
  else 9

/-- The encoding of a value below `2 ^ 64`. -/
def encode (value : Nat) : Bytes :=
  if value < 0xfd then [UInt8.ofNat value]
  else if value < 0x10000 then 0xfd :: Bytes.ofNatLE 2 value
  else if value < 0x100000000 then 0xfe :: Bytes.ofNatLE 4 value
  else 0xff :: Bytes.ofNatLE 8 value

/-- Reads the number after a tag: `width` bytes denoting at least `least`. -/
def readWide (width least : Nat) (input : Bytes) : Except Error (Nat × Bytes) :=
  if input.length < width then .error (.truncated width)
  else
    let value := Bytes.toNatLE (input.take width)
    if value < least then .error (.nonCanonical value) else .ok (value, input.drop width)

/-- Reads one number and returns it with the rest of the input. -/
def read : Bytes → Except Error (Nat × Bytes)
  | [] => .error (.truncated 1)
  | tag :: rest =>
    if tag = 0xfd then readWide 2 0xfd rest
    else if tag = 0xfe then readWide 4 0x10000 rest
    else if tag = 0xff then readWide 8 0x100000000 rest
    else .ok (tag.toNat, rest)

/-- How many bytes of a number follow a tag. -/
def fieldWidth (tag : UInt8) : Nat :=
  if tag = 0xfd then 2 else if tag = 0xfe then 4 else if tag = 0xff then 8 else 0

/-- What is left of the input after reading a number. A number that is not accepted is used up as well,
and so are the bytes of one that is cut off. -/
def unread : Bytes → Bytes
  | [] => []
  | tag :: rest => rest.drop (fieldWidth tag)

theorem rest_eq_of_readWide {width least value : Nat} {input rest : Bytes}
    (h : readWide width least input = .ok (value, rest)) : rest = input.drop width := by
  unfold readWide at h
  split at h
  · cases h
  · simp only at h
    split at h
    · cases h
    · cases h; rfl

theorem rest_eq_unread {value : Nat} {input rest : Bytes}
    (h : read input = .ok (value, rest)) : rest = unread input := by
  unfold read at h
  split at h
  · cases h
  · simp only [unread, fieldWidth]
    split at h
    · rw [if_pos ‹_›]; exact rest_eq_of_readWide h
    · rw [if_neg ‹_›]
      split at h
      · rw [if_pos ‹_›]; exact rest_eq_of_readWide h
      · rw [if_neg ‹_›]
        split at h
        · rw [if_pos ‹_›]; exact rest_eq_of_readWide h
        · rw [if_neg ‹_›]; cases h; rfl

theorem length_encode (value : Nat) : (encode value).length = encodedLength value := by
  unfold encode encodedLength
  split
  · rfl
  · split
    · simp
    · split <;> simp

/-- Reading a number takes at least one byte off the input. -/
theorem length_rest_of_read {value : Nat} {input rest : Bytes}
    (h : read input = .ok (value, rest)) : rest.length < input.length := by
  rw [rest_eq_unread h]
  cases input with
  | nil => cases h
  | cons tag input =>
    simp only [unread, List.length_drop, List.length_cons]
    omega

/-- What is left after reading a number is what was put behind its encoding. -/
theorem rest_of_read_encode {n value : Nat} {tail rest : Bytes}
    (h : read (encode n ++ tail) = .ok (value, rest)) : rest = tail := by
  rw [rest_eq_unread h]
  unfold encode
  split
  · have hbyte : (UInt8.ofNat n).toNat = n % 256 := UInt8.toNat_ofNat'
    have hne : ∀ tag : UInt8, 0xfd ≤ tag.toNat → UInt8.ofNat n ≠ tag := by
      rintro tag htag rfl
      omega
    have hwidth : fieldWidth (UInt8.ofNat n) = 0 := by
      rw [fieldWidth, if_neg (hne _ (by decide)), if_neg (hne _ (by decide)),
        if_neg (hne _ (by decide))]
    rw [List.cons_append, unread, hwidth]
    rfl
  · split
    · exact List.drop_left' (Bytes.length_ofNatLE 2 n)
    · split
      · exact List.drop_left' (Bytes.length_ofNatLE 4 n)
      · exact List.drop_left' (Bytes.length_ofNatLE 8 n)

end CoinScript.CompactSize
