import CoinScript.Proofs.RoundTrip
import CoinScript.Proofs.Success

/-!
# Framing

A body can be read as it is, with the buffers of a pool, or from a stream in which its length stands in
front of it. All of them decode the body. What else a stream can start with is a length that cannot be
read, or the length of a body that ends too early.
-/

namespace CoinScript.Script

variable {input : Bytes}

/-- The input starts with a body that has its length in front. -/
def IsFramed (input : Bytes) : Prop :=
  ∃ body tail, body.length < 2 ^ 64 ∧ input = CompactSize.encode body.length ++ body ++ tail

/-- A length can be read, and there are as many bytes after it. -/
theorem isFramed_iff :
    IsFramed input ↔
      ∃ declared rest, CompactSize.read input = .ok (declared, rest) ∧ declared ≤ rest.length := by
  constructor
  · rintro ⟨body, tail, hsize, rfl⟩
    refine ⟨body.length, body ++ tail, ?_, ?_⟩
    · rw [List.append_assoc, CompactSize.read_encode hsize]
    · rw [List.length_append]
      exact Nat.le_add_right _ _
  · rintro ⟨declared, rest, hread, henough⟩
    obtain ⟨hsize, rfl⟩ := CompactSize.read_eq_ok hread
    have hlength : (rest.take declared).length = declared := List.length_take_of_le henough
    refine ⟨rest.take declared, rest.drop declared, by rwa [hlength], ?_⟩
    rw [hlength, List.append_assoc, List.take_append_drop]

theorem parse_of_read_eq_error {error : CompactSize.Error} (h : CompactSize.read input = .error error) :
    (parse input).1 = .error (.decode (.length error)) := by
  simp only [parse, read, h]
  rfl

theorem parse_of_short {declared : Nat} {rest : Bytes}
    (h : CompactSize.read input = .ok (declared, rest)) (hshort : rest.length < declared) :
    parse input = (.error (.decode (.truncated declared rest.length)), []) := by
  have htake : rest.take declared = rest := List.take_of_length_le (Nat.le_of_lt hshort)
  simp only [parse, read, h, htake, if_pos hshort]
  rfl

/-- What is read where no body is: the length cannot be read, or fewer bytes follow than it says. -/
theorem parse_of_not_isFramed (h : ¬IsFramed input) :
    (∃ error, CompactSize.IsUnreadable input error ∧
        (parse input).1 = .error (.decode (.length error))) ∨
      ∃ expected short, input = CompactSize.encode expected ++ short ∧ short.length < expected ∧
        parse input = (.error (.decode (.truncated expected short.length)), []) := by
  cases hread : CompactSize.read input with
  | error error =>
    exact .inl ⟨error, CompactSize.read_eq_error hread, parse_of_read_eq_error hread⟩
  | ok taken =>
    obtain ⟨declared, rest⟩ := taken
    have hshort : rest.length < declared :=
      Nat.lt_of_not_le fun henough => h (isFramed_iff.2 ⟨declared, rest, hread, henough⟩)
    exact .inr ⟨declared, rest, (CompactSize.read_eq_ok hread).2, hshort, parse_of_short hread hshort⟩

/-- A body is decoded in the same way from its bytes alone, with the buffers of any pool, and from an
input in which its length stands in front of it and anything behind it. That input is read up to the end
of the body, whether or not it is a script. Any other input starts with no length, or with a length that
is followed by fewer bytes. -/
theorem parse_entry_points_agree :
    (∀ body : Bytes, body.length < 2 ^ 64 →
      parseRaw body = (decode body).mapError .decode ∧
        (∀ pool, (parseRawWith pool body).1 = (decode body).mapError .decode) ∧
        ∀ tail, parse (CompactSize.encode body.length ++ body ++ tail) =
          ((decode body).mapError .decode, tail)) ∧
      ∀ input, ¬IsFramed input →
        (∃ error, CompactSize.IsUnreadable input error ∧
            (parse input).1 = .error (.decode (.length error))) ∨
          ∃ expected short, input = CompactSize.encode expected ++ short ∧ short.length < expected ∧
            parse input = (.error (.decode (.truncated expected short.length)), []) := by
  refine ⟨fun body hsize => ⟨parseRaw_eq hsize, fun pool => ?_, fun tail => parse_of_body hsize⟩,
    fun input => parse_of_not_isFramed⟩
  rw [parseRawWith_eq, parseRaw_eq hsize]

/-- A push that runs past the end of its body, then a length that is not written with the fewest bytes,
and one that is larger than what follows. -/
theorem parse_entry_points_agree_overrun :
    (parseRawWith ⟨[⟨[], 64⟩], 16, by decide⟩ [0x02, 0xaa]).1 = .error (.decode (.overrun 2 3)) ∧
      (∀ tail, parse ([0x02, 0x02, 0xaa] ++ tail) = (.error (.decode (.overrun 2 3)), tail)) ∧
      (∃ error, CompactSize.IsUnreadable [0xfd, 0x05, 0x00] error ∧
        (parse [0xfd, 0x05, 0x00]).1 = .error (.decode (.length error))) ∧
      ∃ expected available, available < expected ∧
        parse [0x05, 0x76] = (.error (.decode (.truncated expected available)), []) := by
  have hdecode : decode [0x02, 0xaa] = .error (.overrun 2 3) := by
    rw [decode, Cursor.commands]
    rfl
  obtain ⟨-, hpool, hparse⟩ := parse_entry_points_agree.1 [0x02, 0xaa] (by decide)
  rw [hdecode] at hpool hparse
  refine ⟨hpool _, hparse, ?_, ?_⟩
  · have hnone : ¬IsFramed [0xfd, 0x05, 0x00] := by
      rw [isFramed_iff]
      rintro ⟨declared, rest, hread, -⟩
      cases hread
    rcases parse_entry_points_agree.2 _ hnone with hunreadable | ⟨_, _, _, _, hshort⟩
    · exact hunreadable
    · cases hshort
  · have hnone : ¬IsFramed [0x05, 0x76] := by
      rw [isFramed_iff]
      rintro ⟨declared, rest, hread, henough⟩
      cases hread
      exact absurd henough (by decide)
    rcases parse_entry_points_agree.2 _ hnone with ⟨_, -, herror⟩ | ⟨expected, short, -, hshort, h⟩
    · cases herror
    · exact ⟨expected, short.length, hshort, h⟩

end CoinScript.Script
