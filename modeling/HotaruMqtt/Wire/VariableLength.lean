import HotaruMqtt.Wire.Grammar
import HotaruMqtt.Wire.Stream

/-!
# Variable byte integers in frames and in property blocks

The crate has two writers and three readers of variable byte integers. All of them are compared
with the groups of seven bits of `Library.Base128`: the writers emit the groups of a number, every
reader takes them back, and only `read_vbi` insists that they are the shortest ones.
-/

namespace HotaruMqtt.Codec

open Library Properties

theorem decodeRemainingLength_encode_append {value : ℕ} (h : value ≤ maxRemainingLength)
    (after : Bytes) :
    decodeRemainingLengthFromSlice (encodeRemainingLength value ++ after) =
      .ok (some (value, (encodeRemainingLength value).length)) := by
  have halone := decodeRemainingLength_encode h
  rw [← halone]
  apply decodeLengthFrom_append
  rw [decodeRemainingLengthFromSlice] at halone
  rw [halone]
  simp

/-- From index `i` on at most `4 - i` bytes are read. -/
theorem decodeLengthFrom_count_le (data : Bytes) (i result multiplier value count : ℕ) (hi : i ≤ 3)
    (h : decodeLengthFrom data i result multiplier = .ok (some (value, count))) : count ≤ 4 := by
  induction data generalizing i result multiplier with
  | nil => cases h
  | cons byte data ih =>
    simp only [decodeLengthFrom] at h
    split at h
    · cases h
      omega
    · split at h
      · cases h
      · exact ih (i + 1) _ _ (by omega) h

/-- At most four bytes are taken, and the number fits. -/
theorem decodeRemainingLength_bounds {data : Bytes} {value count : ℕ}
    (h : decodeRemainingLengthFromSlice data = .ok (some (value, count))) :
    count ≤ 4 ∧ count ≤ data.length ∧ value ≤ maxRemainingLength := by
  obtain ⟨lengthBytes, rest, rfl, hcount, -⟩ := decodeLengthFrom_split _ _ _ _ _ _ h
  refine ⟨decodeLengthFrom_count_le _ 0 0 1 _ _ (by decide) h, ?_,
    le_maxRemainingLength_of_decode h⟩
  rw [hcount, Nat.zero_add, List.length_append]
  exact Nat.le_add_right _ _

/-- The two readers of remaining lengths agree. -/
theorem readRemainingLength_eq_ok_iff (wire : Bytes) (value : ℕ) (rest : Bytes) :
    readRemainingLength wire = .ok (value, rest) ↔
      ∃ count, decodeRemainingLengthFromSlice wire = .ok (some (value, count)) ∧
        rest = wire.drop count := by
  rw [readRemainingLength_eq]
  cases decodeRemainingLengthFromSlice wire with
  | error fault => simp
  | ok announced =>
    cases announced with
    | none => simp
    | some length => simp [Prod.ext_iff, eq_comm]

/-- `read_vbi` takes what the other readers take, if it is what the writer writes. -/
theorem run_readVbi_eq_ok_iff (body : Bytes) (cursor value count : ℕ) :
    readVbi.run body cursor = .ok (value, cursor + count) ↔
      decodeRemainingLengthFromSlice (body.drop cursor) = .ok (some (value, count)) ∧
        writeVbi [] value = .ok ((body.drop cursor).take count) := by
  constructor
  · intro h
    obtain ⟨encoded, ⟨after, hafter⟩, hcount, hvalue, rfl⟩ := takes_readVbi _ _ _ _ h
    obtain rfl : count = (Base128.encode value).length := by omega
    have hdecode := decodeRemainingLength_encode_append hvalue after
    rw [encodeRemainingLength_eq] at hdecode
    rw [← hafter, List.take_left]
    exact ⟨hdecode, (writeVbi_eq_ok_iff _ _ _).mpr ⟨hvalue, rfl⟩⟩
  · rintro ⟨hdecode, hwrite⟩
    obtain ⟨hvalue, htake⟩ := (writeVbi_eq_ok_iff _ _ _).mp hwrite
    obtain ⟨-, hcount, -⟩ := decodeRemainingLength_bounds hdecode
    have hlength : (Base128.encode value).length = count := by
      rw [← List.nil_append (Base128.encode value), ← htake, List.length_take_of_le hcount]
    have hcursor : cursor ≤ body.length := by
      rw [List.length_drop] at hcount
      have hpos := List.length_pos_iff.mpr (Base128.encode_ne_nil value)
      omega
    have hread := reads_readVbi hvalue (body.take cursor) ((body.drop cursor).drop count)
    rwa [← List.nil_append (Base128.encode value), ← htake, List.take_append_drop,
      List.take_append_drop, List.length_take_of_le hcursor, List.length_take_of_le hcount]
      at hread

theorem length_encode_bounds {value : ℕ} (h : value ≤ maxRemainingLength) :
    1 ≤ (Base128.encode value).length ∧ (Base128.encode value).length ≤ 4 := by
  have hlt : value < 128 ^ (3 + 1) := by
    unfold maxRemainingLength at h
    omega
  exact ⟨List.length_pos_iff.mpr (Base128.encode_ne_nil value),
    Base128.length_encode_le 3 value hlt⟩

/-- The reader of property blocks takes one to four bytes. -/
theorem run_readVbi_bounds {body : Bytes} {cursor value moved : ℕ}
    (h : readVbi.run body cursor = .ok (value, moved)) :
    cursor < moved ∧ moved ≤ cursor + 4 ∧ value ≤ maxRemainingLength := by
  obtain ⟨encoded, -, rfl, hvalue, rfl⟩ := takes_readVbi _ _ _ _ h
  have hlength := length_encode_bounds hvalue
  exact ⟨by omega, by omega, hvalue⟩

theorem readRemainingLength_bounds {wire rest : Bytes} {value : ℕ}
    (h : readRemainingLength wire = .ok (value, rest)) :
    ∃ taken, wire = taken ++ rest ∧ taken.length ≤ 4 ∧ value ≤ maxRemainingLength := by
  obtain ⟨count, hdecode, rfl⟩ := (readRemainingLength_eq_ok_iff _ _ _).mp h
  obtain ⟨hcount, -, hvalue⟩ := decodeRemainingLength_bounds hdecode
  refine ⟨wire.take count, (List.take_append_drop count wire).symm, ?_, hvalue⟩
  rw [List.length_take]
  omega

/-- The writers agree on every number that can be written, and the three readers take it back from
what they write. `read_vbi` accepts an input exactly if the slice reader does and the bytes are the
shortest encoding. No reader takes more than four bytes. -/
theorem variable_byte_integers_agree :
    (∀ value ≤ 268435455, ∀ output before after : Bytes,
      writeVbi output value = .ok (output ++ encodeRemainingLength value) ∧
      1 ≤ (encodeRemainingLength value).length ∧ (encodeRemainingLength value).length ≤ 4 ∧
      Base128.Shortest value (encodeRemainingLength value) ∧
      readVbi.run (before ++ (encodeRemainingLength value ++ after)) before.length =
        .ok (value, before.length + (encodeRemainingLength value).length) ∧
      decodeRemainingLengthFromSlice (encodeRemainingLength value ++ after) =
        .ok (some (value, (encodeRemainingLength value).length)) ∧
      readRemainingLength (encodeRemainingLength value ++ after) = .ok (value, after)) ∧
    (∀ value > 268435455, ∀ output : Bytes,
      writeVbi output value = .error (.codec (.variableByteIntegerOutOfRange value))) ∧
    (∀ (body : Bytes) (cursor value count : ℕ),
      readVbi.run body cursor = .ok (value, cursor + count) ↔
        decodeRemainingLengthFromSlice (body.drop cursor) = .ok (some (value, count)) ∧
          writeVbi [] value = .ok ((body.drop cursor).take count)) ∧
    (∀ (body : Bytes) (cursor value moved : ℕ), readVbi.run body cursor = .ok (value, moved) →
      cursor < moved ∧ moved ≤ cursor + 4 ∧ value ≤ 268435455) ∧
    (∀ (data : Bytes) (value count : ℕ),
      decodeRemainingLengthFromSlice data = .ok (some (value, count)) →
        count ≤ 4 ∧ count ≤ data.length ∧ value ≤ 268435455) ∧
    ∀ (wire : Bytes) (value : ℕ) (rest : Bytes), readRemainingLength wire = .ok (value, rest) →
      ∃ taken, wire = taken ++ rest ∧ taken.length ≤ 4 ∧ value ≤ 268435455 := by
  refine ⟨?_, ?_, run_readVbi_eq_ok_iff, fun _ _ _ _ ↦ run_readVbi_bounds,
    fun _ _ _ ↦ decodeRemainingLength_bounds, fun _ _ _ ↦ readRemainingLength_bounds⟩
  · intro value hvalue output before after
    have hdecode := decodeRemainingLength_encode_append hvalue after
    have hread := (readRemainingLength_eq_ok_iff _ _ _).mpr ⟨_, hdecode, rfl⟩
    rw [List.drop_left] at hread
    refine ⟨?_, ?_, ?_, ?_, ?_, hdecode, hread⟩
    all_goals rw [encodeRemainingLength_eq]
    · exact (writeVbi_eq_ok_iff _ _ _).mpr ⟨hvalue, rfl⟩
    · exact (length_encode_bounds hvalue).1
    · exact (length_encode_bounds hvalue).2
    · exact Base128.shortest_iff.mpr rfl
    · exact reads_readVbi hvalue before after
  · intro value hvalue output
    exact if_pos hvalue

end HotaruMqtt.Codec
