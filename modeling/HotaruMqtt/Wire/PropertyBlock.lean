import Mathlib.Tactic.Ring
import HotaruMqtt.Wire.Properties

/-!
# Property blocks read back what was written

Every wire type has a layout and a condition under which the encoder accepts a value. An item is
its identifier code followed by its value. The writers accept exactly the writable items and
append their layout; the readers recognise that layout at any position. The item loop therefore
turns a concatenation of items into the fold of `store` over them, provided no identifier that
may occur only once is repeated, and the items of a block rebuild the block.
-/

namespace HotaruMqtt

open Library Library.Decoder

/-- A field behind its two-byte length. -/
def prefixed (field : Bytes) : Bytes := toBeBytes16 (asU16 field.length) ++ field

@[simp]
theorem length_prefixed (field : Bytes) : (prefixed field).length = 2 + field.length := by
  simp [prefixed]

namespace PropertyType

def wire : (type : PropertyType) → type.Value → Bytes
  | .byte, value => [value]
  | .twoByte, value => toBeBytes16 value
  | .fourByte, value => toBeBytes32 value
  | .string, value => prefixed (asBytes value)
  | .binary, value => prefixed value
  | .variableByteInteger, value => Base128.encode value.toNat
  | .stringPair, (key, value) => prefixed (asBytes key) ++ prefixed (asBytes value)

/-- A string the encoder accepts. -/
def WritableString (value : String) : Prop :=
  '\x00' ∉ value.toList ∧ (asBytes value).length ≤ 65535

def Writable : (type : PropertyType) → type.Value → Prop
  | .byte, _ => True
  | .twoByte, _ => True
  | .fourByte, _ => True
  | .string, value => WritableString value
  | .binary, value => value.length ≤ 65535
  | .variableByteInteger, value => value.toNat ≤ maxVariableByteInteger
  | .stringPair, (key, value) => WritableString key ∧ WritableString value

end PropertyType

namespace PropertyItem

def wire (item : PropertyItem) : Bytes := item.id.code :: item.id.type.wire item.value

def Writable (item : PropertyItem) : Prop := item.id.type.Writable item.value

theorem wire_ne_nil (item : PropertyItem) : item.wire ≠ [] := by
  simp [wire]

end PropertyItem

namespace Properties

theorem writeVbiGroups_eq (fuel value : ℕ) :
    writeVbiGroups fuel value = Base128.groups fuel value := by
  induction fuel generalizing value with
  | zero => rfl
  | succ fuel ih =>
    by_cases hlast : value / 128 = 0
    · simp [writeVbiGroups, Base128.groups, hlast]
    · simp [writeVbiGroups, Base128.groups, hlast, ih, Base128.setContinuation]

/-- A variable byte integer is refused above its maximum, and shortest otherwise. -/
theorem writeVbi_eq_ok_iff (output : Bytes) (value : ℕ) (result : Bytes) :
    writeVbi output value = .ok result ↔
      value ≤ maxVariableByteInteger ∧ result = output ++ Base128.encode value := by
  unfold writeVbi
  by_cases h : value > maxVariableByteInteger
  · simp only [if_pos h, reduceCtorEq, false_iff, not_and]
    omega
  · have hle : value ≤ maxVariableByteInteger := by omega
    simp only [if_neg h, writeVbiGroups_eq, Except.ok.injEq, hle, true_and, Base128.encode]
    exact eq_comm

theorem writePrefixedBytes_eq_ok_iff (output value : Bytes) (kind : String) (result : Bytes) :
    writePrefixedBytes output value kind = .ok result ↔
      value.length ≤ 65535 ∧ result = output ++ prefixed value := by
  unfold writePrefixedBytes
  by_cases h : value.length > 65535
  · simp only [if_pos h, reduceCtorEq, false_iff, not_and]
    omega
  · have hle : value.length ≤ 65535 := by omega
    simp only [if_neg h, Except.ok.injEq, hle, true_and, prefixed, List.append_assoc]
    exact eq_comm

theorem validateString_eq_ok_iff (value : String) :
    validateString value = .ok () ↔ '\x00' ∉ value.toList := by
  unfold validateString
  by_cases h : '\x00' ∈ value.toList
  · simp [h]
  · simp [h]

/-- A string is refused for a null character or its length. -/
theorem writeString_eq_ok_iff (output : Bytes) (value kind : String) (result : Bytes) :
    writeString output value kind = .ok result ↔
      PropertyType.WritableString value ∧ result = output ++ prefixed (asBytes value) := by
  unfold writeString PropertyType.WritableString
  rw [bind_eq_ok_iff]
  simp only [writePrefixedBytes_eq_ok_iff, and_assoc]
  constructor
  · rintro ⟨_, hvalid, hlength, hresult⟩
    exact ⟨(validateString_eq_ok_iff value).mp hvalid, hlength, hresult⟩
  · rintro ⟨hvalid, hlength, hresult⟩
    exact ⟨(), (validateString_eq_ok_iff value).mpr hvalid, hlength, hresult⟩

/-- A value is appended in its layout if it is writable. -/
theorem writeValue_eq_ok_iff (body : Bytes) (name : String) (type : PropertyType)
    (value : type.Value) (result : Bytes) :
    writeValue body name type value = .ok result ↔
      type.Writable value ∧ result = body ++ type.wire value := by
  cases type with
  | byte | twoByte | fourByte =>
    simp only [writeValue, PropertyType.Writable, PropertyType.wire, Except.ok.injEq, true_and]
    exact eq_comm
  | string => exact writeString_eq_ok_iff _ _ _ _
  | binary => exact writePrefixedBytes_eq_ok_iff _ _ _ _
  | variableByteInteger => exact writeVbi_eq_ok_iff _ _ _
  | stringPair =>
    obtain ⟨key, value⟩ := value
    simp only [writeValue, bind_eq_ok_iff, writeString_eq_ok_iff, PropertyType.Writable,
      PropertyType.wire]
    constructor
    · rintro ⟨_, ⟨hkey, rfl⟩, hvalue, rfl⟩
      exact ⟨⟨hkey, hvalue⟩, by rw [List.append_assoc]⟩
    · rintro ⟨⟨hkey, hvalue⟩, rfl⟩
      exact ⟨_, ⟨hkey, rfl⟩, hvalue, by rw [List.append_assoc]⟩

theorem writeItem_eq_ok_iff (body : Bytes) (item : PropertyItem) (result : Bytes) :
    writeItem body item = .ok result ↔ item.Writable ∧ result = body ++ item.wire := by
  simp only [writeItem, writeValue_eq_ok_iff, PropertyItem.Writable, PropertyItem.wire,
    List.append_assoc, List.singleton_append]

/-- Writing items in sequence appends the concatenation of their layouts. -/
theorem writeItems_eq_ok_iff (items : List PropertyItem) (body result : Bytes) :
    items.foldlM writeItem body = .ok result ↔
      (∀ item ∈ items, item.Writable) ∧ result = body ++ items.flatMap PropertyItem.wire := by
  induction items generalizing body with
  | nil =>
    simp only [List.foldlM_nil, pure, Except.pure, Except.ok.injEq, List.not_mem_nil,
      List.flatMap_nil, List.append_nil]
    simp [eq_comm]
  | cons item items ih =>
    rw [List.foldlM_cons, bind_eq_ok_iff]
    simp only [writeItem_eq_ok_iff, ih, List.forall_mem_cons, List.flatMap_cons]
    constructor
    · rintro ⟨_, ⟨hitem, rfl⟩, hitems, rfl⟩
      exact ⟨⟨hitem, hitems⟩, by rw [List.append_assoc]⟩
    · rintro ⟨⟨hitem, hitems⟩, rfl⟩
      exact ⟨_, ⟨hitem, rfl⟩, hitems, by rw [List.append_assoc]⟩

/-- The bytes of the items of a block, without its length. -/
def blockBody (properties : Properties) : Bytes := properties.items.flatMap PropertyItem.wire

/-- The encoder accepts exactly valid values whose items are writable in a block that is not too
long, and appends the length and the items. -/
theorem encode_eq_ok_iff (properties : Properties) (output result : Bytes) :
    properties.encode output = .ok result ↔
      properties.validateValues = .ok () ∧ (∀ item ∈ properties.items, item.Writable) ∧
      properties.blockBody.length ≤ maxVariableByteInteger ∧
      result = output ++ (Base128.encode properties.blockBody.length ++ properties.blockBody) := by
  simp only [encode, encodeValues, bind_eq_ok_iff, writeItems_eq_ok_iff, writeVbi_eq_ok_iff,
    Except.ok.injEq, List.nil_append]
  constructor
  · rintro ⟨_, hvalid, _, ⟨hitems, rfl⟩, _, ⟨hlength, rfl⟩, rfl⟩
    exact ⟨hvalid, hitems, hlength, List.append_assoc _ _ _⟩
  · rintro ⟨hvalid, hitems, hlength, rfl⟩
    exact ⟨(), hvalid, _, ⟨hitems, rfl⟩, _, ⟨hlength, rfl⟩, List.append_assoc _ _ _⟩

/-- The encoder only appends: its result on a body is its result on the empty body, behind it. -/
theorem encode_eq_map (properties : Properties) (output : Bytes) :
    properties.encode output = (properties.encode []).map (output ++ ·) := by
  simp only [encode, bind, Except.bind]
  cases properties.validateValues with
  | error reason => rfl
  | ok _ =>
    cases properties.encodeValues [] with
    | error reason => rfl
    | ok body =>
      by_cases hlength : body.length > maxVariableByteInteger
      · simp only [writeVbi, if_pos hlength, Except.map]
      · simp only [writeVbi, if_neg hlength, Except.map, List.nil_append, List.append_assoc]

theorem reads_readU8 (value : UInt8) : Reads readU8 [value] value := by
  intro before after
  simp [readU8]

theorem reads_readArray (bytes : Bytes) : Reads (readArray bytes.length) bytes bytes := by
  intro before after
  simp [readArray]

theorem reads_readU16 (value : UInt16) : Reads readU16 (toBeBytes16 value) value := by
  refine Reads.map (reads_readArray (toBeBytes16 value)) ?_
  simp only [toBeBytes16, fromBeBytes16_toBeBytes16]
  exact reads_pure value

theorem reads_readU32 (value : UInt32) : Reads readU32 (toBeBytes32 value) value := by
  refine Reads.map (reads_readArray (toBeBytes32 value)) ?_
  simp only [toBeBytes32, fromBeBytes32_toBeBytes32]
  exact reads_pure value

theorem one_shiftLeft_seven_mul (byteIndex : ℕ) : 1 <<< (7 * byteIndex) = 128 ^ byteIndex := by
  rw [Nat.shiftLeft_eq, Nat.one_mul, Nat.pow_mul]

/-- The last group is accepted if it is the only one or not zero. -/
theorem reads_readVbiFrom_last (fuel byteIndex value rest : ℕ) (hrest : rest < 128)
    (hminimal : byteIndex = 0 ∨ 0 < rest) :
    Reads (readVbiFrom (fuel + 1) byteIndex value (128 ^ byteIndex)) [UInt8.ofNat rest]
      (value + rest * 128 ^ byteIndex) := by
  have hbyte : (UInt8.ofNat rest).toNat = rest := Base128.toNat_lastGroup hrest
  have hstop : UInt8.ofNat rest &&& 0x80 = 0 := by
    rw [Base128.continuation_eq_zero_iff, hbyte]
    exact hrest
  have hpayload : (UInt8.ofNat rest &&& 0x7F).toNat = rest := by
    rw [Base128.payload_eq_mod, hbyte, Nat.mod_eq_of_lt hrest]
  have hminimum : ¬ value + rest * 128 ^ byteIndex <
      if byteIndex = 0 then 0 else 1 <<< (7 * byteIndex) := by
    rcases hminimal with rfl | hpos
    · simp
    · rw [one_shiftLeft_seven_mul]
      have hle : 128 ^ byteIndex ≤ rest * 128 ^ byteIndex := Nat.le_mul_of_pos_left _ hpos
      split <;> omega
  refine Reads.map (reads_readU8 _) ?_
  simp only [hstop, hpayload, if_true, if_neg hminimum]
  exact reads_pure _

/-- After `byteIndex` groups the rest of the number is read onto the value so far. The rest is
not zero once a group has been read, which is what the minimality check asks for. -/
theorem reads_readVbiFrom (fuel byteIndex value rest : ℕ) (hrest : rest < 128 ^ (fuel + 1))
    (hminimal : byteIndex = 0 ∨ 0 < rest) :
    Reads (readVbiFrom (fuel + 1) byteIndex value (128 ^ byteIndex)) (Base128.encode rest)
      (value + rest * 128 ^ byteIndex) := by
  induction fuel generalizing byteIndex value rest with
  | zero =>
    rw [Base128.encode_of_lt (by simpa using hrest)]
    exact reads_readVbiFrom_last 0 byteIndex value rest (by simpa using hrest) hminimal
  | succ fuel ih =>
    by_cases hlast : rest < 128
    · rw [Base128.encode_of_lt hlast]
      exact reads_readVbiFrom_last (fuel + 1) byteIndex value rest hlast hminimal
    · have hbyte := Base128.toNat_moreGroup rest
      have hmore : ¬ UInt8.ofNat (rest % 128 + 128) &&& 0x80 = 0 := by
        rw [Base128.continuation_eq_zero_iff, hbyte]
        omega
      have hpayload : (UInt8.ofNat (rest % 128 + 128) &&& 0x7F).toNat = rest % 128 := by
        rw [Base128.payload_eq_mod, hbyte]
        omega
      have hquot : rest / 128 < 128 ^ (fuel + 1) := by
        rw [Nat.div_lt_iff_lt_mul (by decide)]
        rw [Nat.pow_succ] at hrest
        exact hrest
      have hnext := ih (byteIndex + 1) (value + rest % 128 * 128 ^ byteIndex) (rest / 128) hquot
        (.inr (by omega))
      have hsum : value + rest % 128 * 128 ^ byteIndex + rest / 128 * 128 ^ (byteIndex + 1) =
          value + rest * 128 ^ byteIndex := by
        conv_rhs => rw [← Nat.div_add_mod rest 128]
        rw [Nat.pow_succ]
        ring
      rw [Base128.encode_of_le (Nat.le_of_not_lt hlast), ← List.singleton_append]
      refine Reads.bind (reads_readU8 _) ?_
      simp only [hmore, hpayload, if_false]
      rw [← hsum, ← Nat.pow_succ]
      exact hnext

/-- The reader of a property block takes the shortest form. -/
theorem reads_readVbi {value : ℕ} (h : value ≤ maxVariableByteInteger) :
    Reads readVbi (Base128.encode value) value := by
  have hlt : value < 128 ^ (3 + 1) := by
    unfold maxVariableByteInteger at h
    omega
  simpa [readVbi] using reads_readVbiFrom 3 0 0 value hlt (.inl rfl)

theorem reads_readPrefixedBytes {field : Bytes} (h : field.length ≤ 65535) :
    Reads readPrefixedBytes (prefixed field) field := by
  refine Reads.bind (reads_readU16 _) ?_
  rw [toNat_asU16_of_le h]
  exact reads_readArray field

theorem reads_readString {value : String} (h : PropertyType.WritableString value) :
    Reads readString (prefixed (asBytes value)) value := by
  refine Reads.map (reads_readPrefixedBytes h.2) ?_
  simp only [fromUtf8_asBytes, (validateString_eq_ok_iff value).mpr h.1, orRaise_ok, lift_ok]
  exact reads_pure value

/-- Every writable value is read back from its layout. -/
theorem reads_readValue (type : PropertyType) (value : type.Value) (h : type.Writable value) :
    Reads (readValue type) (type.wire value) value := by
  cases type with
  | byte => exact reads_readU8 value
  | twoByte => exact reads_readU16 value
  | fourByte => exact reads_readU32 value
  | string => exact reads_readString h
  | binary => exact reads_readPrefixedBytes h
  | variableByteInteger =>
    refine Reads.map (reads_readVbi h) ?_
    rw [UInt32.ofNat_toNat]
    exact reads_pure value
  | stringPair =>
    obtain ⟨key, value⟩ := value
    exact Reads.bind (reads_readString h.1) (Reads.map (reads_readString h.2) (reads_pure _))

/-- The mask after an item. -/
def seenAfter (seen : BitVec 64) (item : PropertyItem) : BitVec 64 :=
  if item.id.repeatable then seen else seen ||| (1#64 <<< item.id.code.toNat)

/-- An item which may follow the identifiers of the mask. -/
def Fresh (seen : BitVec 64) (item : PropertyItem) : Prop :=
  item.id.repeatable = true ∨ seen.getLsbD item.id.code.toNat = false

/-- The mask has a bit for every identifier. -/
theorem code_lt (id : PropertyId) : id.code.toNat < 64 := by
  cases id <;> decide

theorem repeatable_iff_code (id : PropertyId) : id.repeatable = true ↔
    id.code = PropertyId.userProperty.code ∨ id.code = PropertyId.subscriptionIdentifier.code := by
  cases id <;> decide

theorem code_injective : Function.Injective PropertyId.code := by
  intro id id' h
  cases id <;> cases id' <;> first | rfl | exact absurd h (by decide)

theorem and_shiftLeft_eq_zero_iff (seen : BitVec 64) (bit : ℕ) (hbit : bit < 64) :
    seen &&& (1#64 <<< bit) = 0 ↔ seen.getLsbD bit = false := by
  rw [← BitVec.twoPow_eq, BitVec.and_twoPow]
  cases hseen : seen.getLsbD bit with
  | false => simp
  | true =>
    simp only [if_true, Bool.true_eq_false, iff_false]
    intro hzero
    have := congrArg (fun mask ↦ BitVec.getLsbD mask bit) hzero
    simp [hbit] at this

/-- An identifier that is new or may be repeated passes the mask. -/
theorem markSeen_of_fresh {seen : BitVec 64} {item : PropertyItem} (h : Fresh seen item) :
    markSeen item.id.code seen = .ok (seenAfter seen item) := by
  unfold markSeen seenAfter
  by_cases hrepeat : item.id.repeatable = true
  · rw [if_pos ((repeatable_iff_code _).mp hrepeat), if_pos hrepeat]
  · have hbit := h.resolve_left hrepeat
    have hlt := code_lt item.id
    rw [if_neg (fun hcode ↦ hrepeat ((repeatable_iff_code _).mpr hcode)), if_neg (by omega),
      if_neg (not_not.mpr ((and_shiftLeft_eq_zero_iff _ _ hlt).mpr hbit)), if_neg hrepeat]

/-- An item marks no bit but its own. -/
theorem getLsbD_seenAfter (seen : BitVec 64) (item item' : PropertyItem)
    (hne : item'.id ≠ item.id) :
    (seenAfter seen item).getLsbD item'.id.code.toNat = seen.getLsbD item'.id.code.toNat := by
  unfold seenAfter
  split
  · rfl
  · have hcode : item.id.code.toNat ≠ item'.id.code.toNat := by
      intro h
      exact hne (code_injective (UInt8.toNat_inj.mp h.symm))
    rw [BitVec.getLsbD_or, ← BitVec.twoPow_eq, BitVec.getLsbD_twoPow]
    simp [hcode]

theorem ofCode?_code (id : PropertyId) : PropertyId.ofCode? id.code = some id := by
  cases id <;> decide

/-! ## The item loop -/

/-- One round of the loop reads an item and stores it. -/
theorem reads_parseItem {item : PropertyItem} {state : Properties × BitVec 64}
    (hwritable : item.Writable) (hfresh : Fresh state.2 item) :
    Reads (parseItem state) item.wire
      (state.1.store item.id item.value, seenAfter state.2 item) := by
  rw [PropertyItem.wire, ← List.singleton_append]
  refine Reads.bind (reads_readU8 _) ?_
  simp only [markSeen_of_fresh hfresh, lift_ok, bind_of_pure, ofCode?_code]
  exact Reads.map (reads_readValue _ _ hwritable) (reads_pure _)

/-- No identifier that may occur only once is repeated. -/
def Unrepeated (items : List PropertyItem) : Prop :=
  items.Pairwise fun item item' ↦ item.id.repeatable = true ∨ item'.id ≠ item.id

/-- The loop stores the items one after another. -/
theorem loopReads_parseItem (items : List PropertyItem) (state : Properties × BitVec 64)
    (hwritable : ∀ item ∈ items, item.Writable) (hfresh : ∀ item ∈ items, Fresh state.2 item)
    (hunrepeated : Unrepeated items) :
    LoopReads parseItem state (items.flatMap PropertyItem.wire)
      (items.foldl (fun properties item ↦ properties.store item.id item.value) state.1,
        items.foldl seenAfter state.2) := by
  induction items generalizing state with
  | nil => exact loopReads_nil _ _
  | cons item items ih =>
    rw [List.flatMap_cons]
    rw [List.forall_mem_cons] at hwritable hfresh
    obtain ⟨hhead, htail⟩ := List.pairwise_cons.mp hunrepeated
    refine LoopReads.cons item.wire_ne_nil (reads_parseItem hwritable.1 hfresh.1) ?_
    refine ih (state.1.store item.id item.value, seenAfter state.2 item) hwritable.2 ?_ htail
    intro item' hitem'
    rcases hhead item' hitem' with hrepeat | hne
    · rcases hfresh.2 item' hitem' with hrepeat' | hbit
      · exact .inl hrepeat'
      · refine .inr ?_
        simpa [seenAfter, hrepeat] using hbit
    · rcases hfresh.2 item' hitem' with hrepeat' | hbit
      · exact .inl hrepeat'
      · exact .inr ((getLsbD_seenAfter _ _ _ hne).trans hbit)

theorem moves_readU8 : Moves 1 readU8 := by
  intro body cursor value moved h
  simp only [readU8] at h
  split at h
  · cases h
    exact Nat.le_refl _
  · cases h

theorem moves_readArray (count : ℕ) : Moves count (readArray count) := by
  intro body cursor value moved h
  simp only [readArray] at h
  split at h
  · cases h
    exact Nat.le_refl _
  · cases h

theorem moves_readU16 : Moves 2 readU16 := by
  refine (moves_readArray 2).bind fun bytes ↦ ?_
  split
  · exact moves_pure _
  · exact moves_raise 0 _

theorem moves_readU32 : Moves 4 readU32 := by
  refine (moves_readArray 4).bind fun bytes ↦ ?_
  split
  · exact moves_pure _
  · exact moves_raise 0 _

theorem moves_readVbiFrom (fuel byteIndex value multiplier : ℕ) :
    Moves 0 (readVbiFrom fuel byteIndex value multiplier) := by
  induction fuel generalizing byteIndex value multiplier with
  | zero => exact moves_raise 0 _
  | succ fuel ih =>
    refine (moves_readU8.weaken (Nat.zero_le 1)).bind fun byte ↦ ?_
    exact ((moves_raise 0 _).ite (moves_pure _)).ite (ih _ _ _)

theorem moves_readPrefixedBytes : Moves 2 readPrefixedBytes :=
  moves_readU16.bind fun length ↦ (moves_readArray length.toNat).weaken (Nat.zero_le _)

theorem moves_readString : Moves 2 readString := by
  refine moves_readPrefixedBytes.bind fun bytes ↦ ?_
  split
  · exact moves_raise 0 _
  · exact (moves_lift _).bind fun _ ↦ moves_pure _

theorem moves_readValue (type : PropertyType) : Moves 0 (readValue type) := by
  cases type with
  | byte => exact moves_readU8.weaken (Nat.zero_le _)
  | twoByte => exact moves_readU16.weaken (Nat.zero_le _)
  | fourByte => exact moves_readU32.weaken (Nat.zero_le _)
  | string => exact moves_readString.weaken (Nat.zero_le _)
  | binary => exact moves_readPrefixedBytes.weaken (Nat.zero_le _)
  | variableByteInteger => exact (moves_readVbiFrom 4 0 0 1).bind fun _ ↦ moves_pure _
  | stringPair =>
    have hstring := moves_readString.weaken (Nat.zero_le 2)
    exact hstring.bind fun _ ↦ hstring.bind fun _ ↦ moves_pure _

theorem moves_parseItem (state : Properties × BitVec 64) : Moves 1 (parseItem state) := by
  refine moves_readU8.bind fun propertyId ↦ (moves_lift _).bind fun seen ↦ ?_
  split
  · exact moves_raise 0 _
  · exact (moves_readValue _).bind fun _ ↦ moves_pure _

/-! ## A block is rebuilt from its items -/

/-- A repeated property is appended, another one replaced. -/
theorem values_store_self (properties : Properties) (id : PropertyId) (value : id.Value) :
    (properties.store id value).values id =
      if id.repeatable then properties.values id ++ [value] else [value] := by
  cases id <;> rfl

/-- Storing a value leaves the other properties alone. -/
theorem values_store_of_ne (properties : Properties) {id id' : PropertyId} (value : id.Value)
    (hne : id' ≠ id) : (properties.store id value).values id' = properties.values id' := by
  cases id <;> cases id' <;> first | rfl | exact absurd rfl hne

/-- A property that may not be repeated has at most one value. -/
theorem length_values_le_one (properties : Properties) {id : PropertyId}
    (h : id.repeatable = false) : (properties.values id).length ≤ 1 := by
  cases id <;> first | exact Option.length_toList_le | exact absurd h (by decide)

theorem toList_inj {α : Type} {o o' : Option α} (h : o.toList = o'.toList) : o = o' := by
  cases o <;> cases o' <;> simp_all

/-- A block is determined by the values of each identifier. -/
theorem ext_values {properties properties' : Properties}
    (h : ∀ id, properties.values id = properties'.values id) : properties = properties' :=
  Properties.ext (toList_inj (h .payloadFormatIndicator)) (toList_inj (h .messageExpiryInterval))
    (toList_inj (h .contentType)) (toList_inj (h .responseTopic))
    (toList_inj (h .correlationData)) (h .subscriptionIdentifier)
    (toList_inj (h .sessionExpiryInterval)) (toList_inj (h .assignedClientIdentifier))
    (toList_inj (h .serverKeepAlive)) (toList_inj (h .authenticationMethod))
    (toList_inj (h .authenticationData)) (toList_inj (h .requestProblemInformation))
    (toList_inj (h .willDelayInterval)) (toList_inj (h .requestResponseInformation))
    (toList_inj (h .responseInformation)) (toList_inj (h .serverReference))
    (toList_inj (h .reasonString)) (toList_inj (h .receiveMaximum))
    (toList_inj (h .topicAliasMaximum)) (toList_inj (h .topicAlias))
    (toList_inj (h .maximumQos)) (toList_inj (h .retainAvailable)) (h .userProperty)
    (toList_inj (h .maximumPacketSize)) (toList_inj (h .wildcardSubscriptionAvailable))
    (toList_inj (h .subscriptionIdentifierAvailable))
    (toList_inj (h .sharedSubscriptionAvailable))

def valuesOf (id : PropertyId) (items : List PropertyItem) : List id.Value :=
  items.filterMap fun item ↦ if h : item.id = id then some (h ▸ item.value) else none

@[simp]
theorem valuesOf_cons_self (id : PropertyId) (value : id.Value) (items : List PropertyItem) :
    valuesOf id (⟨id, value⟩ :: items) = value :: valuesOf id items := by
  simp [valuesOf]

theorem valuesOf_cons_of_ne {id : PropertyId} {item : PropertyItem} (hne : item.id ≠ id)
    (items : List PropertyItem) : valuesOf id (item :: items) = valuesOf id items := by
  simp [valuesOf, hne]

theorem valuesOf_eq_nil {id : PropertyId} {items : List PropertyItem}
    (h : ∀ item ∈ items, item.id ≠ id) : valuesOf id items = [] := by
  induction items with
  | nil => rfl
  | cons item items ih =>
    rw [List.forall_mem_cons] at h
    rw [valuesOf_cons_of_ne h.1, ih h.2]

theorem valuesOf_map_mk (id : PropertyId) (values : List id.Value) :
    valuesOf id (values.map (PropertyItem.mk id)) = values := by
  induction values with
  | nil => rfl
  | cons value values ih => rw [List.map_cons, valuesOf_cons_self, ih]

theorem valuesOf_append (id : PropertyId) (items items' : List PropertyItem) :
    valuesOf id (items ++ items') = valuesOf id items ++ valuesOf id items' :=
  List.filterMap_append

/-- Storing items appends the values of every identifier. A field that holds one value must be
empty before it is set. -/
theorem values_foldl_store (id : PropertyId) (items : List PropertyItem) (properties : Properties)
    (hunrepeated : Unrepeated items)
    (hroom : id.repeatable = true ∨ properties.values id = [] ∨ valuesOf id items = []) :
    (items.foldl (fun properties item ↦ properties.store item.id item.value) properties).values id =
      properties.values id ++ valuesOf id items := by
  induction items generalizing properties with
  | nil => simp [valuesOf]
  | cons item items ih =>
    obtain ⟨hhead, htail⟩ := List.pairwise_cons.mp hunrepeated
    rw [List.foldl_cons]
    by_cases hid : item.id = id
    · obtain ⟨id', value⟩ := item
      obtain rfl : id' = id := hid
      cases hrepeat : id'.repeatable with
      | true =>
        rw [ih _ htail (.inl hrepeat), values_store_self, if_pos hrepeat, valuesOf_cons_self]
        simp
      | false =>
        have hothers : valuesOf id' items = [] := valuesOf_eq_nil fun item' hitem' ↦
          (hhead item' hitem').resolve_left (by simp [hrepeat])
        have hempty : properties.values id' = [] := by
          rcases hroom with h | h | h
          · simp [hrepeat] at h
          · exact h
          · simp at h
        rw [ih _ htail (.inr (.inr hothers)), values_store_self, valuesOf_cons_self, hothers,
          hempty]
        simp [hrepeat]
    · rw [valuesOf_cons_of_ne hid] at hroom ⊢
      have hsame := values_store_of_ne properties item.value (Ne.symm hid)
      rw [ih _ htail (by rwa [hsame]), hsame]

theorem mem_all (id : PropertyId) : id ∈ PropertyId.all := by
  cases id <;> decide

theorem all_nodup : PropertyId.all.Nodup := by decide

/-- The items of a block hold the values of its fields. -/
theorem valuesOf_items (properties : Properties) (id : PropertyId) :
    valuesOf id properties.items = properties.values id := by
  have hmap (id' : PropertyId) (hne : id' ≠ id) :
      valuesOf id ((properties.values id').map (PropertyItem.mk id')) = [] := by
    apply valuesOf_eq_nil
    intro item hitem
    obtain ⟨value, -, rfl⟩ := List.mem_map.mp hitem
    exact hne
  have hlist (ids : List PropertyId) (hnodup : ids.Nodup) :
      valuesOf id (ids.flatMap fun id' ↦ (properties.values id').map (PropertyItem.mk id')) =
        if id ∈ ids then properties.values id else [] := by
    induction ids with
    | nil => rfl
    | cons id' ids ih =>
      obtain ⟨hnotin, hnodup⟩ := List.nodup_cons.mp hnodup
      rw [List.flatMap_cons, valuesOf_append, ih hnodup]
      by_cases hid : id' = id
      · subst hid
        simp [valuesOf_map_mk, hnotin]
      · simp [hmap id' hid, Ne.symm hid]
  rw [items, hlist _ all_nodup, if_pos (mem_all id)]

/-- The encoder repeats no identifier that may not be repeated. -/
theorem unrepeated_items (properties : Properties) : Unrepeated properties.items := by
  unfold Unrepeated items
  rw [List.pairwise_flatMap]
  constructor
  · intro id _
    rw [List.pairwise_map]
    cases hrepeat : id.repeatable with
    | true => exact List.pairwise_of_forall (fun _ _ ↦ .inl hrepeat)
    | false =>
      have hshort := length_values_le_one properties hrepeat
      match properties.values id, hshort with
      | [], _ => exact List.Pairwise.nil
      | [_], _ => exact List.pairwise_singleton _ _
  · refine all_nodup.imp ?_
    intro id id' hne item hitem item' hitem'
    obtain ⟨_, -, rfl⟩ := List.mem_map.mp hitem
    obtain ⟨_, -, rfl⟩ := List.mem_map.mp hitem'
    exact .inr (Ne.symm hne)

/-- Storing the items one after another gives the properties back. -/
theorem foldl_store_items (properties : Properties) :
    properties.items.foldl (fun properties item ↦ properties.store item.id item.value) {} =
      properties := by
  apply ext_values
  intro id
  have hempty : values {} id = [] := by cases id <;> rfl
  rw [values_foldl_store id _ _ (unrepeated_items properties) (.inr (.inl hempty)), hempty,
    valuesOf_items, List.nil_append]

/-- A concatenation of items in any order is parsed if no identifier is repeated that may not be and
the values pass the checks. -/
theorem parseBlock_items {items : List PropertyItem} {properties : Properties}
    (hproperties : items.foldl (fun properties item ↦ properties.store item.id item.value) {} =
      properties)
    (hwritable : ∀ item ∈ items, item.Writable) (hunrepeated : Unrepeated items)
    (hvalid : properties.validateValues = .ok ()) :
    parseBlock (items.flatMap PropertyItem.wire) = .ok properties := by
  have hfresh : ∀ item ∈ items, Fresh 0#64 item := by
    intro item _
    exact .inr (by simp)
  have hloop := (loopReads_parseItem items ({}, 0#64) hwritable hfresh hunrepeated).whileMore []
  rw [hproperties, List.nil_append, List.length_nil] at hloop
  unfold parseBlock
  rw [hloop]
  simp [bind, Except.bind, hvalid]

/-- The length of a block and its bytes are read wherever they stand. -/
theorem reads_parse_of_parseBlock {properties : Properties} {propertyBody : Bytes}
    (hlength : propertyBody.length ≤ maxVariableByteInteger)
    (h : parseBlock propertyBody = .ok properties) :
    Reads parse (Base128.encode propertyBody.length ++ propertyBody) properties := by
  refine Reads.bind (reads_readVbi hlength) (Reads.map (reads_readArray _) ?_)
  rw [h, lift_ok]
  exact reads_pure properties

/-- A block the encoder accepts is read back, wherever it stands. -/
theorem reads_parse {properties : Properties} {output encoded : Bytes}
    (h : properties.encode output = .ok (output ++ encoded)) :
    Reads parse encoded properties := by
  obtain ⟨hvalid, hwritable, hlength, hencoded⟩ := (encode_eq_ok_iff _ _ _).mp h
  rw [List.append_cancel_left hencoded]
  exact reads_parse_of_parseBlock hlength
    (parseBlock_items (foldl_store_items properties) hwritable (unrepeated_items properties) hvalid)

/-- What the encoder appends to a body is read back in place, whatever follows it. -/
theorem encode_round_trips {properties : Properties} {before result : Bytes}
    (h : properties.encode before = .ok result) :
    ∃ encoded, result = before ++ encoded ∧
      ∀ after, parse.run (before ++ encoded ++ after) before.length =
        .ok (properties, before.length + encoded.length) := by
  obtain ⟨-, -, -, hresult⟩ := (encode_eq_ok_iff _ _ _).mp h
  rw [hresult] at h
  refine ⟨_, hresult, fun after ↦ ?_⟩
  rw [List.append_assoc]
  exact reads_parse h before after

/-- A block with repeated properties between other bytes. -/
theorem encode_round_trips_repeated :
    let properties : Properties :=
      { subscriptionIdentifiers := [200, 1], userProperties := [("k", "v"), ("k", "")]
        receiveMaximum := some 5 }
    ∃ encoded, properties.encode [0x82, 0x07] = .ok ([0x82, 0x07] ++ encoded) ∧
      encoded.length = 22 ∧
      parse.run ([0x82, 0x07] ++ encoded ++ [0x00]) 2 = .ok (properties, 24) := by
  intro properties
  have hencode : properties.encode [0x82, 0x07] = .ok ([0x82, 0x07] ++
      [21, 11, 200, 1, 11, 1, 33, 0, 5, 38, 0, 1, 107, 0, 1, 118, 38, 0, 1, 107, 0, 0]) := by
    decide
  obtain ⟨encoded, hresult, hparse⟩ := encode_round_trips hencode
  obtain rfl := List.append_cancel_left hresult
  exact ⟨_, hencode, rfl, hparse [0x00]⟩

end Properties

end HotaruMqtt
