import HotaruMqtt.Library.Grouping
import HotaruMqtt.Wire.PropertyBlock

/-!
# Property blocks accept nothing but their grammar

The readers of property values are the converse of the writers: a value that is read is writable,
and the bytes it was read from are its layout. So an accepted block is a concatenation of writable
items in which only two identifiers repeat, behind its length as the shortest variable byte
integer. The parsed properties hold these items in another order, so they are accepted by the
encoder and take the same number of bytes.
-/

namespace HotaruMqtt.Properties

open Library Library.Decoder

theorem takes_readU8 : Takes readU8 fun value encoded ↦ encoded = [value] := by
  intro body cursor value moved hrun
  simp only [readU8] at hrun
  split at hrun
  · rename_i byte hbyte
    cases hrun
    refine ⟨[value], ?_, rfl, rfl⟩
    obtain ⟨hlt, hget⟩ := List.getElem?_eq_some_iff.mp hbyte
    rw [List.drop_eq_getElem_cons hlt, hget]
    exact List.prefix_append [value] _
  · cases hrun

theorem takes_readArray (count : ℕ) :
    Takes (readArray count) fun bytes encoded ↦ encoded = bytes ∧ bytes.length = count := by
  intro body cursor value moved hrun
  simp only [readArray] at hrun
  split at hrun
  · cases hrun
    have hlength : ((body.drop cursor).take count).length = count := by
      rw [List.length_take, List.length_drop]
      omega
    exact ⟨_, List.take_prefix _ _, by rw [hlength], rfl, hlength⟩
  · cases hrun

theorem takes_readU16 : Takes readU16 fun value encoded ↦ encoded = toBeBytes16 value := by
  refine (takes_readArray 2).bind ?_
  rintro bytes _ ⟨rfl, -⟩
  split
  · exact takes_pure (by rw [toBeBytes16_fromBeBytes16]; rfl)
  · exact takes_raise _

theorem takes_readU32 : Takes readU32 fun value encoded ↦ encoded = toBeBytes32 value := by
  refine (takes_readArray 4).bind ?_
  rintro bytes _ ⟨rfl, -⟩
  split
  · exact takes_pure (by rw [toBeBytes32_fromBeBytes32]; rfl)
  · exact takes_raise _

/-- With `byteIndex` groups read the value so far is below `128 ^ byteIndex`, so the last group of
a number that passes the minimality check is not zero. -/
theorem takes_readVbiFrom (fuel byteIndex value : ℕ) (hvalue : value < 128 ^ byteIndex) :
    Takes (readVbiFrom fuel byteIndex value (128 ^ byteIndex)) fun result encoded ↦
      ∃ rest, result = value + rest * 128 ^ byteIndex ∧ rest < 128 ^ fuel ∧
        (byteIndex = 0 ∨ 0 < rest) ∧ encoded = Base128.encode rest := by
  induction fuel generalizing byteIndex value with
  | zero => exact takes_raise _
  | succ fuel ih =>
    refine takes_readU8.bind ?_
    rintro byte _ rfl
    have hbyte : byte.toNat < 256 := byte.toNat_lt
    simp only [Base128.payload_eq_mod, Base128.continuation_eq_zero_iff]
    refine Takes.ite (fun hlast ↦ Takes.ite (fun _ ↦ takes_raise _) fun hminimum ↦ ?_)
      fun hmore ↦ ?_
    · apply takes_pure
      refine ⟨byte.toNat, by rw [Nat.mod_eq_of_lt hlast], ?_, ?_, ?_⟩
      · exact hlast.trans_le (Nat.le_self_pow (Nat.succ_ne_zero fuel) 128)
      · rw [one_shiftLeft_seven_mul, Nat.mod_eq_of_lt hlast] at hminimum
        rcases Nat.eq_zero_or_pos byte.toNat with hzero | hpos
        · rw [hzero] at hminimum
          split at hminimum <;> omega
        · exact .inr hpos
      · rw [Base128.encode_of_lt hlast, UInt8.ofNat_toNat]
        rfl
    · have hmod : byte.toNat % 128 + 1 ≤ 128 := by omega
      have hnext : value + byte.toNat % 128 * 128 ^ byteIndex < 128 ^ (byteIndex + 1) := by
        calc
          value + byte.toNat % 128 * 128 ^ byteIndex <
              128 ^ byteIndex + byte.toNat % 128 * 128 ^ byteIndex := by omega
          _ = (byte.toNat % 128 + 1) * 128 ^ byteIndex := by ring
          _ ≤ 128 * 128 ^ byteIndex := Nat.mul_le_mul_right _ hmod
          _ = 128 ^ (byteIndex + 1) := by ring
      rw [← Nat.pow_succ]
      refine (ih (byteIndex + 1) _ hnext).weaken ?_
      rintro result _ ⟨rest, rfl, hrest, hpos, rfl⟩
      have hpos : 0 < rest := hpos.resolve_left (Nat.succ_ne_zero byteIndex)
      refine ⟨byte.toNat % 128 + 128 * rest, ?_, ?_, .inr (by omega), ?_⟩
      · rw [Nat.pow_succ]
        ring
      · rw [Nat.pow_succ]
        omega
      · have hgroup : byte.toNat % 128 = byte.toNat - 128 := by omega
        rw [hgroup, Base128.encode_group (Nat.le_of_not_lt hmore) hpos]
        rfl

/-- The reader of a property block takes the shortest encoding of a number only. -/
theorem takes_readVbi : Takes readVbi fun value encoded ↦
    value ≤ maxVariableByteInteger ∧ encoded = Base128.encode value := by
  have h := takes_readVbiFrom 4 0 0 (by decide)
  rw [Nat.pow_zero] at h
  refine h.weaken ?_
  rintro value _ ⟨rest, rfl, hrest, -, rfl⟩
  have hvalue : 0 + rest * 1 = rest := by omega
  rw [hvalue, maxVariableByteInteger]
  exact ⟨by omega, rfl⟩

theorem takes_readPrefixedBytes : Takes readPrefixedBytes fun field encoded ↦
    field.length ≤ 65535 ∧ encoded = prefixed field := by
  refine takes_readU16.bind ?_
  rintro length _ rfl
  refine (takes_readArray length.toNat).weaken ?_
  rintro field _ ⟨rfl, hlength⟩
  have hlt : length.toNat < 65536 := length.toNat_lt
  refine ⟨by omega, ?_⟩
  rw [prefixed, hlength, asU16, UInt16.ofNat_toNat]

/-- A string that is read could have been written. -/
theorem takes_readString : Takes readString fun value encoded ↦
    PropertyType.WritableString value ∧ encoded = prefixed (asBytes value) := by
  refine takes_readPrefixedBytes.bind ?_
  rintro bytes _ ⟨hlength, rfl⟩
  split
  · exact takes_raise _
  · rename_i value hutf8
    obtain rfl := asBytes_of_fromUtf8 hutf8
    refine Takes.require fun _ hvalid ↦ takes_pure ⟨⟨?_, hlength⟩, List.append_nil _⟩
    exact (validateString_eq_ok_iff value).mp (orRaise_eq_ok_iff.mp hvalid)

/-- A value that is read is writable and was read from its layout. -/
theorem takes_readValue (type : PropertyType) : Takes (readValue type) fun value encoded ↦
    type.Writable value ∧ encoded = type.wire value := by
  cases type with
  | byte => exact takes_readU8.weaken fun _ _ h ↦ ⟨trivial, h⟩
  | twoByte => exact takes_readU16.weaken fun _ _ h ↦ ⟨trivial, h⟩
  | fourByte => exact takes_readU32.weaken fun _ _ h ↦ ⟨trivial, h⟩
  | string => exact takes_readString
  | binary => exact takes_readPrefixedBytes
  | variableByteInteger =>
    refine takes_readVbi.bind ?_
    rintro value _ ⟨hvalue, rfl⟩
    have hlt : (UInt32.ofNat value).toNat = value := by
      unfold maxVariableByteInteger at hvalue
      exact UInt32.toNat_ofNat_of_lt (by change _ < 4294967296; omega)
    apply takes_pure
    simp only [PropertyType.Writable, PropertyType.wire, hlt, List.append_nil, and_true]
    exact hvalue
  | stringPair =>
    refine takes_readString.bind ?_
    rintro key _ ⟨hkey, rfl⟩
    refine takes_readString.bind ?_
    rintro value _ ⟨hvalue, rfl⟩
    exact takes_pure ⟨⟨hkey, hvalue⟩, by simp [PropertyType.wire]⟩

theorem code_of_ofCode? {raw : UInt8} {id : PropertyId} (h : PropertyId.ofCode? raw = some id) :
    id.code = raw := by
  simpa using List.find?_some h

/-- An identifier passes the mask if it is new or may be repeated. -/
theorem fresh_of_markSeen {seen seen' : BitVec 64} (item : PropertyItem)
    (h : markSeen item.id.code seen = .ok seen') :
    Fresh seen item ∧ seen' = seenAfter seen item := by
  have hfresh : Fresh seen item := by
    unfold Fresh
    rw [repeatable_iff_code, ← and_shiftLeft_eq_zero_iff _ _ (code_lt item.id)]
    by_contra hnot
    obtain ⟨hcode, hbit⟩ := not_or.mp hnot
    rw [markSeen, if_neg hcode, if_neg (Nat.not_le.mpr (code_lt item.id)), if_pos hbit] at h
    cases h
  refine ⟨hfresh, ?_⟩
  rw [markSeen_of_fresh hfresh] at h
  exact (Except.ok.inj h).symm

/-- One round of the loop takes one writable item that may follow the ones before. -/
theorem takes_parseItem (state : Properties × BitVec 64) :
    Takes (parseItem state) fun state' encoded ↦
      ∃ item : PropertyItem, item.Writable ∧ Fresh state.2 item ∧ encoded = item.wire ∧
        state' = (state.1.store item.id item.value, seenAfter state.2 item) := by
  refine takes_readU8.bind ?_
  rintro propertyId _ rfl
  refine Takes.require fun seen hseen ↦ ?_
  split
  · exact takes_raise _
  · rename_i id hid
    obtain rfl := code_of_ofCode? hid
    refine (takes_readValue id.type).bind ?_
    rintro value _ ⟨hwritable, rfl⟩
    obtain ⟨hfresh, rfl⟩ := fresh_of_markSeen ⟨id, value⟩ hseen
    exact takes_pure ⟨⟨id, value⟩, hwritable, hfresh, by simp [PropertyItem.wire], rfl⟩

/-- The properties that a sequence of items builds up. -/
def ofItems (items : List PropertyItem) : Properties :=
  items.foldl (fun properties item ↦ properties.store item.id item.value) {}

theorem ofItems_append (items : List PropertyItem) (item : PropertyItem) :
    ofItems (items ++ [item]) = (ofItems items).store item.id item.value := by
  rw [ofItems, List.foldl_append]
  rfl

/-- The mask remembers every item that may occur only once. -/
theorem getLsbD_foldl_seenAfter (items : List PropertyItem) (seen : BitVec 64)
    {item : PropertyItem} (hrepeat : item.id.repeatable = false)
    (h : item ∈ items ∨ seen.getLsbD item.id.code.toNat = true) :
    (items.foldl seenAfter seen).getLsbD item.id.code.toNat = true := by
  induction items generalizing seen with
  | nil => exact h.resolve_left List.not_mem_nil
  | cons first items ih =>
    apply ih
    rcases h with hmem | hseen
    · rcases List.mem_cons.mp hmem with rfl | hmem
      · refine .inr ?_
        rw [seenAfter, if_neg (by simp [hrepeat]), BitVec.getLsbD_or, ← BitVec.twoPow_eq,
          BitVec.getLsbD_twoPow]
        simp [code_lt]
      · exact .inl hmem
    · refine .inr ?_
      unfold seenAfter
      split
      · exact hseen
      · rw [BitVec.getLsbD_or, hseen, Bool.true_or]

/-- An item that passes the mask may follow. -/
theorem unrepeated_append {items : List PropertyItem} {item : PropertyItem}
    (h : Unrepeated items) (hfresh : Fresh (items.foldl seenAfter 0#64) item) :
    Unrepeated (items ++ [item]) := by
  refine List.pairwise_append.mpr ⟨h, List.pairwise_singleton _ _, ?_⟩
  intro earlier hearlier last hlast
  obtain rfl := List.mem_singleton.mp hlast
  by_cases hid : last.id = earlier.id
  · refine .inl ?_
    by_contra hrepeat
    rw [Bool.not_eq_true] at hrepeat
    have hseen := getLsbD_foldl_seenAfter items 0#64 hrepeat (.inl hearlier)
    rw [← hid] at hrepeat hseen
    rcases hfresh with htrue | hfalse
    · rw [hrepeat] at htrue
      cases htrue
    · rw [hseen] at hfalse
      cases hfalse
  · exact .inr hid

/-- The sequences of items that a block may consist of. -/
structure Accepted (items : List PropertyItem) : Prop where
  writable : ∀ item ∈ items, item.Writable
  unrepeated : Unrepeated items
  valid : (ofItems items).validateValues = .ok ()

/-- A parsed block is the layout of accepted items and stores them. -/
theorem accepted_of_parseBlock {propertyBody : Bytes} {properties : Properties}
    (h : parseBlock propertyBody = .ok properties) :
    ∃ items, Accepted items ∧ propertyBody = items.flatMap PropertyItem.wire ∧
      properties = ofItems items := by
  obtain ⟨⟨state, moved⟩, hrun, hchecked⟩ := bind_eq_ok_iff.mp h
  obtain ⟨_, hvalid, hresult⟩ := bind_eq_ok_iff.mp hchecked
  obtain rfl : state.1 = properties := Except.ok.inj hresult
  have hloop : ∃ items : List PropertyItem, (∀ item ∈ items, item.Writable) ∧ Unrepeated items ∧
      propertyBody.drop 0 = items.flatMap PropertyItem.wire ∧
      state = (ofItems items, items.foldl seenAfter 0#64) := by
    refine takesAll_whileMore (.of_moves moves_parseItem) (fun state encoded ↦
      ∃ items : List PropertyItem, (∀ item ∈ items, item.Writable) ∧ Unrepeated items ∧
        encoded = items.flatMap PropertyItem.wire ∧
        state = (ofItems items, items.foldl seenAfter 0#64)) ?_ ?_ _ _ _ _ hrun
    · rintro _ _ ⟨items, hwritable, hunrepeated, rfl, rfl⟩
      refine (takes_parseItem _).weaken ?_
      rintro _ _ ⟨item, hitem, hfresh, rfl, rfl⟩
      refine ⟨items ++ [item], ?_, unrepeated_append hunrepeated hfresh, ?_, ?_⟩
      · simpa [or_imp, forall_and, hitem] using hwritable
      · simp
      · rw [ofItems_append, List.foldl_append]
        rfl
    · exact ⟨[], by simp, List.Pairwise.nil, rfl, rfl⟩
  obtain ⟨items, hwritable, hunrepeated, hbody, rfl⟩ := hloop
  exact ⟨items, ⟨hwritable, hunrepeated, orRaise_eq_ok_iff.mp hvalid⟩, hbody, rfl⟩

/-- A parsed block is a sequence of items behind its length. -/
theorem takes_parse : Takes parse fun properties encoded ↦
    ∃ items, Accepted items ∧ properties = ofItems items ∧
      (items.flatMap PropertyItem.wire).length ≤ maxVariableByteInteger ∧
      encoded = Base128.encode (items.flatMap PropertyItem.wire).length ++
        items.flatMap PropertyItem.wire := by
  refine takes_readVbi.bind ?_
  rintro propertyLength _ ⟨hlength, rfl⟩
  refine (takes_readArray propertyLength).bind ?_
  rintro propertyBody _ ⟨rfl, rfl⟩
  refine takes_lift fun properties hblock ↦ ?_
  obtain ⟨items, haccepted, rfl, rfl⟩ := accepted_of_parseBlock hblock
  exact ⟨items, haccepted, rfl, hlength, by simp⟩

theorem map_mk_valuesOf (id : PropertyId) (items : List PropertyItem) :
    (valuesOf id items).map (PropertyItem.mk id) = items.filter fun item ↦ item.id = id := by
  induction items with
  | nil => rfl
  | cons item items ih =>
    by_cases hid : item.id = id
    · obtain ⟨id', value⟩ := item
      obtain rfl : id' = id := hid
      rw [valuesOf_cons_self, List.map_cons, ih]
      simp
    · rw [valuesOf_cons_of_ne hid, ih]
      simp [hid]

/-- Unrepeated items are stored under their identifiers in order. -/
theorem values_ofItems {items : List PropertyItem} (h : Unrepeated items) (id : PropertyId) :
    (ofItems items).values id = valuesOf id items := by
  have hempty : values {} id = [] := by cases id <;> rfl
  rw [ofItems, values_foldl_store id items {} h (.inr (.inl hempty)), hempty, List.nil_append]

/-- The encoder writes the items that were parsed, in the order of the table. -/
theorem items_ofItems_perm {items : List PropertyItem} (h : Unrepeated items) :
    (ofItems items).items.Perm items := by
  have hall : (items.filter fun item ↦ item.id ∈ PropertyId.all) = items :=
    List.filter_eq_self.mpr fun item _ ↦ decide_eq_true (mem_all item.id)
  have hperm := Grouping.flatMap_filter_perm PropertyItem.id all_nodup items
  rw [hall] at hperm
  simpa only [Properties.items, values_ofItems h, map_mk_valuesOf] using hperm

/-- Parsed properties are accepted by the encoder, in a block of the same length. -/
theorem Accepted.encode_ofItems {items : List PropertyItem} (h : Accepted items)
    (hlength : (items.flatMap PropertyItem.wire).length ≤ maxVariableByteInteger) :
    ∃ block, (ofItems items).encode [] = .ok block ∧
      block.length = (Base128.encode (items.flatMap PropertyItem.wire).length ++
        items.flatMap PropertyItem.wire).length := by
  have hperm := items_ofItems_perm h.unrepeated
  have hbody : (ofItems items).blockBody.length = (items.flatMap PropertyItem.wire).length :=
    (hperm.flatMap_right PropertyItem.wire).length_eq
  refine ⟨_, (encode_eq_ok_iff _ _ _).mpr ⟨h.valid, ?_, ?_, rfl⟩, ?_⟩
  · intro item hitem
    exact h.writable item (hperm.mem_iff.mp hitem)
  · rw [hbody]
    exact hlength
  · simp only [List.nil_append, List.length_append, hbody]

end HotaruMqtt.Properties
