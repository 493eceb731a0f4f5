import HotaruMqtt.Wire.Grammar
import HotaruMqtt.Wire.WellFormed

/-!
# The grammar of property blocks

A property block is the shortest variable byte integer that counts it, followed by properties. A
property is the code of an identifier and a value of the type of that identifier. The grammar is
stated here on bytes alone. The parser accepts exactly the blocks of the grammar in which only two
identifiers repeat and the values pass the checks, it returns the values in wire order, and it does
not look behind the block.
-/

namespace HotaruMqtt

open Library Library.Decoder

/-- Bytes that spell a value of a wire type. -/
def PropertyType.Spells : (type : PropertyType) → type.Value → Bytes → Prop
  | .byte, value, encoded => encoded = [value]
  | .twoByte, value, encoded =>
      ∃ high low : UInt8, encoded = [high, low] ∧ value.toNat = high.toNat * 256 + low.toNat
  | .fourByte, value, encoded =>
      ∃ b₀ b₁ b₂ b₃ : UInt8, encoded = [b₀, b₁, b₂, b₃] ∧
        value.toNat = ((b₀.toNat * 256 + b₁.toNat) * 256 + b₂.toNat) * 256 + b₃.toNat
  | .string, value, encoded => '\x00' ∉ value.toList ∧ IsPrefixed (asBytes value) encoded
  | .binary, value, encoded => IsPrefixed value encoded
  | .variableByteInteger, value, encoded =>
      value.toNat ≤ maxVariableByteInteger ∧ Base128.Shortest value.toNat encoded
  | .stringPair, (key, value), encoded =>
      ∃ keyBytes valueBytes, encoded = keyBytes ++ valueBytes ∧
        ('\x00' ∉ key.toList ∧ IsPrefixed (asBytes key) keyBytes) ∧
        ('\x00' ∉ value.toList ∧ IsPrefixed (asBytes value) valueBytes)

/-- One property: the code of its identifier and its value. -/
def PropertyItem.Spells (item : PropertyItem) (encoded : Bytes) : Prop :=
  ∃ value, encoded = item.id.code :: value ∧ item.id.type.Spells item.value value

/-- A property block: the count of its bytes and then every property. -/
def SpellsBlock (items : List PropertyItem) (encoded : Bytes) : Prop :=
  ∃ count chunks, encoded = count ++ chunks.flatten ∧
    chunks.flatten.length ≤ maxVariableByteInteger ∧
    Base128.Shortest chunks.flatten.length count ∧
    List.Forall₂ PropertyItem.Spells items chunks

/-- The properties hold the values of the items of every identifier, in their order. -/
def Properties.Collects (properties : Properties) (items : List PropertyItem) : Prop :=
  ∀ id, properties.values id = Properties.valuesOf id items

theorem isPrefixed_iff {field encoded : Bytes} :
    IsPrefixed field encoded ↔ field.length ≤ 65535 ∧ encoded = prefixed field := by
  constructor
  · intro h
    refine ⟨h.length_le, ?_⟩
    obtain ⟨high, low, rfl, hlength⟩ := h
    rw [prefixed, ← hlength]
    change _ = toBeBytes16 (fromBeBytes16 high low) ++ field
    rw [toBeBytes16_fromBeBytes16]
    rfl
  · rintro ⟨hlength, rfl⟩
    exact isPrefixed_prefixed hlength

theorem spells_twoByte_iff {value : UInt16} {encoded : Bytes} :
    PropertyType.Spells .twoByte value encoded ↔ encoded = toBeBytes16 value := by
  constructor
  · rintro ⟨high, low, rfl, hvalue⟩
    have hback : value = fromBeBytes16 high low := by
      rw [fromBeBytes16, ← hvalue, UInt16.ofNat_toNat]
    rw [hback, toBeBytes16_fromBeBytes16]
  · rintro rfl
    have hlt : value.toNat < 65536 := value.toNat_lt
    refine ⟨_, _, rfl, ?_⟩
    rw [toNat_byte (by omega), toNat_byte (by omega)]
    omega

theorem spells_fourByte_iff {value : UInt32} {encoded : Bytes} :
    PropertyType.Spells .fourByte value encoded ↔ encoded = toBeBytes32 value := by
  constructor
  · rintro ⟨b₀, b₁, b₂, b₃, rfl, hvalue⟩
    have hback : value = fromBeBytes32 b₀ b₁ b₂ b₃ := by
      rw [fromBeBytes32, ← hvalue, UInt32.ofNat_toNat]
    rw [hback, toBeBytes32_fromBeBytes32]
  · rintro rfl
    have hlt : value.toNat < 4294967296 := value.toNat_lt
    refine ⟨_, _, _, _, rfl, ?_⟩
    rw [toNat_byte (by omega), toNat_byte (by omega), toNat_byte (by omega), toNat_byte (by omega)]
    omega

/-- A string and its bytes. -/
theorem spellsString_iff {value : String} {encoded : Bytes} :
    ('\x00' ∉ value.toList ∧ IsPrefixed (asBytes value) encoded) ↔
      PropertyType.WritableString value ∧ encoded = prefixed (asBytes value) := by
  rw [isPrefixed_iff, PropertyType.WritableString, and_assoc]

/-- The bytes that spell a value are its layout. -/
theorem PropertyType.spells_iff (type : PropertyType) (value : type.Value) (encoded : Bytes) :
    type.Spells value encoded ↔ type.Writable value ∧ encoded = type.wire value := by
  cases type with
  | byte => exact (true_and _).symm.to_iff
  | twoByte => exact spells_twoByte_iff.trans (true_and _).symm.to_iff
  | fourByte => exact spells_fourByte_iff.trans (true_and _).symm.to_iff
  | string => exact spellsString_iff
  | binary => exact isPrefixed_iff
  | variableByteInteger => exact and_congr_right fun _ ↦ Base128.shortest_iff
  | stringPair =>
    obtain ⟨key, value⟩ := value
    simp only [Spells, Writable, wire, spellsString_iff]
    constructor
    · rintro ⟨_, _, rfl, ⟨hkey, rfl⟩, hvalue, rfl⟩
      exact ⟨⟨hkey, hvalue⟩, rfl⟩
    · rintro ⟨⟨hkey, hvalue⟩, rfl⟩
      exact ⟨_, _, rfl, ⟨hkey, rfl⟩, hvalue, rfl⟩

/-- The words of an item are its layout, if it is writable. -/
theorem PropertyItem.spells_iff (item : PropertyItem) (encoded : Bytes) :
    item.Spells encoded ↔ item.Writable ∧ encoded = item.wire := by
  simp only [Spells, PropertyType.spells_iff, Writable, wire]
  constructor
  · rintro ⟨_, rfl, hwritable, rfl⟩
    exact ⟨hwritable, rfl⟩
  · rintro ⟨hwritable, rfl⟩
    exact ⟨_, rfl, hwritable, rfl⟩

theorem forall₂_spells_iff (items : List PropertyItem) (chunks : List Bytes) :
    List.Forall₂ PropertyItem.Spells items chunks ↔
      (∀ item ∈ items, item.Writable) ∧ chunks = items.map PropertyItem.wire := by
  induction items generalizing chunks with
  | nil => simp
  | cons item items ih =>
    simp only [List.forall₂_cons_left_iff, PropertyItem.spells_iff, ih, List.forall_mem_cons,
      List.map_cons]
    constructor
    · rintro ⟨_, _, ⟨hitem, rfl⟩, ⟨hitems, rfl⟩, rfl⟩
      exact ⟨⟨hitem, hitems⟩, rfl⟩
    · rintro ⟨⟨hitem, hitems⟩, rfl⟩
      exact ⟨_, _, ⟨hitem, rfl⟩, ⟨hitems, rfl⟩, rfl⟩

/-- The words of a block are its length and the layouts of its items. -/
theorem spellsBlock_iff (items : List PropertyItem) (encoded : Bytes) :
    SpellsBlock items encoded ↔
      (∀ item ∈ items, item.Writable) ∧
      (items.flatMap PropertyItem.wire).length ≤ maxVariableByteInteger ∧
      encoded = Base128.encode (items.flatMap PropertyItem.wire).length ++
        items.flatMap PropertyItem.wire := by
  simp only [SpellsBlock, forall₂_spells_iff, Base128.shortest_iff, List.flatMap_def]
  constructor
  · rintro ⟨_, _, rfl, hlength, rfl, hwritable, rfl⟩
    exact ⟨hwritable, hlength, rfl⟩
  · rintro ⟨hwritable, hlength, rfl⟩
    exact ⟨_, _, rfl, hlength, rfl, hwritable, rfl⟩

namespace Properties

/-- The fields that hold the items are those the parser stores. -/
theorem collects_iff {items : List PropertyItem} (h : Unrepeated items) (properties : Properties) :
    properties.Collects items ↔ properties = ofItems items := by
  have hvalues := values_ofItems h
  constructor
  · intro hcollects
    apply ext_values
    intro id
    rw [hcollects id, hvalues id]
  · rintro rfl
    exact hvalues

/-- A block of the grammar with the properties it stands for. -/
def InGrammar (properties : Properties) (encoded : Bytes) : Prop :=
  ∃ items, SpellsBlock items encoded ∧ Unrepeated items ∧ properties.Collects items ∧
    properties.validateValues = .ok ()

/-- The parser recognises a block of the grammar wherever it stands. -/
theorem reads_parse_of_inGrammar (properties : Properties) (encoded : Bytes)
    (h : InGrammar properties encoded) : Reads parse encoded properties := by
  obtain ⟨items, hspells, hunrepeated, hcollects, hvalid⟩ := h
  obtain ⟨hwritable, hlength, rfl⟩ := (spellsBlock_iff items encoded).mp hspells
  have hproperties := (collects_iff hunrepeated properties).mp hcollects
  exact reads_parse_of_parseBlock hlength
    (parseBlock_items hproperties.symm hwritable hunrepeated hvalid)

/-- The parser takes nothing else. -/
theorem takes_parse_inGrammar : Takes parse InGrammar := by
  refine takes_parse.weaken ?_
  rintro properties encoded ⟨items, haccepted, rfl, hlength, hencoded⟩
  exact ⟨items, (spellsBlock_iff items encoded).mpr ⟨haccepted.writable, hlength, hencoded⟩,
    haccepted.unrepeated, (collects_iff haccepted.unrepeated _).mpr rfl, haccepted.valid⟩

/-- The parser succeeds exactly on the blocks of the grammar, moves the cursor behind the block and
does not depend on what follows it. -/
theorem parse_accepts_grammar {body : Bytes} {cursor : ℕ} (hcursor : cursor ≤ body.length)
    (properties : Properties) (moved : ℕ) :
    (parse.run body cursor = .ok (properties, moved) ↔
      ∃ encoded, encoded <+: body.drop cursor ∧ moved = cursor + encoded.length ∧
        InGrammar properties encoded) ∧
    (parse.run body cursor = .ok (properties, moved) →
      ∀ after, parse.run (body.take moved ++ after) cursor = .ok (properties, moved)) :=
  ⟨takes_parse_inGrammar.run_eq_ok_iff reads_parse_of_inGrammar hcursor properties moved,
    takes_parse_inGrammar.run_take reads_parse_of_inGrammar hcursor⟩

/-- A block between two other bytes. -/
theorem parse_accepts_grammar_between :
    (∃ encoded, encoded <+: [0x03, 0x21, 0x00, 0x05, 0x07] ∧ 5 = 1 + encoded.length ∧
      InGrammar { receiveMaximum := some 5 } encoded) ∧
    ∀ after, parse.run ([0x09, 0x03, 0x21, 0x00, 0x05] ++ after) 1 =
      .ok ({ receiveMaximum := some 5 }, 5) := by
  have hrun : parse.run [0x09, 0x03, 0x21, 0x00, 0x05, 0x07] 1 =
      .ok ({ receiveMaximum := some 5 }, 5) := by
    decide
  have hcursor : 1 ≤ [(0x09 : UInt8), 0x03, 0x21, 0x00, 0x05, 0x07].length := by decide
  have h := parse_accepts_grammar hcursor { receiveMaximum := some 5 } 5
  exact ⟨h.1.mp hrun, h.2 hrun⟩

end Properties

end HotaruMqtt
