import HotaruMqtt.Wire.PropertyGrammar

/-!
# The order of properties

A block can be cut into properties in one way only, so whether it is accepted and what it is parsed
to can be read off from its items. Neither depends on their order, apart from the order of the
values of an identifier that may repeat. The encoder writes the items sorted by the table of
identifiers, so it gives back a parsed block with the same number of bytes, and with the same bytes
if its items were sorted.
-/

namespace HotaruMqtt

open Library Library.Decoder

/-- An item ends where its layout says. -/
theorem PropertyItem.wire_unique {item item' : PropertyItem} {after after' : Bytes}
    (h : item.Writable) (h' : item'.Writable) (heq : item.wire ++ after = item'.wire ++ after') :
    item = item' ∧ after = after' := by
  obtain ⟨id, value⟩ := item
  obtain ⟨id', value'⟩ := item'
  simp only [wire, List.cons_append, List.cons.injEq] at heq
  obtain ⟨hcode, hvalue⟩ := heq
  obtain rfl := Properties.code_injective hcode
  obtain ⟨hsame, -, hafter⟩ := (Properties.reads_readValue _ _ h).unique
    (Properties.reads_readValue _ _ h') hvalue
  exact ⟨congrArg (PropertyItem.mk id) hsame, hafter⟩

/-- A body is cut into items in one way. -/
theorem flatMap_wire_injective {items items' : List PropertyItem}
    (h : ∀ item ∈ items, item.Writable) (h' : ∀ item ∈ items', item.Writable)
    (heq : items.flatMap PropertyItem.wire = items'.flatMap PropertyItem.wire) :
    items = items' := by
  induction items generalizing items' with
  | nil =>
    cases items' with
    | nil => rfl
    | cons item' items' => exact absurd (List.append_eq_nil_iff.mp heq.symm).1 item'.wire_ne_nil
  | cons item items ih =>
    cases items' with
    | nil => exact absurd (List.append_eq_nil_iff.mp heq).1 item.wire_ne_nil
    | cons item' items' =>
      rw [List.forall_mem_cons] at h h'
      obtain ⟨rfl, hrest⟩ := PropertyItem.wire_unique h.1 h'.1 heq
      rw [ih h.2 h'.2 hrest]

/-- A block ends where its length says. -/
theorem SpellsBlock.unique {items items' : List PropertyItem}
    {encoded encoded' after after' : Bytes}
    (h : SpellsBlock items encoded) (h' : SpellsBlock items' encoded')
    (heq : encoded ++ after = encoded' ++ after') : items = items' ∧ encoded = encoded' := by
  obtain ⟨hwritable, hlength, rfl⟩ := (spellsBlock_iff _ _).mp h
  obtain ⟨hwritable', hlength', rfl⟩ := (spellsBlock_iff _ _).mp h'
  simp only [List.append_assoc] at heq
  obtain ⟨hcount, -, hrest⟩ := (Properties.reads_readVbi hlength).unique
    (Properties.reads_readVbi hlength') heq
  obtain rfl := flatMap_wire_injective hwritable hwritable' (List.append_inj hrest hcount).1
  exact ⟨rfl, rfl⟩

namespace Properties

/-- Whether a block is accepted depends on its items alone, and so does the result. -/
theorem run_parse_eq_ok_iff {items : List PropertyItem} {encoded : Bytes}
    (h : SpellsBlock items encoded) (before after : Bytes) (properties : Properties) (moved : ℕ) :
    parse.run (before ++ (encoded ++ after)) before.length = .ok (properties, moved) ↔
      moved = before.length + encoded.length ∧ Unrepeated items ∧ properties = ofItems items ∧
        properties.validateValues = .ok () := by
  constructor
  · intro hrun
    obtain ⟨encoded', ⟨after', heq⟩, rfl, items', hspells, hunrepeated, hcollects, hvalid⟩ :=
      takes_parse_inGrammar _ _ _ _ hrun
    rw [List.drop_left] at heq
    obtain ⟨rfl, rfl⟩ := hspells.unique h heq
    exact ⟨rfl, hunrepeated, (collects_iff hunrepeated _).mp hcollects, hvalid⟩
  · rintro ⟨rfl, hunrepeated, hproperties, hvalid⟩
    have hcollects := (collects_iff hunrepeated _).mpr hproperties
    exact reads_parse_of_inGrammar properties encoded ⟨items, h, hunrepeated, hcollects, hvalid⟩
      before after

theorem Unrepeated.perm {items items' : List PropertyItem} (h : Unrepeated items)
    (hperm : items.Perm items') : Unrepeated items' := by
  refine hperm.pairwise h ?_
  intro item item' hitem
  rcases hitem with hrepeat | hne
  · by_cases hid : item.id = item'.id
    · exact .inl (hid ▸ hrepeat)
    · exact .inr hid
  · exact .inr hne.symm

theorem valuesOf_eq_of_filter_eq {id : PropertyId} {items items' : List PropertyItem}
    (h : items.filter (fun item ↦ item.id = id) = items'.filter fun item ↦ item.id = id) :
    valuesOf id items = valuesOf id items' := by
  rw [← map_mk_valuesOf, ← map_mk_valuesOf] at h
  refine List.map_injective_iff.mpr ?_ h
  intro value value' hvalue
  cases hvalue
  rfl

/-- An identifier that may not repeat has at most one value, so there is no order among its
values. -/
theorem valuesOf_perm {id : PropertyId} {items items' : List PropertyItem}
    (h : Unrepeated items) (hperm : items.Perm items') (hrepeat : id.repeatable = false) :
    valuesOf id items = valuesOf id items' := by
  have hvalues : (valuesOf id items).Perm (valuesOf id items') := hperm.filterMap _
  have hlength : (valuesOf id items).length ≤ 1 := by
    rw [← values_ofItems h id]
    exact length_values_le_one _ hrepeat
  rcases Nat.le_one_iff_eq_zero_or_eq_one.mp hlength with hzero | hone
  · rw [List.length_eq_zero_iff] at hzero
    rw [hzero] at hvalues ⊢
    exact (List.perm_nil.mp hvalues.symm).symm
  · obtain ⟨value, hvalue⟩ := List.length_eq_one_iff.mp hone
    rw [hvalue] at hvalues ⊢
    exact (List.perm_singleton.mp hvalues.symm).symm

/-- The order of the items matters only among those of a repeated property. -/
theorem ofItems_perm {items items' : List PropertyItem} (h : Unrepeated items)
    (hperm : items.Perm items')
    (hrepeated : ∀ id : PropertyId, id.repeatable = true → valuesOf id items = valuesOf id items') :
    ofItems items = ofItems items' := by
  apply ext_values
  intro id
  rw [values_ofItems h, values_ofItems (h.perm hperm)]
  cases hrepeat : id.repeatable with
  | true => exact hrepeated id hrepeat
  | false => exact valuesOf_perm h hperm hrepeat

/-- Reordering keeps a block accepted, with the same result. -/
theorem run_parse_of_perm {items items' : List PropertyItem} {encoded encoded' : Bytes}
    (h : SpellsBlock items encoded) (h' : SpellsBlock items' encoded') (hperm : items.Perm items')
    (hrepeated : ∀ id : PropertyId, id.repeatable = true → valuesOf id items = valuesOf id items')
    {before after : Bytes} {properties : Properties} {moved : ℕ}
    (hrun : parse.run (before ++ (encoded ++ after)) before.length = .ok (properties, moved))
    (before' after' : Bytes) :
    moved = before.length + encoded.length ∧
      parse.run (before' ++ (encoded' ++ after')) before'.length =
        .ok (properties, before'.length + encoded'.length) := by
  obtain ⟨hmoved, hunrepeated, hproperties, hvalid⟩ := (run_parse_eq_ok_iff h _ _ _ _).mp hrun
  have hsame := ofItems_perm hunrepeated hperm hrepeated
  exact ⟨hmoved, (run_parse_eq_ok_iff h' _ _ _ _).mpr
    ⟨rfl, hunrepeated.perm hperm, hproperties.trans hsame, hvalid⟩⟩

/-- Two blocks of the same properties are both accepted, with the same result, or both rejected, if
the user properties and the subscription identifiers come in the same order. -/
theorem parse_order_irrelevant {items items' : List PropertyItem} {encoded encoded' : Bytes}
    (h : SpellsBlock items encoded) (h' : SpellsBlock items' encoded') (hperm : items.Perm items')
    (huser : items.filter (fun item ↦ item.id = .userProperty) =
      items'.filter fun item ↦ item.id = .userProperty)
    (hsubscription : items.filter (fun item ↦ item.id = .subscriptionIdentifier) =
      items'.filter fun item ↦ item.id = .subscriptionIdentifier)
    (before after before' after' : Bytes) :
    (∃ properties,
      parse.run (before ++ (encoded ++ after)) before.length =
        .ok (properties, before.length + encoded.length) ∧
      parse.run (before' ++ (encoded' ++ after')) before'.length =
        .ok (properties, before'.length + encoded'.length)) ∨
    ((∃ reason, parse.run (before ++ (encoded ++ after)) before.length = .error reason) ∧
      ∃ reason, parse.run (before' ++ (encoded' ++ after')) before'.length = .error reason) := by
  have hrepeated (id : PropertyId) (hrepeat : id.repeatable = true) :
      valuesOf id items = valuesOf id items' := by
    apply valuesOf_eq_of_filter_eq
    cases id <;> first | exact huser | exact hsubscription | cases hrepeat
  have hback (id : PropertyId) (hrepeat : id.repeatable = true) :
      valuesOf id items' = valuesOf id items := (hrepeated id hrepeat).symm
  cases hrun : parse.run (before ++ (encoded ++ after)) before.length with
  | ok result =>
    obtain ⟨properties, moved⟩ := result
    obtain ⟨rfl, hrun'⟩ := run_parse_of_perm h h' hperm hrepeated hrun before' after'
    exact .inl ⟨properties, rfl, hrun'⟩
  | error reason =>
    cases hrun' : parse.run (before' ++ (encoded' ++ after')) before'.length with
    | ok result =>
      obtain ⟨-, hboth⟩ := run_parse_of_perm h' h hperm.symm hback hrun' before after
      rw [hrun] at hboth
      cases hboth
    | error reason' => exact .inr ⟨⟨reason, rfl⟩, reason', rfl⟩

/-- A receive maximum and a topic alias in both orders. -/
theorem parse_order_irrelevant_swapped :
    ∃ properties,
      parse.run [0x06, 0x21, 0x00, 0x05, 0x23, 0x00, 0x01] 0 = .ok (properties, 7) ∧
      parse.run [0x06, 0x23, 0x00, 0x01, 0x21, 0x00, 0x05] 0 = .ok (properties, 7) := by
  have hspells (items : List PropertyItem) (encoded : Bytes)
      (hitems : ∀ item ∈ items, item.Writable)
      (hencoded : encoded = [0x06] ++ items.flatMap PropertyItem.wire)
      (hlength : (items.flatMap PropertyItem.wire).length = 6) : SpellsBlock items encoded := by
    refine (spellsBlock_iff items encoded).mpr ⟨hitems, ?_, ?_⟩
    · rw [hlength]
      decide
    · rw [hlength]
      exact hencoded
  have hwritable (item : PropertyItem)
      (hitem : item = ⟨.receiveMaximum, 5⟩ ∨ item = ⟨.topicAlias, 1⟩) : item.Writable := by
    rcases hitem with rfl | rfl <;> trivial
  have h := parse_order_irrelevant
    (hspells [⟨.receiveMaximum, 5⟩, ⟨.topicAlias, 1⟩] [0x06, 0x21, 0x00, 0x05, 0x23, 0x00, 0x01]
      (by simpa using hwritable) rfl rfl)
    (hspells [⟨.topicAlias, 1⟩, ⟨.receiveMaximum, 5⟩] [0x06, 0x23, 0x00, 0x01, 0x21, 0x00, 0x05]
      (by simpa [or_comm] using hwritable) rfl rfl)
    (List.Perm.swap _ _ _) rfl rfl [] [] [] []
  rcases h with haccepted | ⟨⟨reason, hrejected⟩, -⟩
  · exact haccepted
  · have haccepts : parse.run [0x06, 0x21, 0x00, 0x05, 0x23, 0x00, 0x01] 0 =
        .ok ({ receiveMaximum := some 5, topicAlias := some 1 }, 7) := by
      decide
    exact absurd (haccepts.symm.trans hrejected) (by simp)

/-- The identifiers of the items follow the table. -/
def InEncoderOrder (items : List PropertyItem) : Prop :=
  items.Pairwise fun item item' ↦ PropertyId.all.idxOf item.id ≤ PropertyId.all.idxOf item'.id

/-- Items in the order of the encoder are written again as they stood. -/
theorem items_ofItems {items : List PropertyItem} (h : Unrepeated items)
    (hsorted : InEncoderOrder items) : (ofItems items).items = items := by
  simp only [Properties.items, values_ofItems h, map_mk_valuesOf]
  exact Grouping.flatMap_filter_of_sorted PropertyItem.id all_nodup
    (fun item _ ↦ mem_all item.id) hsorted

/-- What was parsed is encoded in as many bytes, which are parsed to the same properties wherever
they stand. They are the bytes of the input if its items were in the order of the encoder. -/
theorem encode_parsed {body : Bytes} {cursor moved : ℕ} {properties : Properties}
    (h : parse.run body cursor = .ok (properties, moved)) :
    cursor ≤ moved ∧ ∃ items block,
      SpellsBlock items ((body.drop cursor).take (moved - cursor)) ∧
      properties.encode [] = .ok block ∧ block.length = moved - cursor ∧
      (∀ before after, parse.run (before ++ (block ++ after)) before.length =
        .ok (properties, before.length + block.length)) ∧
      (InEncoderOrder items → block = (body.drop cursor).take (moved - cursor)) := by
  obtain ⟨encoded, ⟨after, hafter⟩, rfl, items, haccepted, rfl, hlength, hencoded⟩ :=
    takes_parse _ _ _ _ h
  have hinput : (body.drop cursor).take (cursor + encoded.length - cursor) = encoded := by
    rw [Nat.add_sub_cancel_left, ← hafter, List.take_left]
  rw [hinput, Nat.add_sub_cancel_left]
  obtain ⟨block, hblock, hsize⟩ := haccepted.encode_ofItems hlength
  refine ⟨Nat.le_add_right _ _, items, block, ?_, hblock, ?_, ?_, ?_⟩
  · exact (spellsBlock_iff items encoded).mpr ⟨haccepted.writable, hlength, hencoded⟩
  · rw [hsize, hencoded]
  · exact reads_parse hblock
  · intro hsorted
    obtain ⟨-, -, -, hresult⟩ := (encode_eq_ok_iff _ _ _).mp hblock
    rw [hresult, List.nil_append, blockBody, items_ofItems haccepted.unrepeated hsorted, hencoded]

/-- A topic alias before a receive maximum, behind another byte. -/
theorem encode_parsed_swapped : ∃ items block,
    SpellsBlock items [0x06, 0x23, 0x00, 0x01, 0x21, 0x00, 0x05] ∧
    encode { receiveMaximum := some 5, topicAlias := some 1 } [] = .ok block ∧
    block.length = 7 ∧
    (InEncoderOrder items → block = [0x06, 0x23, 0x00, 0x01, 0x21, 0x00, 0x05]) := by
  have hrun : parse.run [0x09, 0x06, 0x23, 0x00, 0x01, 0x21, 0x00, 0x05] 1 =
      .ok ({ receiveMaximum := some 5, topicAlias := some 1 }, 8) := by
    decide
  obtain ⟨-, items, block, hspells, hencode, hlength, -, hsorted⟩ := encode_parsed hrun
  exact ⟨items, block, hspells, hencode, hlength, hsorted⟩

end Properties

end HotaruMqtt
