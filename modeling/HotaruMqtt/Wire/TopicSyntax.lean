import HotaruMqtt.Library.Separated
import HotaruMqtt.Wire.Topic

/-!
# The syntax of topic filters

A filter is validated segment by segment. The same condition can be read off from its characters:
a wildcard has a separator or an end of the filter on both sides, and `#` stands last. The parser
of filters makes the same checks as the validation, and the patterns it returns are written back
as the filter they came from.
-/

namespace HotaruMqtt.Topic

open Library

theorem segments_ne_nil (topic : String) : segments topic ≠ [] := List.splitOn_ne_nil _ _

/-- A topic is determined by its levels. -/
theorem segments_injective {topic topic' : String} (h : segments topic = segments topic') :
    topic = topic' := by
  have hjoined := congrArg (['/'].intercalate ·) h
  dsimp only [segments] at hjoined
  rw [List.intercalate_splitOn, List.intercalate_splitOn] at hjoined
  exact String.toList_inj.mp hjoined

/-- A character other than the separator stands in a topic exactly if it stands in a segment. -/
theorem mem_toList_iff_segments {c : Char} (h : c ≠ '/') (topic : String) :
    c ∈ topic.toList ↔ ∃ segment ∈ segments topic, c ∈ segment := by
  rw [← Separated.mem_intercalate_iff h, segments, List.intercalate_splitOn]

/-- The wildcards of a filter stand alone, and the one for all levels stands last. -/
def WildcardsAlone : List (List Char) → Prop
  | [] => True
  | segment :: rest =>
      (segment = ['#'] → rest = []) ∧
        (segment = ['+'] ∨ segment = ['#'] ∨ hasWildcard segment = false) ∧ WildcardsAlone rest

/-- The pattern for a segment of an accepted filter. -/
def segmentPattern (segment : List Char) : PathPattern :=
  if segment = ['+'] then .any
  else if segment = ['#'] then .anyPath
  else .literal (String.ofList segment)

/-- The loop of the validation accepts exactly the filters with such wildcards. -/
theorem checkFilterSegments_eq_ok_iff {lastIdx i : ℕ} {filterSegs : List (List Char)}
    (hlast : lastIdx + 1 = i + filterSegs.length) :
    checkFilterSegments lastIdx i filterSegs = .ok () ↔ WildcardsAlone filterSegs := by
  induction filterSegs generalizing i with
  | nil => simp [checkFilterSegments, WildcardsAlone]
  | cons segment rest ih =>
    rw [List.length_cons] at hlast
    have hnext := ih (show lastIdx + 1 = i + 1 + rest.length by omega)
    have hindex : i = lastIdx ↔ rest = [] := by
      rw [← List.length_eq_zero_iff]
      omega
    rw [checkFilterSegments, WildcardsAlone]
    by_cases hplus : segment = ['+']
    · simp [hplus, hnext]
    by_cases hhash : segment = ['#']
    · by_cases hrest : rest = []
      · simp [hhash, hindex.mpr hrest, hrest, checkFilterSegments, WildcardsAlone]
      · simp [hhash, mt hindex.mp hrest, hrest]
    by_cases hmixed : hasWildcard segment = true
    · simp [hplus, hhash, hmixed]
    · simp [hplus, hhash, hmixed, hnext]

/-- The parser makes the checks of the validation and a pattern for each segment. -/
theorem parseFilterSegments_eq (lastIdx i : ℕ) (filterSegs : List (List Char)) :
    parseFilterSegments lastIdx i filterSegs =
      (checkFilterSegments lastIdx i filterSegs).map fun _ ↦ filterSegs.map segmentPattern := by
  induction filterSegs generalizing i with
  | nil => rfl
  | cons segment rest ih =>
    have hcons (pattern : PathPattern) :
        (parseFilterSegments lastIdx (i + 1) rest >>= fun patterns ↦ .ok (pattern :: patterns)) =
          (checkFilterSegments lastIdx (i + 1) rest).map fun _ ↦
            pattern :: rest.map segmentPattern := by
      rw [ih]
      cases checkFilterSegments lastIdx (i + 1) rest <;> rfl
    simp only [parseFilterSegments, checkFilterSegments, hcons, List.map_cons, segmentPattern]
    by_cases hplus : segment = ['+']
    · simp only [if_pos hplus]
    by_cases hhash : segment = ['#']
    · by_cases hindex : i = lastIdx
      · simp only [if_neg hplus, if_pos hhash, if_neg (not_not.mpr hindex)]
      · simp only [if_neg hplus, if_pos hhash, if_pos hindex]
        rfl
    by_cases hmixed : hasWildcard segment = true
    · simp only [if_neg hplus, if_neg hhash, if_pos hmixed]
      rfl
    · simp only [if_neg hplus, if_neg hhash, if_neg hmixed]

theorem parseSubscribeFilter_eq (filter : String) :
    parseSubscribeFilter filter =
      (validateSubscribeFilter filter).map fun _ ↦ (segments filter).map segmentPattern := by
  unfold parseSubscribeFilter validateSubscribeFilter
  split
  · rfl
  split
  · rfl
  · exact parseFilterSegments_eq _ _ _

/-- A filter is accepted if it is not empty, not too long and has its wildcards alone. -/
theorem validateSubscribeFilter_eq_ok_iff (filter : String) :
    validateSubscribeFilter filter = .ok () ↔
      filter ≠ "" ∧ (asBytes filter).length ≤ maxTopicLen ∧ WildcardsAlone (segments filter) := by
  have hlength := List.length_pos_iff.mpr (segments_ne_nil filter)
  have hcheck : checkFilterSegments ((segments filter).length - 1) 0 (segments filter) = .ok () ↔
      WildcardsAlone (segments filter) := checkFilterSegments_eq_ok_iff (by omega)
  unfold validateSubscribeFilter
  by_cases hempty : filter = ""
  · simp [hempty]
  by_cases hlong : (asBytes filter).length > maxTopicLen
  · simp [hempty, hlong, Nat.not_le.mpr hlong]
  · simp [hempty, hlong, hcheck, Nat.le_of_not_lt hlong]

/-- The wildcards of an accepted filter stand alone, and the parser accepts it too. -/
theorem accepted_of_validate {filter : String} (h : validateSubscribeFilter filter = .ok ()) :
    WildcardsAlone (segments filter) ∧
      parseSubscribeFilter filter = .ok ((segments filter).map segmentPattern) := by
  obtain ⟨-, -, halone⟩ := (validateSubscribeFilter_eq_ok_iff filter).mp h
  refine ⟨halone, ?_⟩
  rw [parseSubscribeFilter_eq, h]
  rfl

/-- The start of the filter or a separator stands before a place. -/
def OpensLevel (before : List Char) : Prop := before = [] ∨ ∃ rest, before = rest ++ ['/']

/-- The end of the filter or a separator stands behind a place. -/
def ClosesLevel (after : List Char) : Prop := after = [] ∨ ∃ rest, after = '/' :: rest

/-- Every `+` is a level of its own, and every `#` is the last level. -/
structure FilterSyntax (chars : List Char) : Prop where
  plus : ∀ before after, chars = before ++ '+' :: after → OpensLevel before ∧ ClosesLevel after
  hash : ∀ before after, chars = before ++ '#' :: after → OpensLevel before ∧ after = []

/-- The condition on one segment and the segments behind it. -/
def SegmentAlone (segment : List Char) (back : List (List Char)) : Prop :=
  (segment = ['#'] → back = []) ∧
    (segment = ['+'] ∨ segment = ['#'] ∨ hasWildcard segment = false)

/-- The recursive check as a condition on every segment. -/
theorem wildcardsAlone_iff_forall (filterSegs : List (List Char)) :
    WildcardsAlone filterSegs ↔
      ∀ front segment back, filterSegs = front ++ segment :: back → SegmentAlone segment back := by
  induction filterSegs with
  | nil => simp [WildcardsAlone]
  | cons segment rest ih =>
    rw [WildcardsAlone, ih]
    constructor
    · rintro ⟨hlast, halone, hrest⟩ front segment' back heq
      cases front with
      | nil =>
        obtain ⟨rfl, rfl⟩ := List.cons.inj heq
        exact ⟨hlast, halone⟩
      | cons first front =>
        obtain ⟨-, heq⟩ := List.cons.inj heq
        exact hrest front segment' back heq
    · intro h
      obtain ⟨hlast, halone⟩ := h [] segment rest rfl
      refine ⟨hlast, halone, fun front segment' back heq ↦ ?_⟩
      exact h (segment :: front) segment' back (congrArg (segment :: ·) heq)

theorem append_cons_eq_singleton_iff {first last : List Char} {c c' : Char} :
    first ++ c :: last = [c'] ↔ first = [] ∧ c = c' ∧ last = [] := by
  cases first <;> simp

/-- A segment with a wildcard consists of it. -/
theorem SegmentAlone.eq_nil {first last : List Char} {c : Char} {back : List (List Char)}
    (h : SegmentAlone (first ++ c :: last) back) (hc : c = '+' ∨ c = '#') :
    first = [] ∧ last = [] ∧ (c = '#' → back = []) := by
  obtain ⟨hlast, halone⟩ := h
  have hmixed : hasWildcard (first ++ c :: last) = true := by
    rcases hc with rfl | rfl <;> simp [hasWildcard]
  simp only [hmixed, append_cons_eq_singleton_iff, Bool.true_eq_false, or_false] at hlast halone
  rcases halone with ⟨hfirst, -, hrest⟩ | ⟨hfirst, -, hrest⟩
  · exact ⟨hfirst, hrest, fun hhash ↦ hlast ⟨hfirst, hhash, hrest⟩⟩
  · exact ⟨hfirst, hrest, fun hhash ↦ hlast ⟨hfirst, hhash, hrest⟩⟩

/-- Wildcards that fill their segments stand between separators. -/
theorem filterSyntax_of_wildcardsAlone {filter : String} (h : WildcardsAlone (segments filter)) :
    FilterSyntax filter.toList := by
  rw [wildcardsAlone_iff_forall] at h
  have hplace (before after : List Char) (c : Char) (hc : c = '+' ∨ c = '#')
      (heq : filter.toList = before ++ c :: after) :
      OpensLevel before ∧ ClosesLevel after ∧ (c = '#' → after = []) := by
    have hslash : c ≠ '/' := by rcases hc with rfl | rfl <;> decide
    obtain ⟨front, first, last, back, hsplit, rfl, rfl⟩ :=
      Separated.splitOn_append_cons hslash before after
    rw [← heq] at hsplit
    obtain ⟨rfl, rfl, hback⟩ := (h _ _ _ hsplit).eq_nil hc
    refine ⟨(Separated.begins_iff List.not_mem_nil front).mpr rfl,
      (Separated.ends_iff List.not_mem_nil back).mpr rfl, fun hhash ↦ ?_⟩
    rw [hback hhash]
    rfl
  constructor
  · intro before after heq
    obtain ⟨hopens, hcloses, -⟩ := hplace before after '+' (.inl rfl) heq
    exact ⟨hopens, hcloses⟩
  · intro before after heq
    obtain ⟨hopens, -, hlast⟩ := hplace before after '#' (.inr rfl) heq
    exact ⟨hopens, hlast rfl⟩

/-- Wildcards between separators fill their segments. -/
theorem wildcardsAlone_of_filterSyntax {filter : String} (h : FilterSyntax filter.toList) :
    WildcardsAlone (segments filter) := by
  rw [wildcardsAlone_iff_forall]
  intro front segment back hsplit
  have hchars := Separated.eq_of_splitOn_eq hsplit
  have hmem : segment ∈ segments filter := by simp [hsplit]
  have hpiece : '/' ∉ segment := Separated.not_mem_of_mem_splitOn hmem
  have hplus (hmem : '+' ∈ segment) : segment = ['+'] := by
    obtain ⟨first, last, rfl⟩ := List.append_of_mem hmem
    obtain ⟨hopens, hcloses⟩ := h.plus (front.flatMap (· ++ ['/']) ++ first)
      (last ++ back.flatMap ('/' :: ·)) (by rw [hchars]; simp)
    simp only [List.mem_append, List.mem_cons, not_or] at hpiece
    rw [(Separated.begins_iff hpiece.1 front).mp hopens,
      (Separated.ends_iff hpiece.2.2 back).mp hcloses]
    rfl
  have hhash (hmem : '#' ∈ segment) : segment = ['#'] ∧ back = [] := by
    obtain ⟨first, last, rfl⟩ := List.append_of_mem hmem
    obtain ⟨hopens, hlast⟩ := h.hash (front.flatMap (· ++ ['/']) ++ first)
      (last ++ back.flatMap ('/' :: ·)) (by rw [hchars]; simp)
    simp only [List.mem_append, List.mem_cons, not_or] at hpiece
    obtain ⟨rfl, hback⟩ := List.append_eq_nil_iff.mp hlast
    rw [(Separated.begins_iff hpiece.1 front).mp hopens]
    refine ⟨rfl, ?_⟩
    cases back with
    | nil => rfl
    | cons piece back => simp at hback
  refine ⟨fun heq ↦ (hhash (by simp [heq])).2, ?_⟩
  by_cases hmemPlus : '+' ∈ segment
  · exact .inl (hplus hmemPlus)
  by_cases hmemHash : '#' ∈ segment
  · exact .inr (.inl (hhash hmemHash).1)
  · exact .inr (.inr (by simp [hasWildcard, hmemPlus, hmemHash]))

/-- The validation and the parser of filters succeed and fail alike, and they accept exactly the
filters whose wildcards stand in their places. -/
theorem subscribe_filter_grammar (filter : String) :
    (parseSubscribeFilter filter).map (fun _ ↦ ()) = validateSubscribeFilter filter ∧
    (validateSubscribeFilter filter = .ok () ↔
      filter ≠ "" ∧ (asBytes filter).length ≤ 65535 ∧ FilterSyntax filter.toList) := by
  constructor
  · rw [parseSubscribeFilter_eq]
    cases validateSubscribeFilter filter <;> rfl
  · rw [validateSubscribeFilter_eq_ok_iff]
    have hchars : WildcardsAlone (segments filter) ↔ FilterSyntax filter.toList :=
      ⟨filterSyntax_of_wildcardsAlone, wildcardsAlone_of_filterSyntax⟩
    rw [hchars, maxTopicLen]

/-- A segment is written as it was read. -/
theorem wireSegment_segmentPattern (segment : List Char) :
    wireSegment (segmentPattern segment) = segment := by
  unfold segmentPattern
  split
  · exact Eq.symm ‹_›
  split
  · exact Eq.symm ‹_›
  · exact String.toList_ofList

/-- The patterns of a filter are written as the filter. -/
theorem pathToWireFilter_map_segmentPattern (filter : String) :
    pathToWireFilter ((segments filter).map segmentPattern) = filter := by
  have hsame : wireSegment ∘ segmentPattern = id := funext wireSegment_segmentPattern
  rw [pathToWireFilter, List.map_map, hsame, List.map_id, segments, List.intercalate_splitOn,
    String.ofList_toList]

/-- The patterns that a filter can stand for. -/
structure WirePath (path : List PathPattern) : Prop where
  noRegex : ∀ pattern, .regex pattern ∉ path
  literals : ∀ segment, .literal segment ∈ path →
    '/' ∉ segment.toList ∧ '+' ∉ segment.toList ∧ '#' ∉ segment.toList
  anyPathLast : ∀ front back, path = front ++ .anyPath :: back → back = []
  nonempty : pathToWireFilter path ≠ ""
  length_le : (asBytes (pathToWireFilter path)).length ≤ 65535

namespace WirePath

variable {path : List PathPattern}

theorem segmentPattern_wireSegment (h : WirePath path) {pattern : PathPattern}
    (hmem : pattern ∈ path) : segmentPattern (wireSegment pattern) = pattern := by
  cases pattern with
  | literal segment =>
    obtain ⟨-, hplus, hhash⟩ := h.literals segment hmem
    have hneqPlus : segment.toList ≠ ['+'] := fun heq ↦ hplus (by simp [heq])
    have hneqHash : segment.toList ≠ ['#'] := fun heq ↦ hhash (by simp [heq])
    rw [wireSegment, segmentPattern, if_neg hneqPlus, if_neg hneqHash, String.ofList_toList]
  | any => rfl
  | regex pattern => exact absurd hmem (h.noRegex pattern)
  | anyPath => rfl

/-- A written filter is cut at the same places. -/
theorem segments_pathToWireFilter (h : WirePath path) :
    segments (pathToWireFilter path) = path.map wireSegment := by
  have hslash (segment : List Char) (hmem : segment ∈ path.map wireSegment) : '/' ∉ segment := by
    obtain ⟨pattern, hpattern, rfl⟩ := List.mem_map.mp hmem
    cases pattern with
    | literal segment => exact (h.literals segment hpattern).1
    | any | anyPath => decide
    | regex pattern => exact absurd hpattern (h.noRegex pattern)
  have hpath : path.map wireSegment ≠ [] := by
    intro hempty
    apply h.nonempty
    rw [pathToWireFilter, hempty]
    rfl
  rw [segments, pathToWireFilter, String.toList_ofList]
  exact List.splitOn_intercalate '/' hslash hpath

theorem wildcardsAlone (h : WirePath path) : WildcardsAlone (path.map wireSegment) := by
  rw [wildcardsAlone_iff_forall]
  intro front segment back hsplit
  obtain ⟨before, rest, hpath, -, hrest⟩ := List.map_eq_append_iff.mp hsplit
  obtain ⟨pattern, after, rfl, rfl, rfl⟩ := List.map_eq_cons_iff.mp hrest
  have hmem : pattern ∈ path := by simp [hpath]
  cases pattern with
  | literal segment =>
    obtain ⟨-, hplus, hhash⟩ := h.literals segment hmem
    refine ⟨fun heq ↦ absurd ?_ hhash, .inr (.inr ?_)⟩
    · rw [show segment.toList = ['#'] from heq]
      exact List.mem_singleton.mpr rfl
    · simp [hasWildcard, wireSegment, hplus, hhash]
  | any => exact ⟨fun heq ↦ absurd heq (by decide), .inl rfl⟩
  | regex pattern => exact absurd hmem (h.noRegex pattern)
  | anyPath => exact ⟨fun _ ↦ by rw [h.anyPathLast before after hpath]; rfl, .inr (.inl rfl)⟩

end WirePath

/-- Writing the patterns of an accepted filter gives the filter, and parsing what was written gives
the patterns. -/
theorem filters_and_paths_inverse :
    (∀ filter path, parseSubscribeFilter filter = .ok path → pathToWireFilter path = filter) ∧
    ∀ path, WirePath path → parseSubscribeFilter (pathToWireFilter path) = .ok path := by
  constructor
  · intro filter path h
    rw [parseSubscribeFilter_eq] at h
    cases hvalid : validateSubscribeFilter filter with
    | error reason =>
      rw [hvalid] at h
      cases h
    | ok _ =>
      rw [hvalid] at h
      obtain rfl := Except.ok.inj h
      exact pathToWireFilter_map_segmentPattern filter
  · intro path h
    have hsegments := h.segments_pathToWireFilter
    have hvalid : validateSubscribeFilter (pathToWireFilter path) = .ok () := by
      rw [validateSubscribeFilter_eq_ok_iff, hsegments]
      exact ⟨h.nonempty, h.length_le, h.wildcardsAlone⟩
    have hpatterns : (path.map wireSegment).map segmentPattern = path := by
      calc
        _ = path.map (segmentPattern ∘ wireSegment) := List.map_map
        _ = path.map id := List.map_congr_left fun _ hmem ↦ h.segmentPattern_wireSegment hmem
        _ = path := List.map_id path
    rw [parseSubscribeFilter_eq, hvalid, hsegments, hpatterns]
    rfl

end HotaruMqtt.Topic
