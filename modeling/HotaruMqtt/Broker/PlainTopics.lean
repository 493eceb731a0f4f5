import HotaruMqtt.Broker.Matching

/-!
# Topic names as filters

A topic name is a filter without wildcards. The parser of topic names makes the checks of the
validation, it returns the patterns that the parser of filters returns for the name, and a
subscription to a topic name meets the messages on this topic and no others.
-/

namespace HotaruMqtt.Topic

/-- The parser makes the checks of the validation and a literal for each segment. -/
theorem parseTopicSegments_eq (topicSegs : List (List Char)) :
    parseTopicSegments topicSegs = (checkTopicSegments topicSegs).map fun _ ↦
      topicSegs.map fun segment ↦ .literal (String.ofList segment) := by
  induction topicSegs with
  | nil => rfl
  | cons segment rest ih =>
    rw [parseTopicSegments, checkTopicSegments, ih]
    split
    · rfl
    · cases checkTopicSegments rest <;> rfl

/-- A topic name is checked and then cut into literal levels. -/
theorem parsePublishTopic_eq (topic : String) :
    parsePublishTopic topic = (validatePublishTopic topic).map fun _ ↦
      (segments topic).map fun segment ↦ .literal (String.ofList segment) := by
  unfold parsePublishTopic validatePublishTopic
  split
  · rfl
  split
  · rfl
  · exact parseTopicSegments_eq _

theorem checkTopicSegments_eq_ok_iff (topicSegs : List (List Char)) :
    checkTopicSegments topicSegs = .ok () ↔
      ∀ segment ∈ topicSegs, hasWildcard segment = false := by
  induction topicSegs with
  | nil => simp [checkTopicSegments]
  | cons segment rest ih =>
    rw [checkTopicSegments, List.forall_mem_cons, ← ih]
    by_cases hmixed : hasWildcard segment = true
    · simp [hmixed]
    · simp [hmixed]

/-- A topic name is accepted if it is not empty, not too long and free of wildcards. -/
theorem validatePublishTopic_eq_ok_iff (topic : String) :
    validatePublishTopic topic = .ok () ↔
      topic ≠ "" ∧ (asBytes topic).length ≤ maxTopicLen ∧
        ∀ segment ∈ segments topic, hasWildcard segment = false := by
  unfold validatePublishTopic
  by_cases hempty : topic = ""
  · simp [hempty]
  by_cases hlong : (asBytes topic).length > maxTopicLen
  · simp [hempty, hlong, Nat.not_le.mpr hlong]
  · simp [hempty, hlong, checkTopicSegments_eq_ok_iff, Nat.le_of_not_lt hlong]

section Plain

variable {segment : List Char} {segs : List (List Char)}

theorem ne_wildcard_of_plain (h : hasWildcard segment = false) :
    segment ≠ ['+'] ∧ segment ≠ ['#'] := by
  constructor
  · rintro rfl
    cases h
  · rintro rfl
    cases h

theorem map_segmentPattern_of_plain (h : ∀ segment ∈ segs, hasWildcard segment = false) :
    segs.map segmentPattern = segs.map fun segment ↦ .literal (String.ofList segment) := by
  refine List.map_congr_left fun segment hmem ↦ ?_
  obtain ⟨hplus, hhash⟩ := ne_wildcard_of_plain (h segment hmem)
  rw [segmentPattern, if_neg hplus, if_neg hhash]

/-- Levels without wildcards are accepted in a filter. -/
theorem wildcardsAlone_of_plain (h : ∀ segment ∈ segs, hasWildcard segment = false) :
    WildcardsAlone segs := by
  induction segs with
  | nil => trivial
  | cons segment rest ih =>
    rw [List.forall_mem_cons] at h
    obtain ⟨-, hhash⟩ := ne_wildcard_of_plain h.1
    exact ⟨fun heq ↦ absurd heq hhash, .inr (.inr h.1), ih h.2⟩

/-- A segment of an accepted filter is plain if its pattern is a literal. -/
theorem plain_of_literal (halone : WildcardsAlone segs)
    (h : ∀ segment ∈ segs, ∃ text, segmentPattern segment = .literal text) :
    ∀ segment ∈ segs, hasWildcard segment = false := by
  rw [wildcardsAlone_iff_forall] at halone
  intro segment hmem
  obtain ⟨front, back, hsegs⟩ := List.append_of_mem hmem
  obtain ⟨text, hliteral⟩ := h segment hmem
  rcases (halone front segment back hsegs).2 with rfl | rfl | hplain
  · cases hliteral
  · cases hliteral
  · exact hplain

/-- Plain segments match themselves only. -/
theorem matchSegments_of_plain (h : ∀ segment ∈ segs, hasWildcard segment = false)
    (topicSegs : List (List Char)) : matchSegments segs topicSegs = true ↔ topicSegs = segs := by
  induction segs generalizing topicSegs with
  | nil => simp [matchSegments]
  | cons segment rest ih =>
    rw [List.forall_mem_cons] at h
    obtain ⟨hplus, hhash⟩ := ne_wildcard_of_plain h.1
    rw [matchSegments_cons_iff hhash]
    constructor
    · rintro ⟨level, levels, rfl, hlevel, hrest⟩
      rw [(ih h.2 levels).mp hrest, hlevel.resolve_left hplus]
    · rintro rfl
      exact ⟨segment, rest, rfl, .inr rfl, (ih h.2 rest).mpr rfl⟩

end Plain

/-- The parser accepts a topic name with its literals. -/
theorem parsePublishTopic_eq_ok_iff (topic : String) (path : List PathPattern) :
    parsePublishTopic topic = .ok path ↔
      validatePublishTopic topic = .ok () ∧
        path = (segments topic).map fun segment ↦ .literal (String.ofList segment) := by
  rw [parsePublishTopic_eq]
  cases validatePublishTopic topic with
  | error reason => simp [Except.map]
  | ok _ => simp [Except.map, eq_comm]

/-- A filter is checked and then cut into patterns. -/
theorem parseSubscribeFilter_eq_ok_iff (filter : String) (path : List PathPattern) :
    parseSubscribeFilter filter = .ok path ↔
      validateSubscribeFilter filter = .ok () ∧ path = (segments filter).map segmentPattern := by
  rw [parseSubscribeFilter_eq]
  cases validateSubscribeFilter filter with
  | error reason => simp [Except.map]
  | ok _ => simp [Except.map, eq_comm]

/-- The parser and the validation of topic names succeed and fail alike. They accept the filters
whose patterns are literals, with the same patterns, and such a name matches no other topic. -/
theorem topic_names_are_plain_filters (topic : String) :
    (parsePublishTopic topic).map (fun _ ↦ ()) = validatePublishTopic topic ∧
    (∀ path, parsePublishTopic topic = .ok path ↔
      parseSubscribeFilter topic = .ok path ∧ ∀ pattern ∈ path, ∃ text, pattern = .literal text) ∧
    (validatePublishTopic topic = .ok () →
      ∀ other, filterMatches topic (segments other) = true ↔ other = topic) := by
  refine ⟨?_, fun path ↦ ?_, fun hvalid other ↦ ?_⟩
  · rw [parsePublishTopic_eq]
    cases validatePublishTopic topic <;> rfl
  · rw [parsePublishTopic_eq_ok_iff, parseSubscribeFilter_eq_ok_iff,
      validatePublishTopic_eq_ok_iff, validateSubscribeFilter_eq_ok_iff]
    constructor
    · rintro ⟨⟨hempty, hlength, hplain⟩, rfl⟩
      refine ⟨⟨⟨hempty, hlength, wildcardsAlone_of_plain hplain⟩, ?_⟩, ?_⟩
      · exact (map_segmentPattern_of_plain hplain).symm
      · rw [List.forall_mem_map]
        exact fun segment _ ↦ ⟨_, rfl⟩
    · rintro ⟨⟨⟨hempty, hlength, halone⟩, rfl⟩, hliterals⟩
      rw [List.forall_mem_map] at hliterals
      have hplain := plain_of_literal halone hliterals
      exact ⟨⟨hempty, hlength, hplain⟩, map_segmentPattern_of_plain hplain⟩
  · obtain ⟨-, -, hplain⟩ := (validatePublishTopic_eq_ok_iff topic).mp hvalid
    rw [filterMatches, matchSegments_of_plain hplain]
    exact ⟨segments_injective, congrArg segments⟩

/-- The topic `a/b`. -/
theorem topic_names_are_plain_filters_levels :
    parsePublishTopic "a/b" = .ok [.literal "a", .literal "b"] ∧
    parseSubscribeFilter "a/b" = .ok [.literal "a", .literal "b"] ∧
    ∀ other, filterMatches "a/b" (segments other) = true ↔ other = "a/b" := by
  have hparsed : parsePublishTopic "a/b" = .ok [.literal "a", .literal "b"] := by decide
  obtain ⟨-, hpaths, hmatches⟩ := topic_names_are_plain_filters "a/b"
  exact ⟨hparsed, ((hpaths _).mp hparsed).1, hmatches (by decide)⟩

end HotaruMqtt.Topic
