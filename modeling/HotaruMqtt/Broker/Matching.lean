import HotaruMqtt.Broker.Store
import HotaruMqtt.Wire.TopicSyntax

/-!
# Which topics a filter matches

The loop of the broker works on the segments of a filter. The relation it is compared with works on
the patterns that `parse_subscribe_filter` makes of the same filter. A wildcard in the first segment
is treated like one in any other, so it also matches topics that start with `$`.
-/

namespace HotaruMqtt.Topic

/-- What a list of patterns stands for: a literal is one level, `any` any one level, and `anyPath`
at the end any levels that are left. -/
inductive MatchesLevels : List PathPattern → List (List Char) → Prop
  | nil : MatchesLevels [] []
  | literal {patterns levels} (segment : String) (rest : MatchesLevels patterns levels) :
      MatchesLevels (.literal segment :: patterns) (segment.toList :: levels)
  | any {patterns levels} (level : List Char) (rest : MatchesLevels patterns levels) :
      MatchesLevels (.any :: patterns) (level :: levels)
  | anyPath (levels : List (List Char)) : MatchesLevels [.anyPath] levels

@[simp]
theorem matchesLevels_nil_iff {levels : List (List Char)} :
    MatchesLevels [] levels ↔ levels = [] := by
  constructor
  · intro h
    cases h
    rfl
  · rintro rfl
    exact .nil

@[simp]
theorem matchesLevels_any_iff {patterns : List PathPattern} {levels : List (List Char)} :
    MatchesLevels (.any :: patterns) levels ↔
      ∃ level rest, levels = level :: rest ∧ MatchesLevels patterns rest := by
  constructor
  · intro h
    cases h with
    | any level rest => exact ⟨_, _, rfl, rest⟩
  · rintro ⟨level, rest, rfl, h⟩
    exact .any level h

@[simp]
theorem matchesLevels_literal_iff {segment : String} {patterns : List PathPattern}
    {levels : List (List Char)} :
    MatchesLevels (.literal segment :: patterns) levels ↔
      ∃ rest, levels = segment.toList :: rest ∧ MatchesLevels patterns rest := by
  constructor
  · intro h
    cases h with
    | literal segment rest => exact ⟨_, rfl, rest⟩
  · rintro ⟨rest, rfl, h⟩
    exact .literal segment h

/-- `#` matches whatever is left. -/
@[simp]
theorem matchSegments_hash (rest topicSegs : List (List Char)) :
    matchSegments (['#'] :: rest) topicSegs = true := by
  unfold matchSegments
  rw [if_pos rfl]

/-- One round of the matching loop. -/
theorem matchSegments_cons_iff {segment : List Char} (h : segment ≠ ['#'])
    {rest topicSegs : List (List Char)} :
    matchSegments (segment :: rest) topicSegs = true ↔
      ∃ level levels, topicSegs = level :: levels ∧ (segment = ['+'] ∨ segment = level) ∧
        matchSegments rest levels = true := by
  rw [matchSegments.eq_def]
  dsimp only
  rw [if_neg h]
  cases topicSegs with
  | nil => simp
  | cons level levels =>
    by_cases hplus : segment = ['+']
    · simp [hplus]
    by_cases hlevel : segment = level
    · simp [hlevel]
    · simp [hplus, hlevel]

/-- The loop decides the relation on the patterns of the segments. -/
theorem matchSegments_iff_matchesLevels {filterSegs : List (List Char)}
    (h : WildcardsAlone filterSegs) (topicSegs : List (List Char)) :
    matchSegments filterSegs topicSegs = true ↔
      MatchesLevels (filterSegs.map segmentPattern) topicSegs := by
  induction filterSegs generalizing topicSegs with
  | nil => simp [matchSegments]
  | cons segment rest ih =>
    obtain ⟨hlast, -, hrest⟩ := h
    rw [List.map_cons, segmentPattern]
    by_cases hplus : segment = ['+']
    · have hhash : segment ≠ ['#'] := by
        rw [hplus]
        decide
      rw [if_pos hplus, matchSegments_cons_iff hhash, matchesLevels_any_iff]
      simp only [hplus, true_or, true_and, ih hrest]
    by_cases hhash : segment = ['#']
    · rw [if_neg hplus, if_pos hhash, hlast hhash, hhash]
      exact iff_of_true (matchSegments_hash _ _) (.anyPath _)
    · rw [if_neg hplus, if_neg hhash, matchSegments_cons_iff hhash, matchesLevels_literal_iff,
        String.toList_ofList]
      simp only [hplus, false_or, ih hrest]
      constructor
      · rintro ⟨_, levels, rfl, rfl, h⟩
        exact ⟨levels, rfl, h⟩
      · rintro ⟨levels, rfl, h⟩
        exact ⟨segment, levels, rfl, rfl, h⟩

/-- Every segment that is not `+` is equal to the level in its place, if there is one. -/
def AgreesWith (filterSegs topicSegs : List (List Char)) : Prop :=
  ∀ (i : ℕ) segment level, filterSegs[i]? = some segment → topicSegs[i]? = some level →
    segment = ['+'] ∨ segment = level

theorem agreesWith_cons_iff {segment level : List Char} {filterSegs topicSegs : List (List Char)} :
    AgreesWith (segment :: filterSegs) (level :: topicSegs) ↔
      (segment = ['+'] ∨ segment = level) ∧ AgreesWith filterSegs topicSegs := by
  constructor
  · intro h
    exact ⟨h 0 _ _ rfl rfl, fun i ↦ h (i + 1)⟩
  · rintro ⟨hfirst, hrest⟩ i segment' level' hsegment hlevel
    cases i with
    | zero =>
      obtain rfl := Option.some.inj hsegment
      obtain rfl := Option.some.inj hlevel
      exact hfirst
    | succ i => exact hrest i segment' level' hsegment hlevel

/-- The loop passes segments without `#` exactly if there is a level for each and they agree. -/
theorem matchSegments_append_iff {before : List (List Char)} (h : ['#'] ∉ before)
    (filterSegs topicSegs : List (List Char)) :
    matchSegments (before ++ filterSegs) topicSegs = true ↔
      before.length ≤ topicSegs.length ∧ AgreesWith before topicSegs ∧
        matchSegments filterSegs (topicSegs.drop before.length) = true := by
  induction before generalizing topicSegs with
  | nil => simp [AgreesWith]
  | cons segment before ih =>
    rw [List.mem_cons, not_or] at h
    rw [List.cons_append, matchSegments_cons_iff (Ne.symm h.1)]
    cases topicSegs with
    | nil => simp
    | cons level topicSegs =>
      rw [agreesWith_cons_iff]
      simp only [List.cons.injEq, ih h.2, List.length_cons, List.drop_succ_cons,
        Nat.add_le_add_iff_right]
      constructor
      · rintro ⟨_, _, ⟨rfl, rfl⟩, hfirst, hlength, hagrees, hmatch⟩
        exact ⟨hlength, ⟨hfirst, hagrees⟩, hmatch⟩
      · rintro ⟨hlength, ⟨hfirst, hagrees⟩, hmatch⟩
        exact ⟨level, topicSegs, ⟨rfl, rfl⟩, hfirst, hlength, hagrees, hmatch⟩

/-- A segment of an accepted filter with a wildcard in it is the wildcard. -/
theorem WildcardsAlone.eq_singleton {filterSegs : List (List Char)} (h : WildcardsAlone filterSegs)
    {segment : List Char} (hmem : segment ∈ filterSegs) (hwildcard : hasWildcard segment = true) :
    segment = ['+'] ∨ segment = ['#'] := by
  induction filterSegs with
  | nil => cases hmem
  | cons first rest ih =>
    obtain ⟨-, hfirst, hrest⟩ := h
    rcases List.mem_cons.mp hmem with rfl | hmem
    · rw [hwildcard] at hfirst
      simpa using hfirst
    · exact ih hrest hmem

/-- The wildcard for all levels stands behind segments without it. -/
theorem WildcardsAlone.exists_before {filterSegs : List (List Char)} (h : WildcardsAlone filterSegs)
    (hmem : ['#'] ∈ filterSegs) : ∃ before, filterSegs = before ++ [['#']] ∧ ['#'] ∉ before := by
  induction filterSegs with
  | nil => cases hmem
  | cons first rest ih =>
    obtain ⟨hlast, -, hrest⟩ := h
    by_cases hfirst : first = ['#']
    · exact ⟨[], by rw [hfirst, hlast hfirst]; rfl, List.not_mem_nil⟩
    · have hmem : ['#'] ∈ rest := (List.mem_cons.mp hmem).resolve_left (Ne.symm hfirst)
      obtain ⟨before, rfl, hbefore⟩ := ih hrest hmem
      refine ⟨first :: before, rfl, ?_⟩
      rw [List.mem_cons, not_or]
      exact ⟨Ne.symm hfirst, hbefore⟩

theorem notMem_segments {c : Char} (h : c ≠ '/') {topic : String} (hmem : c ∉ topic.toList) :
    [c] ∉ segments topic := by
  intro hsegment
  exact hmem ((mem_toList_iff_segments h topic).mpr ⟨[c], hsegment, List.mem_singleton_self c⟩)

/-- In an accepted filter `#` fills a segment. -/
theorem mem_segments_of_accepted {filter : String} (h : WildcardsAlone (segments filter))
    (hmem : '#' ∈ filter.toList) : ['#'] ∈ segments filter := by
  obtain ⟨segment, hsegment, hchar⟩ := (mem_toList_iff_segments (by decide) filter).mp hmem
  have hwildcard : hasWildcard segment = true := by
    simp [hasWildcard, hchar]
  rcases h.eq_singleton hsegment hwildcard with rfl | rfl
  · exact absurd hchar (by decide)
  · exact hsegment

/-- Without `#` a filter matches the topics of its length that agree level by level. -/
theorem matchSegments_iff_agreesWith {filterSegs : List (List Char)} (h : ['#'] ∉ filterSegs)
    (topicSegs : List (List Char)) :
    matchSegments filterSegs topicSegs = true ↔
      filterSegs.length = topicSegs.length ∧ AgreesWith filterSegs topicSegs := by
  have hend : matchSegments [] (topicSegs.drop filterSegs.length) = true ↔
      topicSegs.length ≤ filterSegs.length := by
    rw [matchSegments, List.isEmpty_iff, List.drop_eq_nil_iff]
  rw [← List.append_nil filterSegs, matchSegments_append_iff h, List.append_nil, hend]
  constructor
  · rintro ⟨hle, hagrees, hge⟩
    exact ⟨Nat.le_antisymm hle hge, hagrees⟩
  · rintro ⟨hlength, hagrees⟩
    exact ⟨hlength.le, hagrees, hlength.ge⟩

/-- Segments without a wildcard agree with no levels but themselves. -/
theorem agreesWith_iff_eq {filterSegs topicSegs : List (List Char)} (h : ['+'] ∉ filterSegs)
    (hlength : filterSegs.length = topicSegs.length) :
    AgreesWith filterSegs topicSegs ↔ filterSegs = topicSegs := by
  constructor
  · intro hagrees
    refine List.ext_getElem hlength fun i hi hi' ↦ ?_
    have hcase := hagrees i _ _ (List.getElem?_eq_getElem hi) (List.getElem?_eq_getElem hi')
    refine hcase.resolve_left fun hplus ↦ h ?_
    rw [← hplus]
    exact List.getElem_mem hi
  · rintro rfl i segment level hsegment hlevel
    exact .inr (Option.some.inj (hsegment.symm.trans hlevel))

/-- The broker matches a topic with an accepted filter as the patterns of the filter do, which is to
say level by level. -/
theorem filterMatches_iff {filter : String} (h : validateSubscribeFilter filter = .ok ())
    (topic : String) :
    ∃ patterns, parseSubscribeFilter filter = .ok patterns ∧
      (filterMatches filter (segments topic) = true ↔ MatchesLevels patterns (segments topic)) ∧
      ('#' ∉ filter.toList → (filterMatches filter (segments topic) = true ↔
        (segments filter).length = (segments topic).length ∧
          AgreesWith (segments filter) (segments topic))) ∧
      ('#' ∈ filter.toList → ∃ before, segments filter = before ++ [['#']] ∧
        (filterMatches filter (segments topic) = true ↔
          before.length ≤ (segments topic).length ∧ AgreesWith before (segments topic))) ∧
      ('+' ∉ filter.toList → '#' ∉ filter.toList →
        (filterMatches filter (segments topic) = true ↔ topic = filter)) := by
  obtain ⟨halone, hparse⟩ := accepted_of_validate h
  have hlevels (hhash : '#' ∉ filter.toList) :=
    matchSegments_iff_agreesWith (notMem_segments (by decide) hhash) (segments topic)
  refine ⟨_, hparse, matchSegments_iff_matchesLevels halone _, hlevels, ?_, ?_⟩
  · intro hhash
    obtain ⟨before, hsegments, hbefore⟩ :=
      halone.exists_before (mem_segments_of_accepted halone hhash)
    refine ⟨before, hsegments, ?_⟩
    rw [filterMatches, hsegments, matchSegments_append_iff hbefore, matchSegments_hash,
      and_iff_left rfl]
  · intro hplus hhash
    rw [filterMatches, hlevels hhash]
    constructor
    · rintro ⟨hlength, hagrees⟩
      exact segments_injective
        ((agreesWith_iff_eq (notMem_segments (by decide) hplus) hlength).mp hagrees).symm
    · rintro rfl
      exact ⟨rfl, (agreesWith_iff_eq (notMem_segments (by decide) hplus) rfl).mpr rfl⟩

/-- The wildcard for all levels also stands for none, and the one for a level for an empty one. -/
theorem filterMatches_iff_parent :
    filterMatches "a/+/#" (segments "a/") = true := by
  have hvalid : validateSubscribeFilter "a/+/#" = .ok () := by decide
  have hpatterns : parseSubscribeFilter "a/+/#" = .ok [.literal "a", .any, .anyPath] := by decide
  have hlevels : segments "a/" = ["a".toList, []] := by decide
  obtain ⟨patterns, hparse, hmatch, -⟩ := filterMatches_iff hvalid "a/"
  obtain rfl := Except.ok.inj (hpatterns.symm.trans hparse)
  rw [hmatch, hlevels]
  exact .literal "a" (.any [] (.anyPath []))

def StartsWithWildcard (filter : String) : Prop :=
  (segments filter).head? = some ['+'] ∨ (segments filter).head? = some ['#']

/-- The `$` of a topic stands in its first level. -/
theorem head_segments_of_dollar {topic : String} (h : topic.toList.head? = some '$') :
    ∃ level levels, segments topic = ('$' :: level) :: levels := by
  obtain ⟨rest, hrest⟩ := List.head?_eq_some_iff.mp h
  obtain ⟨level, levels, hsegments⟩ := List.exists_cons_of_ne_nil (List.splitOn_ne_nil '/' rest)
  refine ⟨level, levels, ?_⟩
  rw [segments, hrest, List.splitOn_cons_eq_if_modifyHead, hsegments]
  rfl

/-- Agreement on the levels and on their number, for any segments: without a `#` there is one level
for each segment, and otherwise one for each segment in front of the first `#`. -/
def AgreesOnLevels (filterSegs topicSegs : List (List Char)) : Prop :=
  (['#'] ∉ filterSegs ∧ filterSegs.length = topicSegs.length ∧ AgreesWith filterSegs topicSegs) ∨
    ∃ before behind, filterSegs = before ++ ['#'] :: behind ∧ ['#'] ∉ before ∧
      before.length ≤ topicSegs.length ∧ AgreesWith before topicSegs

/-- The loop decides the agreement, also for filters that are not accepted. -/
theorem matchSegments_iff_agreesOnLevels (filterSegs topicSegs : List (List Char)) :
    matchSegments filterSegs topicSegs = true ↔ AgreesOnLevels filterSegs topicSegs := by
  by_cases hhash : ['#'] ∈ filterSegs
  · constructor
    · intro hmatch
      obtain ⟨before, behind, rfl, hbefore⟩ := List.eq_append_cons_of_mem hhash
      obtain ⟨hlength, hagrees, -⟩ := (matchSegments_append_iff hbefore _ _).mp hmatch
      exact .inr ⟨before, behind, rfl, hbefore, hlength, hagrees⟩
    · rintro (⟨hnot, -⟩ | ⟨before, behind, rfl, hbefore, hlength, hagrees⟩)
      · exact absurd hhash hnot
      · exact (matchSegments_append_iff hbefore _ _).mpr
          ⟨hlength, hagrees, matchSegments_hash _ _⟩
  · rw [matchSegments_iff_agreesWith hhash]
    constructor
    · intro hagrees
      exact .inl ⟨hhash, hagrees⟩
    · rintro (⟨-, hagrees⟩ | ⟨before, behind, rfl, -⟩)
      · exact hagrees
      · exact absurd (List.mem_append_right before List.mem_cons_self) hhash

/-- A filter does not match exactly if the levels do not agree. -/
theorem filterMatches_eq_false_iff (filter topic : String) :
    filterMatches filter (segments topic) = false ↔
      ¬ AgreesOnLevels (segments filter) (segments topic) := by
  rw [filterMatches, ← Bool.not_eq_true, matchSegments_iff_agreesOnLevels]

/-- A wildcard in the first level agrees with whatever the first level of the topic is. -/
theorem agreesOnLevels_iff_of_startsWithWildcard {filter : String}
    (h : StartsWithWildcard filter) (topic : String) :
    AgreesOnLevels (segments filter) (segments topic) ↔
      ((segments filter).head? = some ['+'] →
        AgreesOnLevels (segments filter).tail (segments topic).tail) := by
  obtain ⟨first, rest, hfilter⟩ := List.exists_cons_of_ne_nil (segments_ne_nil filter)
  obtain ⟨level, levels, htopic⟩ := List.exists_cons_of_ne_nil (segments_ne_nil topic)
  unfold StartsWithWildcard at h
  rw [hfilter, List.head?_cons] at h
  rw [hfilter, htopic, ← matchSegments_iff_agreesOnLevels, ← matchSegments_iff_agreesOnLevels]
  rcases h with hplus | hhash
  · obtain rfl := Option.some.inj hplus
    constructor
    · intro hmatch _
      exact hmatch
    · intro hmatch
      exact hmatch rfl
  · obtain rfl := Option.some.inj hhash
    simp

/-- A filter that starts with a literal level only matches topics that start with it. -/
theorem head_eq_of_filterMatches {filter topic : String} (hwildcard : ¬ StartsWithWildcard filter)
    (h : filterMatches filter (segments topic) = true) :
    (segments filter).head? = (segments topic).head? := by
  obtain ⟨first, rest, hfilter⟩ := List.exists_cons_of_ne_nil (segments_ne_nil filter)
  unfold StartsWithWildcard at hwildcard
  unfold filterMatches at h
  rw [hfilter, List.head?_cons, Option.some.injEq, Option.some.injEq, not_or] at hwildcard
  rw [hfilter, matchSegments_cons_iff hwildcard.2] at h
  obtain ⟨level, levels, htopic, hlevel, -⟩ := h
  rw [hfilter, htopic, List.head?_cons, List.head?_cons, hlevel.resolve_left hwildcard.1]

/-- A wildcard in the first level does not see a topic that starts with `$` exactly if it is `+` and
the other levels disagree. A lookup finds only subscriptions with the first level of the topic
exactly if none with a wildcard there agrees with the topic. -/
theorem dollar_topics_hidden_iff {topic : String} (h : topic.toList.head? = some '$') :
    (∀ filter, StartsWithWildcard filter →
      (filterMatches filter (segments topic) = false ↔
        (segments filter).head? = some ['+'] ∧
          ¬ AgreesOnLevels (segments filter).tail (segments topic).tail)) ∧
    ∀ tree : SubscriptionTree,
      tree.matching topic = Library.Index.select tree (fun filter ↦
        filterMatches filter (segments topic) &&
          (segments filter).head? = (segments topic).head?) ↔
      ∀ filter client qos, Library.Index.get tree filter client = some qos →
        StartsWithWildcard filter → ¬ AgreesOnLevels (segments filter) (segments topic) := by
  constructor
  · intro filter hwildcard
    rw [filterMatches_eq_false_iff, agreesOnLevels_iff_of_startsWithWildcard hwildcard,
      Classical.not_imp]
  intro tree
  rw [SubscriptionTree.matching, Library.Index.select_eq_select_and_iff]
  constructor
  · intro hsame filter client qos hget hwildcard hagrees
    have hmatch := (matchSegments_iff_agreesOnLevels _ _).mpr hagrees
    have hhead := of_decide_eq_true (hsame filter client qos hget hmatch)
    obtain ⟨level, levels, htopic⟩ := head_segments_of_dollar h
    rw [StartsWithWildcard, hhead, htopic] at hwildcard
    simp at hwildcard
  · intro hhidden filter client qos hget hmatch
    have hagrees := (matchSegments_iff_agreesOnLevels _ _).mp hmatch
    have hwildcard : ¬ StartsWithWildcard filter := fun hwildcard ↦
      hhidden filter client qos hget hwildcard hagrees
    exact decide_eq_true (head_eq_of_filterMatches hwildcard hmatch)

/-- Both wildcards see a topic that starts with `$`. -/
theorem wildcards_see_dollar_topics :
    validateSubscribeFilter "#" = .ok () ∧ filterMatches "#" (segments "$SYS/x") = true ∧
      validateSubscribeFilter "+/x" = .ok () ∧ filterMatches "+/x" (segments "$SYS/x") = true ∧
      (SubscriptionTree.subscribe ∅ "a" "#" .atMostOnce).matching "$SYS/x" =
        {("a", .atMostOnce)} := by
  decide

/-- A filter that is longer than the topic. -/
theorem dollar_topics_hidden_iff_shorter :
    validateSubscribeFilter "+/x" = .ok () ∧ filterMatches "+/x" (segments "$SYS") = false := by
  have hlevels : ¬ AgreesOnLevels (segments "+/x").tail (segments "$SYS").tail := by
    rw [← matchSegments_iff_agreesOnLevels]
    decide
  exact ⟨by decide, ((dollar_topics_hidden_iff (by decide)).1 "+/x" (.inl (by decide))).mpr
    ⟨by decide, hlevels⟩⟩

end HotaruMqtt.Topic
