import Mathlib.Data.List.Basic

/-!
# Decoders over a body and a cursor

A decoder sees a whole body together with a cursor into it and returns a value with the moved
cursor. `Reads` says that a decoder recognises an encoding wherever it stands, `ReadsToEnd` that
it recognises an encoding which closes the body; both compose along `bind`, and so do `Within`,
which keeps the cursor inside the body, and `Takes`, which says that a decoder accepts nothing but
what a layout allows; `TakesAll` says so of a decoder that reads to the end of the body. The loop
`whileMore` runs a step while elements remain. Its fuel is the remaining length, and `whileMore_eq`
shows that a step which always advances never meets that bound: the unbounded loop ends with the
same outcome.
-/

namespace HotaruMqtt.Library

/-- A decoder either fails or returns a value together with the moved cursor. -/
structure Decoder (ε σ α : Type) where
  run : List σ → ℕ → Except ε (α × ℕ)

namespace Decoder

variable {ε σ α β : Type}

instance : Monad (Decoder ε σ) where
  pure value := ⟨fun _ cursor ↦ .ok (value, cursor)⟩
  bind decoder next := ⟨fun body cursor ↦
    match decoder.run body cursor with
    | .ok (value, moved) => (next value).run body moved
    | .error reason => .error reason⟩

/-- Stop with an error, wherever the cursor stands. -/
def raise (reason : ε) : Decoder ε σ α := ⟨fun _ _ ↦ .error reason⟩

/-- Bring the result of a computation which reads nothing into a decoder. -/
def lift (result : Except ε α) : Decoder ε σ α := ⟨fun _ cursor ↦ result.map (·, cursor)⟩

@[simp]
theorem run_pure (value : α) (body : List σ) (cursor : ℕ) :
    (pure value : Decoder ε σ α).run body cursor = .ok (value, cursor) := rfl

@[simp]
theorem lift_ok (value : α) : (lift (.ok value) : Decoder ε σ α) = pure value := rfl

@[simp]
theorem bind_of_pure (value : α) (next : α → Decoder ε σ β) :
    ((pure value : Decoder ε σ α) >>= next) = next value := rfl

theorem run_bind (decoder : Decoder ε σ α) (next : α → Decoder ε σ β) (body : List σ)
    (cursor : ℕ) : (decoder >>= next).run body cursor =
      match decoder.run body cursor with
      | .ok (value, moved) => (next value).run body moved
      | .error reason => .error reason := rfl

theorem run_bind_ok {decoder : Decoder ε σ α} {body : List σ} {cursor moved : ℕ} {value : α}
    (h : decoder.run body cursor = .ok (value, moved)) (next : α → Decoder ε σ β) :
    (decoder >>= next).run body cursor = (next value).run body moved := by
  rw [run_bind, h]

theorem run_bind_error {decoder : Decoder ε σ α} {body : List σ} {cursor : ℕ} {reason : ε}
    (h : decoder.run body cursor = .error reason) (next : α → Decoder ε σ β) :
    (decoder >>= next).run body cursor = .error reason := by
  rw [run_bind, h]

/-- A sequence that succeeds has a first part that does. -/
theorem exists_of_run_bind {decoder : Decoder ε σ α} {next : α → Decoder ε σ β} {body : List σ}
    {cursor last : ℕ} {result : β} (h : (decoder >>= next).run body cursor = .ok (result, last)) :
    ∃ value moved, decoder.run body cursor = .ok (value, moved) ∧
      (next value).run body moved = .ok (result, last) := by
  cases hfirst : decoder.run body cursor with
  | error reason =>
    rw [run_bind_error hfirst] at h
    cases h
  | ok pair =>
    obtain ⟨value, moved⟩ := pair
    rw [run_bind_ok hfirst] at h
    exact ⟨value, moved, rfl, h⟩

theorem eq_ok_of_run_lift {result : Except ε α} {body : List σ} {cursor moved : ℕ} {value : α}
    (h : (lift result).run body cursor = .ok (value, moved)) : result = .ok value := by
  cases result with
  | error reason => cases h
  | ok value' =>
    cases h
    rfl

/-- Wherever `encoded` stands at the cursor, the decoder returns `value` and steps over it. -/
def Reads (decoder : Decoder ε σ α) (encoded : List σ) (value : α) : Prop :=
  ∀ before after : List σ, decoder.run (before ++ (encoded ++ after)) before.length =
    .ok (value, before.length + encoded.length)

/-- As `Reads`, for an encoding which is the last thing in the body. -/
def ReadsToEnd (decoder : Decoder ε σ α) (encoded : List σ) (value : α) : Prop :=
  ∀ before : List σ, decoder.run (before ++ encoded) before.length =
    .ok (value, before.length + encoded.length)

theorem reads_pure (value : α) : Reads (pure value : Decoder ε σ α) [] value := by
  intro before after
  simp

/-- Encodings in a row are read by decoders in a row. -/
theorem Reads.bind {decoder : Decoder ε σ α} {next : α → Decoder ε σ β}
    {encoded encoded' : List σ} {value : α} {value' : β}
    (h : Reads decoder encoded value) (h' : Reads (next value) encoded' value') :
    Reads (decoder >>= next) (encoded ++ encoded') value' := by
  intro before after
  have hfirst := h before (encoded' ++ after)
  have hsecond := h' (before ++ encoded) after
  rw [List.length_append, List.append_assoc] at hsecond
  rw [List.append_assoc, run_bind_ok hfirst, hsecond, List.length_append, Nat.add_assoc]

/-- The last decoder may also depend on where the body ends. -/
theorem Reads.bindToEnd {decoder : Decoder ε σ α} {next : α → Decoder ε σ β}
    {encoded encoded' : List σ} {value : α} {value' : β}
    (h : Reads decoder encoded value) (h' : ReadsToEnd (next value) encoded' value') :
    ReadsToEnd (decoder >>= next) (encoded ++ encoded') value' := by
  intro before
  have hfirst := h before encoded'
  have hsecond := h' (before ++ encoded)
  rw [List.length_append, List.append_assoc] at hsecond
  rw [run_bind_ok hfirst, hsecond, List.length_append, Nat.add_assoc]

/-- A last step which reads nothing leaves the encoding as it is. -/
theorem Reads.map {decoder : Decoder ε σ α} {next : α → Decoder ε σ β} {encoded : List σ}
    {value : α} {value' : β} (h : Reads decoder encoded value)
    (h' : Reads (next value) [] value') : Reads (decoder >>= next) encoded value' := by
  simpa using h.bind h'

/-- What a decoder recognises at the beginning of a list is determined by the list. -/
theorem Reads.unique {decoder : Decoder ε σ α} {encoded encoded' after after' : List σ}
    {value value' : α} (h : Reads decoder encoded value) (h' : Reads decoder encoded' value')
    (heq : encoded ++ after = encoded' ++ after') :
    value = value' ∧ encoded = encoded' ∧ after = after' := by
  have hrun := h [] after
  have hrun' := h' [] after'
  simp only [List.nil_append, List.length_nil, Nat.zero_add] at hrun hrun'
  rw [heq, hrun', Except.ok.injEq, Prod.mk.injEq] at hrun
  exact ⟨hrun.1.symm, List.append_inj heq hrun.2.symm⟩

/-- Success moves the cursor forward by at least `least`. -/
def Moves (least : ℕ) (decoder : Decoder ε σ α) : Prop :=
  ∀ body cursor value moved,
    decoder.run body cursor = .ok (value, moved) → cursor + least ≤ moved

theorem moves_pure (value : α) : Moves 0 (pure value : Decoder ε σ α) := by
  intro body cursor _ moved h
  cases h
  exact Nat.le_refl _

theorem moves_raise (least : ℕ) (reason : ε) : Moves least (raise reason : Decoder ε σ α) := by
  intro body cursor value moved h
  cases h

theorem moves_lift (result : Except ε α) : Moves 0 (lift result : Decoder ε σ α) := by
  cases result with
  | ok value => exact moves_pure value
  | error reason => exact moves_raise 0 reason

theorem Moves.weaken {least least' : ℕ} {decoder : Decoder ε σ α} (h : Moves least decoder)
    (hle : least' ≤ least) : Moves least' decoder := by
  intro body cursor value moved hrun
  exact Nat.le_trans (Nat.add_le_add_left hle cursor) (h body cursor value moved hrun)

theorem Moves.ite {condition : Prop} [Decidable condition] {least : ℕ}
    {decoder decoder' : Decoder ε σ α} (h : Moves least decoder) (h' : Moves least decoder') :
    Moves least (if condition then decoder else decoder') := by
  split
  · exact h
  · exact h'

/-- What the first decoder moves is kept if the rest never moves back. -/
theorem Moves.bind {least : ℕ} {decoder : Decoder ε σ α} {next : α → Decoder ε σ β}
    (h : Moves least decoder) (h' : ∀ value, Moves 0 (next value)) :
    Moves least (decoder >>= next) := by
  intro body cursor value' last hrun
  obtain ⟨value, moved, hfirst, hsecond⟩ := exists_of_run_bind hrun
  have hmoved := h body cursor value moved hfirst
  have hlast := h' value body moved value' last hsecond
  omega

/-- The cursor lies inside the body, or the reason of the failure is a safe one. -/
def Lands (Safe : ε → Prop) (body : List σ) : Except ε (α × ℕ) → Prop
  | .ok (_, moved) => moved ≤ body.length
  | .error reason => Safe reason

/-- From a cursor inside the body the decoder ends inside the body, or fails for a safe reason. -/
def Within (Safe : ε → Prop) (decoder : Decoder ε σ α) : Prop :=
  ∀ body cursor, cursor ≤ body.length → Lands Safe body (decoder.run body cursor)

section Within

variable {Safe : ε → Prop}

theorem within_pure (value : α) : Within Safe (pure value : Decoder ε σ α) :=
  fun _ _ hcursor ↦ hcursor

theorem within_raise {reason : ε} (h : Safe reason) :
    Within Safe (raise reason : Decoder ε σ α) :=
  fun _ _ _ ↦ h

theorem within_lift {result : Except ε α} (h : ∀ reason, result = .error reason → Safe reason) :
    Within Safe (lift result : Decoder ε σ α) := by
  cases result with
  | ok value => exact within_pure value
  | error reason => exact within_raise (h reason rfl)

theorem Within.ite {condition : Prop} [Decidable condition] {decoder decoder' : Decoder ε σ α}
    (h : Within Safe decoder) (h' : Within Safe decoder') :
    Within Safe (if condition then decoder else decoder') := by
  split
  · exact h
  · exact h'

/-- Every value that the decoder returns has the property. -/
def Yields (Property : α → Prop) (decoder : Decoder ε σ α) : Prop :=
  ∀ body cursor value moved, decoder.run body cursor = .ok (value, moved) → Property value

/-- What follows needs to stay inside for the values that the decoder returns only. -/
theorem Within.bindYields {Property : α → Prop} {decoder : Decoder ε σ α}
    {next : α → Decoder ε σ β} (h : Within Safe decoder) (hyields : Yields Property decoder)
    (h' : ∀ value, Property value → Within Safe (next value)) :
    Within Safe (decoder >>= next) := by
  intro body cursor hcursor
  have hfirst := h body cursor hcursor
  cases hrun : decoder.run body cursor with
  | error reason =>
    rw [hrun] at hfirst
    rw [run_bind_error hrun]
    exact hfirst
  | ok pair =>
    obtain ⟨value, moved⟩ := pair
    rw [hrun] at hfirst
    rw [run_bind_ok hrun]
    exact h' value (hyields body cursor value moved hrun) body moved hfirst

/-- A sequence stays within the body if both parts do. -/
theorem Within.bind {decoder : Decoder ε σ α} {next : α → Decoder ε σ β}
    (h : Within Safe decoder) (h' : ∀ value, Within Safe (next value)) :
    Within Safe (decoder >>= next) :=
  h.bindYields (fun _ _ _ _ _ ↦ trivial) fun value _ ↦ h' value

end Within

/-! ## Accepting nothing else -/

/-- Success steps over elements that the layout allows for the returned value. -/
def Takes (decoder : Decoder ε σ α) (Layout : α → List σ → Prop) : Prop :=
  ∀ body cursor value moved, decoder.run body cursor = .ok (value, moved) →
    ∃ encoded, encoded <+: body.drop cursor ∧ moved = cursor + encoded.length ∧
      Layout value encoded

section Takes

variable {Layout : α → List σ → Prop}

theorem takes_pure {value : α} (h : Layout value []) :
    Takes (pure value : Decoder ε σ α) Layout := by
  intro body cursor value' moved hrun
  cases hrun
  exact ⟨[], List.nil_prefix, rfl, h⟩

theorem takes_raise (reason : ε) : Takes (raise reason : Decoder ε σ α) Layout := by
  intro body cursor value moved hrun
  cases hrun

theorem takes_lift {result : Except ε α} (h : ∀ value, result = .ok value → Layout value []) :
    Takes (lift result : Decoder ε σ α) Layout := by
  cases result with
  | ok value => exact takes_pure (h value rfl)
  | error reason => exact takes_raise reason

theorem Takes.ite {condition : Prop} [Decidable condition] {decoder decoder' : Decoder ε σ α}
    (h : condition → Takes decoder Layout) (h' : ¬ condition → Takes decoder' Layout) :
    Takes (if condition then decoder else decoder') Layout := by
  split
  · exact h ‹_›
  · exact h' ‹_›

/-- A check in front of the rest of the decoder may be assumed to have passed. -/
theorem Takes.require {Layout' : β → List σ → Prop} {result : Except ε α}
    {next : α → Decoder ε σ β}
    (h : ∀ value, result = .ok value → Takes (next value) Layout') :
    Takes (lift result >>= next) Layout' := by
  cases result with
  | ok value => exact h value rfl
  | error reason => exact takes_raise reason

/-- What a prefix of the remaining elements leaves is what remains behind it. -/
theorem drop_eq_append {body encoded : List σ} {cursor : ℕ} (h : encoded <+: body.drop cursor) :
    body.drop cursor = encoded ++ body.drop (cursor + encoded.length) := by
  obtain ⟨after, hafter⟩ := h
  rw [← List.drop_drop, ← hafter, List.drop_left]

/-- The rest of the decoder accounts for what stands behind the part already taken. -/
theorem Takes.bind {Layout' : β → List σ → Prop} {decoder : Decoder ε σ α}
    {next : α → Decoder ε σ β} (h : Takes decoder Layout)
    (h' : ∀ value encoded, Layout value encoded →
      Takes (next value) fun value' encoded' ↦ Layout' value' (encoded ++ encoded')) :
    Takes (decoder >>= next) Layout' := by
  intro body cursor value' last hrun
  obtain ⟨value, moved, hfirst, hsecond⟩ := exists_of_run_bind hrun
  obtain ⟨encoded, hprefix, rfl, hlayout⟩ := h body cursor value moved hfirst
  obtain ⟨encoded', hprefix', rfl, hlayout'⟩ :=
    h' value encoded hlayout body _ value' last hsecond
  refine ⟨encoded ++ encoded', ?_, ?_, hlayout'⟩
  · rw [drop_eq_append hprefix]
    exact (List.prefix_append_right_inj encoded).mpr hprefix'
  · rw [List.length_append, Nat.add_assoc]

theorem Takes.weaken {Layout' : α → List σ → Prop} {decoder : Decoder ε σ α}
    (h : Takes decoder Layout)
    (hle : ∀ value encoded, Layout value encoded → Layout' value encoded) :
    Takes decoder Layout' := by
  intro body cursor value moved hrun
  obtain ⟨encoded, hprefix, hmoved, hlayout⟩ := h body cursor value moved hrun
  exact ⟨encoded, hprefix, hmoved, hle value encoded hlayout⟩

/-- Success steps over all that remains, which the layout allows for the returned value. -/
def TakesAll (decoder : Decoder ε σ α) (Layout : α → List σ → Prop) : Prop :=
  ∀ body cursor value moved, decoder.run body cursor = .ok (value, moved) →
    Layout value (body.drop cursor)

/-- The last decoder of a sequence may take everything up to the end. -/
theorem Takes.bindAll {Layout' : β → List σ → Prop} {decoder : Decoder ε σ α}
    {next : α → Decoder ε σ β} (h : Takes decoder Layout)
    (h' : ∀ value encoded, Layout value encoded →
      TakesAll (next value) fun value' encoded' ↦ Layout' value' (encoded ++ encoded')) :
    TakesAll (decoder >>= next) Layout' := by
  intro body cursor value' last hrun
  obtain ⟨value, moved, hfirst, hsecond⟩ := exists_of_run_bind hrun
  obtain ⟨encoded, hprefix, rfl, hlayout⟩ := h body cursor value moved hfirst
  rw [drop_eq_append hprefix]
  exact h' value encoded hlayout body _ value' last hsecond

/-- Behind the end of the body a value can only be computed. -/
theorem TakesAll.bind {Layout' : β → List σ → Prop} {decoder : Decoder ε σ α}
    {next : α → Decoder ε σ β} (h : TakesAll decoder Layout)
    (h' : ∀ value encoded, Layout value encoded →
      Yields (fun value' ↦ Layout' value' encoded) (next value)) :
    TakesAll (decoder >>= next) Layout' := by
  intro body cursor value' last hrun
  obtain ⟨value, moved, hfirst, hsecond⟩ := exists_of_run_bind hrun
  exact h' value _ (h body cursor value moved hfirst) body moved value' last hsecond

/-- A decoder that recognises every word of a layout and takes nothing else succeeds exactly on the
words of the layout. -/
theorem Takes.run_eq_ok_iff {decoder : Decoder ε σ α} (h : Takes decoder Layout)
    (hreads : ∀ value encoded, Layout value encoded → Reads decoder encoded value) {body : List σ}
    {cursor : ℕ} (hcursor : cursor ≤ body.length) (value : α) (moved : ℕ) :
    decoder.run body cursor = .ok (value, moved) ↔
      ∃ encoded, encoded <+: body.drop cursor ∧ moved = cursor + encoded.length ∧
        Layout value encoded := by
  constructor
  · exact h body cursor value moved
  · rintro ⟨encoded, ⟨after, hafter⟩, rfl, hlayout⟩
    have hrun := hreads value encoded hlayout (body.take cursor) after
    rw [hafter, List.take_append_drop, List.length_take_of_le hcursor] at hrun
    exact hrun

/-- Such a decoder does not look behind what it takes. -/
theorem Takes.run_take {decoder : Decoder ε σ α} (h : Takes decoder Layout)
    (hreads : ∀ value encoded, Layout value encoded → Reads decoder encoded value) {body : List σ}
    {cursor moved : ℕ} (hcursor : cursor ≤ body.length) {value : α}
    (hrun : decoder.run body cursor = .ok (value, moved)) (after : List σ) :
    decoder.run (body.take moved ++ after) cursor = .ok (value, moved) := by
  obtain ⟨encoded, ⟨behind, hbehind⟩, rfl, hlayout⟩ := h body cursor value moved hrun
  have hread := hreads value encoded hlayout (body.take cursor) after
  have htake : body.take (cursor + encoded.length) = body.take cursor ++ encoded := by
    rw [List.take_add, ← hbehind, List.take_left]
  rw [List.length_take_of_le hcursor, ← List.append_assoc, ← htake] at hread
  exact hread

end Takes

/-! ## Running a step while elements remain -/

/-- The loop with an explicit bound on its rounds. -/
def loop (step : α → Decoder ε σ α) : ℕ → α → Decoder ε σ α
  | 0, state => pure state
  | fuel + 1, state => ⟨fun body cursor ↦
      if cursor < body.length then (step state >>= loop step fuel).run body cursor
      else .ok (state, cursor)⟩

/-- `while cursor < body.len()`, with one round of fuel for every remaining element. -/
def whileMore (step : α → Decoder ε σ α) (state : α) : Decoder ε σ α :=
  ⟨fun body cursor ↦ (loop step (body.length - cursor) state).run body cursor⟩

def Advances (step : α → Decoder ε σ α) : Prop :=
  ∀ state body cursor state' moved,
    (step state).run body cursor = .ok (state', moved) → cursor < moved

theorem Advances.of_moves {step : α → Decoder ε σ α} (h : ∀ state, Moves 1 (step state)) :
    Advances step :=
  fun state body cursor state' moved hrun ↦ h state body cursor state' moved hrun

/-- Fuel beyond the remaining length is never used. -/
theorem loop_fuel {step : α → Decoder ε σ α} (hstep : Advances step) (fuel fuel' : ℕ) (state : α)
    (body : List σ) (cursor : ℕ) (h : body.length - cursor ≤ fuel)
    (h' : body.length - cursor ≤ fuel') :
    (loop step fuel state).run body cursor = (loop step fuel' state).run body cursor := by
  induction fuel generalizing fuel' state cursor with
  | zero =>
    have hend : ¬ cursor < body.length := by omega
    cases fuel' with
    | zero => rfl
    | succ fuel' => simp [loop, hend]
  | succ fuel ih =>
    by_cases hmore : cursor < body.length
    · obtain ⟨fuel', rfl⟩ : ∃ n, fuel' = n + 1 := ⟨fuel' - 1, by omega⟩
      simp only [loop, if_pos hmore]
      cases hround : (step state).run body cursor with
      | error reason => rw [run_bind_error hround, run_bind_error hround]
      | ok pair =>
        obtain ⟨state', moved⟩ := pair
        have hmoved := hstep state body cursor state' moved hround
        rw [run_bind_ok hround, run_bind_ok hround]
        exact ih fuel' state' moved (by omega) (by omega)
    · cases fuel' with
      | zero => simp [loop, hmore]
      | succ fuel' => simp [loop, hmore]

/-- A loop whose rounds advance satisfies the equation of an unbounded `while`. -/
theorem whileMore_eq {step : α → Decoder ε σ α} (hstep : Advances step) (state : α)
    (body : List σ) (cursor : ℕ) :
    (whileMore step state).run body cursor =
      if cursor < body.length then (step state >>= whileMore step).run body cursor
      else .ok (state, cursor) := by
  by_cases hmore : cursor < body.length
  · obtain ⟨fuel, hfuel⟩ : ∃ n, body.length - cursor = n + 1 :=
      ⟨body.length - cursor - 1, by omega⟩
    rw [if_pos hmore]
    simp only [whileMore, hfuel, loop, if_pos hmore]
    cases hround : (step state).run body cursor with
    | error reason => rw [run_bind_error hround, run_bind_error hround]
    | ok pair =>
      obtain ⟨state', moved⟩ := pair
      have hmoved := hstep state body cursor state' moved hround
      rw [run_bind_ok hround, run_bind_ok hround]
      exact loop_fuel hstep _ _ _ _ _ (by omega) (Nat.le_refl _)
  · rw [if_neg hmore]
    simp only [whileMore, Nat.sub_eq_zero_of_le (Nat.le_of_not_lt hmore), loop, run_pure]

theorem Within.loop {Safe : ε → Prop} {step : α → Decoder ε σ α}
    (h : ∀ state, Within Safe (step state)) (fuel : ℕ) (state : α) :
    Within Safe (loop step fuel state) := by
  induction fuel generalizing state with
  | zero => exact within_pure state
  | succ fuel ih =>
    intro body cursor hcursor
    simp only [Decoder.loop]
    split
    · exact (h state).bind ih body cursor hcursor
    · exact hcursor

/-- A loop stays within the body if its step does. -/
theorem Within.whileMore {Safe : ε → Prop} {step : α → Decoder ε σ α}
    (h : ∀ state, Within Safe (step state)) (state : α) : Within Safe (whileMore step state) :=
  fun body cursor hcursor ↦ Within.loop h _ state body cursor hcursor

/-- The unbounded `while cursor < body.len()` ends with the given outcome after finitely many
rounds. -/
inductive WhileEnds (step : α → Decoder ε σ α) (body : List σ) :
    α → ℕ → Except ε (α × ℕ) → Prop where
  | done {state : α} {cursor : ℕ} (h : ¬ cursor < body.length) :
      WhileEnds step body state cursor (.ok (state, cursor))
  | fails {state : α} {cursor : ℕ} {reason : ε} (h : cursor < body.length)
      (hround : (step state).run body cursor = .error reason) :
      WhileEnds step body state cursor (.error reason)
  | more {state state' : α} {cursor moved : ℕ} {outcome : Except ε (α × ℕ)}
      (h : cursor < body.length) (hround : (step state).run body cursor = .ok (state', moved))
      (hrest : WhileEnds step body state' moved outcome) :
      WhileEnds step body state cursor outcome

/-- A loop whose rounds advance ends. -/
theorem whileEnds_whileMore {step : α → Decoder ε σ α} (hstep : Advances step) (body : List σ)
    (state : α) (cursor : ℕ) :
    WhileEnds step body state cursor ((whileMore step state).run body cursor) := by
  induction hfuel : body.length - cursor using Nat.strongRecOn generalizing state cursor with
  | _ fuel ih =>
    rw [whileMore_eq hstep]
    split
    · rename_i hmore
      cases hround : (step state).run body cursor with
      | error reason =>
        rw [run_bind_error hround]
        exact .fails hmore hround
      | ok pair =>
        obtain ⟨state', moved⟩ := pair
        have hmoved := hstep state body cursor state' moved hround
        rw [run_bind_ok hround]
        exact .more hmore hround (ih (body.length - moved) (by omega) state' moved rfl)
    · rename_i hend
      exact .done hend

/-- A relation between the state and the elements taken so far which every round keeps holds
between the result of the loop and all that remained. -/
theorem takesAll_whileMore {step : α → Decoder ε σ α} (hadvances : Advances step)
    (Layout : α → List σ → Prop)
    (hstep : ∀ state encoded, Layout state encoded →
      Takes (step state) fun state' encoded' ↦ Layout state' (encoded ++ encoded'))
    {state : α} (hstart : Layout state []) : TakesAll (whileMore step state) Layout := by
  intro body cursor state' moved hrun
  have hends := whileEnds_whileMore hadvances body state cursor
  rw [hrun] at hends
  suffices ∀ taken, Layout state taken → Layout state' (taken ++ body.drop cursor) by
    exact this [] hstart
  clear hstart hrun
  generalize houtcome : Except.ok (state', moved) = outcome at hends
  induction hends with
  | done hend =>
    intro taken htaken
    cases houtcome
    rw [List.drop_eq_nil_of_le (Nat.le_of_not_lt hend), List.append_nil]
    exact htaken
  | fails => cases houtcome
  | more hmore hround hrest ih =>
    intro taken htaken
    obtain ⟨encoded, hprefix, rfl, hlayout⟩ := hstep _ _ htaken _ _ _ _ hround
    rw [drop_eq_append hprefix, ← List.append_assoc]
    exact ih houtcome _ hlayout

/-- The loop consumes `encoded` up to the end of the body, with any sufficient fuel. -/
def LoopReads (step : α → Decoder ε σ α) (state : α) (encoded : List σ) (result : α) : Prop :=
  ∀ fuel, encoded.length ≤ fuel → ReadsToEnd (loop step fuel state) encoded result

theorem loopReads_nil (step : α → Decoder ε σ α) (state : α) : LoopReads step state [] state := by
  intro fuel _ before
  cases fuel with
  | zero => simp [loop]
  | succ fuel => simp [loop]

/-- One round of the loop and then the others. -/
theorem LoopReads.cons {step : α → Decoder ε σ α} {state state' result : α}
    {encoded encoded' : List σ} (hpos : encoded ≠ []) (h : Reads (step state) encoded state')
    (h' : LoopReads step state' encoded' result) :
    LoopReads step state (encoded ++ encoded') result := by
  intro fuel hfuel before
  have hlength : 0 < encoded.length := List.length_pos_of_ne_nil hpos
  rw [List.length_append] at hfuel
  obtain ⟨fuel, rfl⟩ : ∃ n, fuel = n + 1 := ⟨fuel - 1, by omega⟩
  have hmore : before.length < (before ++ (encoded ++ encoded')).length := by
    simp only [List.length_append]
    omega
  simp only [loop, if_pos hmore]
  exact h.bindToEnd (h' fuel (by omega)) before

/-- A loop over encodings that fill the rest of the body reads it to its end. -/
theorem LoopReads.whileMore {step : α → Decoder ε σ α} {state result : α} {encoded : List σ}
    (h : LoopReads step state encoded result) :
    ReadsToEnd (whileMore step state) encoded result := by
  intro before
  simp only [Decoder.whileMore, List.length_append, Nat.add_sub_cancel_left]
  simpa only [List.length_append] using h encoded.length (Nat.le_refl _) before

end Decoder

end HotaruMqtt.Library
