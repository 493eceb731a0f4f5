import Mathlib.Data.List.Basic

/-!
# Incremental decoding of a stream

A decoder works on a buffer. It may ask for more input, fail, or take an item off the front.
`drain` repeats it until it asks for more or fails. A decoder whose decisions do not depend on
later input yields the same items, the same failure and the same rest however the stream is cut
into chunks.
-/

namespace HotaruMqtt.Library.Incremental

variable {ε σ π : Type}

/-- One decoding attempt, and the buffer it leaves. -/
abbrev Attempt (ε σ π : Type) := List σ → Except ε (Option π) × List σ

/-- What repeated decoding yields: items, the failure that ended it if any, and the rest. -/
structure Drained (ε σ π : Type) where
  items : List π
  fault : Option ε
  rest : List σ

/-- Decode until the decoder asks for more or fails, at most `fuel` times. -/
def drainFor (decode : Attempt ε σ π) : ℕ → List σ → Drained ε σ π
  | 0, buffer => ⟨[], none, buffer⟩
  | fuel + 1, buffer =>
      match decode buffer with
      | (.ok none, rest) => ⟨[], none, rest⟩
      | (.error fault, rest) => ⟨[], some fault, rest⟩
      | (.ok (some item), rest) =>
          let later := drainFor decode fuel rest
          { later with items := item :: later.items }

/-- Every item takes at least one element, so the length of the buffer bounds the attempts. -/
def drain (decode : Attempt ε σ π) (buffer : List σ) : Drained ε σ π :=
  drainFor decode (buffer.length + 1) buffer

/-- Append a chunk and go on decoding, unless decoding has failed before. -/
def feed (decode : Attempt ε σ π) (state : Drained ε σ π) (chunk : List σ) : Drained ε σ π :=
  match state.fault with
  | some _ => { state with rest := state.rest ++ chunk }
  | none =>
      let later := drain decode (state.rest ++ chunk)
      { later with items := state.items ++ later.items }

def feedAll (decode : Attempt ε σ π) (chunks : List (List σ)) : Drained ε σ π :=
  chunks.foldl (feed decode) ⟨[], none, []⟩

/-- A decoder that waits without consuming, decides for good, and takes something off the buffer
with every item. -/
structure Settled (decode : Attempt ε σ π) : Prop where
  waits : ∀ buffer, (decode buffer).1 = .ok none → (decode buffer).2 = buffer
  stable : ∀ buffer more, (decode buffer).1 ≠ .ok none →
    decode (buffer ++ more) = ((decode buffer).1, (decode buffer).2 ++ more)
  shrinks : ∀ buffer item, (decode buffer).1 = .ok (some item) →
    (decode buffer).2.length < buffer.length
  empty : (decode []).1 = .ok none

variable {decode : Attempt ε σ π}

/-- Any fuel above the length of the buffer drains it. -/
theorem drainFor_fuel (hdecode : Settled decode) (fuel fuel' : ℕ) (buffer : List σ)
    (h : buffer.length < fuel) (h' : buffer.length < fuel') :
    drainFor decode fuel buffer = drainFor decode fuel' buffer := by
  induction fuel generalizing fuel' buffer with
  | zero => omega
  | succ fuel ih =>
    obtain ⟨fuel', rfl⟩ : ∃ n, fuel' = n + 1 := ⟨fuel' - 1, by omega⟩
    unfold drainFor
    rcases hresult : decode buffer with ⟨fault | _ | item, rest⟩
    · rfl
    · rfl
    · have hshrinks := hdecode.shrinks buffer item (by rw [hresult])
      rw [hresult] at hshrinks
      change rest.length < buffer.length at hshrinks
      simp only [ih fuel' rest (by omega) (by omega)]

theorem drain_of_wait (hdecode : Settled decode) {buffer : List σ}
    (h : (decode buffer).1 = .ok none) : drain decode buffer = ⟨[], none, buffer⟩ := by
  have hrest := hdecode.waits buffer h
  have hpair : decode buffer = (.ok none, buffer) := Prod.ext h hrest
  simp only [drain, drainFor, hpair]

theorem drain_of_fault {buffer : List σ} {fault : ε} (h : (decode buffer).1 = .error fault) :
    drain decode buffer = ⟨[], some fault, (decode buffer).2⟩ := by
  have hpair : decode buffer = (.error fault, (decode buffer).2) := Prod.ext h rfl
  unfold drain drainFor
  rw [hpair]

/-- An item that is taken stands in front of what the rest of the buffer gives. -/
theorem drain_of_item (hdecode : Settled decode) {buffer : List σ} {item : π}
    (h : (decode buffer).1 = .ok (some item)) :
    drain decode buffer =
      { drain decode (decode buffer).2 with
        items := item :: (drain decode (decode buffer).2).items } := by
  have hpair : decode buffer = (.ok (some item), (decode buffer).2) := Prod.ext h rfl
  have hshrinks := hdecode.shrinks buffer item h
  unfold drain
  rw [drainFor, hpair]
  simp only
  rw [drainFor_fuel hdecode buffer.length ((decode buffer).2.length + 1) _ hshrinks (by omega)]

/-- Decoding that did not fail went on until the decoder asked for more. -/
theorem drain_waits (hdecode : Settled decode) (buffer : List σ)
    (h : (drain decode buffer).fault = none) :
    (decode (drain decode buffer).rest).1 = .ok none := by
  induction hlength : buffer.length using Nat.strongRecOn generalizing buffer with
  | ind length ih =>
    cases hresult : (decode buffer).1 with
    | error fault =>
      rw [drain_of_fault hresult] at h
      cases h
    | ok item? =>
      cases item? with
      | none => rw [drain_of_wait hdecode hresult, hresult]
      | some item =>
        have hshrinks := hdecode.shrinks buffer item hresult
        rw [drain_of_item hdecode hresult] at h ⊢
        exact ih _ (hlength ▸ hshrinks) _ h rfl

/-- Input that arrives later is decoded as if it had been there from the start. -/
theorem drain_append (hdecode : Settled decode) (buffer more : List σ) :
    drain decode (buffer ++ more) = feed decode (drain decode buffer) more := by
  induction hlength : buffer.length using Nat.strongRecOn generalizing buffer with
  | ind length ih =>
    cases hresult : (decode buffer).1 with
    | error fault =>
      have hstable := hdecode.stable buffer more (by simp [hresult])
      have hresult' : (decode (buffer ++ more)).1 = .error fault := by rw [hstable, hresult]
      rw [drain_of_fault hresult, drain_of_fault hresult', hstable]
      rfl
    | ok item? =>
      cases item? with
      | none =>
        rw [drain_of_wait hdecode hresult]
        simp [feed]
      | some item =>
        have hstable := hdecode.stable buffer more (by simp [hresult])
        have hshrinks := hdecode.shrinks buffer item hresult
        have hlater := ih _ (hlength ▸ hshrinks) (decode buffer).2 rfl
        have hresult' : (decode (buffer ++ more)).1 = .ok (some item) := by rw [hstable, hresult]
        rw [drain_of_item hdecode hresult', hstable, drain_of_item hdecode hresult]
        simp only [hlater, feed]
        cases (drain decode (decode buffer).2).fault with
        | none => simp
        | some fault => simp

theorem drain_nil (hdecode : Settled decode) : drain decode [] = ⟨[], none, []⟩ :=
  drain_of_wait hdecode hdecode.empty

/-- Items from earlier stay in front of what is decoded later. -/
theorem feed_prepend (earlier : List π) (state : Drained ε σ π) (chunk : List σ) :
    feed decode { state with items := earlier ++ state.items } chunk =
      { feed decode state chunk with items := earlier ++ (feed decode state chunk).items } := by
  unfold feed
  cases hfault : state.fault with
  | none => simp only [List.append_assoc]
  | some fault => rfl

/-- What decodes to an item in front of anything is one item of a stream. -/
theorem drain_append_of_item (hdecode : Settled decode) {bytes : List σ} {item : π}
    (h : ∀ rest, decode (bytes ++ rest) = (.ok (some item), rest)) (rest : List σ) :
    drain decode (bytes ++ rest) =
      { drain decode rest with items := item :: (drain decode rest).items } := by
  have hfirst : (decode (bytes ++ rest)).1 = .ok (some item) := congrArg Prod.fst (h rest)
  rw [drain_of_item hdecode hfirst, h rest]

/-- A stream that breaks off yields the first items of the whole stream, and no failure that the
whole stream does not have. -/
theorem drain_cut (hdecode : Settled decode) (buffer more : List σ)
    (h : (drain decode (buffer ++ more)).fault = none) :
    (drain decode buffer).fault = none ∧
      (drain decode buffer).items <+: (drain decode (buffer ++ more)).items := by
  rw [drain_append hdecode] at h ⊢
  unfold feed at h ⊢
  cases hfault : (drain decode buffer).fault with
  | some fault =>
    simp only [hfault] at h
    cases h
  | none =>
    simp only
    exact ⟨trivial, List.prefix_append _ _⟩

/-- A decoder that takes a whole buffer for an item waits on every part of it. -/
theorem wait_of_cut (hdecode : Settled decode) {part more : List σ} {item : π}
    (hitem : decode (part ++ more) = (.ok (some item), [])) (hmore : more ≠ []) :
    (decode part).1 = .ok none := by
  by_contra hsettled
  rw [hdecode.stable part more hsettled] at hitem
  have hrest : (decode part).2 ++ more = [] := congrArg Prod.snd hitem
  exact hmore (List.append_eq_nil_iff.mp hrest).2

/-- Decoding does not depend on how the stream is cut. -/
theorem feedAll_eq_drain (hdecode : Settled decode) (chunks : List (List σ)) :
    feedAll decode chunks = drain decode chunks.flatten := by
  have hfold (state : List σ) : chunks.foldl (feed decode) (drain decode state) =
      drain decode (state ++ chunks.flatten) := by
    induction chunks generalizing state with
    | nil => simp
    | cons chunk chunks ih =>
      rw [List.foldl_cons, ← drain_append hdecode, ih, List.flatten_cons, List.append_assoc]
  have hstart := hfold []
  rw [drain_of_wait hdecode hdecode.empty, List.nil_append] at hstart
  exact hstart

end HotaruMqtt.Library.Incremental
