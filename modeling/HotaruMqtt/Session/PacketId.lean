import HotaruMqtt.Session.State

/-!
# Allocation of packet identifiers

The counter has `2 ^ 16` values and the identifiers only `2 ^ 16 - 1`, and skipping zero does not
move the counter. The identifier one is therefore returned twice in a row at every wrap. The
length of a window without repetitions depends only on the counter at its start.
-/

namespace HotaruMqtt.MqttSession

/-- The identifiers returned by consecutive calls. -/
def allocations : ℕ → MqttSession → List PacketId
  | 0, _ => []
  | calls + 1, session =>
      session.allocatePacketId.1 :: allocations calls session.allocatePacketId.2

/-- The identifier returned after `k` other calls, from a counter that starts at `start`. -/
def idAfter (start k : ℕ) : ℕ :=
  if (start + k + 1) % 65536 = 0 then 1 else (start + k + 1) % 65536

/-- One call returns the next identifier of the cycle. -/
theorem toNat_allocatePacketId (session : MqttSession) :
    session.allocatePacketId.1.toNat = idAfter session.pktCounter.toNat 0 := by
  have hnext : (session.pktCounter + 1).toNat = (session.pktCounter.toNat + 1) % 65536 :=
    UInt16.toNat_add _ _
  have hzero : session.pktCounter + 1 = 0 ↔ (session.pktCounter.toNat + 1) % 65536 = 0 := by
    rw [← hnext, ← UInt16.toNat_inj]
    rfl
  simp only [allocatePacketId, idAfter, Nat.add_zero, hzero]
  split
  · rfl
  · exact hnext

/-- Below the wrap of the counter a new identifier is larger than all before. -/
theorem toNat_allocate {session : MqttSession} (h : session.pktCounter.toNat + 1 ≤ 65535) :
    session.allocatePacketId.1.toNat = session.pktCounter.toNat + 1 ∧
      session.allocatePacketId.2.pktCounter.toNat = session.pktCounter.toNat + 1 := by
  constructor
  · rw [toNat_allocatePacketId, idAfter, if_neg (by omega)]
    omega
  · have hnext : (session.pktCounter + 1).toNat = (session.pktCounter.toNat + 1) % 65536 :=
      UInt16.toNat_add _ _
    exact hnext.trans (Nat.mod_eq_of_lt (by omega))

theorem idAfter_succ (counter : UInt16) (k : ℕ) :
    idAfter (counter + 1).toNat k = idAfter counter.toNat (k + 1) := by
  have hnext : (counter + 1).toNat = (counter.toNat + 1) % 65536 := UInt16.toNat_add _ _
  have hmod : ((counter.toNat + 1) % 65536 + k + 1) % 65536 =
      (counter.toNat + (k + 1) + 1) % 65536 := by omega
  rw [idAfter, idAfter, hnext, hmod]

/-- The calls walk along the cycle from where the counter stands. -/
theorem map_toNat_allocations (calls : ℕ) (session : MqttSession) :
    (session.allocations calls).map UInt16.toNat =
      (List.range calls).map (idAfter session.pktCounter.toNat) := by
  induction calls generalizing session with
  | zero => rfl
  | succ calls ih =>
    rw [allocations, List.map_cons, ih, toNat_allocatePacketId, List.range_succ_eq_map,
      List.map_cons, List.map_map]
    congr 2
    funext k
    exact idAfter_succ session.pktCounter k

/-- Zero is skipped. -/
theorem idAfter_pos (start k : ℕ) : 0 < idAfter start k := by
  unfold idAfter
  split <;> omega

/-- Over 65535 consecutive calls the identifiers differ exactly if the counter starts the window
at zero or one. -/
theorem nodup_window_iff (start k : ℕ) :
    ((List.range' k 65535).map (idAfter start)).Nodup ↔ (start + k) % 65536 ≤ 1 := by
  rw [List.nodup_map_iff_inj_on List.nodup_range']
  simp only [List.mem_range'_1]
  constructor
  · intro hinj
    by_contra hlate
    have hfirst : idAfter start (k + (65535 - (start + k) % 65536)) = 1 := by
      rw [idAfter, if_pos (by omega)]
    have hsecond : idAfter start (k + (65536 - (start + k) % 65536)) = 1 := by
      rw [idAfter, if_neg (by omega)]
      omega
    have := hinj (k + (65535 - (start + k) % 65536)) (by omega)
      (k + (65536 - (start + k) % 65536)) (by omega) (hfirst.trans hsecond.symm)
    omega
  · intro hearly i hi j hj hij
    unfold idAfter at hij
    split at hij <;> split at hij <;> omega

/-- Any 65535 calls in a row take that many places of the cycle in a row. -/
theorem window_eq (calls k : ℕ) (session : MqttSession) (h : k + 65535 ≤ calls) :
    ((((session.allocations calls).drop k).take 65535).map UInt16.toNat) =
      (List.range' k 65535).map (idAfter session.pktCounter.toNat) := by
  rw [List.map_take, List.map_drop, map_toNat_allocations, ← List.map_drop, ← List.map_take,
    List.range_eq_range', List.drop_range', List.take_range'_of_length_ge (by omega)]
  simp

/-- No identifier is zero, and 65535 consecutive identifiers are pairwise different exactly if the
counter is zero or one before the first of them. -/
theorem allocations_distinct_iff (calls : ℕ) (session : MqttSession) :
    (∀ id ∈ session.allocations calls, id ≠ 0) ∧
    ∀ k, k + 65535 ≤ calls →
      ((((session.allocations calls).drop k).take 65535).Nodup ↔
        (session.pktCounter.toNat + k) % 65536 ≤ 1) := by
  constructor
  · rintro id hid rfl
    have hmem := List.mem_map_of_mem (f := UInt16.toNat) hid
    rw [map_toNat_allocations, List.mem_map] at hmem
    obtain ⟨k, -, hk⟩ := hmem
    have := idAfter_pos session.pktCounter.toNat k
    rw [hk] at this
    exact absurd this (by decide)
  · intro k hk
    rw [← nodup_window_iff, ← window_eq calls k session hk,
      List.nodup_map_iff (fun _ _ ↦ UInt16.toNat_inj.mp)]

/-- A session whose counter is about to wrap. -/
def beforeWrap : MqttSession := { new with pktCounter := 65534 }

/-- The identifier one is returned twice in a row, so a window of 65535 calls repeats it. -/
theorem allocations_repeat_one :
    beforeWrap.allocations 3 = [65535, 1, 1] ∧ ¬ (beforeWrap.allocations 65535).Nodup := by
  refine ⟨rfl, fun hnodup ↦ ?_⟩
  have hmap := hnodup.map (fun _ _ ↦ UInt16.toNat_inj.mp)
  rw [map_toNat_allocations, List.range_eq_range', nodup_window_iff] at hmap
  exact absurd hmap (by decide)

end HotaruMqtt.MqttSession
