import StreamBroker.Command.Plan
set_option autoImplicit false

/-!
# How long a read is let wait

A client may give a time to wait in seconds and nanoseconds.  It is sent in whole milliseconds,
rounded down and cut at the largest number that can be sent, and a longer time is never sent as a
shorter one.  What is less than a millisecond is sent as zero, which means to wait for ever: a read
whose time is shorter than that is not ended by it (`waits_end_from_a_millisecond`,
`short_wait_never_ends`).
-/

namespace StreamBroker

/-- A time in nanoseconds. -/
def nanosOf (seconds nanos : Nat) : Nat := seconds * 1000000000 + nanos

/-- The milliseconds that are sent of a time. -/
def sentMillis (seconds nanos : Nat) : Nat :=
  Nat.min (nanosOf seconds nanos / 1000000) 9223372036854775807

theorem sentMillis_le (seconds nanos : Nat) : sentMillis seconds nanos ≤ 9223372036854775807 :=
  Nat.min_le_right ..

theorem sentMillis_mono {seconds nanos seconds' nanos' : Nat}
    (h : nanosOf seconds nanos ≤ nanosOf seconds' nanos') :
    sentMillis seconds nanos ≤ sentMillis seconds' nanos' := by
  have hquotient := Nat.div_le_div_right (c := 1000000) h
  refine Nat.le_min.2 ⟨?_, sentMillis_le ..⟩
  exact Nat.le_trans (Nat.min_le_left ..) hquotient

theorem sentMillis_eq_zero_iff {seconds nanos : Nat} :
    sentMillis seconds nanos = 0 ↔ nanosOf seconds nanos < 1000000 := by
  unfold sentMillis Nat.min
  omega

/-- The count of milliseconds is rounded down and cut. -/
theorem toInt_millisOf (seconds nanos : Nat) :
    (millisOf seconds nanos).toInt = sentMillis seconds nanos := by
  have hmillis : seconds * 1000 + nanos / 1000000 = nanosOf seconds nanos / 1000000 := by
    unfold nanosOf
    omega
  unfold millisOf sentMillis Nat.min
  simp only [hmillis, Int64.toInt_maxValue]
  split
  case isTrue hle =>
    rw [Int64.toInt_ofNat_of_lt (by omega)]
    omega
  case isFalse hgt =>
    rw [Int64.toInt_maxValue]
    omega

theorem millisOf_nonneg (seconds nanos : Nat) : 0 ≤ millisOf seconds nanos := by
  rw [Int64.le_iff_toInt_le, toInt_millisOf]
  exact Int.natCast_nonneg _

/-! ## From the options to the deadline -/

namespace ReadOptions

variable (o : ReadOptions) (seconds nanos : Nat)

/-- The time that is sent of one in seconds and nanoseconds. -/
theorem sentBlock_blockFor :
    ∃ n, (o.blockFor seconds nanos).sentBlock = some n ∧ n.toNat = sentMillis seconds nanos := by
  have hnonneg := millisOf_nonneg seconds nanos
  refine ⟨_, if_pos hnonneg, ?_⟩
  rw [Int64.toNat_toUInt64_of_le hnonneg, ← Int64.toNat_toInt, toInt_millisOf, Int.toNat_natCast]

theorem route_blockFor : (o.blockFor seconds nanos).route = .dedicated :=
  if_pos (millisOf_nonneg seconds nanos)

end ReadOptions

/-- A command that names streams is sent with the time of its options, on the channel they ask
for. -/
theorem ReadCommand.query_of_options {c : ReadCommand} (h : c.offsets ≠ []) (o : ReadOptions) :
    ∃ request, ({ c with options := some o } : ReadCommand).query = .ok (o.route, .read request) ∧
      request.block = o.sentBlock := by
  refine ⟨⟨Offset.tokens c.offsets, o.sentBlock, o.count, o.noAck,
    c.consumer.map ConsumerName.consumer⟩, ?_, rfl⟩
  unfold query
  rw [requireSome_of_ne_nil h]
  rfl

theorem ReadRequest.deadline_eq {request : ReadRequest} {n : UInt64} (h : request.block = some n)
    (now : Nat) : request.deadline now = if n = 0 then none else some (now + n.toNat) := by
  simp only [deadline, h]

/-- The deadline of a read is that of its request. -/
theorem ReadRequest.isDue_reading (request : ReadRequest) (now : Nat)
    (cursors : List (Bytes × Cursor)) (later : Nat) :
    (request.reading now cursors).isDue later ↔
      ∃ deadline, request.deadline now = some deadline ∧ deadline ≤ later := by
  unfold Reading.isDue reading
  cases request.deadline now with
  | none => exact ⟨nofun, nofun⟩
  | some deadline => simp

/-- A read that nobody wakes is over when its time is up, and waits until then. -/
theorem Engine.resume_unwoken {e : Engine} {w : Wait} (h : ¬ e.registry.isRaised w.signal)
    (later : Nat) :
    e.resume later w =
      if w.reading.isDue later then (.returned (.ok []), e.dismiss w) else (.waiting w, e) :=
  if_neg h

/-- Whatever else a read is given: a time to wait is sent on a channel of its own, in whole
milliseconds rounded down and cut at the largest number, so that a longer time is never sent as a
shorter one.  A time of at least a millisecond is sent as one, and ends a read that nobody wakes when
it is up.  A shorter one is sent as zero, which is no deadline: such a read waits on, however late it
is. -/
theorem waits_end_from_a_millisecond {c : ReadCommand} (hoffsets : c.offsets ≠ [])
    (o : ReadOptions) (seconds nanos : Nat) :
    ∃ request n,
      ({ c with options := some (o.blockFor seconds nanos) } : ReadCommand).query =
        .ok (.dedicated, .read request) ∧
      request.block = some n ∧
      n.toNat = Nat.min (nanosOf seconds nanos / 1000000) 9223372036854775807 ∧
      (n = 0 ↔ nanosOf seconds nanos < 1000000) ∧
      (∀ now, request.deadline now =
        if nanosOf seconds nanos < 1000000 then none else some (now + n.toNat)) ∧
      (∀ (e : Engine) now cursors signal later, ¬ e.registry.isRaised signal →
        (e.resume later ⟨request.reading now cursors, signal⟩).1 =
          if 1000000 ≤ nanosOf seconds nanos ∧ now + n.toNat ≤ later then .returned (.ok [])
          else .waiting ⟨request.reading now cursors, signal⟩) ∧
      ∀ (o' : ReadOptions) seconds' nanos' n', nanosOf seconds nanos ≤ nanosOf seconds' nanos' →
        (o'.blockFor seconds' nanos').sentBlock = some n' → n ≤ n' := by
  obtain ⟨request, hquery, hblock⟩ := ReadCommand.query_of_options hoffsets (o.blockFor seconds nanos)
  obtain ⟨n, hsent, hn⟩ := o.sentBlock_blockFor seconds nanos
  rw [o.route_blockFor] at hquery
  rw [hsent] at hblock
  have hzero : n = 0 ↔ nanosOf seconds nanos < 1000000 := by
    rw [← UInt64.toNat_inj, hn]
    exact sentMillis_eq_zero_iff
  have hdeadline : ∀ now, request.deadline now =
      if nanosOf seconds nanos < 1000000 then none else some (now + n.toNat) := by
    intro now
    simp only [ReadRequest.deadline_eq hblock, hzero]
  refine ⟨request, n, hquery, hblock, hn, hzero, hdeadline, ?_, ?_⟩
  · intro e now cursors signal later hunwoken
    have hdue : (request.reading now cursors).isDue later ↔
        1000000 ≤ nanosOf seconds nanos ∧ now + n.toNat ≤ later := by
      rw [ReadRequest.isDue_reading, hdeadline]
      by_cases hshort : nanosOf seconds nanos < 1000000
      · simp [hshort, Nat.not_le.2 hshort]
      · simp [hshort, Nat.not_lt.1 hshort]
    rw [Engine.resume_unwoken hunwoken]
    by_cases hover : 1000000 ≤ nanosOf seconds nanos ∧ now + n.toNat ≤ later
    · rw [if_pos (hdue.2 hover), if_pos hover]
    · rw [if_neg fun h => hover (hdue.1 h), if_neg hover]
  · intro o' seconds' nanos' n' hle hsent'
    obtain ⟨m, hm, hmillis⟩ := o'.sentBlock_blockFor seconds' nanos'
    obtain rfl := Option.some.inj (hm.symm.trans hsent')
    rw [UInt64.le_iff_toNat_le, hn, hmillis]
    exact sentMillis_mono hle

/-- A read of one stream. -/
def oneStream : ReadCommand := ⟨[([97], .latest)], none, none⟩

/-- One and a half milliseconds are sent as one: a read that begins at five is over at six. -/
theorem waits_end_from_a_millisecond_oneAndAHalf :
    oneStream.offsets ≠ [] ∧ ∃ request,
      ({ oneStream with options := some (ReadOptions.none.blockFor 0 1500000) } : ReadCommand).query =
        .ok (.dedicated, .read request) ∧
      request.block = some 1 ∧ request.deadline 5 = some 6 ∧
      (Engine.empty.resume 6 ⟨request.reading 5 [], 0⟩).1 = .returned (.ok []) ∧
      nanosOf 0 1500000 ≤ nanosOf 1 0 ∧
      (ReadOptions.none.blockFor 1 0).sentBlock = some 1000 ∧ (1 : UInt64) ≤ 1000 := by
  have hoffsets : oneStream.offsets ≠ [] := nofun
  obtain ⟨request, n, hquery, hblock, hn, -, hdeadline, hresume, hlonger⟩ :=
    waits_end_from_a_millisecond hoffsets ReadOptions.none 0 1500000
  obtain rfl : n = 1 := UInt64.toNat_inj.1 hn
  have hle : nanosOf 0 1500000 ≤ nanosOf 1 0 := by decide
  have hsent : (ReadOptions.none.blockFor 1 0).sentBlock = some 1000 := rfl
  refine ⟨hoffsets, request, hquery, hblock, hdeadline 5, ?_, hle, hsent, ?_⟩
  · exact hresume Engine.empty 5 [] 0 6 nofun
  · exact hlonger ReadOptions.none 1 0 1000 hle hsent

/-- A time that is not zero is sent as none at all, and the read waits however late it is. -/
theorem short_wait_never_ends :
    let request : ReadRequest := ⟨[([97], "$")], some 0, none, false, none⟩
    let wait : Wait := ⟨request.reading 0 [([97], .after .least)], 0⟩
    let engine := (Engine.empty.enroll wait.reading).2
    0 < nanosOf 0 999999 ∧
      ReadCommand.query ⟨[([97], .latest)], some (ReadOptions.none.blockFor 0 999999), none⟩ =
        .ok (.dedicated, .read request) ∧
      Engine.empty.beginRead 0 request = (.waiting wait, engine) ∧
      ∀ later, engine.resume later wait = (.waiting wait, engine) := by
  intro request wait engine
  refine ⟨by decide, ?_, rfl, fun later => rfl⟩
  rfl

end StreamBroker
