import StreamBroker.Pool
set_option autoImplicit false

/-!
# The accounts of a pool

Every channel of a pool is free, granted or leased, and nobody queues while one is free.  Who holds
a place and who holds a channel is kept outside the pool; `Pool.Accounts` says that the two agree:
the places are those that were granted or are queued, in the order in which they were asked for, and
the channels in hand are the leases.

Each operation is stated over the place or channel it is about and whatever else is held (`waiting`,
`hands`), so that it can be used wherever in a system that place or channel is kept.
-/

namespace StreamBroker.Pool

/-! ## Operations in cases -/

/-- The pool behind a look that found a channel. -/
def lend (p : Pool) (t : TicketId) : Pool :=
  { p with
    granted := p.granted.erase t
    leased := p.leased ++ [t]
    acquired := p.acquired + 1 }

/-- The pool behind a look that came too late. -/
def unqueue (p : Pool) (t : TicketId) : Pool := { p with queue := p.queue.erase t }

theorem request_of_none {p : Pool} (h : p.free = 0) :
    p.request = (p.nextTicket,
      { p with nextTicket := p.nextTicket + 1, queue := p.queue ++ [p.nextTicket] }) :=
  if_pos h

theorem request_of_free {p : Pool} (h : p.free ≠ 0) :
    p.request = (p.nextTicket,
      { p with
        nextTicket := p.nextTicket + 1
        free := p.free - 1
        granted := p.granted ++ [p.nextTicket] }) :=
  if_neg h

theorem acquired_passOn (p : Pool) : p.passOn.acquired = p.acquired := by
  unfold passOn
  split <;> rfl

/-! ## Accounts -/

/-- A pool of `size` channels agrees with the places and the channels that are held. -/
structure Accounts (p : Pool) (size : Nat) (waiting hands : List TicketId) : Prop where
  channels : p.free + p.granted.length + p.leased.length = size
  idle : p.queue = [] ∨ p.free = 0
  /-- Channels are granted in the order in which they were asked for. -/
  order : (p.granted ++ p.queue).Pairwise (· < ·)
  places : waiting.Perm (p.granted ++ p.queue)
  leases : hands.Perm p.leased
  distinct : (waiting ++ hands).Nodup
  known : ∀ t ∈ waiting ++ hands, t < p.nextTicket

namespace Accounts

variable {p : Pool} {size : Nat} {waiting hands : List TicketId} {t : TicketId}

theorem ofSize (size : Nat) : (Pool.ofSize size).Accounts size [] [] :=
  ⟨rfl, .inl rfl, .nil, .nil, .nil, .nil, nofun⟩

/-- The accounts do not depend on who keeps what. -/
theorem perm {waiting' hands' : List TicketId} (h : p.Accounts size waiting hands)
    (hwaiting : waiting'.Perm waiting) (hhands : hands'.Perm hands) :
    p.Accounts size waiting' hands' := by
  have hall : (waiting' ++ hands').Perm (waiting ++ hands) := hwaiting.append hhands
  refine ⟨h.channels, h.idle, h.order, hwaiting.trans h.places, hhands.trans h.leases, ?_, ?_⟩
  · exact hall.nodup_iff.2 h.distinct
  · exact fun t ht => h.known t (hall.mem_iff.1 ht)

/-- Who queues waits for channels that are all leased or granted to those who asked before. -/
theorem queued (h : p.Accounts size waiting hands) (ht : t ∈ p.queue) :
    p.granted.length + p.leased.length = size ∧ ∀ g ∈ p.granted, g < t := by
  refine ⟨?_, fun g hg => (List.pairwise_append.1 h.order).2.2 g hg t ht⟩
  rcases h.idle with hnone | hfree
  · rw [hnone] at ht
    cases ht
  · rw [← h.channels, hfree, Nat.zero_add]

/-- Asking takes a place behind all others. -/
theorem request (h : p.Accounts size waiting hands) :
    p.request.2.Accounts size (p.request.1 :: waiting) hands := by
  have hnew : ∀ t ∈ waiting ++ hands, t < p.nextTicket := h.known
  have hlast : ∀ g ∈ p.granted ++ p.queue, g < p.nextTicket := fun g hg =>
    hnew g (List.mem_append_left _ (h.places.mem_iff.2 hg))
  have horder : (p.granted ++ p.queue ++ [p.nextTicket]).Pairwise (· < ·) := by
    refine List.pairwise_append.2 ⟨h.order, List.pairwise_singleton .., fun g hg t ht => ?_⟩
    rw [List.mem_singleton.1 ht]
    exact hlast g hg
  have hperm : (p.nextTicket :: waiting).Perm (p.granted ++ p.queue ++ [p.nextTicket]) :=
    (h.places.cons _).trans (List.perm_append_singleton ..).symm
  have hdistinct : (p.nextTicket :: waiting ++ hands).Nodup :=
    List.nodup_cons.2 ⟨fun hmem => Nat.lt_irrefl _ (hnew _ hmem), h.distinct⟩
  have hknown : ∀ t ∈ p.nextTicket :: waiting ++ hands, t < p.nextTicket + 1 := by
    intro t ht
    rcases List.mem_cons.1 ht with rfl | ht
    · exact Nat.lt_succ_self _
    · exact Nat.lt_succ_of_lt (hnew t ht)
  by_cases hfree : p.free = 0
  · rw [List.append_assoc] at horder hperm
    rw [request_of_none hfree]
    exact ⟨h.channels, .inr hfree, horder, hperm, h.leases, hdistinct, hknown⟩
  · have hnone : p.queue = [] := h.idle.resolve_right hfree
    rw [hnone, List.append_nil] at horder hperm
    rw [request_of_free hfree]
    refine ⟨?_, .inl hnone, ?_, ?_, h.leases, hdistinct, hknown⟩
    · have hsize := h.channels
      simp only [List.length_append, List.length_singleton]
      omega
    · simp only [hnone, List.append_nil]
      exact horder
    · simp only [hnone, List.append_nil]
      exact hperm

/-- A channel that comes free goes to whoever has waited longest. -/
theorem passOn (h : p.Accounts size waiting hands) :
    p.passOn.Accounts (size + 1) waiting hands := by
  have hsize := h.channels
  unfold Pool.passOn
  split
  case h_1 hnone =>
    refine ⟨?_, .inl hnone, h.order, h.places, h.leases, h.distinct, h.known⟩
    simp only
    omega
  case h_2 ticket queue hqueue =>
    have hsame : p.granted ++ [ticket] ++ queue = p.granted ++ p.queue := by
      rw [hqueue, List.append_assoc]
      rfl
    have hfree : p.free = 0 := h.idle.resolve_left fun hnone => by
      rw [hnone] at hqueue
      cases hqueue
    refine ⟨?_, .inr hfree, ?_, ?_, h.leases, h.distinct, h.known⟩
    · simp only [List.length_append, List.length_singleton]
      omega
    · simp only [hsame]
      exact h.order
    · simp only [hsame]
      exact h.places

/-- Taking back the channel that was granted to a place leaves the pool one channel short. -/
theorem ungrant (h : p.Accounts size (t :: waiting) hands) (ht : t ∈ p.granted) :
    ∃ fewer, size = fewer + 1 ∧
      { p with granted := p.granted.erase t }.Accounts fewer waiting hands := by
  have hlength := List.length_erase_of_mem ht
  have hpos := List.length_pos_of_mem ht
  have herase : (p.granted ++ p.queue).erase t = p.granted.erase t ++ p.queue :=
    List.erase_append_left _ ht
  refine ⟨p.free + (p.granted.erase t).length + p.leased.length, ?_, rfl, h.idle, ?_, ?_, h.leases,
    ?_, ?_⟩
  · have hsize := h.channels
    omega
  · simp only
    rw [← herase]
    exact h.order.sublist List.erase_sublist
  · simp only
    rw [← herase]
    exact (List.cons_perm_iff_perm_erase.1 h.places).2
  · exact (List.nodup_cons.1 h.distinct).2
  · exact fun u hu => h.known u (List.mem_cons_of_mem _ hu)

/-- A place that was not granted is in the queue, which it can leave. -/
theorem unqueue (h : p.Accounts size (t :: waiting) hands) (ht : t ∉ p.granted) :
    (p.unqueue t).Accounts size waiting hands := by
  have herase : (p.granted ++ p.queue).erase t = p.granted ++ p.queue.erase t :=
    List.erase_append_right _ ht
  unfold Pool.unqueue
  refine ⟨h.channels, h.idle.imp_left fun hnone => ?_, ?_, ?_, h.leases, ?_, ?_⟩
  · simp only [hnone, List.erase_nil]
  · simp only
    rw [← herase]
    exact h.order.sublist List.erase_sublist
  · simp only
    rw [← herase]
    exact (List.cons_perm_iff_perm_erase.1 h.places).2
  · exact (List.nodup_cons.1 h.distinct).2
  · exact fun u hu => h.known u (List.mem_cons_of_mem _ hu)

/-- A place that was granted becomes a lease of the same number. -/
theorem lease (h : p.Accounts size (t :: waiting) hands) (ht : t ∈ p.granted) :
    (p.lend t).Accounts size waiting (t :: hands) := by
  obtain ⟨fewer, hfewer, hless⟩ := h.ungrant ht
  have hall : (waiting ++ t :: hands).Perm (t :: waiting ++ hands) := List.perm_middle
  unfold lend
  refine ⟨?_, hless.idle, hless.order, hless.places, ?_, hall.nodup_iff.2 h.distinct, ?_⟩
  · have hsize := hless.channels
    simp only [List.length_append, List.length_singleton] at hsize ⊢
    omega
  · exact (hless.leases.cons t).trans (List.perm_append_singleton ..).symm
  · exact fun u hu => h.known u (hall.mem_iff.1 hu)

/-- Giving up a place passes on what was granted to it. -/
theorem withdraw (h : p.Accounts size (t :: waiting) hands) :
    (p.withdraw t).Accounts size waiting hands := by
  unfold Pool.withdraw
  split
  case isTrue ht =>
    obtain ⟨fewer, rfl, hless⟩ := h.ungrant ht
    exact hless.passOn
  case isFalse ht => exact h.unqueue ht

/-- Giving a channel back passes it on. -/
theorem release (h : p.Accounts size waiting (t :: hands)) :
    (p.release t).Accounts size waiting hands := by
  obtain ⟨hmem, hperm⟩ := List.cons_perm_iff_perm_erase.1 h.leases
  have hall : (waiting ++ t :: hands).Perm (t :: (waiting ++ hands)) := List.perm_middle
  have hlength := List.length_erase_of_mem hmem
  have hpos := List.length_pos_of_mem hmem
  have hless : { p with leased := p.leased.erase t }.Accounts (size - 1) waiting hands := by
    refine ⟨?_, h.idle, h.order, h.places, hperm, ?_, ?_⟩
    · have hsize := h.channels
      simp only
      omega
    · exact (List.nodup_cons.1 (hall.nodup_iff.1 h.distinct)).2
    · exact fun u hu => h.known u (hall.mem_iff.2 (List.mem_cons_of_mem _ hu))
  have hsize : size = size - 1 + 1 := by
    have hsize := h.channels
    omega
  rw [Pool.release, if_pos hmem, hsize]
  exact hless.passOn

end Accounts

end StreamBroker.Pool
