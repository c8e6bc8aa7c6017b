import StreamBroker.Engine
import StreamBroker.Proofs.SortedMap
set_option autoImplicit false

/-!
# What the registry keeps for a reader

The registry holds a wait as long as somebody listens to its signal and the signal is registered
under each key of the read (`Registry.Holds`).  Only what the reader does itself ends that: every
other operation leaves its registrations where they are, and none but hearing or leaving lowers its
signal.  What is listened to under a key (`Registry.listened`) grows at its end when a reader begins
to wait, loses what a reader had when it leaves, and does not change otherwise.
-/

namespace StreamBroker

namespace Registry

/-- Somebody listens to the signal of a wait, which is registered under each of its keys. -/
structure Holds (g : Registry) (wait : Wait) : Prop where
  listening : g.isListening wait.signal
  registered : ∀ key ∈ wait.reading.keys, wait.signal ∈ g.registered key

/-! ## Registrations under a key -/

theorem registered_setWaiting_self (g : Registry) (key : Bytes) (ids : List SignalId) :
    (g.setWaiting key ids).registered key = ids := by
  unfold setWaiting registered
  simp only
  split
  case isTrue hempty =>
    rw [SortedMap.get?_erase_self, List.isEmpty_iff.1 hempty]
    rfl
  case isFalse =>
    rw [SortedMap.get?_insert_self]
    rfl

theorem registered_setWaiting_of_ne (g : Registry) {key k : Bytes} (ids : List SignalId)
    (h : key ≠ k) : (g.setWaiting key ids).registered k = g.registered k := by
  unfold setWaiting registered
  simp only
  split
  case isTrue =>
    rw [SortedMap.get?_erase_of_ne _ h]
  case isFalse => rw [SortedMap.get?_insert_of_ne _ _ h]

theorem registered_prune (g : Registry) (key : Bytes) :
    g.prune.registered key = (g.registered key).filter g.isListening := by
  unfold prune registered
  simp only
  rw [SortedMap.get?_filter, SortedMap.get?_mapValues]
  cases g.waiting.get? key with
  | none => rfl
  | some ids =>
      rw [Option.map_some, Option.filter_some]
      split
      case isTrue => rfl
      case isFalse hempty =>
        have hnone : ids.filter g.isListening = [] := by simpa using hempty
        rw [Option.getD_none, Option.getD_some, hnone]

theorem registered_register (g : Registry) (key k : Bytes) (id : SignalId) :
    (g.register key id).registered k =
      (g.registered k).filter g.isListening ++ if key = k then [id] else [] := by
  unfold register
  by_cases hk : key = k
  · subst hk
    rw [registered_setWaiting_self, registered_prune, if_pos rfl]
  · rw [registered_setWaiting_of_ne _ _ hk, registered_prune, if_neg hk, List.append_nil]

theorem registered_withdrawFrom (g : Registry) (id : SignalId) (key k : Bytes) :
    (g.withdrawFrom id key).registered k =
      if key = k then (g.registered k).filter (· != id) else g.registered k := by
  unfold withdrawFrom
  split
  case h_1 hnone =>
    split
    case isTrue hk =>
      subst hk
      rw [registered, hnone]
      rfl
    case isFalse => rfl
  case h_2 ids hids =>
    split
    case isTrue hk =>
      subst hk
      rw [registered_setWaiting_self, registered, hids]
      rfl
    case isFalse hk => rw [registered_setWaiting_of_ne _ _ hk]

theorem registered_withdraw (g : Registry) (keys : List Bytes) (id : SignalId) (k : Bytes) :
    (g.withdraw keys id).registered k =
      if k ∈ keys then (g.registered k).filter (· != id) else g.registered k := by
  unfold withdraw
  induction keys generalizing g with
  | nil => rfl
  | cons key rest ih =>
      rw [List.foldl_cons, ih, registered_withdrawFrom]
      by_cases hrest : k ∈ rest
      · rw [if_pos hrest, if_pos (List.mem_cons_of_mem _ hrest)]
        split
        · rw [List.filter_filter]
          simp only [Bool.and_self]
        · rfl
      · rw [if_neg hrest]
        simp only [List.mem_cons, hrest, or_false, eq_comm]

/-! ## Raising and lowering -/

theorem isRaised_raise (g : Registry) (id j : SignalId) :
    (g.raise id).isRaised j = (g.isRaised j || j == id) := by
  unfold raise
  split
  case isTrue hraised =>
    by_cases hj : j = id
    · subst hj
      rw [hraised]
      rfl
    · rw [beq_false_of_ne hj, Bool.or_false]
  case isFalse =>
    unfold isRaised
    rw [List.contains_append, List.contains_cons, List.contains_nil, Bool.or_false]

theorem isRaised_lower (g : Registry) (id j : SignalId) :
    (g.lower id).isRaised j = (g.isRaised j && j != id) := by
  unfold lower isRaised
  rw [Bool.eq_iff_iff]
  simp

@[simp] theorem listening_raise (g : Registry) (id : SignalId) :
    (g.raise id).listening = g.listening := by
  unfold raise
  split <;> rfl

@[simp] theorem waiting_raise (g : Registry) (id : SignalId) :
    (g.raise id).waiting = g.waiting := by
  unfold raise
  split <;> rfl

section RaiseAll

variable (ids : List SignalId) (g : Registry)

theorem isRaised_foldl_raise (j : SignalId) :
    (ids.foldl raise g).isRaised j = (g.isRaised j || ids.contains j) := by
  induction ids generalizing g with
  | nil => rw [List.foldl_nil, List.contains_nil, Bool.or_false]
  | cons id rest ih => rw [List.foldl_cons, ih, isRaised_raise, List.contains_cons, Bool.or_assoc]

theorem listening_foldl_raise : (ids.foldl raise g).listening = g.listening := by
  induction ids generalizing g with
  | nil => rfl
  | cons id rest ih => rw [List.foldl_cons, ih, listening_raise]

theorem waiting_foldl_raise : (ids.foldl raise g).waiting = g.waiting := by
  induction ids generalizing g with
  | nil => rfl
  | cons id rest ih => rw [List.foldl_cons, ih, waiting_raise]

theorem registered_foldl_raise : (ids.foldl raise g).registered = g.registered := by
  unfold registered
  rw [waiting_foldl_raise]

end RaiseAll

theorem notify_eq (g : Registry) (key : Bytes) :
    g.waiting.get? key = none ∧ g.notify key = g ∨
      g.notify key = (((g.registered key).filter g.isListening).foldl raise g).setWaiting key
        ((g.registered key).filter g.isListening) := by
  unfold notify registered
  cases hids : g.waiting.get? key with
  | none => exact .inl ⟨rfl, rfl⟩
  | some ids => exact .inr rfl

theorem registered_notify (g : Registry) (key k : Bytes) :
    (g.notify key).registered k =
      if key = k then (g.registered k).filter g.isListening else g.registered k := by
  rcases notify_eq g key with ⟨hnone, hsame⟩ | hnotify
  · rw [hsame]
    split
    case isTrue hk =>
      subst hk
      rw [registered, hnone]
      rfl
    case isFalse => rfl
  · rw [hnotify]
    split
    case isTrue hk =>
      subst hk
      rw [registered_setWaiting_self]
    case isFalse hk => rw [registered_setWaiting_of_ne _ _ hk, registered_foldl_raise]

theorem isRaised_notify (g : Registry) (key : Bytes) (j : SignalId) :
    (g.notify key).isRaised j =
      (g.isRaised j || ((g.registered key).filter g.isListening).contains j) := by
  rcases notify_eq g key with ⟨hnone, hsame⟩ | hnotify
  · rw [hsame, registered, hnone]
    exact (Bool.or_false _).symm
  · rw [hnotify]
    exact isRaised_foldl_raise ..

theorem listening_notify (g : Registry) (key : Bytes) :
    (g.notify key).listening = g.listening := by
  rcases notify_eq g key with ⟨-, hsame⟩ | hnotify
  · rw [hsame]
  · rw [hnotify]
    exact listening_foldl_raise ..

theorem isListening_notify (g : Registry) (key : Bytes) :
    (g.notify key).isListening = g.isListening := by
  unfold isListening
  rw [listening_notify]

/-- A withdrawal changes nothing but what is registered. -/
theorem withdraw_frame (g : Registry) (keys : List Bytes) (id : SignalId) :
    (g.withdraw keys id).listening = g.listening ∧ (g.withdraw keys id).raised = g.raised := by
  unfold withdraw
  induction keys generalizing g with
  | nil => exact ⟨rfl, rfl⟩
  | cons key rest ih =>
      have hfirst : (g.withdrawFrom id key).listening = g.listening ∧
          (g.withdrawFrom id key).raised = g.raised := by
        unfold withdrawFrom
        split <;> exact ⟨rfl, rfl⟩
      rw [List.foldl_cons, (ih _).1, (ih _).2]
      exact hfirst

theorem isListening_withdraw (g : Registry) (keys : List Bytes) (id : SignalId) :
    (g.withdraw keys id).isListening = g.isListening := by
  unfold isListening
  rw [(g.withdraw_frame keys id).1]

theorem isRaised_withdraw (g : Registry) (keys : List Bytes) (id : SignalId) :
    (g.withdraw keys id).isRaised = g.isRaised := by
  unfold isRaised
  rw [(g.withdraw_frame keys id).2]

theorem isListening_close (g : Registry) {id j : SignalId} (h : j ≠ id) :
    (g.close id).isListening j = g.isListening j := by
  unfold close isListening
  rw [List.getD_eq_getElem?_getD, List.getD_eq_getElem?_getD, List.getElem?_set_ne (Ne.symm h)]

theorem isRaised_close (g : Registry) {id j : SignalId} (h : j ≠ id) :
    (g.close id).isRaised j = g.isRaised j := by
  have hclose : (g.close id).isRaised j = (g.lower id).isRaised j := rfl
  rw [hclose, isRaised_lower, bne_iff_ne.2 h, Bool.and_true]

theorem lt_of_isListening {g : Registry} {id : SignalId} (h : g.isListening id) :
    id < g.listening.length := by
  rcases Nat.lt_or_ge id g.listening.length with hlt | hge
  · exact hlt
  · unfold isListening at h
    rw [List.getD_eq_getElem?_getD, List.getElem?_eq_none hge] at h
    cases h

theorem isListening_fresh (g : Registry) : g.fresh.2.isListening g.fresh.1 := by
  simp [isListening, fresh]

theorem isListening_fresh_of_lt (g : Registry) {id : SignalId} (h : id < g.listening.length) :
    g.fresh.2.isListening id = g.isListening id := by
  unfold isListening
  rw [List.getD_eq_getElem?_getD, List.getD_eq_getElem?_getD]
  rw [fresh, List.getElem?_append_left h]

/-! ## Waits that are held -/

namespace Holds

variable {g : Registry} {wait : Wait}

theorem lower (h : g.Holds wait) (id : SignalId) : (g.lower id).Holds wait :=
  ⟨h.listening, h.registered⟩

theorem notify (h : g.Holds wait) (key : Bytes) : (g.notify key).Holds wait := by
  refine ⟨?_, ?_⟩
  · rw [isListening_notify]
    exact h.listening
  · intro k hk
    rw [registered_notify]
    split
    case isTrue => exact List.mem_filter.2 ⟨h.registered k hk, h.listening⟩
    case isFalse => exact h.registered k hk

/-- A notification under one of its keys raises the signal of a wait. -/
theorem isRaised_notify (h : g.Holds wait) {key : Bytes} (hkey : key ∈ wait.reading.keys) :
    (g.notify key).isRaised wait.signal := by
  have hlive : wait.signal ∈ (g.registered key).filter g.isListening :=
    List.mem_filter.2 ⟨h.registered key hkey, h.listening⟩
  rw [Registry.isRaised_notify, List.contains_iff_mem.2 hlive, Bool.or_true]

theorem register (h : g.Holds wait) (key : Bytes) (id : SignalId) :
    (g.register key id).Holds wait := by
  refine ⟨h.listening, ?_⟩
  intro k hk
  rw [registered_register]
  exact List.mem_append_left _ (List.mem_filter.2 ⟨h.registered k hk, h.listening⟩)

theorem fresh (h : g.Holds wait) : g.fresh.2.Holds wait := by
  refine ⟨?_, h.registered⟩
  rw [g.isListening_fresh_of_lt (lt_of_isListening h.listening)]
  exact h.listening

/-- The signal of a wait that is held is not made again. -/
theorem ne_fresh (h : g.Holds wait) : wait.signal ≠ g.fresh.1 :=
  Nat.ne_of_lt (lt_of_isListening h.listening)

/-- Another reader may leave. -/
theorem leave (h : g.Holds wait) {id : SignalId} (hne : wait.signal ≠ id) (keys : List Bytes) :
    ((g.withdraw keys id).close id).Holds wait := by
  refine ⟨?_, ?_⟩
  · rw [isListening_close _ hne, isListening_withdraw]
    exact h.listening
  · intro k hk
    have hclose : ((g.withdraw keys id).close id).registered k =
        (g.withdraw keys id).registered k := rfl
    rw [hclose, registered_withdraw]
    split
    case isTrue => exact List.mem_filter.2 ⟨h.registered k hk, bne_iff_ne.2 hne⟩
    case isFalse => exact h.registered k hk

end Holds

/-! ## A reader that begins to wait -/

section RegisterAll

variable {g : Registry} {id : SignalId}

theorem Holds.registerAll {wait : Wait} (h : g.Holds wait) (keys : List Bytes) :
    (keys.foldl (fun g key => g.register key id) g).Holds wait := by
  induction keys generalizing g with
  | nil => exact h
  | cons key rest ih => exact ih (h.register key id)

theorem listening_registerAll (keys : List Bytes) :
    (keys.foldl (fun g key => g.register key id) g).isListening = g.isListening := by
  induction keys generalizing g with
  | nil => rfl
  | cons key rest ih => rw [List.foldl_cons, ih]; rfl

theorem raised_registerAll (keys : List Bytes) :
    (keys.foldl (fun g key => g.register key id) g).isRaised = g.isRaised := by
  induction keys generalizing g with
  | nil => rfl
  | cons key rest ih => rw [List.foldl_cons, ih]; rfl

theorem mem_registerAll (hlistening : g.isListening id) {keys : List Bytes} {k : Bytes}
    (h : k ∈ keys ∨ id ∈ g.registered k) :
    id ∈ (keys.foldl (fun g key => g.register key id) g).registered k := by
  induction keys generalizing g with
  | nil =>
      rcases h with hkeys | hself
      · cases hkeys
      · exact hself
  | cons key rest ih =>
      refine ih hlistening ?_
      rw [registered_register]
      rcases h with hkeys | hself
      · rcases List.mem_cons.1 hkeys with rfl | hrest
        · exact .inr (List.mem_append_right _ (by rw [if_pos rfl]; exact List.mem_cons_self))
        · exact .inl hrest
      · exact .inr (List.mem_append_left _ (List.mem_filter.2 ⟨hself, hlistening⟩))

end RegisterAll

/-! ## Registrations that somebody listens to -/

/-- The registrations under a key that somebody listens to. -/
def listened (g : Registry) (key : Bytes) : List SignalId :=
  (g.registered key).filter g.isListening

/-- A notification keeps what somebody listens to. -/
theorem listened_notify (g : Registry) (key k : Bytes) :
    (g.notify key).listened k = g.listened k := by
  unfold listened
  rw [registered_notify, isListening_notify]
  split
  case isTrue => rw [List.filter_filter, funext fun s => Bool.and_self (g.isListening s)]
  case isFalse => rfl

theorem isListening_close_self (g : Registry) (id : SignalId) :
    (g.close id).isListening id = false := by
  unfold close isListening
  rw [List.getD_eq_getElem?_getD, List.getElem?_set]
  split
  case isTrue => split <;> rfl
  case isFalse hne => exact absurd rfl hne

theorem isListening_leave (g : Registry) (keys : List Bytes) (id j : SignalId) :
    ((g.withdraw keys id).close id).isListening j = (g.isListening j && j != id) := by
  by_cases hj : j = id
  · subst hj
    rw [isListening_close_self, bne_self_eq_false, Bool.and_false]
  · rw [isListening_close _ hj, isListening_withdraw, bne_iff_ne.2 hj, Bool.and_true]

theorem registered_leave (g : Registry) (keys : List Bytes) (id : SignalId) (k : Bytes) :
    ((g.withdraw keys id).close id).registered k =
      if k ∈ keys then (g.registered k).filter (· != id) else g.registered k :=
  registered_withdraw g keys id k

/-- A reader that leaves is not listened to any more; all others are. -/
theorem listened_leave (g : Registry) (keys : List Bytes) (id : SignalId) (k : Bytes) :
    ((g.withdraw keys id).close id).listened k = (g.listened k).filter (· != id) := by
  have hboth : ((g.withdraw keys id).close id).isListening =
      fun j => (j != id) && g.isListening j :=
    funext fun j => (isListening_leave g keys id j).trans (Bool.and_comm ..)
  unfold listened
  rw [registered_leave, hboth, List.filter_filter]
  split
  case isTrue =>
    rw [List.filter_filter]
    refine List.filter_congr fun j _ => ?_
    rw [Bool.and_right_comm, Bool.and_self]
  case isFalse => rfl

/-- The registrations of a reader that registers under some keys come last under each of them, and
the first one prunes all keys. -/
theorem registered_registerAll {g : Registry} {id : SignalId} (hlistening : g.isListening id)
    (keys : List Bytes) (k : Bytes) :
    (keys.foldl (fun g key => g.register key id) g).registered k =
      (if keys = [] then g.registered k else g.listened k) ++
        List.replicate (keys.count k) id := by
  induction keys generalizing g with
  | nil => exact (List.append_nil _).symm
  | cons key rest ih =>
      have hrest : (g.register key id).isListening id := hlistening
      have hlistened : (g.register key id).registered k =
          g.listened k ++ List.replicate (if key = k then 1 else 0) id := by
        rw [registered_register]
        split <;> rfl
      have hkept : (g.register key id).listened k = (g.register key id).registered k := by
        rw [listened, hlistened, List.filter_append, List.filter_replicate]
        have hsame : (g.register key id).isListening = g.isListening := rfl
        rw [hsame, if_pos hlistening, listened, List.filter_filter]
        simp only [Bool.and_self]
      rw [List.foldl_cons, ih hrest, hkept, ite_self, hlistened, if_neg (List.cons_ne_nil key rest),
        List.append_assoc, List.replicate_append_replicate, List.count_cons, Nat.add_comm]
      simp only [beq_iff_eq]

/-- A signal that is new is in no registration, so a reader that begins to wait comes last. -/
theorem listened_enroll {g : Registry} {k : Bytes}
    (hold : ∀ id ∈ g.registered k, id < g.listening.length) (keys : List Bytes) :
    (keys.foldl (fun r key => r.register key g.fresh.1) g.fresh.2).listened k =
      g.listened k ++ List.replicate (keys.count k) g.fresh.1 := by
  have hfresh := g.isListening_fresh
  have hsame : g.fresh.2.listened k = g.listened k :=
    List.filter_congr fun id hid => g.isListening_fresh_of_lt (hold id hid)
  have hkept : (g.fresh.2.listened k).filter g.fresh.2.isListening = g.fresh.2.listened k := by
    rw [listened, List.filter_filter]
    simp only [Bool.and_self]
  rw [listened, listening_registerAll, registered_registerAll hfresh, List.filter_append,
    List.filter_replicate, if_pos hfresh, ← hsame]
  split
  case isTrue => rfl
  case isFalse => rw [hkept]

/-! ## The signals ever made -/

theorem length_listening_notify (g : Registry) (key : Bytes) :
    (g.notify key).listening.length = g.listening.length :=
  congrArg List.length (g.listening_notify key)

theorem length_listening_leave (g : Registry) (keys : List Bytes) (id : SignalId) :
    ((g.withdraw keys id).close id).listening.length = g.listening.length := by
  unfold close
  rw [List.length_set, (g.withdraw_frame keys id).1]

theorem length_listening_registerAll (g : Registry) (keys : List Bytes) (id : SignalId) :
    (keys.foldl (fun r key => r.register key id) g).listening.length = g.listening.length := by
  induction keys generalizing g with
  | nil => rfl
  | cons key rest ih =>
      rw [List.foldl_cons, ih]
      rfl

/-! ## Keys without registrations -/

/-- A key without registrations is not kept. -/
def Filled (g : Registry) : Prop := ∀ key, g.waiting.get? key ≠ some []

namespace Filled

variable {g : Registry}

theorem empty : (∅ : Registry).Filled := nofun

theorem setWaiting (h : g.Filled) (key : Bytes) (ids : List SignalId) :
    (g.setWaiting key ids).Filled := by
  intro k hk
  unfold Registry.setWaiting at hk
  simp only at hk
  split at hk
  case isTrue =>
    rw [SortedMap.get?_erase] at hk
    split at hk
    case isTrue => cases hk
    case isFalse => exact h k hk
  case isFalse hids =>
    rcases SortedMap.get?_of_get?_insert hk with ⟨-, rfl⟩ | hbefore
    · exact hids rfl
    · exact h k hbefore

theorem withdraw (h : g.Filled) (keys : List Bytes) (id : SignalId) :
    (g.withdraw keys id).Filled := by
  unfold Registry.withdraw
  induction keys generalizing g with
  | nil => exact h
  | cons key rest ih =>
      have hfirst : (g.withdrawFrom id key).Filled := by
        unfold withdrawFrom
        split
        case h_1 => exact h
        case h_2 ids _ => exact setWaiting h key _
      exact ih hfirst

theorem notify (h : g.Filled) (key : Bytes) : (g.notify key).Filled := by
  rcases notify_eq g key with ⟨-, hsame⟩ | hnotify
  · rwa [hsame]
  · rw [hnotify]
    refine setWaiting ?_ _ _
    rwa [Filled, waiting_foldl_raise]

/-- Pruning leaves no key without registrations, whatever there was. -/
theorem prune (g : Registry) : g.prune.Filled := by
  intro k hk
  unfold Registry.prune at hk
  simp only at hk
  rw [SortedMap.get?_filter, Option.filter_eq_some_iff] at hk
  cases hk.2

theorem registerAll (h : g.Filled) (keys : List Bytes) (id : SignalId) :
    (keys.foldl (fun r key => r.register key id) g).Filled := by
  induction keys generalizing g with
  | nil => exact h
  | cons key rest ih => exact ih (setWaiting (prune g) key _)

end Filled

end Registry

namespace Engine

variable {e : Engine} {wait : Wait}

/-- A read that begins to wait is held. -/
theorem enroll_holds (e : Engine) (r : Reading) : (e.enroll r).2.registry.Holds (e.enroll r).1 := by
  have hlistening := Registry.isListening_fresh e.registry
  refine ⟨?_, fun k hk => Registry.mem_registerAll hlistening (.inl hk)⟩
  unfold enroll
  simp only
  rw [Registry.listening_registerAll]
  exact hlistening

theorem enroll_holds_of_holds (h : e.registry.Holds wait) (r : Reading) :
    (e.enroll r).2.registry.Holds wait := h.fresh.registerAll r.keys

theorem signal_ne_enroll (h : e.registry.Holds wait) (r : Reading) :
    wait.signal ≠ (e.enroll r).1.signal := h.ne_fresh

theorem isRaised_enroll (e : Engine) (r : Reading) :
    (e.enroll r).2.registry.isRaised = e.registry.isRaised := by
  unfold enroll
  simp only
  rw [Registry.raised_registerAll]
  rfl

end Engine

end StreamBroker
