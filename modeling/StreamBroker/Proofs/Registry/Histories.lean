import StreamBroker.Proofs.Histories
import StreamBroker.Proofs.Registry
set_option autoImplicit false

/-!
# The registry over all its histories

Signals are made, registered under keys, withdrawn, raised, heard and given up in any order, the
same one as often as one likes and under whatever keys.  What is registered under a key is then told
by the history alone (`Registry.Stands`): every registration that was made under it and that nothing
has dropped since, in the order in which they were made.  What drops a registration is said once for
each act (`Registry.Step.drops`), and an act that drops what it should not would break
`Registry.registered_act`.
-/

namespace StreamBroker.Registry

/-- What is done with a registry and its signals. -/
inductive Act where
  /-- A signal is made. -/
  | make
  /-- A signal is registered under a key. -/
  | register (key : Bytes) (id : SignalId)
  /-- The registrations of a signal under some keys are withdrawn. -/
  | withdraw (keys : List Bytes) (id : SignalId)
  /-- Whoever is registered under a key is woken. -/
  | notify (key : Bytes)
  /-- A signal is not listened to any more. -/
  | close (id : SignalId)
  /-- A signal is looked at, and lowered. -/
  | listen (id : SignalId)
  deriving DecidableEq

/-- The registry behind an act. -/
def act (g : Registry) : Act → Registry
  | .make => g.fresh.2
  | .register key id => g.register key id
  | .withdraw keys id => g.withdraw keys id
  | .notify key => g.notify key
  | .close id => g.close id
  | .listen id => (g.listen id).2

/-- The registry behind some acts. -/
def run (g : Registry) (acts : List Act) : Registry := acts.foldl act g

/-- An act, with the registry in front of it. -/
structure Step where
  before : Registry
  act : Act

/-- The steps of some acts. -/
def steps (g : Registry) : List Act → List Step
  | [] => []
  | a :: rest => ⟨g, a⟩ :: steps (g.act a) rest

/-! ## What a history says -/

/-- The signal that an act registers under a key. -/
def Act.registers? (key : Bytes) : Act → Option SignalId
  | .register k id => if k = key then some id else none
  | _ => none

/-- Whether a signal is made. -/
def Act.makes : Act → Bool
  | .make => true
  | _ => false

/-- Whether a step drops the registrations of a signal under a key: a registration drops those that
nobody listens to under all keys, a notification does so under its own key, and a withdrawal drops
those of its signal under its keys. -/
def Step.drops (u : Step) (key : Bytes) (id : SignalId) : Bool :=
  match u.act with
  | .register .. => !u.before.isListening id
  | .withdraw keys id' => keys.contains key && id == id'
  | .notify k => k == key && !u.before.isListening id
  | .make | .close _ | .listen _ => false

/-- A registration under a key, with the number of steps in front of it and its signal, was made and
not dropped since. -/
def Stands (past : List Step) (key : Bytes) (p : Nat × SignalId) : Prop :=
  ∃ early u late, past = early ++ u :: late ∧
    (u.act = .register key p.2 ∧ early.length = p.1) ∧ ∀ v ∈ late, v.drops key p.2 = false

/-- Signals are those of the registrations that stand under a key, in the order in which these were
made. -/
def InOrder (past : List Step) (key : Bytes) (ids : List SignalId) : Prop :=
  ∃ standing : List (Nat × SignalId), standing.Pairwise (fun p q => p.1 < q.1) ∧
    (∀ p, p ∈ standing ↔ Stands past key p) ∧ standing.map (·.2) = ids

/-- A signal, which is known by how many were made before it, was made and not given up since. -/
def Listens (past : List Step) (id : SignalId) : Prop :=
  ∃ early u late, past = early ++ u :: late ∧
    (u.act = .make ∧ early.countP (·.act.makes) = id) ∧ ∀ v ∈ late, v.act ≠ .close id

section Past

variable {past : List Step} {u : Step} {key : Bytes} {id : SignalId}

/-- One more step drops what stands, or makes a registration. -/
theorem stands_concat {p : Nat × SignalId} :
    Stands (past ++ [u]) key p ↔
      (Stands past key p ∧ u.drops key p.2 = false) ∨
        u.act = .register key p.2 ∧ past.length = p.1 :=
  exists_split_concat_iff
    (fun early (u : Step) => u.act = .register key p.2 ∧ early.length = p.1)
    fun v => v.drops key p.2 = false

theorem Stands.lt_length {p : Nat × SignalId} (h : Stands past key p) : p.1 < past.length := by
  obtain ⟨early, v, late, rfl, ⟨-, hlength⟩, -⟩ := h
  rw [List.length_append, List.length_cons, hlength]
  omega

theorem listens_concat :
    Listens (past ++ [u]) id ↔
      (Listens past id ∧ u.act ≠ .close id) ∨
        u.act = .make ∧ past.countP (·.act.makes) = id :=
  exists_split_concat_iff
    (fun early (u : Step) => u.act = .make ∧ early.countP (·.act.makes) = id)
    fun v => v.act ≠ .close id

theorem Act.registers?_eq_some_iff {a : Act} :
    a.registers? key = some id ↔ a = .register key id := by
  cases a with
  | register k j =>
      simp only [registers?, Option.ite_none_right_eq_some, Option.some.injEq, register.injEq]
  | _ => exact ⟨nofun, nofun⟩

/-- One more step takes what it drops out of the order, and what it registers comes last. -/
theorem InOrder.concat {ids : List SignalId} (h : InOrder past key ids) (u : Step) :
    InOrder (past ++ [u]) key
      ((ids.filter fun id => !u.drops key id) ++ (u.act.registers? key).toList) := by
  obtain ⟨standing, hsorted, hstanding, rfl⟩ := h
  refine ⟨(standing.filter fun p => !u.drops key p.2) ++
    ((u.act.registers? key).map (past.length, ·)).toList, ?_, fun p => ?_, ?_⟩
  · refine List.pairwise_append.2 ⟨hsorted.filter _, ?_, fun p hp q hq => ?_⟩
    · cases u.act.registers? key with
      | none => exact .nil
      | some id => exact List.pairwise_singleton ..
    · -- What stands was registered earlier than now.
      have hearlier := ((hstanding p).1 (List.mem_filter.1 hp).1).lt_length
      rw [Option.mem_toList, Option.map_eq_some_iff] at hq
      obtain ⟨id, -, rfl⟩ := hq
      exact hearlier
  · rw [stands_concat, List.mem_append, List.mem_filter, hstanding, Bool.not_eq_true',
      Option.mem_toList, Option.map_eq_some_iff]
    refine or_congr_right ⟨?_, ?_⟩
    · rintro ⟨id, hid, rfl⟩
      exact ⟨Act.registers?_eq_some_iff.1 hid, rfl⟩
    · rintro ⟨hact, hlength⟩
      exact ⟨p.2, Act.registers?_eq_some_iff.2 hact, by rw [hlength]⟩
  · rw [List.map_append, List.filter_map]
    cases u.act.registers? key <;> rfl

end Past

/-! ## What an act does -/

section Acts

variable {g : Registry}

/-- Looking at a signal lowers it, or changes nothing. -/
theorem listen_cases (g : Registry) (id : SignalId) :
    (g.listen id).2 = g ∨ (g.listen id).2 = g.lower id := by
  unfold listen
  split
  · split
    · exact .inr rfl
    · exact .inl rfl
  · exact .inl rfl

/-- Every act drops what its step says, keeps all else in order, and puts what it registers last. -/
theorem registered_act (g : Registry) (a : Act) (key : Bytes) :
    (g.act a).registered key =
      ((g.registered key).filter fun id => !(⟨g, a⟩ : Step).drops key id) ++
        (a.registers? key).toList := by
  have hsame : ∀ {g' : Registry}, g'.registered key = g.registered key →
      g'.registered key = (g.registered key).filter (fun _ => !false) ++ [] := by
    intro g' heq
    rw [heq, List.append_nil]
    exact (List.filter_eq_self.2 fun _ _ => rfl).symm
  cases a with
  | make => exact hsame rfl
  | register k id =>
      refine (registered_register g k key id).trans ?_
      simp only [Step.drops, Act.registers?, Bool.not_not]
      split <;> rfl
  | withdraw keys id =>
      by_cases hkey : key ∈ keys
      · refine (registered_withdraw g keys id key).trans ?_
        rw [if_pos hkey]
        simp [Step.drops, Act.registers?, hkey, bne]
      · have hdrops : (⟨g, .withdraw keys id⟩ : Step).drops key = fun _ => false := by
          funext j
          simp [Step.drops, hkey]
        rw [hdrops]
        exact hsame ((registered_withdraw g keys id key).trans (if_neg hkey))
  | notify k =>
      by_cases hkey : k = key
      · refine (registered_notify g k key).trans ?_
        rw [if_pos hkey]
        simp [Step.drops, Act.registers?, hkey]
      · have hdrops : (⟨g, .notify k⟩ : Step).drops key = fun _ => false := by
          funext j
          simp [Step.drops, hkey]
        rw [hdrops]
        exact hsame ((registered_notify g k key).trans (if_neg hkey))
  | close id => exact hsame rfl
  | listen id =>
      refine hsame ?_
      rcases g.listen_cases id with heq | heq
      · rw [act, heq]
      · rw [act, heq]
        rfl

/-! ### Notifications -/

theorem nodup_raise (h : g.raised.Nodup) (id : SignalId) : (g.raise id).raised.Nodup := by
  unfold raise
  split
  case isTrue => exact h
  case isFalse hraised =>
    refine List.nodup_append.2 ⟨h, List.pairwise_singleton .., ?_⟩
    rintro j hj k hk rfl
    rw [List.mem_singleton.1 hk] at hj
    exact hraised (List.contains_iff_mem.2 hj)

theorem nodup_foldl_raise (h : g.raised.Nodup) (ids : List SignalId) :
    (ids.foldl raise g).raised.Nodup := by
  induction ids generalizing g with
  | nil => exact h
  | cons id rest ih => exact ih (nodup_raise h id)

theorem nodup_notify (h : g.raised.Nodup) (key : Bytes) : (g.notify key).raised.Nodup := by
  rcases notify_eq g key with ⟨-, hsame⟩ | hnotify
  · rwa [hsame]
  · rw [hnotify]
    exact nodup_foldl_raise h _

/-- No act raises a signal a second time. -/
theorem nodup_act (h : g.raised.Nodup) (a : Act) : (g.act a).raised.Nodup := by
  cases a with
  | make => exact h
  | register => exact h
  | withdraw keys id =>
      rw [act, (g.withdraw_frame keys id).2]
      exact h
  | notify key => exact nodup_notify h key
  | close id => exact h.filter _
  | listen id =>
      rcases g.listen_cases id with heq | heq
      · rwa [act, heq]
      · rw [act, heq]
        exact h.filter _

/-- A signal that is not raised twice holds one notification or none. -/
theorem count_raised (h : g.raised.Nodup) (id : SignalId) :
    g.raised.count id = if g.isRaised id then 1 else 0 := by
  unfold isRaised
  by_cases hmem : id ∈ g.raised
  · rw [h.count, if_pos hmem, if_pos (List.contains_iff_mem.2 hmem)]
  · rw [List.count_eq_zero.2 hmem, if_neg fun hraised => hmem (List.contains_iff_mem.1 hraised)]

/-- A notification leaves one in every signal that is listened to under its key, and the others as
they are. -/
theorem count_raised_notify (h : g.raised.Nodup) (key : Bytes) (id : SignalId) :
    (g.notify key).raised.count id = if id ∈ g.listened key then 1 else g.raised.count id := by
  have hraised : (g.notify key).isRaised id = (g.isRaised id || (g.listened key).contains id) :=
    isRaised_notify g key id
  rw [count_raised (nodup_notify h key), count_raised h, hraised]
  by_cases hmem : id ∈ g.listened key
  · rw [if_pos hmem, List.contains_iff_mem.2 hmem, Bool.or_true, if_pos rfl]
  · have hnot : (g.listened key).contains id = false :=
      Bool.eq_false_iff.2 fun hcontains => hmem (List.contains_iff_mem.1 hcontains)
    rw [if_neg hmem, hnot, Bool.or_false]

/-! ### Signals that are listened to -/

theorem listening_act_of_other (g : Registry) {a : Act} (hmake : a ≠ .make)
    (hclose : ∀ id, a ≠ .close id) : (g.act a).listening = g.listening := by
  cases a with
  | make => exact absurd rfl hmake
  | register => rfl
  | withdraw keys id => exact (g.withdraw_frame keys id).1
  | notify key => exact g.listening_notify key
  | close id => exact absurd rfl (hclose id)
  | listen id =>
      rcases g.listen_cases id with heq | heq
      · rw [act, heq]
      · rw [act, heq]
        rfl

theorem length_listening_act (g : Registry) (a : Act) :
    (g.act a).listening.length = g.listening.length + if a.makes then 1 else 0 := by
  cases a with
  | make => exact List.length_append
  | close id => exact List.length_set
  | register | withdraw | notify | listen =>
      exact congrArg List.length (g.listening_act_of_other nofun nofun)

theorem isListening_make (g : Registry) (id : SignalId) :
    (g.act .make).isListening id ↔ g.isListening id ∨ g.listening.length = id := by
  rcases Nat.lt_trichotomy id g.listening.length with hlt | rfl | hgt
  · have hold : (g.act .make).isListening id = g.isListening id := g.isListening_fresh_of_lt hlt
    rw [hold, or_iff_left (Nat.ne_of_gt hlt)]
  · exact iff_of_true g.isListening_fresh (.inr rfl)
  · -- Nobody listens to a signal that is not made yet.
    refine iff_of_false (fun h => ?_) ?_
    · have hlt := lt_of_isListening h
      rw [length_listening_act] at hlt
      exact Nat.not_lt.2 hgt hlt
    · rintro (h | rfl)
      · exact Nat.lt_asymm hgt (lt_of_isListening h)
      · exact Nat.lt_irrefl _ hgt

/-- Somebody listens to a signal that was listened to and is not given up, or that is made now. -/
theorem isListening_act (g : Registry) (a : Act) (id : SignalId) :
    (g.act a).isListening id ↔
      g.isListening id ∧ a ≠ .close id ∨ a = .make ∧ g.listening.length = id := by
  have hother : a ≠ .make → (∀ j, a ≠ .close j) → ((g.act a).isListening id ↔
      g.isListening id ∧ a ≠ .close id ∨ a = .make ∧ g.listening.length = id) := by
    intro hmake hclose
    unfold isListening
    rw [g.listening_act_of_other hmake hclose]
    simp [hmake, hclose]
  cases a with
  | make => simp [isListening_make]
  | close j =>
      by_cases hj : id = j
      · subst hj
        simp [act, isListening_close_self]
      · have hclose : (g.act (.close j)).isListening id = g.isListening id :=
          isListening_close g hj
        simp [hclose, Ne.symm hj]
  | register | withdraw | notify | listen => exact hother nofun nofun

theorem filled_act (h : g.Filled) (a : Act) : (g.act a).Filled := by
  cases a with
  | make | close => exact h
  | register key id => exact Filled.setWaiting (.prune g) key _
  | withdraw keys id => exact h.withdraw keys id
  | notify key => exact h.notify key
  | listen id =>
      rcases g.listen_cases id with heq | heq
      · rwa [act, heq]
      · rw [act, heq]
        exact h

end Acts

/-! ## Histories -/

/-- A history tells which signals are listened to and what is registered under each key, and no
signal is raised twice. -/
structure Accounts (past : List Step) (g : Registry) : Prop where
  made : g.listening.length = past.countP (·.act.makes)
  listening : ∀ id, g.isListening id ↔ Listens past id
  nodup : g.raised.Nodup
  filled : g.Filled
  inOrder : ∀ key, InOrder past key (g.registered key)

theorem Accounts.nothing : Accounts [] ∅ := by
  refine ⟨rfl, fun id => ⟨nofun, ?_⟩, .nil, .empty,
    fun key => ⟨[], .nil, fun p => ⟨nofun, ?_⟩, rfl⟩⟩
  · rintro ⟨early, u, late, hsplit, -⟩
    cases early <;> cases hsplit
  · rintro ⟨early, u, late, hsplit, -⟩
    cases early <;> cases hsplit

theorem Accounts.concat {past : List Step} {g : Registry} (h : Accounts past g) (a : Act) :
    Accounts (past ++ [⟨g, a⟩]) (g.act a) := by
  refine ⟨?_, fun id => ?_, nodup_act h.nodup a, filled_act h.filled a, fun key => ?_⟩
  · rw [length_listening_act, h.made, List.countP_append, List.countP_singleton]
  · rw [isListening_act, listens_concat, h.listening, h.made]
  · rw [registered_act]
    exact (h.inOrder key).concat ⟨g, a⟩

/-- What every act keeps holds behind all acts. -/
theorem Accounts.run {past : List Step} {g : Registry} (h : Accounts past g) (acts : List Act) :
    Accounts (past ++ steps g acts) (g.run acts) := by
  induction acts generalizing past g with
  | nil =>
      rw [steps, List.append_nil]
      exact h
  | cons a rest ih =>
      rw [steps, List.append_cons]
      exact ih (h.concat a)

/-- Whatever acts there were, in any order and with any signals under any keys: somebody listens to
the signals that were made and not given up since, no key is kept without registrations, and the
registrations under a key are those that were made under it and not dropped since, in the order in
which they were made.

From there a notification leaves every signal that is registered under its key and listened to with
one notification, and every other signal as it is, and drops the registrations under its key that
nobody listens to and no others.  A withdrawal drops the registrations of its signal under its keys
and no others, and touches no signal.  A registration drops those that nobody listens to, under all
keys, puts its own behind the others, and touches no signal.  What is counted under a key is what is
listened to there. -/
theorem registrations_stand_in_order (acts : List Act) :
    let past := steps ∅ acts
    let g := run ∅ acts
    (∀ id, g.isListening id ↔ Listens past id) ∧
      (∀ key, g.waiting.get? key ≠ some [] ∧ InOrder past key (g.registered key)) ∧
      (∀ key,
        (∀ id, (g.notify key).raised.count id =
          if id ∈ g.listened key then 1 else g.raised.count id) ∧
        (g.notify key).listening = g.listening ∧
        ∀ k, (g.notify key).registered k = if k = key then g.listened k else g.registered k) ∧
      (∀ keys id,
        (g.withdraw keys id).raised = g.raised ∧ (g.withdraw keys id).listening = g.listening ∧
        ∀ k, (g.withdraw keys id).registered k =
          if k ∈ keys then (g.registered k).filter (· != id) else g.registered k) ∧
      (∀ key id,
        (g.register key id).raised = g.raised ∧ (g.register key id).listening = g.listening ∧
        ∀ k, (g.register key id).registered k = g.listened k ++ if k = key then [id] else []) ∧
      ∀ key, g.count key = (g.listened key).length := by
  intro past g
  have haccounts : Accounts past g := Accounts.nothing.run acts
  refine ⟨haccounts.listening, fun key => ⟨haccounts.filled key, haccounts.inOrder key⟩,
    fun key => ⟨count_raised_notify haccounts.nodup key, g.listening_notify key, fun k => ?_⟩,
    fun keys id => ⟨(g.withdraw_frame keys id).2, (g.withdraw_frame keys id).1,
      g.registered_withdraw keys id⟩,
    fun key id => ⟨rfl, rfl, fun k => ?_⟩, fun key => List.countP_eq_length_filter⟩
  · rw [registered_notify]
    simp only [eq_comm, listened]
  · rw [registered_register]
    simp only [eq_comm, listened]

end StreamBroker.Registry
