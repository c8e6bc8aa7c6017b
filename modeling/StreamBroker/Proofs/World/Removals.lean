import StreamBroker.Proofs.Scan.Records
import StreamBroker.Proofs.World.Ledger
set_option autoImplicit false

/-!
# The entries of a stream as a log without what was removed

A deletion takes the entries that it names, a trimming takes the oldest.  What a turn does to the
entries under a key is said once, for every turn (`Turn.Edits`): it takes away what it removed,
appends what it added, and tells how many went.  Turn by turn the entries of a run are its additions
without what was removed since (`remaining`).
-/

namespace StreamBroker

/-- What takes entries from a stream, with the number that is told of it. -/
inductive Removal where
  /-- Every entry that is named goes. -/
  | named (ids : List EntryId) (told : Nat)
  /-- The oldest entries go, but for so many of the newest. -/
  | allBut (count : Nat) (told : Nat)

namespace Removal

/-- What a removal leaves of a list. -/
def left : Removal → List (EntryId × Body) → List (EntryId × Body)
  | named ids _, l => l.filter fun p => p.1 ∉ ids
  | allBut count _, l => l.drop (l.length - count)

/-- Whether a removal takes an entry out of a list. -/
def Takes (x : Removal) (l : List (EntryId × Body)) (p : EntryId × Body) : Prop :=
  match x with
  | named ids _ => p.1 ∈ ids
  | allBut count _ => p ∈ l.take (l.length - count)

/-- The number that is told of a removal. -/
def told : Removal → Nat
  | named _ told | allBut _ told => told

theorem left_sublist (x : Removal) (l : List (EntryId × Body)) : (x.left l).Sublist l := by
  cases x with
  | named ids told => exact List.filter_sublist
  | allBut count told => exact List.drop_sublist ..

theorem mem_left {x : Removal} {l : List (EntryId × Body)} {p : EntryId × Body}
    (hsorted : l.Pairwise fun p q => p.1 < q.1) : p ∈ x.left l ↔ p ∈ l ∧ ¬ x.Takes l p := by
  cases x with
  | named ids told => rw [left, Takes, List.mem_filter, decide_eq_true_iff]
  | allBut count told =>
      have hsplit : l.take (l.length - count) ++ l.drop (l.length - count) = l :=
        List.take_append_drop ..
      have hcross := (List.pairwise_append.1 (hsplit.symm ▸ hsorted)).2.2
      constructor
      · intro hp
        refine ⟨List.mem_of_mem_drop hp, fun htaken => ?_⟩
        exact EntryId.lt_irrefl _ (hcross p htaken p hp)
      · rintro ⟨hp, hnot⟩
        rw [← hsplit] at hp
        exact (List.mem_append.1 hp).resolve_left hnot

end Removal

namespace Turn

/-- The removal under a key that a turn succeeded in. -/
def removal? (t : Turn) (key : Bytes) : Option Removal :=
  match t.move, t.reply with
  | .delete k ids, .counted (.ok told) =>
    if k = key then (EntryId.readAll ids).toOption.map (Removal.named · told) else none
  | .trim k count, .counted (.ok told) =>
    if k = key then some (.allBut count.toNat told) else none
  | _, _ => none

/-- How many entries a turn was told to have deleted under a key. -/
def deleted (t : Turn) (key : Bytes) : Nat :=
  match t.removal? key with
  | some (.named _ told) => told
  | _ => 0

/-- How many entries a turn was told to have trimmed away under a key. -/
def trimmed (t : Turn) (key : Bytes) : Nat :=
  match t.removal? key with
  | some (.allBut _ told) => told
  | _ => 0

/-- What a turn makes of the entries under a key. -/
def edit (t : Turn) (key : Bytes) (l : List (EntryId × Body)) : List (EntryId × Body) :=
  ((t.removal? key).elim l (·.left l)) ++ (t.addition? key).toList

/-- Whether a turn took an entry away. -/
def Removes (t : Turn) (key : Bytes) (p : EntryId × Body) : Prop :=
  ∃ x, t.removal? key = some x ∧ x.Takes (t.before.store.listed key) p

theorem deleted_add_trimmed (t : Turn) (key : Bytes) :
    t.deleted key + t.trimmed key = ((t.removal? key).map Removal.told).getD 0 := by
  unfold deleted trimmed
  rcases t.removal? key with _ | _ | _ <;> simp [Removal.told]

end Turn

/-- The additions under a key without what was removed since, in the order in which they were
added. -/
def remaining (turns : List Turn) (key : Bytes) : List (EntryId × Body) :=
  turns.foldl (fun l t => t.edit key l) []

theorem remaining_concat (turns : List Turn) (t : Turn) (key : Bytes) :
    remaining (turns ++ [t]) key = t.edit key (remaining turns key) := by
  unfold remaining
  rw [List.foldl_append]
  rfl

/-- An entry was added and not removed since. -/
def Remains (turns : List Turn) (key : Bytes) (p : EntryId × Body) : Prop :=
  ∃ early t late, turns = early ++ t :: late ∧ t.addition? key = some p ∧
    ∀ u ∈ late, ¬ u.Removes key p

/-- One more turn takes away what remains, or adds to it. -/
theorem remains_concat {turns : List Turn} {t : Turn} {key : Bytes} {p : EntryId × Body} :
    Remains (turns ++ [t]) key p ↔
      (Remains turns key p ∧ ¬ t.Removes key p) ∨ t.addition? key = some p :=
  exists_split_concat_iff (fun _ (u : Turn) => u.addition? key = some p)
    fun u => ¬ u.Removes key p

/-! ## What a turn does to the entries under a key -/

/-- A turn takes away what it removed and appends what it added, and the numbers that it tells are
those of the entries that went. -/
structure Turn.Edits (t : Turn) (key : Bytes) : Prop where
  listed : t.after.store.listed key = t.edit key (t.before.store.listed key)
  size : (t.after.store.listed key).length + t.deleted key + t.trimmed key =
    (t.before.store.listed key).length + (t.addition? key).toList.length
  /-- What removes does not add. -/
  apart : t.removal? key = none ∨ t.addition? key = none

namespace Turn

variable {t : Turn} {key : Bytes}

theorem edits_of_relists (hadd : t.addition? key = none) (hremove : t.removal? key = none)
    (hsame : t.after.store.listed key = t.before.store.listed key) : t.Edits key := by
  refine ⟨?_, ?_, .inl hremove⟩
  · rw [hsame, edit, hremove, hadd]
    exact (List.append_nil _).symm
  · rw [Nat.add_assoc, deleted_add_trimmed, hsame, hremove, hadd]
    rfl

theorem edits_of_removal {x : Removal} (hremove : t.removal? key = some x)
    (hadd : t.addition? key = none)
    (hleft : t.after.store.listed key = x.left (t.before.store.listed key))
    (htold : (t.after.store.listed key).length + x.told = (t.before.store.listed key).length) :
    t.Edits key := by
  refine ⟨?_, ?_, .inr hadd⟩
  · rw [hleft, edit, hremove, hadd]
    exact (List.append_nil _).symm
  · rw [Nat.add_assoc, deleted_add_trimmed, hremove, hadd]
    exact htold

theorem edits_of_reading {r : Reading} (h : t.reading? = some r) (key : Bytes) : t.Edits key := by
  have hremove : t.removal? key = none := by
    obtain ⟨w, m⟩ := t
    cases m with
    | delete | trim => cases h
    | _ => rfl
  refine edits_of_relists (addition?_of_reading h key) hremove ?_
  obtain ⟨i, progress, -, -, hstore⟩ := outcome_of_reading h
  rw [hstore]
  cases r.consumer with
  | none => rfl
  | some consumer =>
      rw [Store.attempt_group_store]
      exact Store.serveAll_relists r.cursors _ key

theorem edits_add {w : World} {k : Bytes} {request : Option String} {body : Body}
    {clock : Option UInt64} (hbelow : ∀ p ∈ w.store.listed key, p.1 ≤ w.store.lastId key) :
    Edits ⟨w, .add k request body clock⟩ key := by
  rcases hadd : w.store.add k request body clock with ⟨refusal | id, s⟩
  · obtain rfl := (w.store.add_intact ..).eq hadd
    refine edits_of_relists ?_ rfl ?_
    · simp only [addition?, reply, World.step, Engine.add, hadd]
    · simp only [after, World.step, Engine.add, hadd]
  · have haddition := addition?_of_add (t := ⟨w, .add k request body clock⟩) rfl hadd key
    have hafter : (after ⟨w, .add k request body clock⟩).store = s := by
      simp only [after, World.step, Engine.add, hadd]
    by_cases hkey : k = key
    · subst hkey
      obtain ⟨happend, -⟩ := Store.add_listed hadd hbelow
      rw [if_pos rfl] at haddition
      refine ⟨?_, ?_, .inl rfl⟩
      · rw [hafter, happend, edit, haddition]
        rfl
      · rw [Nat.add_assoc, deleted_add_trimmed, hafter, happend, haddition, List.length_append]
        rfl
    · rw [if_neg hkey] at haddition
      refine edits_of_relists haddition rfl ?_
      obtain ⟨-, rfl⟩ := Store.add_eq_ok hadd
      rw [hafter]
      exact Store.listed_insert_of_ne w.store _ hkey

theorem edits_delete (w : World) (k : Bytes) (ids : List String) (key : Bytes) :
    Edits ⟨w, .delete k ids⟩ key := by
  have hafter : (after ⟨w, .delete k ids⟩).store = (w.store.delete k ids).2 := rfl
  have hreply : reply ⟨w, .delete k ids⟩ = .counted (w.store.delete k ids).1 := rfl
  rcases hdelete : w.store.delete k ids with ⟨refusal | told, s⟩
  · obtain rfl := (w.store.delete_intact ..).eq hdelete
    rw [hdelete] at hafter hreply
    refine edits_of_relists rfl ?_ ?_
    · simp only [removal?, hreply]
    · rw [hafter]
  · obtain ⟨ids', hids, hhere, hsize, helse⟩ := Store.delete_listed hdelete
    rw [hdelete] at hafter hreply
    by_cases hkey : k = key
    · subst hkey
      have hremove : removal? ⟨w, .delete k ids⟩ k = some (.named ids' told) := by
        simp only [removal?, hreply, if_true, hids, Except.toOption, Option.map_some]
      refine edits_of_removal hremove rfl ?_ ?_
      · rw [hafter]
        exact hhere
      · rw [hafter]
        exact hsize
    · refine edits_of_relists rfl ?_ ?_
      · simp only [removal?, hreply, if_neg hkey]
      · rw [hafter]
        exact helse key hkey

theorem edits_trim (w : World) (k : Bytes) (count : UInt64) (key : Bytes) :
    Edits ⟨w, .trim k count⟩ key := by
  obtain ⟨hhere, htold, helse⟩ := Store.trim_listed w.store k count
  by_cases hkey : k = key
  · subst hkey
    have hremove : removal? ⟨w, .trim k count⟩ k =
        some (.allBut count.toNat (w.store.trim k count).1) :=
      if_pos rfl
    refine edits_of_removal hremove rfl hhere ?_
    change (Store.listed (w.store.trim k count).2 k).length + (w.store.trim k count).1 = _
    rw [hhere, htold, List.length_drop]
    exact Nat.sub_add_cancel (Nat.sub_le ..)
  · exact edits_of_relists rfl (if_neg hkey) (helse key hkey)

/-- What every turn does to the entries under a key, where the last identifier is above them. -/
theorem edits (t : Turn) (key : Bytes)
    (hbelow : ∀ p ∈ t.before.store.listed key, p.1 ≤ t.before.store.lastId key) : t.Edits key := by
  cases hreading : t.reading? with
  | some r => exact edits_of_reading hreading key
  | none =>
      obtain ⟨w, m⟩ := t
      cases m with
      | add k request body clock => exact edits_add hbelow
      | delete k ids => exact edits_delete ..
      | trim k count => exact edits_trim ..
      | acknowledge k group ids =>
          exact edits_of_relists rfl rfl (w.store.acknowledge_relists k group ids key)
      | deleteConsumer k group consumer =>
          exact edits_of_relists rfl rfl (w.store.deleteConsumer_relists k group consumer key)
      | destroyGroup k group =>
          exact edits_of_relists rfl rfl (w.store.destroyGroup_relists k group key)
      | createGroup k token group =>
          exact edits_of_relists rfl rfl (w.store.createGroup_relists k token group key)
      | length | pendingCount | page | begin | hear | expire | proceed | cancel | elapse =>
          refine edits_of_relists rfl rfl ?_
          have hstore := World.store_of_not_isCommand hreading not_false
          exact congrArg (Store.listed · key) hstore

end Turn

/-! ## The entries of a run -/

/-- The entries under a key agree with the turns so far. -/
structure Accounts (turns : List Turn) (key : Bytes) (l : List (EntryId × Body)) : Prop where
  left : l = remaining turns key
  order : l.Sublist (additions turns key)
  mem : ∀ p, p ∈ l ↔ Remains turns key p
  size : l.length + total turns (·.deleted key) + total turns (·.trimmed key) =
    (additions turns key).length

theorem Accounts.concat {turns : List Turn} {t : Turn} {key : Bytes}
    (h : Accounts turns key (t.before.store.listed key)) (hedits : t.Edits key) :
    Accounts (turns ++ [t]) key (t.after.store.listed key) := by
  have hsorted := t.before.store.pairwise_listed key
  have hkept : ((t.removal? key).elim (t.before.store.listed key)
      (·.left (t.before.store.listed key))).Sublist (t.before.store.listed key) := by
    cases t.removal? key with
    | none => exact .refl _
    | some x => exact x.left_sublist _
  refine ⟨?_, ?_, ?_, ?_⟩
  · rw [hedits.listed, remaining_concat, ← h.left]
  · rw [hedits.listed, additions_concat]
    exact (hkept.trans h.order).append (.refl _)
  · intro p
    rw [hedits.listed, remains_concat, ← h.mem, Turn.edit, List.mem_append, Option.mem_toList]
    refine or_congr ?_ Iff.rfl
    unfold Turn.Removes
    cases t.removal? key with
    | none => simp
    | some x => simp only [Option.elim_some, Removal.mem_left hsorted, Option.some.injEq,
        exists_eq_left']
  · have hbefore := h.size
    have hturn := hedits.size
    rw [total_concat, total_concat, additions_concat, List.length_append]
    omega

/-- In every run the entries under a key agree with the turns. -/
theorem accounts_run (moves : List Move) (key : Bytes) :
    Accounts (World.start.turns moves) key ((World.start.run moves).store.listed key) := by
  refine World.run_induction (w := World.start)
    (P := fun turns w => Accounts turns key (w.store.listed key)) ?_ ?_
  · refine ⟨rfl, .slnil, fun p => ⟨nofun, ?_⟩, rfl⟩
    rintro ⟨early, t, late, hsplit, -⟩
    cases early <;> cases hsplit
  · intro past m future _ hpast
    refine hpast.concat (t := ⟨World.start.run past, m⟩) (Turn.edits _ key fun p hp => ?_)
    obtain ⟨stream, hget, hentry⟩ := Store.mem_listed.1 hp
    have hrecorded := recorded_run past key
    rw [Store.lastId_eq]
    exact hrecorded.le_lastId p (hrecorded.entries stream hget p.1 p.2 hentry)

/-- In every run the entries under a key are the additions under it, with their bodies and in the
order in which they were added, without those that a deletion named or a trimming took since.  So
the length that is told is the number of additions without what the deletions and the trimmings told
to have removed, and over the engine of the run a session answers a scan of the whole stream with
exactly these entries, upwards in that order and downwards reversed. -/
theorem entries_are_additions_without_removals (moves : List Move) (key : Bytes) :
    (World.start.run moves).store.listed key = remaining (World.start.turns moves) key ∧
    (remaining (World.start.turns moves) key).Sublist (additions (World.start.turns moves) key) ∧
    (∀ p, p ∈ (World.start.run moves).store.listed key ↔
      Remains (World.start.turns moves) key p) ∧
    (∃ n, ((World.start.run moves).step (.length key)).1 = .counted (.ok n) ∧
      n + total (World.start.turns moves) (·.deleted key) +
        total (World.start.turns moves) (·.trimmed key) =
      (additions (World.start.turns moves) key).length) ∧
    ∀ (h : Hub) (offset : UInt64) (d : Direction),
      (Session.operate (.range d [.whole key offset])).run
          { h with engine := (World.start.run moves).engine } =
        (.records [⟨.range (.whole key offset),
          .ok ((d.arrange (remaining (World.start.turns moves) key)).map
            fun p => .ok (.ofEntry key p))⟩],
        Hub.count { h with engine := (World.start.run moves).engine } .shared) := by
  have haccounts := accounts_run moves key
  refine ⟨haccounts.left, haccounts.left ▸ haccounts.order, haccounts.mem, ?_, ?_⟩
  · refine ⟨_, rfl, ?_⟩
    rw [Store.length_eq]
    exact haccounts.size
  · intro h offset d
    rw [run_operate_whole, ← haccounts.left]

/-- An entry that is deleted twice and named twice, one that is absent, and trimmings to fewer and
to more than there are. -/
example :
    remaining (World.start.turns
      [.add [97] (some "1-1") (.ofList [([102], [118])]) (some 0),
        .add [97] (some "1-2") (.ofList [([102], [118])]) (some 0),
        .add [97] (some "1-3") (.ofList [([102], [118])]) (some 0),
        .delete [97] ["1-2", "1-2", "7-7"], .delete [97] ["1-2"], .trim [97] 1,
        .add [97] (some "1-4") (.ofList [([102], [118])]) (some 0), .trim [97] 5]) [97] =
      [(⟨1, 3⟩, .ofList [([102], [118])]), (⟨1, 4⟩, .ofList [([102], [118])])] := by
  decide +kernel

end StreamBroker
