import StreamBroker.Proofs.Store.GroupRead
set_option autoImplicit false

/-!
# The entries under a key as a list

What the commands do to the entries of a stream, said on the list of them (`Store.listed`): an
addition appends, a deletion filters, a trimming drops from the front, and nothing else touches the
list (`Relists`).
-/

namespace StreamBroker

namespace SortedMap

variable {κ ν : Type} [Ord κ] [Std.TransOrd κ]

theorem put_of_above {k : κ} (v : ν) {l : List (κ × ν)} (h : ∀ p ∈ l, compare p.1 k = .lt) :
    put k v l = l ++ [(k, v)] := by
  induction l with
  | nil => rfl
  | cons p rest ih =>
      obtain ⟨hfirst, hrest⟩ := List.forall_mem_cons.1 h
      have hgt : compare k p.1 = .gt := Std.OrientedCmp.gt_iff_lt.2 hfirst
      unfold put
      simp only [hgt]
      rw [ih hrest]
      rfl

/-- Binding a key above all others appends. -/
theorem toList_insert_of_above {m : SortedMap κ ν} {k : κ} (v : ν)
    (h : ∀ p ∈ m.toList, compare p.1 k = .lt) : (m.insert k v).toList = m.toList ++ [(k, v)] :=
  put_of_above v h

/-- Unbinding keys filters the bindings. -/
theorem toList_eraseAll [Std.LawfulEqOrd κ] [DecidableEq κ] (m : SortedMap κ ν) (ks : List κ) :
    (m.eraseAll ks).2.toList = m.toList.filter fun p => p.1 ∉ ks := by
  refine eq_of_pairwise_of_mem_iff (m.eraseAll ks).2.sorted (m.sorted.filter _) fun p => ?_
  rw [mem_toList_iff, get?_eraseAll, List.mem_filter, ← mem_toList_iff, decide_eq_true_iff]

end SortedMap

namespace Store

/-- The entries under a key, in order; a key without a stream has none. -/
def listed (s : Store) (key : Bytes) : List (EntryId × Body) :=
  match s.get? key with
  | some stream => stream.entries.toList
  | none => []

variable {s t : Store} {key : Bytes} {stream : Stream}

theorem listed_of_get? (h : s.get? key = some stream) : s.listed key = stream.entries.toList := by
  rw [listed, h]

theorem listed_of_missing (h : s.get? key = none) : s.listed key = [] := by
  rw [listed, h]

theorem length_eq (s : Store) (key : Bytes) : s.length key = (s.listed key).length := by
  unfold length listed
  cases s.get? key <;> rfl

theorem mem_listed {p : EntryId × Body} :
    p ∈ s.listed key ↔ ∃ stream, s.get? key = some stream ∧ stream.entries.get? p.1 = some p.2 := by
  unfold listed
  cases s.get? key with
  | none => simp
  | some stream => simp only [Option.some.injEq, exists_eq_left', ← SortedMap.mem_toList_iff]

/-- The entries of a stream stand in increasing order. -/
theorem pairwise_listed (s : Store) (key : Bytes) :
    (s.listed key).Pairwise fun p q => p.1 < q.1 := by
  unfold listed
  cases s.get? key with
  | none => exact .nil
  | some stream => exact stream.entries.sorted

theorem listed_insert_self (s : Store) (key : Bytes) (stream : Stream) :
    listed (s.insert key stream) key = stream.entries.toList :=
  listed_of_get? (SortedMap.get?_insert_self ..)

theorem listed_insert_of_ne (s : Store) {key k : Bytes} (stream : Stream) (h : key ≠ k) :
    listed (s.insert key stream) k = s.listed k := by
  unfold listed
  rw [SortedMap.get?_insert_of_ne s stream h]

/-! ## What changes no entry -/

/-- The same entries under every key. -/
def Relists (s t : Store) : Prop := ∀ key, t.listed key = s.listed key

theorem Relists.refl (s : Store) : s.Relists s := fun _ => rfl

theorem Relists.trans {u : Store} (h₁ : s.Relists t) (h₂ : t.Relists u) : s.Relists u :=
  fun key => (h₂ key).trans (h₁ key)

theorem relists_insert {stream' : Stream} (hget : s.get? key = some stream)
    (hsame : stream'.entries = stream.entries) : s.Relists (s.insert key stream') := by
  intro k
  by_cases hk : key = k
  · subst hk
    rw [listed_insert_self, hsame, listed_of_get? hget]
  · exact listed_insert_of_ne s stream' hk

theorem relists_putGroup (name : Bytes) (g : Group) (hget : s.get? key = some stream) :
    s.Relists (s.putGroup key stream name g) :=
  relists_insert hget rfl

theorem acknowledge_relists (s : Store) (key group : Bytes) (ids : List String) :
    s.Relists (s.acknowledge key group ids).2 := by
  refine (s.acknowledge_intact key group ids).behind (.refl s) fun n t h => ?_
  obtain ⟨ids', -, ⟨-, -, rfl⟩ | ⟨stream, g, hget, -, -, rfl⟩⟩ := acknowledge_eq_ok h
  · exact .refl t
  · exact relists_putGroup _ _ hget

theorem createGroup_relists (s : Store) (key : Bytes) (token : String) (group : Bytes) :
    s.Relists (s.createGroup key token group).2 := by
  refine (s.createGroup_intact key group token).behind (.refl s) fun _ t h => ?_
  obtain ⟨stream, start, hget, -, -, rfl⟩ := createGroup_eq_ok h
  exact relists_putGroup _ _ hget

theorem deleteConsumer_relists (s : Store) (key group consumer : Bytes) :
    s.Relists (s.deleteConsumer key group consumer).2 := by
  refine (s.deleteConsumer_intact key group consumer).behind (.refl s) fun b t h => ?_
  obtain ⟨stream, g, hget, -, -, rfl⟩ := deleteConsumer_eq_ok h
  split
  · exact relists_putGroup _ _ hget
  · exact .refl s

theorem destroyGroup_relists (s : Store) (key group : Bytes) :
    s.Relists (s.destroyGroup key group).2 := by
  refine (s.destroyGroup_intact key group).behind (.refl s) fun b t h => ?_
  obtain ⟨stream, hget, -, rfl⟩ := destroyGroup_eq_ok h
  exact relists_insert hget rfl

/-- A group read hands entries out and keeps them all. -/
theorem serveAll_relists {consumer : Consumer} {count : Option UInt64} {noAck : Bool}
    (cursors : List (Bytes × Cursor)) (s : Store) :
    s.Relists (serveAll consumer count noAck cursors s).2 := by
  refine serveAll_keeps (P := s.Relists) (fun t v u hkept hserved => ?_) cursors s (.refl s)
  cases hserved with
  | intro cursor hget hg => exact hkept.trans (relists_putGroup _ _ hget)

/-! ## What changes entries -/

/-- An addition appends, where the last identifier is above every entry. -/
theorem add_listed {request : Option String} {body : Body} {clock : Option UInt64} {id : EntryId}
    (h : s.add key request body clock = (.ok id, t))
    (hbelow : ∀ p ∈ s.listed key, p.1 ≤ s.lastId key) :
    t.listed key = s.listed key ++ [(id, body)] ∧ ∀ k, key ≠ k → t.listed k = s.listed k := by
  obtain ⟨hlt, rfl⟩ := add_eq_ok h
  refine ⟨?_, fun k hk => listed_insert_of_ne s _ hk⟩
  have hentries : ((s.get? key).getD .fresh).entries.toList = s.listed key := by
    unfold listed
    cases s.get? key <;> rfl
  rw [listed_insert_self, ← hentries]
  refine SortedMap.toList_insert_of_above body fun p hp => ?_
  rw [hentries] at hp
  exact EntryId.lt_of_le_of_lt (hbelow p hp) hlt

/-- A deletion takes away the entries that are named, and tells how many that were. -/
theorem delete_listed {ids : List String} {n : Nat} (h : s.delete key ids = (.ok n, t)) :
    ∃ ids', EntryId.readAll ids = .ok ids' ∧
      t.listed key = ((s.listed key).filter fun p => p.1 ∉ ids') ∧
      (t.listed key).length + n = (s.listed key).length ∧
      ∀ k, key ≠ k → t.listed k = s.listed k := by
  obtain ⟨ids', hids, ⟨hmissing, rfl, rfl⟩ | ⟨stream, hget, rfl, rfl⟩⟩ := delete_eq_ok h
  · refine ⟨ids', hids, ?_, rfl, fun _ _ => rfl⟩
    rw [listed_of_missing hmissing]
    rfl
  · refine ⟨ids', hids, ?_, ?_, fun k hk => listed_insert_of_ne s _ hk⟩
    · rw [listed_insert_self, listed_of_get? hget]
      exact SortedMap.toList_eraseAll ..
    · rw [listed_insert_self, listed_of_get? hget]
      exact SortedMap.eraseAll_size ids' stream.entries

/-- A trimming takes away the oldest entries, and tells how many. -/
theorem trim_listed (s : Store) (key : Bytes) (count : UInt64) :
    (s.trim key count).2.listed key =
        (s.listed key).drop ((s.listed key).length - count.toNat) ∧
      (s.trim key count).1 = (s.listed key).length - count.toNat ∧
      ∀ k, key ≠ k → (s.trim key count).2.listed k = s.listed k := by
  unfold trim
  cases hget : s.get? key with
  | none =>
      rw [listed_of_missing hget]
      exact ⟨List.drop_nil.symm, (Nat.zero_sub _).symm, fun _ _ => rfl⟩
  | some stream =>
      simp only [listed_of_get? hget]
      refine ⟨?_, rfl, fun k hk => listed_insert_of_ne s _ hk⟩
      rw [listed_insert_self]
      rfl

end Store

end StreamBroker
