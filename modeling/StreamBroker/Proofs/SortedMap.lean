import StreamBroker.SortedMap
set_option autoImplicit false

/-!
# Parts of finite maps

What the operations that only take bindings away leave behind is part of what was there (`⊆`), and
the bindings above a key are those of the map, in order.  An order on keys is used through
`compare` alone, so everything here holds of every map of the store.
-/

namespace StreamBroker.SortedMap

variable {κ ν : Type} [Ord κ]

/-! ## One map as part of another -/

/-- Every binding of the one map is a binding of the other. -/
instance : HasSubset (SortedMap κ ν) :=
  ⟨fun m n => ∀ k v, m.get? k = some v → n.get? k = some v⟩

theorem subset_refl (m : SortedMap κ ν) : m ⊆ m := fun _ _ h => h

theorem subset_trans {l m n : SortedMap κ ν} (h₁ : l ⊆ m) (h₂ : m ⊆ n) : l ⊆ n :=
  fun k v h => h₂ k v (h₁ k v h)

theorem contains_iff {m : SortedMap κ ν} {k : κ} : m.contains k ↔ ∃ v, m.get? k = some v :=
  Option.isSome_iff_exists

theorem contains_of_subset {m n : SortedMap κ ν} (h : m ⊆ n) {k : κ} (hk : m.contains k) :
    n.contains k := by
  obtain ⟨v, hv⟩ := contains_iff.1 hk
  exact contains_iff.2 ⟨v, h k v hv⟩

/-- A part of a map binds what it contains as the map does. -/
theorem get?_of_subset {m n : SortedMap κ ν} (h : m ⊆ n) {k : κ} {v : ν} :
    m.get? k = some v ↔ n.get? k = some v ∧ m.contains k := by
  refine ⟨fun hm => ⟨h k v hm, contains_iff.2 ⟨v, hm⟩⟩, ?_⟩
  rintro ⟨hn, hk⟩
  obtain ⟨w, hw⟩ := contains_iff.1 hk
  obtain rfl := Option.some.inj (hn.symm.trans (h k w hw))
  exact hw

variable [Std.TransOrd κ] [Std.LawfulEqOrd κ]

theorem drop_subset (m : SortedMap κ ν) (n : Nat) : m.drop n ⊆ m := by
  intro k v h
  rw [← mem_toList_iff] at h ⊢
  exact List.mem_of_mem_drop h

theorem filter_subset (m : SortedMap κ ν) (keep : κ → ν → Bool) : m.filter keep ⊆ m := by
  intro k v h
  rw [get?_filter, Option.filter_eq_some_iff] at h
  exact h.1

theorem eraseAll_subset (ks : List κ) (m : SortedMap κ ν) : (m.eraseAll ks).2 ⊆ m := by
  induction ks generalizing m with
  | nil => exact subset_refl m
  | cons k rest ih =>
    unfold eraseAll
    split
    case isTrue => exact subset_trans (ih (m.erase k)) (filter_subset m _)
    case isFalse => exact ih m

/-! ## Insertion and removal -/

/-- Binding a key to what it is bound to already changes nothing. -/
theorem insert_eq_self {m : SortedMap κ ν} {k : κ} {v : ν} (h : m.get? k = some v) :
    m.insert k v = m := by
  apply ext_get?
  intro k'
  rw [get?_insert]
  split
  case isTrue hk =>
    obtain rfl := Std.LawfulEqCmp.eq_of_compare hk
    exact h.symm
  case isFalse => rfl

theorem contains_insert_self (m : SortedMap κ ν) (k : κ) (v : ν) : (m.insert k v).contains k := by
  simp [contains, get?_insert_self]

theorem contains_insert_of_contains {m : SortedMap κ ν} {k : κ} (k' : κ) (v : ν)
    (h : m.contains k) : (m.insert k' v).contains k := by
  unfold contains at h ⊢
  rw [get?_insert]
  split
  · rfl
  · exact h

theorem contains_erase (m : SortedMap κ ν) (k k' : κ) :
    (m.erase k).contains k' ↔ m.contains k' ∧ k' ≠ k := by
  unfold contains
  rw [get?_erase]
  split
  case isTrue hk =>
    obtain rfl := Std.LawfulEqCmp.eq_of_compare hk
    simp
  case isFalse hk =>
    have hne : k' ≠ k := fun e => hk (e ▸ Std.ReflCmp.compare_self)
    simp [hne]

theorem contains_iff_mem {m : SortedMap κ ν} {k : κ} : m.contains k ↔ ∃ v, (k, v) ∈ m.toList := by
  simp only [contains_iff, mem_toList_iff]

/-! ## Changed values -/

omit [Std.TransOrd κ] [Std.LawfulEqOrd κ] in
theorem get?_mapValues {μ : Type} (m : SortedMap κ ν) (f : ν → μ) (k : κ) :
    (m.mapValues f).get? k = (m.get? k).map f := by
  suffices h : ∀ l : List (κ × ν), find? k (l.map fun p => (p.1, f p.2)) = (find? k l).map f from
    h m.toList
  intro l
  induction l with
  | nil => rfl
  | cons p rest ih =>
    simp only [List.map_cons, find?]
    cases compare k p.1 with
    | lt => rfl
    | eq => rfl
    | gt => exact ih

/-! ## The bindings above a key -/

theorem mem_above {m : SortedMap κ ν} {k : κ} {p : κ × ν} :
    p ∈ m.above k ↔ m.get? p.1 = some p.2 ∧ compare k p.1 = .lt := by
  unfold above
  rw [List.mem_filter, ← mem_toList_iff, beq_iff_eq]

omit [Std.TransOrd κ] [Std.LawfulEqOrd κ] in
theorem pairwise_above (m : SortedMap κ ν) (k : κ) :
    (m.above k).Pairwise fun p q => compare p.1 q.1 = .lt :=
  m.sorted.filter _

/-- Nothing is above a key in a part of a map that has nothing above it. -/
theorem above_eq_nil_of_subset {m n : SortedMap κ ν} {k : κ} (hsub : m ⊆ n)
    (h : n.above k = []) : m.above k = [] := by
  rw [List.eq_nil_iff_forall_not_mem] at h ⊢
  intro p hp
  obtain ⟨hget, hlt⟩ := mem_above.1 hp
  exact h p (mem_above.2 ⟨hsub _ _ hget, hlt⟩)

/-- Nothing is above a greater key where nothing is above a smaller one. -/
theorem above_eq_nil_of_le {m : SortedMap κ ν} {k k' : κ} (hle : (compare k k').isLE)
    (h : m.above k = []) : m.above k' = [] := by
  rw [List.eq_nil_iff_forall_not_mem] at h ⊢
  intro p hp
  obtain ⟨hget, hlt⟩ := mem_above.1 hp
  exact h p (mem_above.2 ⟨hget, Std.TransCmp.lt_of_isLE_of_lt hle hlt⟩)

/-! ## Sizes -/

omit [Std.TransOrd κ] [Std.LawfulEqOrd κ] in
theorem length_put_of_find?_eq_none {k : κ} {l : List (κ × ν)} (v : ν) (h : find? k l = none) :
    (put k v l).length = l.length + 1 := by
  induction l with
  | nil => rfl
  | cons p rest ih =>
    unfold find? at h
    unfold put
    split at h
    case h_1 => rw [List.length_cons]
    case h_2 => cases h
    case h_3 => rw [List.length_cons, List.length_cons, ih h]

omit [Std.LawfulEqOrd κ] in
/-- Binding a new key makes a map greater by one. -/
theorem size_insert_of_get?_eq_none {m : SortedMap κ ν} {k : κ} (v : ν) (h : m.get? k = none) :
    (m.insert k v).size = m.size + 1 :=
  length_put_of_find?_eq_none v h

theorem size_erase_of_get? {m : SortedMap κ ν} {k : κ} {v : ν} (h : m.get? k = some v) :
    (m.erase k).size + 1 = m.size := by
  have hback : (m.erase k).insert k v = m := by
    apply ext_get?
    intro k'
    rw [get?_insert, get?_erase]
    split
    case isTrue hk =>
      obtain rfl := Std.LawfulEqCmp.eq_of_compare hk
      exact h.symm
    case isFalse => rfl
  rw [← size_insert_of_get?_eq_none v (m.get?_erase_self k), hback]

omit [Std.TransOrd κ] [Std.LawfulEqOrd κ] in
/-- A filter splits a map into what it keeps and what it does not. -/
theorem size_filter_add (m : SortedMap κ ν) (keep : κ → ν → Bool) :
    (m.filter keep).size + m.toList.countP (fun p => !keep p.1 p.2) = m.size := by
  unfold size filter
  rw [← List.countP_eq_length_filter,
    List.length_eq_countP_add_countP (fun p => keep p.1 p.2) (l := m.toList)]
  simp

omit [Std.TransOrd κ] [Std.LawfulEqOrd κ] in
theorem size_drop (m : SortedMap κ ν) (n : Nat) : (m.drop n).size = m.size - n := List.length_drop

/-- A part of a map that is no smaller is the map. -/
theorem eq_of_subset_of_size {m n : SortedMap κ ν} (hsub : m ⊆ n) (hsize : n.size ≤ m.size) :
    m = n := by
  have hkept : n.filter (fun k _ => m.contains k) = m := by
    refine ext_get? fun k => Option.ext fun v => ?_
    rw [get?_filter, Option.filter_eq_some_iff, get?_of_subset hsub]
  have hsplit := size_filter_add n fun k _ => m.contains k
  rw [hkept] at hsplit
  have hnone : n.toList.countP (fun p => !m.contains p.1) = 0 := by omega
  rw [← hkept]
  refine ext (List.filter_eq_self.2 fun p hp => ?_)
  simpa using List.countP_eq_zero.1 hnone p hp

/-- Unbinding keys in turn counts what it takes out of a map. -/
theorem eraseAll_size (ks : List κ) (m : SortedMap κ ν) :
    (m.eraseAll ks).2.size + (m.eraseAll ks).1 = m.size := by
  induction ks generalizing m with
  | nil => rfl
  | cons k rest ih =>
    unfold eraseAll
    split
    case isTrue hk =>
      obtain ⟨v, hv⟩ := Option.isSome_iff_exists.1 hk
      have hfirst := size_erase_of_get? hv
      have hrest := ih (m.erase k)
      simp only
      omega
    case isFalse => exact ih m

/-- What is bound after unbinding keys is what was bound to another key. -/
theorem get?_eraseAll {ks : List κ} {m : SortedMap κ ν} {k : κ} {v : ν} :
    (m.eraseAll ks).2.get? k = some v ↔ m.get? k = some v ∧ k ∉ ks := by
  induction ks generalizing m with
  | nil => simp [eraseAll]
  | cons k' rest ih =>
    rw [List.mem_cons, not_or]
    unfold eraseAll
    split
    case isTrue =>
      simp only
      rw [ih, get?_erase]
      split
      case isTrue hk =>
        obtain rfl := Std.LawfulEqCmp.eq_of_compare hk
        simp
      case isFalse hk =>
        have hne : k ≠ k' := fun e => hk (e ▸ Std.ReflCmp.compare_self)
        simp [hne]
    case isFalse hk =>
      rw [ih]
      refine ⟨fun h => ⟨h.1, ?_, h.2⟩, fun h => ⟨h.1, h.2.2⟩⟩
      rintro rfl
      exact hk (by rw [contains, h.1]; rfl)

end StreamBroker.SortedMap
