set_option autoImplicit false

/-!
# Finite maps kept in key order

Streams, groups, pending entries, bodies and registrations are all finite maps whose order can be
seen from outside: entries are scanned in id order, fields are listed in byte order.  `SortedMap`
keeps its bindings in one list with strictly increasing keys, so a map has exactly one
representation and two maps with the same look-ups are equal (`ext_get?`).

Main statements: `get?_insert`, `get?_erase`, `get?_filter`, `mem_toList_iff` and `ext_get?`.
-/

namespace StreamBroker

/-- A finite map as the list of its bindings, keys strictly increasing. -/
structure SortedMap (κ ν : Type) [Ord κ] where
  toList : List (κ × ν)
  sorted : toList.Pairwise fun p q => compare p.1 q.1 = .lt

namespace SortedMap

variable {κ ν : Type} [Ord κ]

@[ext] theorem ext {m n : SortedMap κ ν} (h : m.toList = n.toList) : m = n := by
  cases m; cases n; cases h; rfl

instance [DecidableEq κ] [DecidableEq ν] : DecidableEq (SortedMap κ ν) := fun m n =>
  if h : m.toList = n.toList then isTrue (ext h) else isFalse fun e => h (e ▸ rfl)

instance [Repr κ] [Repr ν] : Repr (SortedMap κ ν) := ⟨fun m n => reprPrec m.toList n⟩

/-! ## Operations on the list of bindings -/

/-- Looks a key up, stopping at the first key that is not below it. -/
def find? (k : κ) : List (κ × ν) → Option ν
  | [] => none
  | (k', v) :: rest =>
    match compare k k' with
    | .lt => none
    | .eq => some v
    | .gt => find? k rest

/-- Binds a key, replacing what it was bound to. -/
def put (k : κ) (v : ν) : List (κ × ν) → List (κ × ν)
  | [] => [(k, v)]
  | (k', v') :: rest =>
    match compare k k' with
    | .lt => (k, v) :: (k', v') :: rest
    | .eq => (k, v) :: rest
    | .gt => (k', v') :: put k v rest

theorem mem_put {k : κ} {v : ν} {p : κ × ν} {l : List (κ × ν)} (h : p ∈ put k v l) :
    p = (k, v) ∨ p ∈ l := by
  induction l with
  | nil => simpa [put] using h
  | cons q rest ih =>
    obtain ⟨k', v'⟩ := q
    unfold put at h
    split at h <;> grind

theorem pairwise_put [Std.TransOrd κ] {k : κ} {v : ν} {l : List (κ × ν)}
    (h : l.Pairwise fun p q => compare p.1 q.1 = .lt) :
    (put k v l).Pairwise fun p q => compare p.1 q.1 = .lt := by
  induction l with
  | nil => simp [put]
  | cons q rest ih =>
    obtain ⟨k', v'⟩ := q
    have hrest := (List.pairwise_cons.1 h).1
    unfold put
    split
    case h_1 hc =>
      refine List.pairwise_cons.2 ⟨fun p hp => ?_, h⟩
      rcases List.mem_cons.1 hp with rfl | hp
      · exact hc
      · exact Std.TransCmp.lt_trans hc (hrest p hp)
    case h_2 hc =>
      refine List.pairwise_cons.2 ⟨fun p hp => ?_, (List.pairwise_cons.1 h).2⟩
      exact Std.TransCmp.lt_of_eq_of_lt hc (hrest p hp)
    case h_3 hc =>
      refine List.pairwise_cons.2 ⟨fun p hp => ?_, ih (List.pairwise_cons.1 h).2⟩
      rcases mem_put hp with rfl | hp
      · exact Std.OrientedCmp.lt_of_gt hc
      · exact hrest p hp

/-! ## Maps -/

/-- The map without bindings. -/
def empty : SortedMap κ ν := ⟨[], .nil⟩

instance : EmptyCollection (SortedMap κ ν) := ⟨empty⟩
instance : Inhabited (SortedMap κ ν) := ⟨empty⟩

/-- The number of bindings. -/
def size (m : SortedMap κ ν) : Nat := m.toList.length

/-- Whether there is no binding. -/
def isEmpty (m : SortedMap κ ν) : Bool := m.toList.isEmpty

/-- The keys, in increasing order. -/
def keys (m : SortedMap κ ν) : List κ := m.toList.map (·.1)

/-- What a key is bound to. -/
def get? (m : SortedMap κ ν) (k : κ) : Option ν := find? k m.toList

/-- Whether a key is bound. -/
def contains (m : SortedMap κ ν) (k : κ) : Bool := (m.get? k).isSome

/-- Binds a key, replacing what it was bound to. -/
def insert [Std.TransOrd κ] (m : SortedMap κ ν) (k : κ) (v : ν) : SortedMap κ ν :=
  ⟨put k v m.toList, pairwise_put m.sorted⟩

/-- Keeps the bindings that satisfy a test. -/
def filter (m : SortedMap κ ν) (keep : κ → ν → Bool) : SortedMap κ ν :=
  ⟨m.toList.filter fun p => keep p.1 p.2, m.sorted.filter _⟩

/-- Unbinds a key. -/
def erase (m : SortedMap κ ν) (k : κ) : SortedMap κ ν :=
  m.filter fun k' _ => compare k k' != .eq

/-- Unbinds keys in turn and counts how many of them were bound. -/
def eraseAll (m : SortedMap κ ν) : List κ → Nat × SortedMap κ ν
  | [] => (0, m)
  | k :: rest =>
    if m.contains k then
      let (n, m') := (m.erase k).eraseAll rest
      (n + 1, m')
    else m.eraseAll rest

/-- Drops the bindings of the `n` least keys. -/
def drop (m : SortedMap κ ν) (n : Nat) : SortedMap κ ν :=
  ⟨m.toList.drop n, m.sorted.sublist (List.drop_sublist n _)⟩

/-- Changes every value, keeping the keys. -/
def mapValues {μ : Type} (m : SortedMap κ ν) (f : ν → μ) : SortedMap κ μ :=
  ⟨m.toList.map fun p => (p.1, f p.2), List.Pairwise.map _ (fun _ _ h => h) m.sorted⟩

/-- The bindings with a key above `k`, in increasing order. -/
def above (m : SortedMap κ ν) (k : κ) : List (κ × ν) :=
  m.toList.filter fun p => compare k p.1 == .lt

/-- The bindings with a key below `k`, in increasing order. -/
def below (m : SortedMap κ ν) (k : κ) : List (κ × ν) :=
  m.toList.filter fun p => compare p.1 k == .lt

/-- The map of a list of bindings; of two with one key the later counts. -/
def ofList [Std.TransOrd κ] (l : List (κ × ν)) : SortedMap κ ν :=
  l.foldl (fun m p => m.insert p.1 p.2) empty

/-! ## Look-up laws -/

theorem find?_eq_some_iff [Std.TransOrd κ] [Std.LawfulEqOrd κ] {k : κ} {v : ν}
    {l : List (κ × ν)} (h : l.Pairwise fun p q => compare p.1 q.1 = .lt) :
    find? k l = some v ↔ (k, v) ∈ l := by
  induction l with
  | nil => simp [find?]
  | cons p rest ih =>
    obtain ⟨k', v'⟩ := p
    obtain ⟨hhead, hrest⟩ := List.pairwise_cons.1 h
    rw [find?]
    split
    case h_1 hc =>
      refine ⟨fun e => by simp at e, fun hm => ?_⟩
      rcases List.mem_cons.1 hm with e | hm
      · cases e; simp at hc
      · have := Std.TransCmp.lt_trans hc (hhead _ hm)
        simp at this
    case h_2 hc =>
      obtain rfl := Std.LawfulEqCmp.eq_of_compare hc
      refine ⟨fun e => by cases e; simp, fun hm => ?_⟩
      rcases List.mem_cons.1 hm with e | hm
      · cases e; rfl
      · have := hhead _ hm
        simp at this
    case h_3 hc =>
      rw [ih hrest]
      refine ⟨List.mem_cons_of_mem _, fun hm => ?_⟩
      rcases List.mem_cons.1 hm with e | hm
      · cases e; simp at hc
      · exact hm

section Laws
variable [Std.TransOrd κ] [Std.LawfulEqOrd κ]

/-- A map binds `k` to `v` exactly when the pair is in its list. -/
theorem mem_toList_iff {m : SortedMap κ ν} {k : κ} {v : ν} :
    (k, v) ∈ m.toList ↔ m.get? k = some v :=
  (find?_eq_some_iff m.sorted).symm

omit [Std.TransOrd κ] [Std.LawfulEqOrd κ] in
@[simp] theorem get?_empty (k : κ) : (empty : SortedMap κ ν).get? k = none := rfl

theorem get?_insert (m : SortedMap κ ν) (k k' : κ) (v : ν) :
    (m.insert k v).get? k' = if compare k k' = .eq then some v else m.get? k' := by
  obtain ⟨l, hl⟩ := m
  simp only [get?, insert]
  clear hl
  induction l with
  | nil =>
    simp only [put, find?]
    rw [show compare k' k = (compare k k').swap from Std.OrientedOrd.eq_swap]
    cases compare k k' <;> simp
  | cons p rest ih =>
    obtain ⟨k₁, v₁⟩ := p
    have hsw : compare k' k = (compare k k').swap :=
      Std.OrientedOrd.eq_swap
    unfold put
    split
    case h_1 hc =>
      simp only [find?, hsw]
      cases h : compare k k' with
      | lt => simp
      | eq => simp
      | gt =>
        have : compare k' k₁ = .lt := Std.TransCmp.lt_trans (Std.OrientedCmp.lt_of_gt h) hc
        simp [this]
    case h_2 hc =>
      obtain rfl := Std.LawfulEqCmp.eq_of_compare hc
      simp only [find?, hsw]
      cases h : compare k k' <;> simp
    case h_3 hc =>
      simp only [find?, ih]
      cases h : compare k k' with
      | eq =>
        obtain rfl := Std.LawfulEqCmp.eq_of_compare h
        simp [hc]
      | lt => cases compare k' k₁ <;> simp
      | gt => cases compare k' k₁ <;> simp

theorem get?_insert_self (m : SortedMap κ ν) (k : κ) (v : ν) :
    (m.insert k v).get? k = some v := by
  rw [get?_insert, if_pos Std.ReflCmp.compare_self]

theorem get?_insert_of_ne (m : SortedMap κ ν) {k k' : κ} (v : ν) (h : k ≠ k') :
    (m.insert k v).get? k' = m.get? k' := by
  rw [get?_insert, if_neg fun e => h (Std.LawfulEqCmp.eq_of_compare e)]

/-- A binding that is found behind an insertion is the new one, or was there. -/
theorem get?_of_get?_insert {m : SortedMap κ ν} {k k' : κ} {v v' : ν}
    (h : (m.insert k v).get? k' = some v') : k = k' ∧ v = v' ∨ m.get? k' = some v' := by
  rw [get?_insert] at h
  split at h
  case isTrue hk => exact .inl ⟨Std.LawfulEqCmp.eq_of_compare hk, Option.some.inj h⟩
  case isFalse => exact .inr h

theorem get?_filter (m : SortedMap κ ν) (keep : κ → ν → Bool) (k : κ) :
    (m.filter keep).get? k = (m.get? k).filter (keep k) := by
  apply Option.ext
  intro v
  rw [← mem_toList_iff]
  simp only [filter, List.mem_filter, Option.filter_eq_some_iff, ← mem_toList_iff]

theorem get?_erase (m : SortedMap κ ν) (k k' : κ) :
    (m.erase k).get? k' = if compare k k' = .eq then none else m.get? k' := by
  rw [erase, get?_filter]
  split
  case isTrue h => cases m.get? k' <;> simp [Option.filter, h]
  case isFalse h => cases m.get? k' <;> simp [Option.filter, h]

theorem get?_erase_self (m : SortedMap κ ν) (k : κ) : (m.erase k).get? k = none := by
  rw [get?_erase, if_pos Std.ReflCmp.compare_self]

theorem get?_erase_of_ne (m : SortedMap κ ν) {k k' : κ} (h : k ≠ k') :
    (m.erase k).get? k' = m.get? k' := by
  rw [get?_erase, if_neg fun e => h (Std.LawfulEqCmp.eq_of_compare e)]

omit [Std.LawfulEqOrd κ] in
/-- Two lists in strictly increasing key order with the same members are the same list. -/
theorem eq_of_pairwise_of_mem_iff {l₁ l₂ : List (κ × ν)}
    (h₁ : l₁.Pairwise fun p q => compare p.1 q.1 = .lt)
    (h₂ : l₂.Pairwise fun p q => compare p.1 q.1 = .lt)
    (hmem : ∀ p, p ∈ l₁ ↔ p ∈ l₂) : l₁ = l₂ := by
  induction l₁ generalizing l₂ with
  | nil =>
    cases l₂ with
    | nil => rfl
    | cons q t₂ => exact absurd ((hmem q).2 List.mem_cons_self) (by simp)
  | cons p t₁ ih =>
    cases l₂ with
    | nil => exact absurd ((hmem p).1 List.mem_cons_self) (by simp)
    | cons q t₂ =>
      obtain ⟨hp, ht₁⟩ := List.pairwise_cons.1 h₁
      obtain ⟨hq, ht₂⟩ := List.pairwise_cons.1 h₂
      have hpq : p = q := by
        rcases List.mem_cons.1 ((hmem p).1 List.mem_cons_self) with e | hpt
        · exact e
        rcases List.mem_cons.1 ((hmem q).2 List.mem_cons_self) with e | hqt
        · exact e.symm
        have := Std.TransCmp.lt_trans (hp q hqt) (hq p hpt)
        simp at this
      subst hpq
      have hself : ∀ t : List (κ × ν), (∀ r ∈ t, compare p.1 r.1 = .lt) → p ∉ t :=
        fun t ht hm => by simpa using ht p hm
      have htail : ∀ r, r ∈ t₁ ↔ r ∈ t₂ := fun r => by
        have := hmem r
        have h₁' := hself t₁ hp
        have h₂' := hself t₂ hq
        by_cases hr : r = p
        · subst hr; simp [h₁', h₂']
        · simpa [hr] using this
      rw [ih ht₁ ht₂ htail]

/-- Maps with the same look-ups are equal. -/
theorem ext_get? {m n : SortedMap κ ν} (h : ∀ k, m.get? k = n.get? k) : m = n :=
  ext <| eq_of_pairwise_of_mem_iff m.sorted n.sorted fun ⟨k, v⟩ => by
    rw [mem_toList_iff, mem_toList_iff, h]

end Laws

end SortedMap

end StreamBroker
