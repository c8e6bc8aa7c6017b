import StreamBroker.Proofs.Store.Striking
set_option autoImplicit false

/-!
# Trimming

A trimming leaves the newest entries of a stream: as many as are asked for, or all if there are no
more (`SortedMap.Newest`).  It makes no difference whether the oldest entry is taken out over and over
again until few enough are left (`SortedMap.popDown`) or all that are too many are dropped at once,
since there is only one way to keep the newest ones.  For the same reason two trimmings are one to the
smaller number (`trimmed_to_the_newest`).
-/

namespace StreamBroker

namespace SortedMap

variable {κ ν : Type} [Ord κ]

/-- Of a map those `count` keys are left that are above all others, or all if there are no more, with
what they are bound to; `gone` many are not. -/
structure Newest (count : Nat) (held left : SortedMap κ ν) (gone : Nat) : Prop where
  part : left ⊆ held
  size : left.size = Nat.min count held.size
  above : ∀ k k', left.contains k → held.contains k' → ¬ left.contains k' → compare k' k = .lt
  gone : gone + left.size = held.size

namespace Newest

variable {count count' gone gone' : Nat} {held middle left left' : SortedMap κ ν}

/-- Keeping the newest of the newest is keeping the newest. -/
theorem trans (h : Newest count held middle gone) (h' : Newest count' middle left gone') :
    Newest (Nat.min count count') held left (gone + gone') := by
  have hsize := h.size
  have hsize' := h'.size
  have hgone := h.gone
  have hgone' := h'.gone
  refine ⟨subset_trans h'.part h.part, ?_, fun k k' hk hk' hout => ?_, by omega⟩
  · unfold Nat.min at *
    omega
  · by_cases hmiddle : middle.contains k'
    · exact h'.above k k' hk hmiddle hout
    · exact h.above k k' (contains_of_subset h'.part hk) hk' hmiddle

variable [Std.TransOrd κ]

/-- Of two maps that keep what is above all else one is part of the other. -/
theorem total (h : Newest count held left gone) (h' : Newest count' held left' gone') :
    left ⊆ left' ∨ left' ⊆ left := by
  by_cases hsub : ∀ k, left.contains k → left'.contains k
  · refine .inl fun k v hv => ?_
    obtain ⟨hheld, hk⟩ := (get?_of_subset h.part).1 hv
    exact (get?_of_subset h'.part).2 ⟨hheld, hsub k hk⟩
  · -- A key that only the one keeps and a key that only the other keeps would be above each other.
    obtain ⟨k, hnot⟩ := Classical.not_forall.1 hsub
    obtain ⟨hk, hout⟩ := Classical.not_imp.1 hnot
    refine .inr fun k' v hv => ?_
    obtain ⟨hheld, hk'⟩ := (get?_of_subset h'.part).1 hv
    refine (get?_of_subset h.part).2 ⟨hheld, Classical.byContradiction fun hout' => ?_⟩
    have hbelow := h.above k k' hk (contains_of_subset h'.part hk') hout'
    have habove := h'.above k' k hk' (contains_of_subset h.part hk) hout
    rw [Std.OrientedCmp.gt_of_lt hbelow] at habove
    cases habove

end Newest

variable [Std.TransOrd κ] [Std.LawfulEqOrd κ]

theorem Newest.unique {count gone gone' : Nat} {held left left' : SortedMap κ ν}
    (h : Newest count held left gone) (h' : Newest count held left' gone') :
    left = left' ∧ gone = gone' := by
  have hsize := h.size.trans h'.size.symm
  have hgone := h.gone
  have hgone' := h'.gone
  refine ⟨?_, by omega⟩
  rcases h.total h' with hsub | hsub
  · exact eq_of_subset_of_size hsub (Nat.le_of_eq hsize.symm)
  · exact (eq_of_subset_of_size hsub (Nat.le_of_eq hsize)).symm

/-! ## Dropping the least keys -/

/-- Dropping the least keys that are too many leaves the newest. -/
theorem newest_drop (m : SortedMap κ ν) (count : Nat) :
    Newest count m (m.drop (m.size - count)) (m.size - count) := by
  refine ⟨drop_subset m _, ?_, fun k k' hk hk' hout => ?_, ?_⟩
  · rw [size_drop]
    unfold Nat.min
    omega
  · obtain ⟨v, hv⟩ := contains_iff_mem.1 hk
    obtain ⟨v', hv'⟩ := contains_iff_mem.1 hk'
    have hsplit := List.take_append_drop (m.size - count) m.toList
    have hsorted := m.sorted
    rw [← hsplit] at hv' hsorted
    rcases List.mem_append.1 hv' with htaken | hdropped
    · exact (List.pairwise_append.1 hsorted).2.2 _ htaken _ hv
    · exact absurd (contains_iff_mem.2 ⟨v', hdropped⟩) hout
  · rw [size_drop]
    omega

/-- Takes the least key out as long as there are more than `count`, and tells how often that was. -/
def popDown (count : Nat) (m : SortedMap κ ν) : Nat × SortedMap κ ν :=
  if count < m.size then
    let (popped, left) := popDown count (m.drop 1)
    (popped + 1, left)
  else (0, m)
termination_by m.size
decreasing_by
  rw [size_drop]
  omega

/-- Taking the least keys out one by one leaves the newest. -/
theorem newest_popDown (count : Nat) (m : SortedMap κ ν) :
    Newest count m (m.popDown count).2 (m.popDown count).1 := by
  fun_induction popDown count m with
  | case1 m hmany popped left heq ih =>
      -- One step keeps the newest `m.size - 1`, and the others keep the newest `count` of those.
      have hone := newest_drop m (m.size - 1)
      have hmin : Nat.min (m.size - 1) count = count := by
        unfold Nat.min
        omega
      rw [show m.size - (m.size - 1) = 1 by omega] at hone
      rw [heq] at ih
      have hboth := hone.trans ih
      rw [hmin, Nat.add_comm] at hboth
      exact hboth
  | case2 m hfew =>
      have hnone := newest_drop m count
      rw [show m.size - count = 0 by omega] at hnone
      exact hnone

theorem Newest.popDown_eq {count gone : Nat} {held left : SortedMap κ ν}
    (h : Newest count held left gone) : held.popDown count = (gone, left) := by
  obtain ⟨hleft, hgone⟩ := (newest_popDown count held).unique h
  exact Prod.ext hgone hleft

end SortedMap

/-! ## The call -/

open SortedMap (Newest)

theorem Store.trim_thinned (s : Store) (key : Bytes) (count : UInt64) :
    s.Thinned (.entries key) (Newest count.toNat) (s.trim key count).2 (s.trim key count).1 := by
  unfold trim
  cases hget : s.get? key with
  | none => exact thinned_entries_of_missing hget
  | some stream => exact thinned_insert_entries hget (SortedMap.newest_drop ..)

theorem toNat_min (a b : UInt64) : (min a b).toNat = Nat.min a.toNat b.toNat := by
  have hmin : min a b = if a ≤ b then a else b := rfl
  rw [hmin]
  unfold Nat.min
  split
  case isTrue hle =>
    rw [UInt64.le_iff_toNat_le] at hle
    omega
  case isFalse hgt =>
    rw [UInt64.le_iff_toNat_le] at hgt
    omega

/-- Whatever the engine, the key and the number, and whether or not it is to be exact: a trimming
leaves that many entries with the greatest identifiers, or all if there are no more, as they were, and
tells how many it took out.  That is what taking out the oldest one again and again comes to, as long
as there are too many.  The last identifier and all groups stay as they are, with what is pending in
them, and nothing happens where there is no stream.  Another trimming behind it leaves what one to the
smaller number leaves, which tells the sum. -/
theorem trimmed_to_the_newest (e : Engine) (clock : Option UInt64) (key : Bytes)
    (approximate : Bool) (count : UInt64) :
    ∃ removed t,
      e.perform clock (.trim key approximate count) = (.ok removed, { e with store := t }) ∧
      e.store.Thinned (.entries key)
        (fun held left gone => Newest count.toNat held left gone ∧
          held.popDown count.toNat = (gone, left)) t removed ∧
      ∀ clock' approximate' count', ∃ removed' u,
        Engine.perform { e with store := t } clock' (.trim key approximate' count') =
          (.ok removed', { e with store := u }) ∧
        ∀ clock'' approximate'', e.perform clock'' (.trim key approximate'' (min count count')) =
          (.ok (removed + removed'), { e with store := u }) := by
  have hthinned := e.store.trim_thinned key count
  refine ⟨(e.store.trim key count).1, (e.store.trim key count).2, rfl,
    hthinned.mono fun _ _ hnewest => ⟨hnewest, hnewest.popDown_eq⟩, ?_⟩
  intro clock' approximate' count'
  generalize (e.store.trim key count).1 = removed at hthinned ⊢
  generalize (e.store.trim key count).2 = t at hthinned ⊢
  have hfurther := t.trim_thinned key count'
  have honce := e.store.trim_thinned key (min count count')
  rw [toNat_min] at honce
  obtain ⟨hstore, hremoved⟩ :=
    (hthinned.trans hfurther fun _ _ _ => Newest.trans).unique honce fun _ _ _ => Newest.unique
  refine ⟨(t.trim key count').1, (t.trim key count').2, rfl, fun clock'' approximate'' => ?_⟩
  rw [hstore, hremoved]
  rfl

/-- An entry whose body is gone stays pending. -/
example :
    let group : Group := ⟨⟨5, 0⟩, .ofList [(⟨5, 0⟩, [99])], .ofList [([99], ())]⟩
    let stream : Stream := ⟨.ofList [(⟨5, 0⟩, .empty), (⟨6, 0⟩, .empty)], ⟨6, 0⟩,
      .ofList [([103], group)]⟩
    (Store.trim (.ofList [([115], stream)]) [115] 1).1 = 1 ∧
      (Store.trim (.ofList [([115], stream)]) [115] 1).2.pendingCount [115] [103] = some 1 :=
  ⟨rfl, rfl⟩

end StreamBroker
