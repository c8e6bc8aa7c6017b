import StreamBroker.Proofs.Scan.Page
import StreamBroker.Proofs.Store.GroupRead
set_option autoImplicit false

/-!
# The first of what is asked for

Reads give what they ask for in the order of identifiers, and no more of it than they count.  What is
asked for is a property of entries; the list that is given follows from it and from the count
(`Foremost`), and it is the list of everything that is asked for, cut by the count (`foremost_iff`).

Reading on behind the last entry that was received cuts the list into pieces (`cutUp`), which together
are the list as soon as there are enough of them (`flatten_cutUp`).
-/

namespace StreamBroker

/-- A list of entries in order, all of them asked for; what is asked for and not in the list lies
above it, and the list then has as many entries as are counted. -/
structure Foremost (P : EntryId × Body → Prop) (count : Option UInt64)
    (l : List (EntryId × Body)) : Prop where
  sorted : l.Pairwise fun p q => p.1 < q.1
  asked : ∀ p ∈ l, P p
  counted : ∀ n, count = some n → n ≠ 0 → l.length ≤ n.toNat
  left : ∀ p, P p → p ∉ l →
    (∀ q ∈ l, q.1 < p.1) ∧ ∃ n, count = some n ∧ n ≠ 0 ∧ l.length = n.toNat

variable {count : Option UInt64} {l : List (EntryId × Body)} {P : EntryId × Body → Prop}

/-- A count lets everything through, or cuts at a number. -/
theorem takeCount_cases {α : Type} (count : Option UInt64) (l : List α) :
    Unlimited count ∧ takeCount count l = l ∨
      ∃ n, count = some n ∧ n ≠ 0 ∧ takeCount count l = l.take n.toNat := by
  cases count with
  | none => exact .inl ⟨.inl rfl, rfl⟩
  | some n =>
      by_cases hzero : n = 0
      · subst hzero
        exact .inl ⟨.inr rfl, rfl⟩
      · exact .inr ⟨n, rfl, hzero, if_neg hzero⟩

theorem Unlimited.eq_zero {n : UInt64} (h : Unlimited (some n)) : n = 0 :=
  Option.some.inj (h.resolve_left (Option.some_ne_none n))

/-- Everything that is asked for, cut by the count. -/
theorem foremost_takeCount (hsorted : l.Pairwise fun p q => p.1 < q.1)
    (hmem : ∀ p, p ∈ l ↔ P p) (count : Option UInt64) :
    Foremost P count (takeCount count l) := by
  have hfront := takeCount_isPrefix count l
  refine ⟨hsorted.sublist hfront.sublist, fun p hp => (hmem p).1 (hfront.subset hp), ?_, ?_⟩
  · rintro n rfl hn
    rcases takeCount_cases (some n) l with ⟨hall, -⟩ | ⟨m, hm, -, hcut⟩
    · exact absurd hall.eq_zero hn
    · cases hm
      rw [hcut]
      exact List.length_take_le ..
  · intro p hp hnot
    have hlist : p ∈ l := (hmem p).2 hp
    rcases takeCount_cases count l with ⟨-, hall⟩ | ⟨n, hn, hpos, hcut⟩
    · rw [hall] at hnot
      exact absurd hlist hnot
    · rw [hcut] at hnot ⊢
      rw [← List.take_append_drop n.toNat l] at hsorted hlist
      have hlater : p ∈ l.drop n.toNat := (List.mem_append.1 hlist).resolve_left hnot
      refine ⟨fun q hq => (List.pairwise_append.1 hsorted).2.2 q hq p hlater, n, hn, hpos, ?_⟩
      have hmore : 0 < (l.drop n.toNat).length := List.length_pos_of_mem hlater
      rw [List.length_drop] at hmore
      exact List.length_take_of_le (by omega)

/-- What is in one such list is in any other. -/
theorem Foremost.mem_of_mem {l' : List (EntryId × Body)} (h : Foremost P count l)
    (h' : Foremost P count l') {p : EntryId × Body} (hp : p ∈ l) : p ∈ l' := by
  refine Classical.byContradiction fun hnot => ?_
  obtain ⟨hbelow, n, hn, hpos, hlength⟩ := h'.left p (h.asked p hp) hnot
  have hcovers : ∀ q ∈ l', q ∈ l := fun q hq => Classical.byContradiction fun hmissing =>
    EntryId.lt_irrefl _
      (EntryId.lt_trans (hbelow q hq) ((h.left q (h'.asked q hq) hmissing).1 p hp))
  -- the list that lacks the entry is as long as it may be, so the other one is no longer
  have hsame : (⟨l', h'.sorted⟩ : SortedMap EntryId Body) = ⟨l, h.sorted⟩ := by
    refine SortedMap.eq_of_subset_of_size (fun k v hget => ?_) ?_
    · rw [← SortedMap.mem_toList_iff] at hget ⊢
      exact hcovers _ hget
    · have hlimit := h.counted n hn hpos
      rw [← hlength] at hlimit
      exact hlimit
  have hlists : l' = l := congrArg SortedMap.toList hsame
  rw [hlists] at hnot
  exact hnot hp

/-- What is asked for and the count determine the list. -/
theorem foremost_iff (hsorted : l.Pairwise fun p q => p.1 < q.1) (hmem : ∀ p, p ∈ l ↔ P p)
    (count : Option UInt64) (l' : List (EntryId × Body)) :
    Foremost P count l' ↔ l' = takeCount count l := by
  have hcut := foremost_takeCount hsorted hmem count
  refine ⟨fun h => ?_, fun h => h ▸ hcut⟩
  exact SortedMap.eq_of_pairwise_of_mem_iff h.sorted hcut.sorted fun p =>
    ⟨h.mem_of_mem hcut, hcut.mem_of_mem h⟩

/-! ## Piece by piece -/

/-- Cuts a list into pieces, each as long as its count lets it be. -/
def cutUp {α : Type} : List (Option UInt64) → List α → List (List α)
  | [], _ => []
  | count :: counts, l => takeCount count l :: cutUp counts (l.drop (takeCount count l).length)

section Pieces

variable {α β : Type}

theorem takeCount_append_drop (count : Option UInt64) (l : List α) :
    takeCount count l ++ l.drop (takeCount count l).length = l := by
  obtain ⟨back, hback⟩ := takeCount_isPrefix count l
  have hdrop := congrArg (List.drop (takeCount count l).length) hback
  rw [List.drop_left] at hdrop
  rw [← hdrop, hback]

theorem takeCount_map (f : α → β) (count : Option UInt64) (l : List α) :
    takeCount count (l.map f) = (takeCount count l).map f := by
  unfold takeCount
  split
  · rfl
  · split
    · rfl
    · exact List.map_take.symm

/-- The pieces leave nothing out and give nothing twice. -/
theorem flatten_cutUp_isPrefix (counts : List (Option UInt64)) (l : List α) :
    (cutUp counts l).flatten <+: l := by
  induction counts generalizing l with
  | nil => exact List.nil_prefix
  | cons count counts ih =>
      rw [cutUp, List.flatten_cons]
      calc takeCount count l ++ (cutUp counts (l.drop (takeCount count l).length)).flatten
        _ <+: takeCount count l ++ l.drop (takeCount count l).length :=
            (List.prefix_append_right_inj _).2 (ih _)
        _ = l := takeCount_append_drop count l

/-- The pieces are the whole list if there are as many as it is long, or one is as long as need be. -/
theorem flatten_cutUp {counts : List (Option UInt64)} {l : List α}
    (h : l.length ≤ counts.length ∨ ∃ count ∈ counts, Unlimited count) :
    (cutUp counts l).flatten = l := by
  induction counts generalizing l with
  | nil =>
      rcases h with hlength | ⟨count, hcount, -⟩
      · exact (List.eq_nil_of_length_eq_zero (Nat.le_zero.1 hlength)).symm
      · cases hcount
  | cons count counts ih =>
      have hsplit := takeCount_append_drop count l
      have hlater : (l.drop (takeCount count l).length).length ≤ counts.length ∨
          ∃ count ∈ counts, Unlimited count := by
        rw [List.length_drop]
        rcases h with hlength | ⟨c, hc, hall⟩
        · rw [List.length_cons] at hlength
          by_cases hempty : l = []
          · subst hempty
            exact .inl (Nat.sub_le_of_le_add (Nat.zero_le _))
          · have hsome : takeCount count l ≠ [] := fun h => hempty (takeCount_eq_nil_iff.1 h)
            have hpos := List.length_pos_iff.2 hsome
            exact .inl (by omega)
        · rcases List.mem_cons.1 hc with rfl | hc
          · rw [takeCount_of_unlimited hall]
            exact .inl (by omega)
          · exact .inr ⟨c, hc, hall⟩
      rw [cutUp, List.flatten_cons, ih hlater, hsplit]

/-- In a list in order, what comes behind the last of a piece is what the piece left. -/
theorem filter_behind_piece {l : List (EntryId × α)} {p : EntryId × α}
    (hsorted : l.Pairwise fun p q => p.1 < q.1) (hlast : (takeCount count l).getLast? = some p) :
    (l.filter fun q => p.1 < q.1) = l.drop (takeCount count l).length := by
  refine filter_eq_drop (R := fun (p q : EntryId × α) => decide (p.1 < q.1)) ?_ ?_ ?_ ?_
  · simp only [decide_eq_true_eq]
    exact EntryId.lt_irrefl _
  · simp only [decide_eq_true_eq]
    exact EntryId.lt_trans
  · simpa only [decide_eq_true_eq] using hsorted
  · rw [List.prefix_iff_eq_take.1 (takeCount_isPrefix count l)] at hlast
    exact hlast

end Pieces

end StreamBroker
