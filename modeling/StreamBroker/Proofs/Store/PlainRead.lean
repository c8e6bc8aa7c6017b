import StreamBroker.Proofs.Store.Listing
set_option autoImplicit false

/-!
# Plain reads

A plain read asks for what lies behind an identifier under each of its keys.  The identifier is
fixed when the cursors are resolved (`Store.mark`); what lies behind it is looked up in the store at
the time of an attempt (`Store.behind`).
-/

namespace StreamBroker.Store

/-- The entries under a key behind an identifier, in order. -/
def behind (s : Store) (key : Bytes) (id : EntryId) : List (EntryId × Body) :=
  (s.listed key).filter fun p => id < p.1

/-- The identifier for which a token of a plain read stands. -/
def mark (s : Store) (key : Bytes) (token : String) : EntryId :=
  if token = "$" then s.lastId key else (EntryId.ofText? 0 token).getD .least

variable {s : Store} {key : Bytes}

theorem mem_behind {id : EntryId} {p : EntryId × Body} :
    p ∈ s.behind key id ↔ p ∈ s.listed key ∧ id < p.1 := by
  unfold behind
  rw [List.mem_filter, decide_eq_true_iff]

theorem pairwise_behind (s : Store) (key : Bytes) (id : EntryId) :
    (s.behind key id).Pairwise fun p q => p.1 < q.1 :=
  (s.pairwise_listed key).filter _

theorem above_eq_behind {stream : Stream} (h : s.get? key = some stream) (id : EntryId) :
    stream.entries.above id = s.behind key id := by
  unfold behind SortedMap.above
  rw [listed_of_get? h]
  refine List.filter_congr fun p _ => ?_
  rw [Bool.eq_iff_iff, decide_eq_true_iff, beq_iff_eq, EntryId.lt_iff_compare]

/-- What a plain read takes behind an identifier. -/
theorem readFrom_after (s : Store) (count : Option UInt64) (key : Bytes) (id : EntryId) :
    s.readFrom count key (.after id) =
      (takeCount count (s.behind key id)).map fun p => .ofEntry key p.1 p.2 := by
  unfold readFrom
  cases hget : s.get? key with
  | none =>
      have hnothing : s.behind key id = [] := by
        rw [behind, listed_of_missing hget]
        rfl
      rw [hnothing, takeCount_eq_nil_iff.2 rfl]
      rfl
  | some stream => simp only [above_eq_behind hget]

theorem resolveCursor_plain {token : String} {cursor : Cursor}
    (h : s.resolveCursor false key token = .ok cursor) : cursor = .after (s.mark key token) := by
  unfold resolveCursor at h
  unfold mark
  split at h
  case isTrue hlatest =>
    rw [if_pos hlatest]
    exact (Except.ok.inj h).symm
  case isFalse hlatest =>
    rw [if_neg hlatest]
    split at h
    case isTrue => cases h
    case isFalse =>
      split at h
      case h_1 id hid =>
        rw [hid]
        exact (Except.ok.inj h).symm
      case h_2 => cases h

/-- A plain read fixes an identifier for each of its offsets. -/
theorem resolve_plain {offsets : List (Bytes × String)} {cursors : List (Bytes × Cursor)}
    (h : s.resolve false offsets = .ok cursors) :
    cursors = offsets.map fun o => (o.1, .after (s.mark o.1 o.2)) := by
  induction offsets generalizing cursors with
  | nil => exact (Except.ok.inj h).symm
  | cons offset rest ih =>
      obtain ⟨cursor, later, rfl, hcursor, hlater⟩ := resolve_cons_eq_ok h
      rw [List.map_cons, ← ih hlater, resolveCursor_plain hcursor]

/-- What a plain read takes at fixed identifiers, offset by offset. -/
theorem readPlain_after (s : Store) (count : Option UInt64) (offsets : List (Bytes × String))
    (mark : Bytes × String → EntryId) :
    s.readPlain count (offsets.map fun o => (o.1, .after (mark o))) =
      offsets.flatMap fun o =>
        (takeCount count (s.behind o.1 (mark o))).map fun p => .ofEntry o.1 p.1 p.2 := by
  unfold readPlain
  rw [List.flatMap_map]
  simp only [readFrom_after]

end StreamBroker.Store
