import StreamBroker.Proofs.SortedMap
import StreamBroker.Store.Scan
set_option autoImplicit false

/-!
# Ranges and the pages of a scan

The range of a scan is first said without pages: the entries whose identifiers are inside both
bounds, in the direction of the scan (`Store.within`).  A page is then the beginning of what lies
ahead of the cursor in that range (`pageOf_eq`): where a scan begins and where it ends are prefixes
of a list in order, so passing over entries and stopping at one are both filters.
-/

namespace StreamBroker

/-! ## Prefixes of a list in order -/

section Prefixes

variable {α : Type} {P : α → Bool}

/-- Where a test holds of a prefix only, taking while it holds is filtering. -/
theorem takeWhile_eq_filter {l : List α} (hfront : l.Pairwise fun x y => P y → P x) :
    l.takeWhile P = l.filter P := by
  induction l with
  | nil => rfl
  | cons x rest ih =>
      obtain ⟨hfirst, hrest⟩ := List.pairwise_cons.1 hfront
      by_cases hx : P x
      · rw [List.takeWhile_cons_of_pos hx, List.filter_cons_of_pos hx, ih hrest]
      · rw [List.takeWhile_cons_of_neg hx, eq_comm, List.filter_eq_nil_iff]
        rintro y hy hP
        rcases List.mem_cons.1 hy with rfl | hy
        · exact hx hP
        · exact hx (hfirst y hy hP)

/-- Where a test holds of a prefix only, dropping while it holds is filtering by its opposite. -/
theorem dropWhile_eq_filter {l : List α} (hfront : l.Pairwise fun x y => P y → P x) :
    l.dropWhile P = l.filter fun x => !P x := by
  induction l with
  | nil => rfl
  | cons x rest ih =>
      obtain ⟨hfirst, hrest⟩ := List.pairwise_cons.1 hfront
      by_cases hx : P x
      · rw [List.dropWhile_cons_of_pos hx, List.filter_cons_of_neg (by simp [hx]), ih hrest]
      · rw [List.dropWhile_cons_of_neg hx, eq_comm, List.filter_eq_self]
        intro y hy
        rcases List.mem_cons.1 hy with rfl | hy
        · simp [hx]
        · have hP : ¬ P y := fun hP => hx (hfirst y hy hP)
          simp [hP]

/-- In a list in order, what comes after the last of the first `n` is all but those. -/
theorem filter_eq_drop {R : α → α → Bool} {l : List α} {n : Nat} {p : α}
    (hirrefl : ¬ R p p) (htrans : ∀ {a b c}, R a b → R b c → R a c)
    (hsorted : l.Pairwise fun x y => R x y) (hlast : (l.take n).getLast? = some p) :
    l.filter (R p) = l.drop n := by
  obtain ⟨init, hinit⟩ := List.getLast?_eq_some_iff.1 hlast
  have hsplit : l = (init ++ [p]) ++ l.drop n := by
    rw [← hinit, List.take_append_drop]
  generalize l.drop n = rest at *
  subst hsplit
  obtain ⟨hfront, -, hcross⟩ := List.pairwise_append.1 hsorted
  obtain ⟨-, -, hbefore⟩ := List.pairwise_append.1 hfront
  have hnone : (init ++ [p]).filter (R p) = [] := by
    rw [List.filter_eq_nil_iff]
    rintro q hq hR
    rcases List.mem_append.1 hq with hq | hq
    · exact hirrefl (htrans hR (hbefore q hq p (List.mem_singleton.2 rfl)))
    · rw [List.mem_singleton.1 hq] at hR
      exact hirrefl hR
  have hall : rest.filter (R p) = rest :=
    List.filter_eq_self.2 fun q hq =>
      hcross p (List.mem_append_right _ (List.mem_singleton.2 rfl)) q hq
  rw [List.filter_append, hnone, hall, List.nil_append]

end Prefixes

/-! ## The range of a scan -/

namespace Bound

/-- Whether the text of a bound reads. -/
def reads : Bound String → Bool
  | unbounded => true
  | including s | excluding s => (EntryId.ofText? 0 s).isSome

/-- Whether an identifier is inside a lower bound as text; a bare millisecond stands for its first
identifier. -/
def holdsFrom (lower : Bound String) (id : EntryId) : Bool :=
  match lower with
  | unbounded => true
  | including s => (EntryId.ofText? 0 s).any (· ≤ id)
  | excluding s => (EntryId.ofText? 0 s).any (· < id)

/-- Whether an identifier is inside an upper bound as text; a bare millisecond stands for its last
identifier. -/
def holdsUpTo (upper : Bound String) (id : EntryId) : Bool :=
  match upper with
  | unbounded => true
  | including s => (EntryId.ofText? 18446744073709551615 s).any (id ≤ ·)
  | excluding s => (EntryId.ofText? 18446744073709551615 s).any (id < ·)

/-- The identifier at which a bound lies. -/
def mark? (missing : UInt64) : Bound String → Option EntryId
  | unbounded => none
  | including s | excluding s => EntryId.ofText? missing s

end Bound

namespace Range

/-- Whether both bounds of a range read. -/
def reads (range : Range) : Bool := range.lower.reads && range.upper.reads

/-- Whether an identifier is inside both bounds of a range. -/
def holds (range : Range) (id : EntryId) : Bool :=
  range.lower.holdsFrom id && range.upper.holdsUpTo id

/-- Whether the lower bound of a range lies above the upper one. -/
def isCrossed (range : Range) : Bool :=
  match range.lower.mark? 0, range.upper.mark? 18446744073709551615 with
  | some least, some greatest => greatest < least
  | _, _ => false

end Range

namespace Direction

/-- Whether one identifier comes before another in a direction. -/
def before (d : Direction) (a b : EntryId) : Bool :=
  match d with
  | ascending => compare a b == .lt
  | descending => compare b a == .lt

/-- A list in increasing order, turned into a direction. -/
def arrange {α : Type} (d : Direction) (l : List α) : List α :=
  match d with
  | ascending => l
  | descending => l.reverse

theorem before_ascending {a b : EntryId} : ascending.before a b ↔ a < b := beq_iff_eq

theorem before_descending {a b : EntryId} : descending.before a b ↔ b < a := beq_iff_eq

theorem before_trans {d : Direction} {a b c : EntryId} (h₁ : d.before a b) (h₂ : d.before b c) :
    d.before a c := by
  cases d with
  | ascending =>
      rw [before_ascending] at *
      exact EntryId.lt_trans h₁ h₂
  | descending =>
      rw [before_descending] at *
      exact EntryId.lt_trans h₂ h₁

theorem not_before_self (d : Direction) (a : EntryId) : ¬ d.before a a := by
  cases d with
  | ascending =>
      rw [before_ascending]
      exact EntryId.lt_irrefl a
  | descending =>
      rw [before_descending]
      exact EntryId.lt_irrefl a

theorem filter_arrange {α : Type} (d : Direction) (P : α → Bool) (l : List α) :
    (d.arrange l).filter P = d.arrange (l.filter P) := by
  cases d with
  | ascending => rfl
  | descending => exact List.filter_reverse ..

theorem mem_arrange {α : Type} {d : Direction} {x : α} {l : List α} :
    x ∈ d.arrange l ↔ x ∈ l := by
  cases d with
  | ascending => exact Iff.rfl
  | descending => exact List.mem_reverse

theorem pairwise_arrange (d : Direction) (m : SortedMap EntryId Body) :
    (d.arrange m.toList).Pairwise fun p q => d.before p.1 q.1 := by
  have hsorted := m.sorted.imp (S := fun p q : EntryId × Body => ascending.before p.1 q.1)
    fun h => beq_iff_eq.2 h
  cases d with
  | ascending => exact hsorted
  | descending => exact List.pairwise_reverse.2 hsorted

end Direction

/-- The entries under a key inside a range, in a direction. -/
def Store.within (s : Store) (key : Bytes) (range : Range) (d : Direction) :
    List (EntryId × Body) :=
  match s.get? key with
  | none => []
  | some stream => d.arrange (stream.entries.toList.filter fun p => range.holds p.1)

namespace Store

/-- An entry stands under a key. -/
def Has (s : Store) (key : Bytes) (p : EntryId × Body) : Prop :=
  ∃ stream, s.get? key = some stream ∧ stream.entries.get? p.1 = some p.2

theorem mem_within {s : Store} {key : Bytes} {range : Range} {d : Direction}
    {p : EntryId × Body} : p ∈ s.within key range d ↔ s.Has key p ∧ range.holds p.1 := by
  unfold within Has
  cases s.get? key with
  | none => simp
  | some stream =>
      simp only [Direction.mem_arrange, List.mem_filter, Option.some.injEq, exists_eq_left']
      rw [← SortedMap.mem_toList_iff]

theorem pairwise_within (s : Store) (key : Bytes) (range : Range) (d : Direction) :
    (s.within key range d).Pairwise fun p q => d.before p.1 q.1 := by
  unfold within
  cases s.get? key with
  | none => exact .nil
  | some stream =>
      simp only
      rw [← Direction.filter_arrange]
      exact (d.pairwise_arrange stream.entries).filter _

theorem length_within_le (s : Store) (key : Bytes) (range : Range) (d : Direction) :
    (s.within key range d).length ≤ s.length key := by
  unfold within length
  cases s.get? key with
  | none => exact Nat.le_refl _
  | some stream =>
      have hfilter := List.length_filter_le (fun p => range.holds p.1) stream.entries.toList
      cases d with
      | ascending => exact hfilter
      | descending => exact Nat.le_trans (Nat.le_of_eq List.length_reverse) hfilter

end Store

/-! ## A scan over a range -/

namespace Bound

theorem read_of_reads {b : Bound String} (h : b.reads) (missing : UInt64) :
    ∃ b', b.read missing = .ok b' := by
  cases b with
  | unbounded => exact ⟨_, rfl⟩
  | including s | excluding s =>
      obtain ⟨id, hid⟩ := Option.isSome_iff_exists.1 ((EntryId.isSome_ofText? missing s).trans h)
      simp only [read, hid]
      exact ⟨_, rfl⟩

theorem read_of_not_reads {b : Bound String} (h : ¬ b.reads) (missing : UInt64) :
    b.read missing = .error .invalidId := by
  cases b with
  | unbounded => exact absurd rfl h
  | including s | excluding s =>
      have hnone : EntryId.ofText? missing s = none := by
        rw [← Option.not_isSome_iff_eq_none, EntryId.isSome_ofText?]
        exact h
      simp only [read, hnone]

theorem admitsFrom_of_read {b : Bound String} {b' : Bound EntryId} (h : b.read 0 = .ok b')
    (id : EntryId) : b'.admitsFrom id = b.holdsFrom id := by
  cases b with
  | unbounded =>
      cases h
      rfl
  | including s | excluding s =>
      cases hs : EntryId.ofText? 0 s with
      | none =>
          simp only [read, hs] at h
          cases h
      | some least =>
          simp only [read, hs] at h
          cases h
          simp only [holdsFrom, hs]
          rfl

theorem admitsUpTo_of_read {b : Bound String} {b' : Bound EntryId}
    (h : b.read 18446744073709551615 = .ok b') (id : EntryId) :
    b'.admitsUpTo id = b.holdsUpTo id := by
  cases b with
  | unbounded =>
      cases h
      rfl
  | including s | excluding s =>
      cases hs : EntryId.ofText? 18446744073709551615 s with
      | none =>
          simp only [read, hs] at h
          cases h
      | some greatest =>
          simp only [read, hs] at h
          cases h
          simp only [holdsUpTo, hs]
          rfl

/-- A lower bound lets everything through above what it lets through. -/
theorem admitsFrom_mono {b : Bound EntryId} {a c : EntryId} (hlt : a < c)
    (h : b.admitsFrom a) : b.admitsFrom c := by
  cases b with
  | unbounded => rfl
  | including least =>
      have hle : least ≤ a := of_decide_eq_true h
      exact decide_eq_true (EntryId.le_trans hle (EntryId.le_of_lt hlt))
  | excluding least =>
      have hbelow : least < a := of_decide_eq_true h
      exact decide_eq_true (EntryId.lt_trans hbelow hlt)

/-- An upper bound lets everything through below what it lets through. -/
theorem admitsUpTo_mono {b : Bound EntryId} {a c : EntryId} (hlt : a < c)
    (h : b.admitsUpTo c) : b.admitsUpTo a := by
  cases b with
  | unbounded => rfl
  | including greatest =>
      have hle : c ≤ greatest := of_decide_eq_true h
      exact decide_eq_true (EntryId.le_trans (EntryId.le_of_lt hlt) hle)
  | excluding greatest =>
      have habove : c < greatest := of_decide_eq_true h
      exact decide_eq_true (EntryId.lt_trans hlt habove)

theorem le_of_holdsFrom {b : Bound String} {id least : EntryId} (h : b.holdsFrom id)
    (hmark : b.mark? 0 = some least) : least ≤ id := by
  cases b with
  | unbounded => cases hmark
  | including s =>
      simp only [mark?] at hmark
      simp only [holdsFrom, hmark, Option.any_some] at h
      exact of_decide_eq_true h
  | excluding s =>
      simp only [mark?] at hmark
      simp only [holdsFrom, hmark, Option.any_some] at h
      exact EntryId.le_of_lt (of_decide_eq_true h)

theorem le_of_holdsUpTo {b : Bound String} {id greatest : EntryId} (h : b.holdsUpTo id)
    (hmark : b.mark? 18446744073709551615 = some greatest) : id ≤ greatest := by
  cases b with
  | unbounded => cases hmark
  | including s =>
      simp only [mark?] at hmark
      simp only [holdsUpTo, hmark, Option.any_some] at h
      exact of_decide_eq_true h
  | excluding s =>
      simp only [mark?] at hmark
      simp only [holdsUpTo, hmark, Option.any_some] at h
      exact EntryId.le_of_lt (of_decide_eq_true h)

end Bound

/-- Nothing is between bounds that are crossed. -/
theorem Range.not_holds_of_isCrossed {range : Range} (h : range.isCrossed) (id : EntryId) :
    ¬ range.holds id := by
  unfold isCrossed at h
  split at h
  case h_1 least greatest hlower hupper =>
    intro hholds
    rw [holds, Bool.and_eq_true] at hholds
    have habove := Bound.le_of_holdsFrom hholds.1 hlower
    have hbelow := Bound.le_of_holdsUpTo hholds.2 hupper
    exact EntryId.not_le.2 (of_decide_eq_true h) (EntryId.le_trans habove hbelow)
  case h_2 => cases h

namespace Scan

/-- A scan goes over a range of a key in a direction. -/
structure Over (sc : Scan) (key : Bytes) (range : Range) (d : Direction) : Prop where
  key : sc.key = key
  direction : sc.direction = d
  admits : ∀ id, (sc.lower.admitsFrom id && sc.upper.admitsUpTo id) = range.holds id

variable {sc : Scan} {key : Bytes} {range : Range} {window : Option Window} {d : Direction}

theorem start_of_reads (key : Bytes) (h : range.reads) (window : Option Window) (d : Direction) :
    ∃ sc, start key range window d = .ok sc := by
  rw [Range.reads, Bool.and_eq_true] at h
  obtain ⟨lower, hlower⟩ := Bound.read_of_reads h.1 0
  obtain ⟨upper, hupper⟩ := Bound.read_of_reads h.2 (UInt64.ofNat (UInt64.size - 1))
  simp only [start, hlower, hupper]
  exact ⟨_, rfl⟩

theorem start_of_not_reads (h : ¬ range.reads) :
    start key range window d = .error .invalidId := by
  rw [Range.reads, Bool.and_eq_true, Classical.not_and_iff_not_or_not] at h
  unfold start
  by_cases hlower : range.lower.reads
  · obtain ⟨lower, hread⟩ := Bound.read_of_reads hlower 0
    rw [hread]
    simp only
    rw [Bound.read_of_not_reads (h.resolve_left fun hnot => hnot hlower)]
  · rw [Bound.read_of_not_reads hlower]

/-- A scan starts over its range, before the first page. -/
theorem start_eq_ok (h : start key range window d = .ok sc) :
    sc.Over key range d ∧ sc.skip = (window.map fun w => w.offset.toNat).getD 0 ∧
      sc.remaining = (window.map fun w => w.count.toNat) ∧ sc.cursor = none ∧ sc.page = [] ∧
      sc.more = true := by
  unfold start at h
  split at h
  case h_1 => cases h
  case h_2 lower hlower =>
    split at h
    case h_1 => cases h
    case h_2 upper hupper =>
      cases h
      refine ⟨⟨rfl, rfl, fun id => ?_⟩, rfl, rfl, rfl, rfl, rfl⟩
      rw [Bound.admitsFrom_of_read hlower, Range.holds]
      rw [Bound.admitsUpTo_of_read hupper]

/-- Whether an entry lies ahead of the cursor of a scan. -/
def isAhead (sc : Scan) (p : EntryId × Body) : Bool := sc.cursor.all (sc.direction.before · p.1)

theorem isAhead_of_before {p q : EntryId × Body} (hp : sc.isAhead p)
    (hq : sc.direction.before p.1 q.1) : sc.isAhead q := by
  unfold isAhead at *
  cases hc : sc.cursor with
  | none => rfl
  | some id =>
      rw [hc] at hp
      exact Direction.before_trans hp hq

theorem beyond_eq_filter (entries : SortedMap EntryId Body) (sc : Scan) :
    beyond entries sc.direction sc.cursor =
      (sc.direction.arrange entries.toList).filter sc.isAhead := by
  unfold isAhead
  cases sc.cursor with
  | none =>
      have hall : ∀ l : List (EntryId × Body),
          l.filter (fun p => Option.all (sc.direction.before · p.1) none) = l :=
        fun l => List.filter_eq_self.2 fun _ _ => rfl
      rw [hall]
      cases sc.direction <;> rfl
  | some id =>
      cases sc.direction with
      | ascending => rfl
      | descending => exact (List.filter_reverse ..).symm

/-- Once inside the bound at which it begins, a scan stays inside. -/
theorem admitsNear_of_before {a b : EntryId} (h : sc.direction.before a b)
    (ha : sc.admitsNear a) : sc.admitsNear b := by
  unfold admitsNear at *
  cases hd : sc.direction with
  | ascending =>
      rw [hd, Direction.before_ascending] at h
      rw [hd] at ha
      exact Bound.admitsFrom_mono h ha
  | descending =>
      rw [hd, Direction.before_descending] at h
      rw [hd] at ha
      exact Bound.admitsUpTo_mono h ha

/-- Once outside the bound at which it ends, a scan stays outside. -/
theorem admitsFar_of_before {a b : EntryId} (h : sc.direction.before a b)
    (hb : sc.admitsFar b) : sc.admitsFar a := by
  unfold admitsFar at *
  cases hd : sc.direction with
  | ascending =>
      rw [hd, Direction.before_ascending] at h
      rw [hd] at hb
      exact Bound.admitsUpTo_mono h hb
  | descending =>
      rw [hd, Direction.before_descending] at h
      rw [hd] at hb
      exact Bound.admitsFrom_mono h hb

theorem Over.near_and_far (h : sc.Over key range d) (id : EntryId) :
    (sc.admitsNear id && sc.admitsFar id) = range.holds id := by
  rw [← h.admits]
  unfold admitsNear admitsFar
  cases sc.direction with
  | ascending => rfl
  | descending => exact Bool.and_comm ..

/-- What lies ahead of a scan in its range. -/
def ahead (sc : Scan) (range : Range) (store : Store) : List (EntryId × Body) :=
  (store.within sc.key range sc.direction).filter sc.isAhead

/-- A page is the beginning of what lies ahead. -/
theorem pageOf_eq (h : sc.Over key range d) (store : Store) :
    sc.pageOf store = (sc.ahead range store).take pageSize := by
  unfold pageOf ahead Store.within
  cases store.get? sc.key with
  | none => rfl
  | some stream =>
      simp only
      have hsorted : (beyond stream.entries sc.direction sc.cursor).Pairwise fun p q =>
          sc.direction.before p.1 q.1 := by
        rw [beyond_eq_filter]
        exact (sc.direction.pairwise_arrange stream.entries).filter _
      have hnear : ∀ p q : EntryId × Body, sc.direction.before p.1 q.1 →
          (!sc.admitsNear q.1) → !sc.admitsNear p.1 := by
        intro p q hlt hq
        by_cases hp : sc.admitsNear p.1
        · rw [admitsNear_of_before hlt hp] at hq
          cases hq
        · simp [hp]
      rw [dropWhile_eq_filter (hsorted.imp fun hlt => hnear _ _ hlt)]
      rw [takeWhile_eq_filter ((hsorted.filter _).imp fun hlt hq => admitsFar_of_before hlt hq)]
      rw [beyond_eq_filter, ← Direction.filter_arrange]
      simp only [List.filter_filter]
      congr 2
      funext p
      rw [← h.near_and_far p.1, Bool.not_not, ← Bool.and_assoc, Bool.and_comm (sc.isAhead p),
        Bool.and_comm (sc.admitsFar p.1)]

theorem pairwise_ahead (sc : Scan) (range : Range) (store : Store) :
    (sc.ahead range store).Pairwise fun p q => sc.direction.before p.1 q.1 :=
  (store.pairwise_within sc.key range sc.direction).filter _

theorem mem_ahead {store : Store} {p : EntryId × Body} :
    p ∈ sc.ahead range store ↔
      p ∈ store.within sc.key range sc.direction ∧ sc.isAhead p :=
  List.mem_filter

/-! ## Loading a page -/

theorem Over.load (h : sc.Over key range d) (store : Store) : (sc.load store).Over key range d :=
  ⟨h.key, h.direction, h.admits⟩

theorem cursor_load (sc : Scan) (store : Store) :
    (sc.load store).cursor = ((sc.pageOf store).getLast?.map (·.1)).or sc.cursor := rfl

/-- An empty page leaves the cursor. -/
theorem isAhead_load_of_empty {store : Store} (h : (sc.pageOf store).getLast? = none)
    (q : EntryId × Body) : (sc.load store).isAhead q = sc.isAhead q := by
  unfold isAhead
  rw [cursor_load, h]
  rfl

/-- The last entry of a page becomes the cursor. -/
theorem isAhead_load_of_last {store : Store} {p : EntryId × Body}
    (h : (sc.pageOf store).getLast? = some p) (q : EntryId × Body) :
    (sc.load store).isAhead q = sc.direction.before p.1 q.1 := by
  unfold isAhead
  rw [cursor_load, h]
  rfl

/-- A new page moves the cursor past what is on it. -/
theorem ahead_load (h : sc.Over key range d) (store : Store) :
    (sc.load store).ahead range store = (sc.ahead range store).drop pageSize := by
  have hpage := pageOf_eq h store
  cases hlast : (sc.pageOf store).getLast? with
  | none =>
      have hempty : sc.ahead range store = [] := by
        have hnil := List.getLast?_eq_none_iff.1 hlast
        rw [hpage, List.take_eq_nil_iff] at hnil
        exact hnil.resolve_left nofun
      have hsame : (sc.load store).ahead range store = sc.ahead range store := by
        exact List.filter_congr fun q _ => isAhead_load_of_empty hlast q
      rw [hsame, hempty, List.drop_nil]
  | some p =>
      have hlast' : ((sc.ahead range store).take pageSize).getLast? = some p := by
        rw [← hpage]
        exact hlast
      have hp : sc.isAhead p :=
        (mem_ahead.1 (List.mem_of_mem_take (List.mem_of_getLast? hlast'))).2
      -- the new cursor lies ahead of the old one, so the old test says nothing more
      have hrefine : (sc.load store).ahead range store =
          (sc.ahead range store).filter (sc.direction.before p.1 ·.1) := by
        unfold ahead
        rw [List.filter_filter]
        refine List.filter_congr fun q _ => ?_
        rw [isAhead_load_of_last hlast]
        cases hq : sc.direction.before p.1 q.1 with
        | false => rfl
        | true => exact (isAhead_of_before hp hq).symm
      rw [hrefine]
      exact filter_eq_drop (R := fun a b : EntryId × Body => sc.direction.before a.1 b.1)
        (sc.direction.not_before_self p.1) Direction.before_trans
        (sc.pairwise_ahead range store) hlast'

/-- A full page may have another behind it. -/
theorem more_load (sc : Scan) (store : Store) :
    (sc.load store).more = ((sc.pageOf store).length == pageSize) := rfl

/-- A page and what may be behind it are what lay ahead: a page that is not full is all there
was. -/
theorem page_and_ahead (h : sc.Over key range d) (store : Store) :
    (sc.load store).page ++
        (if (sc.load store).more then (sc.load store).ahead range store else []) =
      sc.ahead range store := by
  have hpage : (sc.load store).page = (sc.ahead range store).take pageSize := pageOf_eq h store
  have hrest : (if (sc.load store).more then (sc.load store).ahead range store else []) =
      (sc.ahead range store).drop pageSize := by
    rw [more_load, pageOf_eq h, ahead_load h]
    split
    case isTrue => rfl
    case isFalse hshort =>
      rw [beq_iff_eq, List.length_take] at hshort
      refine (List.drop_eq_nil_of_le (Nat.le_of_not_lt fun hlong => hshort ?_)).symm
      exact Nat.min_eq_left (Nat.le_of_lt hlong)
  rw [hpage, hrest, List.take_append_drop]

theorem pairwise_pageOf (h : sc.Over key range d) (store : Store) :
    (sc.pageOf store).Pairwise fun p q => d.before p.1 q.1 := by
  rw [pageOf_eq h, ← h.direction]
  exact (sc.pairwise_ahead range store).sublist (List.take_sublist ..)

/-- What is on a page stands in the store, inside the range and ahead of the cursor. -/
theorem of_mem_pageOf (h : sc.Over key range d) {store : Store} {p : EntryId × Body}
    (hp : p ∈ sc.pageOf store) : store.Has key p ∧ range.holds p.1 ∧ sc.isAhead p := by
  rw [pageOf_eq h] at hp
  obtain ⟨hwithin, hahead⟩ := mem_ahead.1 (List.mem_of_mem_take hp)
  obtain ⟨hhas, hholds⟩ := Store.mem_within.1 hwithin
  rw [h.key] at hhas
  exact ⟨hhas, hholds, hahead⟩

/-- What lies ahead of a new page lay ahead before, behind all that is on the page. -/
theorem of_isAhead_load (h : sc.Over key range d) {store : Store} {q : EntryId × Body}
    (hq : (sc.load store).isAhead q) :
    sc.isAhead q ∧ ∀ p ∈ sc.pageOf store, d.before p.1 q.1 := by
  cases hlast : (sc.pageOf store).getLast? with
  | none =>
      rw [isAhead_load_of_empty hlast] at hq
      rw [List.getLast?_eq_none_iff.1 hlast]
      exact ⟨hq, nofun⟩
  | some last =>
      rw [isAhead_load_of_last hlast] at hq
      obtain ⟨-, -, hahead⟩ := of_mem_pageOf h (List.mem_of_getLast? hlast)
      refine ⟨isAhead_of_before hahead hq, fun p hp => ?_⟩
      rw [h.direction] at hq
      obtain ⟨init, hinit⟩ := List.getLast?_eq_some_iff.1 hlast
      have hsorted := pairwise_pageOf h store
      rw [hinit] at hsorted hp
      rcases List.mem_append.1 hp with hp | hp
      · have hbefore := (List.pairwise_append.1 hsorted).2.2 p hp last List.mem_cons_self
        exact Direction.before_trans hbefore hq
      · rw [List.mem_singleton.1 hp]
        exact hq

/-- What lay ahead is on the new page or, if that is full, ahead of it. -/
theorem mem_pageOf_or_isAhead (h : sc.Over key range d) {store : Store} {p : EntryId × Body}
    (hhas : store.Has key p) (hholds : range.holds p.1) (hp : sc.isAhead p) :
    p ∈ sc.pageOf store ∨ (sc.load store).more ∧ (sc.load store).isAhead p := by
  have hmem : p ∈ sc.ahead range store := by
    refine mem_ahead.2 ⟨Store.mem_within.2 ⟨?_, hholds⟩, hp⟩
    rw [h.key]
    exact hhas
  rw [← page_and_ahead h] at hmem
  rcases List.mem_append.1 hmem with hpage | hlater
  · exact .inl hpage
  · split at hlater
    case isTrue hmore => exact .inr ⟨hmore, (mem_ahead.1 hlater).2⟩
    case isFalse => cases hlater

/-- A bound on the pages that a scan may still take. -/
def pagesLeft (sc : Scan) (range : Range) (store : Store) : Nat :=
  if sc.more then (sc.ahead range store).length + 1 else 0

/-- Every page that is taken leaves fewer. -/
theorem pagesLeft_load (h : sc.Over key range d) (hmore : sc.more) (store : Store) :
    (sc.load store).pagesLeft range store < sc.pagesLeft range store := by
  unfold pagesLeft
  rw [if_pos hmore]
  split
  case isTrue hfull =>
    rw [more_load, beq_iff_eq, pageOf_eq h, List.length_take] at hfull
    rw [ahead_load h, List.length_drop]
    unfold pageSize at *
    omega
  case isFalse => omega

/-- A scan takes fewer pages than there are entries and two. -/
theorem pagesLeft_lt (sc : Scan) (range : Range) (store : Store) :
    sc.pagesLeft range store < store.length sc.key + 2 := by
  have hahead := List.length_filter_le sc.isAhead (store.within sc.key range sc.direction)
  have hwithin := store.length_within_le sc.key range sc.direction
  unfold pagesLeft ahead
  split <;> omega

/-! ## A step of a scan -/

/-- What a scan can do with the page at hand: it gives the entry behind those to be passed over, or
it passes over the whole page, behind which there may be another, or it is over. -/
theorem advance_cases (sc : Scan) :
    (∃ passed p page, sc.remaining ≠ some 0 ∧ sc.page = passed ++ p :: page ∧
        passed.length = sc.skip ∧
        sc.advance = .message (.ofEntry sc.key p.1 p.2)
          { sc with page, skip := 0, remaining := sc.remaining.map (· - 1) }) ∨
      (sc.remaining ≠ some 0 ∧ sc.page.length ≤ sc.skip ∧ sc.more ∧
        sc.advance = .needsPage { sc with page := [], skip := sc.skip - sc.page.length }) ∨
      (sc.advance = .finished ∧
        (sc.remaining = some 0 ∨ sc.page.length ≤ sc.skip ∧ sc.more = false)) := by
  unfold advance
  by_cases hremaining : sc.remaining = some 0
  · exact .inr (.inr ⟨if_pos hremaining, .inl hremaining⟩)
  · simp only [if_neg hremaining]
    cases hdrop : sc.page.drop sc.skip with
    | nil =>
        have hlength : sc.page.length ≤ sc.skip := List.drop_eq_nil_iff.1 hdrop
        cases hmore : sc.more with
        | true => exact .inr (.inl ⟨hremaining, hlength, rfl, rfl⟩)
        | false => exact .inr (.inr ⟨rfl, .inr ⟨hlength, rfl⟩⟩)
    | cons p page =>
        have hlength : sc.skip < sc.page.length := by
          refine Nat.lt_of_not_le fun hle => ?_
          rw [List.drop_eq_nil_of_le hle] at hdrop
          cases hdrop
        refine .inl ⟨sc.page.take sc.skip, p, page, hremaining, ?_, ?_, ?_⟩
        · rw [← hdrop, List.take_append_drop]
        · exact List.length_take_of_le (Nat.le_of_lt hlength)
        · rw [Nat.sub_eq_zero_of_le (Nat.le_of_lt hlength)]

end Scan

end StreamBroker
