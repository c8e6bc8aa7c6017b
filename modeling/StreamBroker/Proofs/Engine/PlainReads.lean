import StreamBroker.Proofs.Engine.Operations
import StreamBroker.Proofs.Store.Foremost
import StreamBroker.Proofs.Store.PlainRead
set_option autoImplicit false

/-!
# What a plain read returns

A plain read that does not wait is refused for the first of its tokens that cannot stand for a place
(`Store.refusal?`), wherever that is and whether or not there is a stream under its key.  Otherwise it
returns one segment for each of its offsets, in the order in which they were named: the first entries
behind the place for which the token stands.
-/

namespace StreamBroker

namespace Store

/-! ## Which tokens are refused -/

/-- Why a token of a plain read is refused, if it is. -/
def refusal? (token : String) : Option Refusal :=
  if token = ">" then some .undeliveredOutsideGroup
  else if token = "$" ∨ (EntryId.ofText? 0 token).isSome then none
  else some .invalidId

variable {s : Store} {key : Bytes} {token : String} {refusal : Refusal}
  {offsets : List (Bytes × String)}

/-- What is refused is `>`, and what stands neither for the last entry nor for an identifier. -/
theorem isSome_refusal?_iff :
    (refusal? token).isSome ↔ token = ">" ∨ token ≠ "$" ∧ EntryId.ofText? 0 token = none := by
  unfold refusal?
  by_cases hundelivered : token = ">"
  · rw [if_pos hundelivered]
    exact ⟨fun _ => .inl hundelivered, fun _ => rfl⟩
  · by_cases hlatest : token = "$"
    · simp [hlatest]
    · cases EntryId.ofText? 0 token <;> simp [hundelivered, hlatest]

/-- A plain read puts a cursor at the place for which a token stands, unless the token is refused. -/
theorem resolveCursor_outside_group (s : Store) (key : Bytes) (token : String) :
    s.resolveCursor false key token =
      (refusal? token).elim (.ok (.after (s.mark key token))) .error := by
  unfold resolveCursor refusal? mark
  by_cases hundelivered : token = ">"
  · subst hundelivered
    rfl
  · by_cases hlatest : token = "$"
    · subst hlatest
      rfl
    · simp only [if_neg hundelivered, hlatest, false_or]
      cases EntryId.ofText? 0 token <;> rfl

theorem resolveCursor_accepted (s : Store) (key : Bytes) (h : refusal? token = none) :
    s.resolveCursor false key token = .ok (.after (s.mark key token)) := by
  rw [resolveCursor_outside_group, h]
  rfl

theorem resolveCursor_refused (s : Store) (key : Bytes) (h : refusal? token = some refusal) :
    s.resolveCursor false key token = .error refusal := by
  rw [resolveCursor_outside_group, h]
  rfl

/-! ## The first refusal decides -/

theorem resolve_accepted (h : ∀ o ∈ offsets, refusal? o.2 = none) :
    s.resolve false offsets = .ok (offsets.map fun o => (o.1, .after (s.mark o.1 o.2))) := by
  induction offsets with
  | nil => rfl
  | cons o rest ih =>
      obtain ⟨hfirst, hrest⟩ := List.forall_mem_cons.1 h
      unfold resolve
      simp only [resolveCursor_accepted s o.1 hfirst, ih hrest]
      rfl

theorem resolve_refused {before after : List (Bytes × String)} {o : Bytes × String}
    (hbefore : ∀ p ∈ before, refusal? p.2 = none) (h : refusal? o.2 = some refusal) :
    s.resolve false (before ++ o :: after) = .error refusal := by
  induction before with
  | nil =>
      rw [List.nil_append]
      unfold resolve
      simp only [resolveCursor_refused s o.1 h]
  | cons p rest ih =>
      obtain ⟨hfirst, hrest⟩ := List.forall_mem_cons.1 hbefore
      rw [List.cons_append]
      unfold resolve
      simp only [resolveCursor_accepted s p.1 hfirst, ih hrest]
      rfl

/-- All offsets of a read are accepted, or there is a first that is not. -/
theorem accepted_or_refused (offsets : List (Bytes × String)) :
    (∀ o ∈ offsets, refusal? o.2 = none) ∨
      ∃ before o after refusal, offsets = before ++ o :: after ∧
        (∀ p ∈ before, refusal? p.2 = none) ∧ refusal? o.2 = some refusal := by
  cases hfirst : offsets.findSome? fun o => refusal? o.2 with
  | none => exact .inl (List.findSome?_eq_none_iff.1 hfirst)
  | some refusal =>
      obtain ⟨before, o, after, hsplit, ho, hbefore⟩ := List.findSome?_eq_some_iff.1 hfirst
      exact .inr ⟨before, o, after, refusal, hsplit, hbefore, ho⟩

/-- The entries behind an identifier, cut by a count. -/
theorem foremost_behind_iff (s : Store) (key : Bytes) (id : EntryId) (count : Option UInt64)
    (l : List (EntryId × Body)) :
    Foremost (fun p => s.Has key p ∧ id < p.1) count l ↔ l = takeCount count (s.behind key id) := by
  refine foremost_iff (s.pairwise_behind key id) (fun p => ?_) count l
  rw [mem_behind, mem_listed]
  rfl

theorem behind_of_missing (h : s.get? key = none) (id : EntryId) : s.behind key id = [] := by
  rw [behind, listed_of_missing h]
  rfl

/-- What a plain read returns if all its offsets are accepted. -/
theorem readAtOnce_accepted (h : ∀ o ∈ offsets, refusal? o.2 = none) (count : Option UInt64)
    (noAck : Bool) :
    s.readAtOnce offsets count noAck none =
      (.ok (offsets.flatMap fun o =>
        (takeCount count (s.behind o.1 (s.mark o.1 o.2))).map fun p => .ofEntry o.1 p.1 p.2), s) := by
  unfold readAtOnce
  rw [Option.isSome_none, resolve_accepted h]
  simp only [attempt_plain, readPlain_after]

theorem readAtOnce_refused {before after : List (Bytes × String)} {o : Bytes × String}
    (hbefore : ∀ p ∈ before, refusal? p.2 = none) (h : refusal? o.2 = some refusal)
    (count : Option UInt64) (noAck : Bool) :
    s.readAtOnce (before ++ o :: after) count noAck none = (.error refusal, s) := by
  unfold readAtOnce
  rw [Option.isSome_none, resolve_refused hbefore h]

theorem readAtOnce_store (s : Store) (offsets : List (Bytes × String)) (count : Option UInt64)
    (noAck : Bool) : (s.readAtOnce offsets count noAck none).2 = s := by
  unfold readAtOnce
  split <;> rfl

/-- A plain read is refused for the first of its tokens that is refused. -/
theorem readAtOnce_eq_error_iff {count : Option UInt64} {noAck : Bool} :
    (s.readAtOnce offsets count noAck none).1 = .error refusal ↔
      ∃ before o after, offsets = before ++ o :: after ∧
        (∀ p ∈ before, refusal? p.2 = none) ∧ refusal? o.2 = some refusal := by
  rcases accepted_or_refused offsets with hall | ⟨before, o, after, refusal', rfl, hbefore, ho⟩
  · rw [readAtOnce_accepted hall]
    refine ⟨fun h => (by cases h), ?_⟩
    rintro ⟨before, o, after, rfl, -, ho⟩
    rw [hall o (List.mem_append_right _ List.mem_cons_self)] at ho
    cases ho
  · rw [readAtOnce_refused hbefore ho]
    constructor
    · intro h
      cases h
      exact ⟨before, o, after, rfl, hbefore, ho⟩
    · rintro ⟨before', o', after', hsplit, hbefore', ho'⟩
      have hfirst := List.findSome?_eq_some_iff.2 ⟨before, o, after, rfl, ho, hbefore⟩
      have hfirst' := List.findSome?_eq_some_iff.2 ⟨before', o', after', hsplit, ho', hbefore'⟩
      rw [Option.some.inj (hfirst.symm.trans hfirst')]

/-- A plain read is refused if any of its tokens is. -/
theorem exists_readAtOnce_eq_error_iff {count : Option UInt64} {noAck : Bool} :
    (∃ refusal, (s.readAtOnce offsets count noAck none).1 = .error refusal) ↔
      ∃ o ∈ offsets, o.2 = ">" ∨ o.2 ≠ "$" ∧ EntryId.ofText? 0 o.2 = none := by
  simp only [readAtOnce_eq_error_iff, ← isSome_refusal?_iff]
  constructor
  · rintro ⟨refusal, before, o, after, rfl, -, ho⟩
    exact ⟨o, List.mem_append_right _ List.mem_cons_self, Option.isSome_of_mem ho⟩
  · rintro ⟨o, ho, hsome⟩
    rcases accepted_or_refused offsets with hall | ⟨before, o, after, refusal, hfirst⟩
    · rw [hall o ho] at hsome
      cases hsome
    · exact ⟨refusal, before, o, after, hfirst⟩

end Store

/-- A plain read that does not wait leaves the engine as it is.  If all its offsets are accepted it
returns their segments, one behind the other in the order in which they were named: of the stream under
the key of each, the first entries behind the place for which its token stands, as many as are counted;
and nothing for a key without a stream.  It is refused exactly if the token of some offset is `>` or
stands for nothing, and then for the first such token, whatever there is under its key. -/
theorem plain_read_in_segments (e : Engine) (now : Nat) (offsets : List (Bytes × String))
    (count : Option UInt64) (noAck : Bool) :
    let read := e.beginRead now ⟨offsets, none, count, noAck, none⟩
    read.2 = e ∧
      ((∀ o ∈ offsets, Store.refusal? o.2 = none) →
        ∃ segment : Bytes × String → List (EntryId × Body),
          (∀ o ∈ offsets, (e.store.get? o.1 = none → segment o = []) ∧
            ∀ l, Foremost (fun p => e.store.Has o.1 p ∧ e.store.mark o.1 o.2 < p.1) count l ↔
              l = segment o) ∧
          read.1 = .returned (.ok (offsets.flatMap fun o =>
            (segment o).map fun p => .ofEntry o.1 p.1 p.2))) ∧
      ((∃ refusal, read.1 = .returned (.error refusal)) ↔
        ∃ o ∈ offsets, o.2 = ">" ∨ o.2 ≠ "$" ∧ EntryId.ofText? 0 o.2 = none) ∧
      ∀ refusal, read.1 = .returned (.error refusal) ↔
        ∃ before o after, offsets = before ++ o :: after ∧
          (∀ p ∈ before, Store.refusal? p.2 = none) ∧ Store.refusal? o.2 = some refusal := by
  intro read
  have hread : read = (.returned (e.store.readAtOnce offsets count noAck none).1, e) := by
    refine (e.beginRead_of_block_none now rfl).trans ?_
    rw [Store.readAtOnce_store]
  have hreturned : ∀ refusal, read.1 = .returned (.error refusal) ↔
      (e.store.readAtOnce offsets count noAck none).1 = .error refusal := by
    intro refusal
    rw [hread]
    exact ⟨Progress.returned.inj, congrArg Progress.returned⟩
  refine ⟨congrArg Prod.snd hread, fun hall => ?_, ?_, fun refusal => ?_⟩
  · rw [hread, Store.readAtOnce_accepted hall]
    refine ⟨fun o => takeCount count (e.store.behind o.1 (e.store.mark o.1 o.2)), fun o _ => ⟨?_, ?_⟩,
      rfl⟩
    · exact fun hmissing => takeCount_eq_nil_iff.2 (Store.behind_of_missing hmissing _)
    · exact e.store.foremost_behind_iff o.1 _ count
  · simp only [hreturned]
    exact Store.exists_readAtOnce_eq_error_iff
  · rw [hreturned]
    exact Store.readAtOnce_eq_error_iff

/-- Three entries under one key, one under another. -/
def twoStreams : List Move :=
  [.add [97] (some "1-1") (.ofList [([102], [118])]) (some 0),
    .add [97] (some "1-2") (.ofList [([102], [118])]) (some 0),
    .add [98] (some "2-0") (.ofList [([102], [119])]) (some 0),
    .add [97] (some "1-3") (.ofList [([102], [118])]) (some 0)]

/-- One key is named twice and one has no stream. -/
def fourOffsets : List (Bytes × String) := [([97], "1-1"), ([99], "0"), ([98], "-"), ([97], "0")]

theorem plain_read_in_segments_repeatedKey :
    let e := (World.start.run twoStreams).engine
    (e.beginRead 0 ⟨fourOffsets, none, some 2, false, none⟩).1 = .returned (.ok
        [.ofEntry [97] ⟨1, 2⟩ (.ofList [([102], [118])]), .ofEntry [97] ⟨1, 3⟩ (.ofList [([102], [118])]),
          .ofEntry [98] ⟨2, 0⟩ (.ofList [([102], [119])]), .ofEntry [97] ⟨1, 1⟩ (.ofList [([102], [118])]),
          .ofEntry [97] ⟨1, 2⟩ (.ofList [([102], [118])])]) ∧
      (∀ o ∈ fourOffsets, Store.refusal? o.2 = none) ∧
      (∃ segment : Bytes × String → List (EntryId × Body),
        (∀ o ∈ fourOffsets, (e.store.get? o.1 = none → segment o = []) ∧
          ∀ l, Foremost (fun p => e.store.Has o.1 p ∧ e.store.mark o.1 o.2 < p.1) (some 2) l ↔
            l = segment o) ∧
        (e.beginRead 0 ⟨fourOffsets, none, some 2, false, none⟩).1 = .returned (.ok
          (fourOffsets.flatMap fun o => (segment o).map fun p => .ofEntry o.1 p.1 p.2))) ∧
      (e.beginRead 0 ⟨fourOffsets ++ [([99], ">"), ([97], "x")], none, none, false, none⟩).1 =
        .returned (.error .undeliveredOutsideGroup) := by
  intro e
  have haccepted : ∀ o ∈ fourOffsets, Store.refusal? o.2 = none := by decide
  obtain ⟨-, hsegments, -, -⟩ := plain_read_in_segments e 0 fourOffsets (some 2) false
  obtain ⟨-, -, -, hrefused⟩ := plain_read_in_segments e 0 (fourOffsets ++ [([99], ">"), ([97], "x")])
    none false
  refine ⟨?_, haccepted, hsegments haccepted, (hrefused .undeliveredOutsideGroup).2 ?_⟩
  · rw [e.beginRead_of_block_none 0 rfl, Store.readAtOnce_accepted haccepted]
    refine congrArg (Progress.returned <| Except.ok ·) ?_
    decide +kernel
  · exact ⟨fourOffsets, ([99], ">"), [([97], "x")], rfl, haccepted, rfl⟩

end StreamBroker
