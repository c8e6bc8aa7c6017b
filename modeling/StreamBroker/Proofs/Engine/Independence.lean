import StreamBroker.Proofs.Engine.Operations
set_option autoImplicit false

/-!
# Operations that do not concern each other

Two operations are independent if they name different keys, or different groups.  What the one may
change then lies outside what the other looks at, so it does not matter which comes first
(`independent_operations_commute`).
-/

namespace StreamBroker

namespace EngineOperation

variable {op : EngineOperation} {p : Place}

/-- Two operations name no key in common, or are both on groups and name different ones. -/
def Independent (a b : EngineOperation) : Prop :=
  (∀ key ∈ a.keys, key ∉ b.keys) ∨
    ∃ name other, a.group? = some name ∧ b.group? = some other ∧ name ≠ other

theorem Independent.symm {a b : EngineOperation} (h : a.Independent b) : b.Independent a := by
  rcases h with hkeys | ⟨name, other, ha, hb, hne⟩
  · exact .inl fun key hb ha => hkeys key ha hb
  · exact .inr ⟨other, name, hb, ha, hne.symm⟩

/-- An operation looks under its keys only. -/
theorem key_mem_of_reads (h : op.Reads p) : p.key ∈ op.keys := by
  unfold Reads at h
  cases hgroup : op.group? with
  | some name =>
      rw [hgroup] at h
      obtain ⟨key, hkey, rfl⟩ | ⟨key, hkey, rfl⟩ := h <;> exact hkey
  | none =>
      rw [hgroup] at h
      obtain ⟨key, hkey, rfl⟩ := h
      exact hkey

/-- An operation on a group looks at no other group. -/
theorem name_of_reads {name key other : Bytes} (hgroup : op.group? = some name)
    (h : op.Reads (.group key other)) : other = name := by
  unfold Reads at h
  rw [hgroup] at h
  obtain ⟨k, -, hentries⟩ | ⟨k, -, hsame⟩ := h
  · cases hentries
  · exact (Place.group.inj hsame).2

/-- An operation on a group changes nothing but groups of that name. -/
theorem exists_of_writes {name : Bytes} (hgroup : op.group? = some name) (h : op.Writes p) :
    ∃ key, p = .group key name := by
  cases op with
  | add | delete | trim | length | scan => cases hgroup
  | acknowledge | createGroup | deleteConsumer | destroyGroup =>
      obtain rfl := Option.some.inj hgroup
      obtain ⟨key, -, rfl⟩ := h
      exact ⟨key, rfl⟩
  | pendingCount => exact h.elim
  | read now request =>
      obtain ⟨offsets, block, count, noAck, consumer⟩ := request
      cases consumer with
      | none => cases hgroup
      | some consumer =>
          obtain rfl := Option.some.inj hgroup
          obtain ⟨key, -, rfl⟩ := h
          exact ⟨key, rfl⟩

/-- Where an operation may change something no independent one looks. -/
theorem Independent.not_reads {a b : EngineOperation} (h : a.Independent b) (p : Place)
    (hwrites : a.Writes p) : ¬ b.Reads p := by
  intro hreads
  rcases h with hkeys | ⟨name, other, ha, hb, hne⟩
  · exact hkeys p.key (key_mem_of_reads (a.footprint.inside p hwrites)) (key_mem_of_reads hreads)
  · obtain ⟨key, rfl⟩ := exists_of_writes ha hwrites
    exact hne (name_of_reads hb hreads)

/-- What is outside the reach of an operation that never waits stays as it is. -/
theorem alike_run (hop : op.NeverWaits) (e : Engine) (hp : ¬ op.Writes p) :
    (op.run e).2.store.Alike e.store p := by
  rw [(run_onStore hop e).2]
  exact op.footprint.frame e.store p hp

end EngineOperation

/-- Whatever the engine, two operations that never wait and name no key in common, or different
groups, give the same in either order, refusals included, and leave the same store behind; each
gives what it gives alone.  An operation changes no stream that it does not name, and one on a group
changes neither entries nor a last identifier nor another group. -/
theorem independent_operations_commute (e : Engine) (a b : EngineOperation) (ha : a.NeverWaits)
    (hb : b.NeverWaits) :
    (a.Independent b →
      (b.run (a.run e).2).1 = (b.run e).1 ∧ (a.run (b.run e).2).1 = (a.run e).1 ∧
        (b.run (a.run e).2).2.store = (a.run (b.run e).2).2.store) ∧
    (∀ key, key ∉ a.keys → (a.run e).2.store.get? key = e.store.get? key) ∧
    ∀ name, a.group? = some name → ∀ key,
      (a.run e).2.store.contents? key = e.store.contents? key ∧
        ∀ other, other ≠ name → (a.run e).2.store.group? key other = e.store.group? key other := by
  refine ⟨fun h => ?_, fun key hkey => ?_, fun name hname key => ⟨?_, fun other hother => ?_⟩⟩
  · have hcommute :=
      a.footprint.commute b.footprint h.not_reads h.symm.not_reads e.store
    obtain ⟨hfirst, hafter⟩ := EngineOperation.run_onStore ha e
    obtain ⟨hfirst', hafter'⟩ := EngineOperation.run_onStore hb e
    obtain ⟨hsecond, hend⟩ := EngineOperation.run_onStore hb (a.run e).2
    obtain ⟨hsecond', hend'⟩ := EngineOperation.run_onStore ha (b.run e).2
    rw [hsecond, hsecond', hend, hend', hfirst, hfirst', hafter, hafter']
    exact hcommute
  · have hout : ∀ p : Place, p.key = key → ¬ a.Writes p := by
      rintro p rfl hwrites
      exact hkey (EngineOperation.key_mem_of_reads (a.footprint.inside p hwrites))
    exact Store.get?_eq_of_alike (EngineOperation.alike_run ha e (hout _ rfl))
      fun name => EngineOperation.alike_run ha e (hout _ rfl)
  · refine EngineOperation.alike_run (p := .entries key) ha e fun hwrites => ?_
    obtain ⟨k, hk⟩ := EngineOperation.exists_of_writes hname hwrites
    cases hk
  · refine EngineOperation.alike_run (p := .group key other) ha e fun hwrites => ?_
    obtain ⟨k, hk⟩ := EngineOperation.exists_of_writes hname hwrites
    exact hother (Place.group.inj hk).2

/-- An engine with one stream of one entry and two groups. -/
def twoGroups : Engine :=
  let e := (Engine.empty.add [115] (some "1-1") (.ofList [([102], [118])]) (some 0)).2
  ((e.createGroup [115] "0" [103]).2.createGroup [115] "0" [104]).2

/-- A read for the one group. -/
def readOne : EngineOperation := .read 0 ⟨[([115], ">")], none, none, false, some ⟨[103], [97]⟩⟩

/-- The destruction of the other. -/
def destroyOther : EngineOperation := .destroyGroup [115] [104]

theorem independent_operations_commute_twoGroups :
    (destroyOther.run (readOne.run twoGroups).2).1 = (destroyOther.run twoGroups).1 ∧
      (readOne.run (destroyOther.run twoGroups).2).1 = (readOne.run twoGroups).1 ∧
      (destroyOther.run (readOne.run twoGroups).2).2.store =
        (readOne.run (destroyOther.run twoGroups).2).2.store := by
  refine (independent_operations_commute twoGroups readOne destroyOther rfl trivial).1 (.inr ?_)
  exact ⟨[103], [104], rfl, rfl, by decide⟩

/-- Both have something to do there. -/
example :
    (readOne.run twoGroups).1.outcome.toOption = some [⟨[115], "1-1", .ofList [([102], [118])]⟩] ∧
      (destroyOther.run twoGroups).1.toOption = some true := by decide +kernel

end StreamBroker
