set_option autoImplicit false

/-!
# Histories

A history is a list that grows at its end.
-/

namespace StreamBroker

/-- The place of an element in a list with one more at its end: it is that one or an earlier one. -/
theorem split_concat {α : Type} {l early late : List α} {a b : α}
    (h : l ++ [a] = early ++ b :: late) :
    (l = early ∧ a = b ∧ late = []) ∨ ∃ late', late = late' ++ [a] ∧ l = early ++ b :: late' := by
  rcases List.eq_nil_or_concat late with rfl | ⟨late', c, rfl⟩
  · obtain ⟨rfl, hlast⟩ := List.append_inj' h rfl
    cases hlast
    exact .inl ⟨rfl, rfl, rfl⟩
  · rw [List.concat_eq_append] at h ⊢
    rw [← List.cons_append, ← List.append_assoc] at h
    obtain ⟨rfl, hlast⟩ := List.append_inj' h rfl
    cases hlast
    exact .inr ⟨late', rfl, rfl⟩

/-- What came about somewhere in a history and has lasted since: one more entry ends it, or it comes
about there. -/
theorem exists_split_concat_iff {α : Type} (came : List α → α → Prop) (lasts : α → Prop)
    {l : List α} {a : α} :
    (∃ early b late, l ++ [a] = early ++ b :: late ∧ came early b ∧ ∀ c ∈ late, lasts c) ↔
      ((∃ early b late, l = early ++ b :: late ∧ came early b ∧ ∀ c ∈ late, lasts c) ∧ lasts a) ∨
        came l a := by
  constructor
  · rintro ⟨early, b, late, hsplit, hcame, hlate⟩
    rcases split_concat hsplit with ⟨rfl, rfl, rfl⟩ | ⟨late, rfl, rfl⟩
    · exact .inr hcame
    · rw [List.forall_mem_append] at hlate
      exact .inl ⟨⟨early, b, late, rfl, hcame, hlate.1⟩, hlate.2 a (List.mem_singleton.2 rfl)⟩
  · rintro (⟨⟨early, b, late, rfl, hcame, hlate⟩, hlasts⟩ | hcame)
    · refine ⟨early, b, late ++ [a], by simp, hcame, ?_⟩
      rw [List.forall_mem_append]
      exact ⟨hlate, fun c hc => List.mem_singleton.1 hc ▸ hlasts⟩
    · exact ⟨l, a, [], rfl, hcame, nofun⟩

/-- What is read off a history grows by what its last entry adds. -/
theorem filterMap_concat {α β : Type} (f : α → Option β) (l : List α) (a : α) :
    (l ++ [a]).filterMap f = l.filterMap f ++ (f a).toList := by
  rw [List.filterMap_append, List.filterMap_cons]
  cases f a with
  | none => rfl
  | some b => rfl

theorem filterMap_concat_none {α β : Type} {f : α → Option β} {a : α} (h : f a = none)
    (l : List α) : (l ++ [a]).filterMap f = l.filterMap f := by
  rw [filterMap_concat, h]
  exact List.append_nil _

end StreamBroker
