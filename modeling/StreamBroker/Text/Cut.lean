set_option autoImplicit false

/-!
# Cutting a text at a separator

`cut` splits a text at the first separator in it.  The texts that it can cut are those that hold
one, and it is undone by putting the separator back (`cut_eq_some_iff`).
-/

namespace StreamBroker.Text

/-- What stands before and behind the first separator, if there is one. -/
def cut (separator : Char) : List Char → Option (List Char × List Char)
  | [] => none
  | c :: cs =>
    if c = separator then some ([], cs) else (cut separator cs).map fun p => (c :: p.1, p.2)

theorem cut_append {separator : Char} {before : List Char} (behind : List Char)
    (h : separator ∉ before) :
    cut separator (before ++ separator :: behind) = some (before, behind) := by
  induction before with
  | nil => simp [cut]
  | cons c cs ih =>
    have hc : c ≠ separator := fun e => h (e ▸ List.mem_cons_self)
    simp [cut, hc, ih fun hm => h (List.mem_cons_of_mem _ hm)]

theorem cut_eq_some_iff {separator : Char} {cs before behind : List Char} :
    cut separator cs = some (before, behind) ↔
      cs = before ++ separator :: behind ∧ separator ∉ before := by
  refine ⟨fun h => ?_, fun ⟨h, hm⟩ => h ▸ cut_append behind hm⟩
  induction cs generalizing before with
  | nil => simp [cut] at h
  | cons c cs ih =>
    unfold cut at h
    split at h
    case isTrue hc => cases h; simp [hc]
    case isFalse hc =>
      obtain ⟨⟨a, b⟩, hab, he⟩ := Option.map_eq_some_iff.1 h
      cases he
      obtain ⟨rfl, hm⟩ := ih hab
      exact ⟨rfl, fun hin => (List.mem_cons.1 hin).elim (fun e => hc e.symm) hm⟩

theorem cut_eq_none_iff {separator : Char} {cs : List Char} :
    cut separator cs = none ↔ separator ∉ cs := by
  induction cs with
  | nil => simp [cut]
  | cons c cs ih =>
    unfold cut
    split
    case isTrue hc => simp [hc]
    case isFalse hc => simp [ih, Ne.symm hc]

end StreamBroker.Text
