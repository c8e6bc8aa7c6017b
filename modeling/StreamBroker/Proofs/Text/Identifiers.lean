import StreamBroker.Proofs.Text.Decimals
import StreamBroker.RecordId
set_option autoImplicit false

/-!
# How clients' identifiers are spelled

An identifier is spelled `*`, or in two parts with one `-` between them: a number, and behind it another
number or `*` (`RecordId.Spells`).  What is no spelling has a fault, and of two faults the one that
stands first is told (`RecordId.Faulty`).  Of the spellings of an identifier the one that is printed has no
sign and no needless zero (`RecordId.Canonical`).
-/

namespace StreamBroker

/-! ## Two parts -/

namespace Text

variable {c : Char} {cs before behind before' behind' : List Char}

theorem count_parts (hbefore : c ∉ before) :
    (before ++ c :: behind).count c = behind.count c + 1 := by
  rw [List.count_append, List.count_eq_zero.2 hbefore, List.count_cons_self, Nat.zero_add]

/-- A text that holds a separator once has two parts. -/
theorem count_eq_one_iff :
    cs.count c = 1 ↔ ∃ before behind, cs = before ++ c :: behind ∧ c ∉ before ∧ c ∉ behind := by
  constructor
  · intro hcount
    cases hcut : cut c cs with
    | none =>
        rw [List.count_eq_zero.2 (cut_eq_none_iff.1 hcut)] at hcount
        cases hcount
    | some parts =>
        obtain ⟨rfl, hbefore⟩ := cut_eq_some_iff.1 hcut
        rw [count_parts hbefore] at hcount
        exact ⟨parts.1, parts.2, rfl, hbefore, List.count_eq_zero.1 (Nat.succ.inj hcount)⟩
  · rintro ⟨before, behind, rfl, hbefore, hbehind⟩
    rw [count_parts hbefore, List.count_eq_zero.2 hbehind]

/-- Two parts without separators are the only ones. -/
theorem parts_unique (hbefore : c ∉ before) (hbehind : c ∉ behind)
    (h : before ++ c :: behind = before' ++ c :: behind') : before = before' ∧ behind = behind' := by
  have hcount : (before' ++ c :: behind').count c = 1 := by
    rw [← h]
    exact count_eq_one_iff.2 ⟨before, behind, rfl, hbefore, hbehind⟩
  have hbefore' : c ∉ before' := by
    rw [List.count_append, List.count_cons_self] at hcount
    exact List.count_eq_zero.1 (by omega)
  have hcut := cut_append behind hbefore
  rw [h, cut_append behind' hbefore'] at hcut
  cases hcut
  exact ⟨rfl, rfl⟩

end Text

namespace RecordId

/-- A text spells an identifier. -/
inductive Spells : List Char → RecordId → Prop where
  | any : Spells ['*'] .autoGenerate
  | within {before : List Char} {millis : UInt64} (hmillis : Decimal.Spells before millis) :
      Spells (before ++ ['-', '*']) (.autoSequence millis)
  | full {before behind : List Char} {id : EntryId} (hmillis : Decimal.Spells before id.millis)
      (hsequence : Decimal.Spells behind id.sequence) :
      Spells (before ++ '-' :: behind) (.concrete id)

/-- What is wrong with a text that spells none: it does not have two parts, or the first of them is no
number, or the second one is neither a number nor `*`. -/
inductive Faulty : List Char → IdFault → Prop where
  | format {cs : List Char} (hany : cs ≠ ['*']) (hparts : cs.count '-' ≠ 1) : Faulty cs .format
  | timestamp {before behind : List Char} (hbefore : '-' ∉ before) (hbehind : '-' ∉ behind)
      (hmillis : ∀ millis, ¬ Decimal.Spells before millis) :
      Faulty (before ++ '-' :: behind) .timestamp
  | sequence {before behind : List Char} {millis : UInt64} (hbehind : '-' ∉ behind)
      (hmillis : Decimal.Spells before millis) (hany : behind ≠ ['*'])
      (hsequence : ∀ sequence, ¬ Decimal.Spells behind sequence) :
      Faulty (before ++ '-' :: behind) .sequence

/-- Each part of a text is without sign and without needless zeros. -/
def Canonical (cs : List Char) : Prop :=
  ∀ before behind, cs = before ++ '-' :: behind →
    Decimal.Canonical before ∧ Decimal.Canonical behind

variable {cs before behind : List Char} {r : RecordId} {fault : IdFault}

/-! ## Reading -/

theorem not_mem_of_spells {millis : UInt64} (h : Decimal.Spells cs millis) : '-' ∉ cs :=
  h.not_mem (by decide) (by decide)

/-- A text is `*`, or it has two parts, or it has fewer or more. -/
theorem parts_cases (cs : List Char) :
    cs = ['*'] ∨ cs ≠ ['*'] ∧ cs.count '-' ≠ 1 ∨
      ∃ before behind, cs = before ++ '-' :: behind ∧ '-' ∉ before ∧ '-' ∉ behind := by
  by_cases hany : cs = ['*']
  · exact .inl hany
  · by_cases hparts : cs.count '-' = 1
    · exact .inr (.inr (Text.count_eq_one_iff.1 hparts))
    · exact .inr (.inl ⟨hany, hparts⟩)

theorem parts_ne_any : before ++ '-' :: behind ≠ ['*'] := by
  intro h
  have hmem : '-' ∈ before ++ '-' :: behind := List.mem_append_right _ List.mem_cons_self
  rw [h] at hmem
  exact absurd hmem (by decide)

theorem ofChars_of_count_ne (hany : cs ≠ ['*']) (hparts : cs.count '-' ≠ 1) :
    ofChars cs = .error .format := by
  unfold ofChars
  rw [if_neg hany]
  split
  case h_1 => rfl
  case h_2 before behind hcut =>
    obtain ⟨rfl, hbefore⟩ := Text.cut_eq_some_iff.1 hcut
    rw [Text.count_parts hbefore] at hparts
    rw [if_pos (List.count_pos_iff.1 (by omega))]

theorem ofChars_of_number {millis : UInt64} (hbehind : '-' ∉ behind)
    (hmillis : Decimal.Spells before millis) :
    ofChars (before ++ '-' :: behind) = ofParts millis behind := by
  unfold ofChars
  simp only [if_neg parts_ne_any, Text.cut_append behind (not_mem_of_spells hmillis),
    if_neg hbehind, Decimal.read?_eq_some_iff_spells.2 hmillis]

theorem ofChars_of_no_number (hbefore : '-' ∉ before) (hbehind : '-' ∉ behind)
    (hmillis : ∀ millis, ¬ Decimal.Spells before millis) :
    ofChars (before ++ '-' :: behind) = .error .timestamp := by
  unfold ofChars
  simp only [if_neg parts_ne_any, Text.cut_append behind hbefore, if_neg hbehind,
    Decimal.read?_eq_none_iff.2 hmillis]

/-- What spells an identifier is read as that identifier. -/
theorem Spells.ofChars_eq (h : Spells cs r) : ofChars cs = .ok r := by
  cases h with
  | any => rfl
  | within hmillis =>
      rw [ofChars_of_number (by decide) hmillis]
      rfl
  | @full before behind id hmillis hsequence =>
      have hany : behind ≠ ['*'] := by
        rintro rfl
        exact hsequence.not_mem (c := '*') (by decide) (by decide) List.mem_cons_self
      rw [ofChars_of_number (not_mem_of_spells hsequence) hmillis]
      simp only [ofParts, if_neg hany, Decimal.read?_eq_some_iff_spells.2 hsequence]

/-- A text with a fault is not read, and the fault is told. -/
theorem Faulty.ofChars_eq (h : Faulty cs fault) : ofChars cs = .error fault := by
  cases h with
  | format hany hparts => exact ofChars_of_count_ne hany hparts
  | timestamp hbefore hbehind hmillis => exact ofChars_of_no_number hbefore hbehind hmillis
  | sequence hbehind hmillis hany hsequence =>
      rw [ofChars_of_number hbehind hmillis]
      simp only [ofParts, if_neg hany, Decimal.read?_eq_none_iff.2 hsequence]

/-- Every text spells an identifier or has a fault. -/
theorem spells_or_faulty (cs : List Char) : (∃ r, Spells cs r) ∨ ∃ fault, Faulty cs fault := by
  rcases parts_cases cs with rfl | ⟨hany, hparts⟩ | ⟨before, behind, rfl, hbefore, hbehind⟩
  · exact .inl ⟨_, .any⟩
  · exact .inr ⟨_, .format hany hparts⟩
  · cases hmillis : Decimal.read? before with
    | none => exact .inr ⟨_, .timestamp hbefore hbehind (Decimal.read?_eq_none_iff.1 hmillis)⟩
    | some millis =>
        have hmillis := Decimal.read?_eq_some_iff_spells.1 hmillis
        by_cases hany : behind = ['*']
        · subst hany
          exact .inl ⟨_, .within hmillis⟩
        · cases hsequence : Decimal.read? behind with
          | none =>
              exact .inr ⟨_, .sequence hbehind hmillis hany (Decimal.read?_eq_none_iff.1 hsequence)⟩
          | some sequence =>
              exact .inl ⟨.concrete ⟨millis, sequence⟩,
                .full hmillis (Decimal.read?_eq_some_iff_spells.1 hsequence)⟩

theorem ofChars_eq_ok_iff : ofChars cs = .ok r ↔ Spells cs r := by
  refine ⟨fun hread => ?_, Spells.ofChars_eq⟩
  rcases spells_or_faulty cs with ⟨r', h⟩ | ⟨fault, h⟩
  · rw [h.ofChars_eq] at hread
    cases hread
    exact h
  · rw [h.ofChars_eq] at hread
    cases hread

theorem ofChars_eq_error_iff : ofChars cs = .error fault ↔ Faulty cs fault := by
  refine ⟨fun hread => ?_, Faulty.ofChars_eq⟩
  rcases spells_or_faulty cs with ⟨r, h⟩ | ⟨fault', h⟩
  · rw [h.ofChars_eq] at hread
    cases hread
  · rw [h.ofChars_eq] at hread
    cases hread
    exact h

theorem Spells.count_eq_one (h : Spells cs r) : cs = ['*'] ∨ cs.count '-' = 1 := by
  cases h with
  | any => exact .inl rfl
  | within hmillis =>
      exact .inr (Text.count_eq_one_iff.2 ⟨_, _, rfl, not_mem_of_spells hmillis, by decide⟩)
  | full hmillis hsequence =>
      exact .inr (Text.count_eq_one_iff.2
        ⟨_, _, rfl, not_mem_of_spells hmillis, not_mem_of_spells hsequence⟩)

/-! ## Printing -/

theorem canonical_parts (hbefore : '-' ∉ before) (hbehind : '-' ∉ behind) :
    Canonical (before ++ '-' :: behind) ↔ Decimal.Canonical before ∧ Decimal.Canonical behind := by
  refine ⟨fun h => h before behind rfl, ?_⟩
  rintro h before' behind' heq
  obtain ⟨rfl, rfl⟩ := Text.parts_unique hbefore hbehind heq
  exact h

/-- Of the spellings of an identifier the canonical one is what is printed. -/
theorem Spells.canonical_iff (h : Spells cs r) : Canonical cs ↔ cs = r.toChars := by
  cases h with
  | any =>
      refine ⟨fun _ => rfl, fun _ before behind heq => absurd heq.symm parts_ne_any⟩
  | @within before millis hmillis =>
      have hany : Decimal.Canonical ['*'] := by decide
      rw [canonical_parts (not_mem_of_spells hmillis) (by decide), hmillis.canonical_iff,
        and_iff_left hany]
      exact (List.append_left_inj _).symm
  | @full before behind id hmillis hsequence =>
      rw [canonical_parts (not_mem_of_spells hmillis) (not_mem_of_spells hsequence),
        hmillis.canonical_iff, hsequence.canonical_iff]
      constructor
      · rintro ⟨rfl, rfl⟩
        rfl
      · exact Text.parts_unique (not_mem_of_spells hmillis) (not_mem_of_spells hsequence)

theorem text_eq_iff {s : String} : r.text = s ↔ s.toList = r.toChars := by
  rw [text, ← String.toList_inj, String.toList_ofList]
  exact eq_comm

/-- What is printed reads back, so different identifiers print differently.  A text is read as an
identifier exactly if it spells that one: then it is `*` or holds one `-`, and it is what is printed
for the identifier exactly if it is canonical, as all that is printed is.  Any other text is refused,
and the fault that is told is the one that it has. -/
theorem read_as_spelled (s : String) (r : RecordId) :
    parse r.text = .ok r ∧ (∀ r', r'.text = r.text → r' = r) ∧
      (parse s = .ok r ↔ Spells s.toList r) ∧
      (Spells s.toList r → (s = "*" ∨ s.toList.count '-' = 1) ∧
        (r.text = s ↔ Canonical s.toList)) ∧
      Canonical r.text.toList ∧
      ((∀ r', ¬ Spells s.toList r') → ∃ fault, parse s = .error fault) ∧
      ∀ fault, parse s = .error fault ↔ Faulty s.toList fault := by
  have hprinted : Spells r.toChars r := ofChars_eq_ok_iff.1 (ofChars_toChars r)
  refine ⟨parse_text r, fun r' => text_injective, ofChars_eq_ok_iff, fun h => ⟨?_, ?_⟩, ?_, ?_,
    fun fault => ofChars_eq_error_iff⟩
  · exact h.count_eq_one.imp_left fun hany => String.toList_inj.1 hany
  · rw [text_eq_iff, h.canonical_iff]
  · rw [text, String.toList_ofList, hprinted.canonical_iff]
  · intro hnone
    rcases spells_or_faulty s.toList with ⟨r', h⟩ | ⟨fault, hfault⟩
    · exact absurd h (hnone r')
    · exact ⟨fault, hfault.ofChars_eq⟩

/-- A sign and zeros in front are read over and not printed; a second separator is a fault. -/
theorem read_as_spelled_signedSeven :
    Spells "+07-00".toList (.concrete ⟨7, 0⟩) ∧ parse "+07-00" = .ok (.concrete ⟨7, 0⟩) ∧
      ¬ Canonical "+07-00".toList ∧ Canonical "7-0".toList ∧
      (∀ r, ¬ Spells "7-0-0".toList r) ∧ ∃ fault, parse "7-0-0" = .error fault := by
  have hspells : Spells "+07-00".toList (.concrete ⟨7, 0⟩) := ofChars_eq_ok_iff.1 rfl
  have hnone : ∀ r, ¬ Spells "7-0-0".toList r := by
    intro r h
    cases ofChars_eq_ok_iff.2 h
  obtain ⟨-, -, hread, hspelled, hprinted, -⟩ := read_as_spelled "+07-00" (.concrete ⟨7, 0⟩)
  obtain ⟨-, -, -, -, -, hrefused, -⟩ := read_as_spelled "7-0-0" .autoGenerate
  refine ⟨hspells, hread.2 hspells, fun hcanonical => ?_, hprinted, hnone, hrefused hnone⟩
  exact absurd ((hspelled hspells).2.2 hcanonical) (by decide)

end RecordId

end StreamBroker
