import StreamBroker.Proofs.Text.Decimals
import StreamBroker.Settings
set_option autoImplicit false

/-!
# Which command lines are read

A command line is read if it consists of flags, each with a value behind it that the flag takes
(`Settings.Gives`), and then the last value given to a flag counts (`Settings.get_setAll`).
Otherwise there is a first place where it goes wrong (`Settings.Offends`), and that place alone
decides what is told (`Settings.read_in_pairs`).
-/

namespace StreamBroker.Settings

/-- A flag takes the spellings of numbers that are not too small for it. -/
def Flag.Takes (flag : Flag) (s : String) (n : UInt64) : Prop :=
  Decimal.Spells s.toList n ∧ flag.least ≤ n

/-- Words are flags, each with a value behind it that it takes. -/
inductive Gives : List String → List (Flag × UInt64) → Prop where
  | nothing : Gives [] []
  | pair {flag : Flag} {value : String} {n : UInt64} {words : List String}
      {given : List (Flag × UInt64)} (h : flag.Takes value n) (hrest : Gives words given) :
      Gives (flag.text :: value :: words) ((flag, n) :: given)

/-- Where a flag is expected words go wrong: the first is no flag, or there is nothing behind it, or
what stands behind it is nothing that the flag takes. -/
inductive Offends : List String → SettingsError → Prop where
  | unknown {word : String} {words : List String} (h : ∀ flag : Flag, flag.text ≠ word) :
      Offends (word :: words) .unknownFlag
  | missing (flag : Flag) : Offends [flag.text] .badValue
  | unfit {flag : Flag} {value : String} {words : List String} (h : ∀ n, ¬ flag.Takes value n) :
      Offends (flag.text :: value :: words) .badValue

/-- What is set for a flag. -/
def get (settings : Settings) : Flag → UInt64
  | .dedicatedChannels => settings.dedicatedChannels
  | .acquireTimeout => settings.acquireTimeout
  | .concurrentLengths => settings.concurrentLengths

/-- The values given to a flag, in their order. -/
def valuesOf (flag : Flag) (given : List (Flag × UInt64)) : List UInt64 :=
  (given.filter fun p => p.1 == flag).map (·.2)

variable {settings settings' : Settings} {flag : Flag} {s : String} {n : UInt64}
  {words front rest : List String} {given : List (Flag × UInt64)} {fault : SettingsError}

/-! ## Flags and their values -/

theorem Flag.ofText?_eq_some_iff : ofText? s = some flag ↔ flag.text = s := by
  unfold ofText?
  constructor
  · intro h
    have htext := List.find?_some h
    exact beq_iff_eq.1 htext
  · rintro rfl
    cases flag <;> decide

theorem Flag.ofText?_eq_none_iff : ofText? s = none ↔ ∀ flag : Flag, flag.text ≠ s := by
  rw [Option.eq_none_iff_forall_ne_some]
  exact forall_congr' fun flag => not_congr ofText?_eq_some_iff

theorem Flag.value?_eq_some_iff : flag.value? s = some n ↔ flag.Takes s n := by
  unfold value? Takes
  rw [Option.filter_eq_some_iff, Decimal.read?_eq_some_iff_spells, decide_eq_true_iff]

theorem Flag.value?_eq_none_iff : flag.value? s = none ↔ ∀ n, ¬ flag.Takes s n := by
  rw [Option.eq_none_iff_forall_ne_some]
  exact forall_congr' fun n => not_congr value?_eq_some_iff

/-- What begins like a flag is no value. -/
theorem Flag.not_takes_of_dash (h : s.toList.head? = some '-') (n : UInt64) : ¬ flag.Takes s n :=
  fun htakes => htakes.1.not_mem (c := '-') (by decide) (by decide) (List.mem_of_head? h)

/-! ## Setting -/

@[simp] theorem get_set_self (settings : Settings) (n : UInt64) (flag : Flag) :
    (settings.set n flag).get flag = n := by
  cases flag <;> rfl

theorem get_set_of_ne (settings : Settings) (n : UInt64) {flag flag' : Flag} (h : flag ≠ flag') :
    (settings.set n flag).get flag' = settings.get flag' := by
  cases flag <;> cases flag' <;> first | rfl | exact absurd rfl h

theorem ext_get (h : ∀ flag, settings.get flag = settings'.get flag) : settings = settings' := by
  obtain ⟨dedicatedChannels, acquireTimeout, concurrentLengths⟩ := settings
  obtain rfl : dedicatedChannels = _ := h .dedicatedChannels
  obtain rfl : acquireTimeout = _ := h .acquireTimeout
  obtain rfl : concurrentLengths = _ := h .concurrentLengths
  rfl

/-- Sets flags in turn. -/
def setAll (settings : Settings) (given : List (Flag × UInt64)) : Settings :=
  given.foldl (fun settings p => settings.set p.2 p.1) settings

/-- Of the values set for a flag the last one stays. -/
theorem get_setAll (settings : Settings) (given : List (Flag × UInt64)) (flag : Flag) :
    (settings.setAll given).get flag = (valuesOf flag given).getLastD (settings.get flag) := by
  induction given generalizing settings with
  | nil => rfl
  | cons p rest ih =>
      have hset : settings.setAll (p :: rest) = (settings.set p.2 p.1).setAll rest := rfl
      rw [hset, ih]
      by_cases hflag : p.1 = flag
      · have hvalues : valuesOf flag (p :: rest) = p.2 :: valuesOf flag rest := by
          simp [valuesOf, hflag]
        rw [hvalues, List.getLastD_cons, ← hflag, get_set_self]
      · have hvalues : valuesOf flag (p :: rest) = valuesOf flag rest := by
          simp [valuesOf, hflag]
        rw [hvalues, get_set_of_ne settings p.2 hflag]

/-- Only values that are large enough for their flags are set. -/
theorem least_le_get_setAll (h : ∀ flag : Flag, flag.least ≤ settings.get flag)
    (hgiven : ∀ p ∈ given, p.1.least ≤ p.2) (flag : Flag) :
    flag.least ≤ (settings.setAll given).get flag := by
  induction given generalizing settings with
  | nil => exact h flag
  | cons p rest ih =>
      obtain ⟨hfirst, hrest⟩ := List.forall_mem_cons.1 hgiven
      refine ih (fun flag' => ?_) hrest
      by_cases hflag : p.1 = flag'
      · subst hflag
        rw [get_set_self]
        exact hfirst
      · rw [get_set_of_ne settings p.2 hflag]
        exact h flag'

/-- Every standard value is large enough for its flag. -/
theorem least_le_standard (flag : Flag) : flag.least ≤ standard.get flag := by
  cases flag <;> decide

/-! ## Reading -/

theorem Gives.least_le (h : Gives words given) : ∀ p ∈ given, p.1.least ≤ p.2 := by
  induction h with
  | nothing => exact nofun
  | pair h _ ih => exact List.forall_mem_cons.2 ⟨h.2, ih⟩

theorem readFlags_pair (settings : Settings) (h : flag.Takes s n) (words : List String) :
    readFlags settings (flag.text :: s :: words) = readFlags (settings.set n flag) words := by
  rw [readFlags]
  simp only [Flag.ofText?_eq_some_iff.2 rfl, Flag.value?_eq_some_iff.2 h]

/-- What stands behind flags with values is read as if it stood alone, from what they set. -/
theorem Gives.readFlags_append (h : Gives front given) (settings : Settings) (rest : List String) :
    readFlags settings (front ++ rest) = readFlags (settings.setAll given) rest := by
  induction h generalizing settings with
  | nothing => rfl
  | pair h _ ih =>
      rw [List.cons_append, List.cons_append, readFlags_pair settings h, ih]
      rfl

/-- Where words go wrong nothing is read, whatever was set before. -/
theorem Offends.readFlags_eq (h : Offends words fault) (settings : Settings) :
    readFlags settings words = .error fault := by
  cases h with
  | @unknown word words h =>
      have hnone := Flag.ofText?_eq_none_iff.2 h
      cases words with
      | nil => simp only [readFlags, hnone]
      | cons value rest => simp only [readFlags, hnone]
  | missing flag => simp only [readFlags, Flag.ofText?_eq_some_iff.2 rfl]
  | unfit h =>
      simp only [readFlags, Flag.ofText?_eq_some_iff.2 rfl, Flag.value?_eq_none_iff.2 h]

/-- Words are flags with their values, up to a place where they go wrong if there is one. -/
theorem gives_or_offends (words : List String) :
    ∃ front given rest, words = front ++ rest ∧ Gives front given ∧
      (rest = [] ∨ ∃ fault, Offends rest fault) := by
  -- Two words at a time, since behind a flag with its value a flag is expected again.
  match words with
  | [] => exact ⟨[], [], [], rfl, .nothing, .inl rfl⟩
  | [word] =>
      refine ⟨[], [], [word], rfl, .nothing, .inr ?_⟩
      by_cases hflag : ∃ flag : Flag, flag.text = word
      · obtain ⟨flag, rfl⟩ := hflag
        exact ⟨_, .missing flag⟩
      · exact ⟨_, .unknown (not_exists.1 hflag)⟩
  | word :: value :: words =>
      by_cases hflag : ∃ flag : Flag, flag.text = word
      · obtain ⟨flag, rfl⟩ := hflag
        by_cases hvalue : ∃ n, flag.Takes value n
        · obtain ⟨n, htakes⟩ := hvalue
          obtain ⟨front, given, rest, hwords, hgives, hrest⟩ := gives_or_offends words
          refine ⟨flag.text :: value :: front, (flag, n) :: given, rest, ?_, .pair htakes hgives,
            hrest⟩
          rw [hwords]
          rfl
        · exact ⟨[], [], _, rfl, .nothing, .inr ⟨_, .unfit (not_exists.1 hvalue)⟩⟩
      · exact ⟨[], [], _, rfl, .nothing, .inr ⟨_, .unknown (not_exists.1 hflag)⟩⟩

theorem readFlags_eq_ok_iff :
    readFlags settings words = .ok settings' ↔
      ∃ given, Gives words given ∧ settings' = settings.setAll given := by
  constructor
  · intro hread
    obtain ⟨front, given, rest, rfl, hgives, hrest⟩ := gives_or_offends words
    rw [hgives.readFlags_append] at hread
    rcases hrest with rfl | ⟨fault, hoffends⟩
    · rw [List.append_nil]
      exact ⟨given, hgives, (Except.ok.inj hread).symm⟩
    · rw [hoffends.readFlags_eq] at hread
      cases hread
  · rintro ⟨given, hgives, rfl⟩
    have hread := hgives.readFlags_append settings []
    rwa [List.append_nil] at hread

theorem readFlags_eq_error_iff :
    readFlags settings words = .error fault ↔
      ∃ front given rest, words = front ++ rest ∧ Gives front given ∧ Offends rest fault := by
  constructor
  · intro hread
    obtain ⟨front, given, rest, rfl, hgives, hrest⟩ := gives_or_offends words
    refine ⟨front, given, rest, rfl, hgives, ?_⟩
    rw [hgives.readFlags_append] at hread
    rcases hrest with rfl | ⟨fault', hoffends⟩
    · cases hread
    · rw [hoffends.readFlags_eq] at hread
      obtain rfl := Except.error.inj hread
      exact hoffends
  · rintro ⟨front, given, rest, rfl, hgives, hoffends⟩
    rw [hgives.readFlags_append, hoffends.readFlags_eq]

/-- Whatever the words of a command line: it is read exactly if those behind the name of the program
are flags, each with a value behind it that it takes, and then what is set for a flag is the last
value given to it, or the standard one if none is.  So there is at least one dedicated channel, and
at least one length may be looked up.  Otherwise the words up to some place are flags with their
values, and the mistake at that place is told: a word that is no flag, or a value that is missing or
not one that the flag takes.  What stands where a value belongs is never taken as a flag: if it
begins like one it is a wrong value, known or not. -/
theorem read_in_pairs (arguments : List String) :
    ((∃ settings, ofArguments arguments = .ok settings) ↔ ∃ given, Gives arguments.tail given) ∧
      (∀ settings, ofArguments arguments = .ok settings ↔
        ∃ given, Gives arguments.tail given ∧
          ∀ flag, settings.get flag = (valuesOf flag given).getLastD (standard.get flag)) ∧
      (∀ settings, ofArguments arguments = .ok settings →
        1 ≤ settings.dedicatedChannels ∧ 1 ≤ settings.concurrentLengths) ∧
      (∀ fault, ofArguments arguments = .error fault ↔
        ∃ front given rest, arguments.tail = front ++ rest ∧ Gives front given ∧
          Offends rest fault) ∧
      ∀ front given flag value rest, Gives front given → value.toList.head? = some '-' →
        arguments.tail = front ++ Flag.text flag :: value :: rest →
        ofArguments arguments = .error .badValue := by
  have hset : ∀ settings given, settings = standard.setAll given ↔
      ∀ flag, settings.get flag = (valuesOf flag given).getLastD (standard.get flag) := by
    intro settings given
    simp only [← get_setAll]
    exact ⟨fun h flag => by rw [h], ext_get⟩
  unfold ofArguments
  refine ⟨?_, fun settings => ?_, fun settings hread => ?_, fun fault => readFlags_eq_error_iff, ?_⟩
  · simp only [readFlags_eq_ok_iff]
    rw [exists_comm]
    simp only [exists_and_left, exists_eq, and_true]
  · simp only [readFlags_eq_ok_iff, hset]
  · obtain ⟨given, hgives, rfl⟩ := readFlags_eq_ok_iff.1 hread
    have hleast := least_le_get_setAll least_le_standard hgives.least_le
    exact ⟨hleast .dedicatedChannels, hleast .concurrentLengths⟩
  · intro front given flag value rest hgives hdash hwords
    exact readFlags_eq_error_iff.2
      ⟨front, given, _, hwords, hgives, .unfit (Flag.not_takes_of_dash hdash)⟩

/-- A flag that is given twice has its later value; where a value is missing the next flag stands
for it, and is none. -/
theorem read_in_pairs_givenTwice :
    ofArguments ["demo", "--max-concurrent-lengths", "3", "--dedicated-channels", "+07",
        "--max-concurrent-lengths", "018"] = .ok ⟨7, 5000, 18⟩ ∧
      (1 : UInt64) ≤ 7 ∧ (1 : UInt64) ≤ 18 ∧
      Gives ["--acquire-timeout-ms", "0"] [(.acquireTimeout, 0)] ∧
      "--max-concurrent-lengths".toList.head? = some '-' ∧
      ofArguments ["demo", "--acquire-timeout-ms", "0", "--dedicated-channels",
        "--max-concurrent-lengths", "9"] = .error .badValue := by
  obtain ⟨-, hread, hleast, -, -⟩ := read_in_pairs ["demo", "--max-concurrent-lengths", "3",
    "--dedicated-channels", "+07", "--max-concurrent-lengths", "018"]
  obtain ⟨-, -, -, -, hvalue⟩ := read_in_pairs ["demo", "--acquire-timeout-ms", "0",
    "--dedicated-channels", "--max-concurrent-lengths", "9"]
  have hpair : ∀ (flag : Flag) {value : String} {n : UInt64} {words : List String}
      {given : List (Flag × UInt64)}, flag.value? value = some n → Gives words given →
      Gives (flag.text :: value :: words) ((flag, n) :: given) :=
    fun _ _ _ _ _ hvalue hrest => .pair (Flag.value?_eq_some_iff.1 hvalue) hrest
  have hgives : Gives ["--acquire-timeout-ms", "0"] [(.acquireTimeout, 0)] :=
    hpair .acquireTimeout rfl .nothing
  have hthrice : Gives ["--max-concurrent-lengths", "3", "--dedicated-channels", "+07",
      "--max-concurrent-lengths", "018"]
      [(.concurrentLengths, 3), (.dedicatedChannels, 7), (.concurrentLengths, 18)] :=
    hpair .concurrentLengths rfl <| hpair .dedicatedChannels rfl <|
      hpair .concurrentLengths rfl .nothing
  have hok := (hread ⟨7, 5000, 18⟩).2 ⟨_, hthrice, by intro flag; cases flag <;> rfl⟩
  obtain ⟨hchannels, hlengths⟩ := hleast _ hok
  exact ⟨hok, hchannels, hlengths, hgives, rfl,
    hvalue _ _ .dedicatedChannels _ ["9"] hgives rfl rfl⟩

end StreamBroker.Settings
