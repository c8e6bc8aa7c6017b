import StreamBroker.Proofs.Scan.Page
import StreamBroker.Proofs.World.Basic
set_option autoImplicit false

/-!
# A scan of an engine in use

A scan takes its pages one at a time, and between two of them the engine belongs to everybody.
`Scanning` is an engine in use together with a scan of one of its streams; a run interleaves, in any
way, the pulls of the scan with the moves of everybody else.  A pull works on the page at hand or
takes the next one.

What a scan has passed over, what it has given and the page at hand are one list in order, and
everything that is ahead of its cursor comes behind that list (`Scan.Course`).  This holds whatever
becomes of the store.  An entry that stands in the store whenever a page is taken is either on that
list or still ahead, so no change made in between can hide it (`paged_scan_under_changes`).
-/

namespace StreamBroker

/-! ## What a scan has been through -/

namespace Scan

variable {sc : Scan} {key : Bytes} {range : Range} {window : Option Window} {d : Direction}
  {passed given : List (EntryId × Body)}

/-- What a scan has been through: it has passed over some entries and then given some, and goes on
with the page at hand. -/
structure Course (sc : Scan) (key : Bytes) (range : Range) (window : Option Window)
    (d : Direction) (passed given : List (EntryId × Body)) : Prop where
  scope : sc.Over key range d
  sorted : (passed ++ given ++ sc.page).Pairwise fun p q => d.before p.1 q.1
  inside : ∀ p ∈ passed ++ given ++ sc.page, range.holds p.1
  /-- Whatever is ahead of the cursor comes behind all of these. -/
  behind : ∀ p ∈ passed ++ given ++ sc.page, ∀ q, sc.isAhead q → d.before p.1 q.1
  skip : passed.length + sc.skip = (window.map fun w => w.offset.toNat).getD 0
  /-- Nothing is given before all that is to be passed over has been. -/
  turned : given = [] ∨ sc.skip = 0
  remaining : sc.remaining = window.map fun w => w.count.toNat - given.length
  within : ∀ w, window = some w → given.length ≤ w.count.toNat

namespace Course

theorem of_start (h : start key range window d = .ok sc) : sc.Course key range window d [] [] := by
  obtain ⟨hover, hskip, hremaining, -, hpage, -⟩ := start_eq_ok h
  have hnothing : ([] ++ [] ++ sc.page : List (EntryId × Body)) = [] := hpage
  refine ⟨hover, ?_, ?_, ?_, ?_, .inl rfl, hremaining, fun _ _ => Nat.zero_le _⟩
  · rw [hnothing]
    exact .nil
  · rw [hnothing]
    nofun
  · rw [hnothing]
    nofun
  · rw [List.length_nil, Nat.zero_add, hskip]

/-- Giving an entry passes over those in front of it. -/
theorem give (h : sc.Course key range window d passed given) {skipped : List (EntryId × Body)}
    {p : EntryId × Body} {page : List (EntryId × Body)} (hremaining : sc.remaining ≠ some 0)
    (hpage : sc.page = skipped ++ p :: page) (hskip : skipped.length = sc.skip) :
    { sc with page, skip := 0, remaining := sc.remaining.map (· - 1) }.Course key range window d
        (passed ++ skipped) (given ++ [p]) ∧
      passed ++ skipped ++ (given ++ [p]) ++ page = passed ++ given ++ sc.page := by
  -- entries are passed over only while nothing is given, so the two lists never interleave
  have hsame : passed ++ skipped ++ (given ++ [p]) ++ page = passed ++ given ++ sc.page := by
    rw [hpage]
    rcases h.turned with rfl | hzero
    · simp only [List.append_nil, List.nil_append, List.append_assoc, List.singleton_append]
    · obtain rfl : skipped = [] := List.eq_nil_of_length_eq_zero (hskip.trans hzero)
      simp only [List.append_nil, List.nil_append, List.append_assoc, List.singleton_append]
  refine ⟨⟨⟨h.scope.key, h.scope.direction, h.scope.admits⟩, ?_, ?_, ?_, ?_, .inr rfl, ?_, ?_⟩,
    hsame⟩
  · rw [hsame]
    exact h.sorted
  · rw [hsame]
    exact h.inside
  · rw [hsame]
    exact h.behind
  · rw [List.length_append, hskip]
    exact h.skip
  · have hcount := h.remaining
    cases window with
    | none =>
        simp only [hcount]
        rfl
    | some w =>
        simp only [hcount, Option.map_some, List.length_append, List.length_singleton,
          Nat.sub_add_eq]
  · intro w hw
    have hcount := h.remaining
    rw [hw, Option.map_some] at hcount
    rw [hcount] at hremaining
    rw [List.length_append, List.length_singleton]
    have hleft : w.count.toNat - given.length ≠ 0 := fun hzero => hremaining (by rw [hzero])
    omega

/-- Passing over what is left of a page. -/
theorem passOver (h : sc.Course key range window d passed given)
    (hlength : sc.page.length ≤ sc.skip) :
    { sc with page := [], skip := sc.skip - sc.page.length }.Course key range window d
        (passed ++ sc.page) given ∧
      passed ++ sc.page ++ given ++ [] = passed ++ given ++ sc.page := by
  have hsame : passed ++ sc.page ++ given ++ [] = passed ++ given ++ sc.page := by
    rcases h.turned with rfl | hzero
    · simp only [List.append_nil]
    · have hempty : sc.page = [] := List.eq_nil_of_length_eq_zero (by omega)
      rw [hempty]
      simp only [List.append_nil]
  refine ⟨⟨⟨h.scope.key, h.scope.direction, h.scope.admits⟩, ?_, ?_, ?_, ?_, ?_, h.remaining,
    h.within⟩, hsame⟩
  · rw [hsame]
    exact h.sorted
  · rw [hsame]
    exact h.inside
  · rw [hsame]
    exact h.behind
  · rw [List.length_append, ← h.skip]
    simp only
    omega
  · refine h.turned.imp_right fun hzero => ?_
    rw [hzero, Nat.zero_sub]

/-- Taking a page from whatever has become of the store. -/
theorem load (h : sc.Course key range window d passed given) (hpage : sc.page = [])
    (store : Store) : (sc.load store).Course key range window d passed given := by
  have hbehind := h.behind
  have hsorted := h.sorted
  have hinside := h.inside
  rw [hpage, List.append_nil] at hbehind hsorted hinside
  refine ⟨h.scope.load store, ?_, ?_, ?_, h.skip, h.turned, h.remaining, h.within⟩
  · refine List.pairwise_append.2 ⟨hsorted, pairwise_pageOf h.scope store, fun p hp q hq => ?_⟩
    exact hbehind p hp q (of_mem_pageOf h.scope hq).2.2
  · intro p hp
    rcases List.mem_append.1 hp with hp | hp
    · exact hinside p hp
    · exact (of_mem_pageOf h.scope hp).2.1
  · intro p hp q hq
    obtain ⟨hahead, hpast⟩ := of_isAhead_load h.scope hq
    rcases List.mem_append.1 hp with hp | hp
    · exact hbehind p hp q hahead
    · exact hpast p hp

/-- A scan without a window that is over has passed over nothing and left nothing. -/
theorem at_end (h : sc.Course key range window d passed given) (hwindow : window = none)
    (hover : sc.advance = .finished) : passed = [] ∧ sc.page = [] ∧ sc.more = false := by
  have hskip := h.skip
  have hremaining := h.remaining
  rw [hwindow] at hskip hremaining
  obtain ⟨hpassed, hzero⟩ := Nat.add_eq_zero_iff.1 hskip
  obtain ⟨skipped, p, page, -, -, -, hadvance⟩ | ⟨-, -, -, hadvance⟩ | ⟨-, hend⟩ := sc.advance_cases
  · rw [hadvance] at hover
    cases hover
  · rw [hadvance] at hover
    cases hover
  · rcases hend with hcount | ⟨hlength, hmore⟩
    · rw [hremaining] at hcount
      cases hcount
    · rw [hzero] at hlength
      exact ⟨List.eq_nil_of_length_eq_zero hpassed,
        List.eq_nil_of_length_eq_zero (Nat.le_zero.1 hlength), hmore⟩

end Course

end Scan

/-! ## Runs -/

/-- An engine in use and a scan of it. -/
structure Scanning where
  world : World
  scan : Scan

/-- What happens to an engine and a scan of it. -/
inductive ScanMove where
  /-- The scan is pulled: it gives a message, takes a page, or is over. -/
  | pull
  /-- Somebody else makes a move. -/
  | other (move : Move)

namespace Scanning

/-- Makes a move. -/
def step (s : Scanning) : ScanMove → Scanning
  | .pull =>
    match s.scan.advance with
    | .message _ rest => { s with scan := rest }
    | .needsPage rest => { s with scan := rest.load s.world.store }
    | .finished => s
  | .other m => { s with world := (s.world.step m).2 }

/-- What is behind a list of moves. -/
def run (s : Scanning) (moves : List ScanMove) : Scanning := moves.foldl step s

end Scanning

/-- One move of a run with a scan. -/
structure ScanTurn where
  before : Scanning
  move : ScanMove

namespace ScanTurn

/-- The message that was given. -/
def message? (t : ScanTurn) : Option Message :=
  match t.move, t.before.scan.advance with
  | .pull, .message m _ => some m
  | _, _ => none

/-- The store from which a page was taken. -/
def fetched? (t : ScanTurn) : Option Store :=
  match t.move, t.before.scan.advance with
  | .pull, .needsPage _ => some t.before.world.store
  | _, _ => none

end ScanTurn

/-- The turns of a run. -/
def Scanning.turns : Scanning → List ScanMove → List ScanTurn
  | _, [] => []
  | s, m :: moves => ⟨s, m⟩ :: (s.step m).turns moves

/-- The messages that were given, in order. -/
def messages (turns : List ScanTurn) : List Message := turns.filterMap (·.message?)

/-- The stores from which pages were taken, in order. -/
def fetches (turns : List ScanTurn) : List Store := turns.filterMap (·.fetched?)

theorem messages_concat (turns : List ScanTurn) (t : ScanTurn) :
    messages (turns ++ [t]) = messages turns ++ t.message?.toList := by
  unfold messages
  rw [List.filterMap_append]
  cases h : t.message? <;> simp [h]

theorem fetches_concat (turns : List ScanTurn) (t : ScanTurn) :
    fetches (turns ++ [t]) = fetches turns ++ t.fetched?.toList := by
  unfold fetches
  rw [List.filterMap_append]
  cases h : t.fetched? <;> simp [h]

/-- What the turns so far have to do with what a scan has been through. -/
structure Accounted (turns : List ScanTurn) (sc : Scan) (key : Bytes) (range : Range)
    (passed given : List (EntryId × Body)) : Prop where
  told : messages turns = given.map fun p => .ofEntry key p.1 p.2
  /-- The page at hand is from the last store from which one was taken. -/
  page : ∀ p ∈ sc.page, ∃ store, (fetches turns).getLast? = some store ∧ store.Has key p
  /-- Each message was an entry of the store from which its page was taken. -/
  source : ∀ early t late, turns = early ++ t :: late → ∀ m, t.message? = some m →
    ∃ p store, m = .ofEntry key p.1 p.2 ∧ (fetches early).getLast? = some store ∧ store.Has key p
  /-- What stood in the store at every fetch has been met or is ahead. -/
  met : ∀ id, range.holds id → (∀ store ∈ fetches turns, ∃ body, store.Has key (id, body)) →
    (∃ body, (id, body) ∈ passed ++ given ++ sc.page) ∨ sc.more ∧ ∀ body, sc.isAhead (id, body)

namespace Accounted

variable {turns : List ScanTurn} {t : ScanTurn} {sc sc' : Scan} {key : Bytes} {range : Range}
  {passed given passed' given' : List (EntryId × Body)}

theorem of_start {window : Option Window} {d : Direction}
    (h : Scan.start key range window d = .ok sc) : Accounted [] sc key range [] [] := by
  obtain ⟨-, -, -, hcursor, hpage, hmore⟩ := Scan.start_eq_ok h
  refine ⟨rfl, ?_, fun early t late hsplit => ?_, fun id _ _ => .inr ⟨hmore, fun body => ?_⟩⟩
  · rw [hpage]
    nofun
  · cases early <;> cases hsplit
  · rw [Scan.isAhead, hcursor]
    rfl

/-- To account for one more turn is to account for its message and for the page at hand. -/
theorem concat (h : Accounted turns sc key range passed given)
    (htold : messages (turns ++ [t]) = given'.map fun p => .ofEntry key p.1 p.2)
    (hpage : ∀ p ∈ sc'.page, ∃ store, (fetches (turns ++ [t])).getLast? = some store ∧
      store.Has key p)
    (hsource : ∀ m, t.message? = some m → ∃ p store, m = .ofEntry key p.1 p.2 ∧
      (fetches turns).getLast? = some store ∧ store.Has key p)
    (hmet : ∀ id, range.holds id →
      (∀ store ∈ fetches (turns ++ [t]), ∃ body, store.Has key (id, body)) →
      (∃ body, (id, body) ∈ passed' ++ given' ++ sc'.page) ∨
        sc'.more ∧ ∀ body, sc'.isAhead (id, body)) :
    Accounted (turns ++ [t]) sc' key range passed' given' := by
  refine ⟨htold, hpage, fun early u late hsplit => ?_, hmet⟩
  rcases split_concat hsplit with ⟨rfl, rfl, -⟩ | ⟨late, -, rfl⟩
  · exact hsource
  · exact h.source early u late rfl

/-- A turn that leaves the scan alone changes nothing. -/
theorem idle (h : Accounted turns sc key range passed given) (hmessage : t.message? = none)
    (hfetched : t.fetched? = none) : Accounted (turns ++ [t]) sc key range passed given := by
  have hfetches : fetches (turns ++ [t]) = fetches turns := by
    rw [fetches_concat, hfetched, Option.toList_none, List.append_nil]
  refine h.concat ?_ ?_ ?_ ?_
  · rw [messages_concat, hmessage, Option.toList_none, List.append_nil]
    exact h.told
  · rw [hfetches]
    exact h.page
  · rw [hmessage]
    nofun
  · rw [hfetches]
    exact h.met

variable {s : Scanning} {window : Option Window} {d : Direction}

/-- Giving an entry of the page at hand. -/
theorem give (hcourse : s.scan.Course key range window d passed given)
    (h : Accounted turns s.scan key range passed given) {skipped : List (EntryId × Body)}
    {p : EntryId × Body} {page : List (EntryId × Body)} {rest : Scan}
    (hpage : s.scan.page = skipped ++ p :: page)
    (hadvance : s.scan.advance = .message (.ofEntry s.scan.key p.1 p.2) rest)
    (hrest : rest.page = page ∧ rest.more = s.scan.more ∧ ∀ q, rest.isAhead q = s.scan.isAhead q)
    (hmet : passed ++ skipped ++ (given ++ [p]) ++ page = passed ++ given ++ s.scan.page) :
    Accounted (turns ++ [⟨s, .pull⟩]) rest key range (passed ++ skipped) (given ++ [p]) := by
  have hmessage : ScanTurn.message? ⟨s, .pull⟩ = some (.ofEntry key p.1 p.2) := by
    simp only [ScanTurn.message?, hadvance, hcourse.scope.key]
  have hfetches : fetches (turns ++ [⟨s, .pull⟩]) = fetches turns := by
    rw [fetches_concat]
    simp only [ScanTurn.fetched?, hadvance, Option.toList_none, List.append_nil]
  obtain ⟨hpage', hmore, hahead⟩ := hrest
  refine h.concat ?_ ?_ ?_ ?_
  · rw [messages_concat, hmessage, h.told, List.map_append]
    rfl
  · rw [hfetches, hpage']
    refine fun q hq => h.page q ?_
    rw [hpage]
    exact List.mem_append_right _ (List.mem_cons_of_mem _ hq)
  · rintro m hm
    obtain rfl := Option.some.inj (hmessage.symm.trans hm)
    obtain ⟨store, hlast, hhas⟩ := h.page p (by rw [hpage]; simp)
    exact ⟨p, store, rfl, hlast, hhas⟩
  · rw [hfetches, hpage', hmet, hmore]
    simp only [hahead]
    exact h.met

/-- Taking another page: what stands in the store and is ahead comes on it, or is ahead of it. -/
theorem fetch (h : Accounted turns s.scan key range passed given) {rest : Scan}
    (hadvance : s.scan.advance = .needsPage rest)
    (hrest : rest.Over key range d ∧ ∀ q, rest.isAhead q = s.scan.isAhead q)
    (hmet : passed ++ s.scan.page ++ given ++ [] = passed ++ given ++ s.scan.page) :
    Accounted (turns ++ [⟨s, .pull⟩]) (rest.load s.world.store) key range
      (passed ++ s.scan.page) given := by
  have hmessage : ScanTurn.message? ⟨s, .pull⟩ = none := by
    simp only [ScanTurn.message?, hadvance]
  have hfetches : fetches (turns ++ [⟨s, .pull⟩]) = fetches turns ++ [s.world.store] := by
    rw [fetches_concat]
    simp only [ScanTurn.fetched?, hadvance, Option.toList_some]
  obtain ⟨hover, hahead⟩ := hrest
  refine h.concat ?_ ?_ ?_ ?_
  · rw [messages_concat, hmessage, Option.toList_none, List.append_nil]
    exact h.told
  · intro p hp
    exact ⟨s.world.store, by rw [hfetches, List.getLast?_concat], (Scan.of_mem_pageOf hover hp).1⟩
  · rw [hmessage]
    nofun
  · intro id hholds hstood
    rw [hfetches] at hstood
    obtain ⟨hbefore, hnow⟩ := List.forall_mem_append.1 hstood
    obtain ⟨body, hhas⟩ := hnow s.world.store List.mem_cons_self
    rcases h.met id hholds hbefore with ⟨old, hold⟩ | ⟨-, hlater⟩
    · rw [← hmet, List.append_nil] at hold
      exact .inl ⟨old, List.mem_append_left _ hold⟩
    · have hlater' : rest.isAhead (id, body) := by
        rw [hahead]
        exact hlater body
      rcases Scan.mem_pageOf_or_isAhead hover hhas hholds hlater' with hpage | ⟨hmore, hstill⟩
      · exact .inl ⟨body, List.mem_append_right _ hpage⟩
      · exact .inr ⟨hmore, fun _ => hstill⟩

/-- Every move keeps a scan on its course and can be accounted for. -/
theorem step (hcourse : s.scan.Course key range window d passed given)
    (h : Accounted turns s.scan key range passed given) (m : ScanMove) :
    ∃ passed' given', (s.step m).scan.Course key range window d passed' given' ∧
      Accounted (turns ++ [⟨s, m⟩]) (s.step m).scan key range passed' given' := by
  cases m with
  | other m => exact ⟨passed, given, hcourse, h.idle rfl rfl⟩
  | pull =>
      obtain ⟨skipped, p, page, hremaining, hpage, hskip, hadvance⟩ |
        ⟨-, hlength, -, hadvance⟩ | ⟨hadvance, -⟩ := s.scan.advance_cases
      · obtain ⟨hcourse', hmet⟩ := hcourse.give hremaining hpage hskip
        have hgive := h.give hcourse hpage hadvance ⟨rfl, rfl, fun _ => rfl⟩ hmet
        refine ⟨passed ++ skipped, given ++ [p], ?_, ?_⟩
        · simp only [Scanning.step, hadvance]
          exact hcourse'
        · simp only [Scanning.step, hadvance]
          exact hgive
      · obtain ⟨hcourse', hmet⟩ := hcourse.passOver hlength
        have hfetch := h.fetch hadvance ⟨hcourse'.scope, fun _ => rfl⟩ hmet
        refine ⟨passed ++ s.scan.page, given, ?_, ?_⟩
        · simp only [Scanning.step, hadvance]
          exact hcourse'.load rfl s.world.store
        · simp only [Scanning.step, hadvance]
          exact hfetch
      · refine ⟨passed, given, ?_, ?_⟩
        · simp only [Scanning.step, hadvance]
          exact hcourse
        · simp only [Scanning.step, hadvance]
          refine h.idle ?_ ?_
          · simp only [ScanTurn.message?, hadvance]
          · simp only [ScanTurn.fetched?, hadvance]

/-- So does every run. -/
theorem run (hcourse : s.scan.Course key range window d passed given)
    (h : Accounted turns s.scan key range passed given) (moves : List ScanMove) :
    ∃ passed' given', (s.run moves).scan.Course key range window d passed' given' ∧
      Accounted (turns ++ s.turns moves) (s.run moves).scan key range passed' given' := by
  induction moves generalizing s turns passed given with
  | nil =>
      refine ⟨passed, given, hcourse, ?_⟩
      rw [Scanning.turns, List.append_nil]
      exact h
  | cons m moves ih =>
      obtain ⟨passed', given', hcourse', h'⟩ := h.step hcourse m
      obtain ⟨passed'', given'', hrun⟩ := ih hcourse' h'
      rw [List.append_assoc] at hrun
      exact ⟨passed'', given'', hrun⟩

end Accounted

/-! ## The whole of a scan -/

/-- To look for the next message is to pull until there is one or the end, while nobody else makes a
move. -/
theorem nextWithin_is_pulls {sc : Scan} {key : Bytes} {range : Range} {d : Direction}
    (h : sc.Over key range d) (w : World) {fuel : Nat}
    (hfuel : sc.pagesLeft range w.store < fuel) :
    ∃ n, (Scanning.run ⟨w, sc⟩ (List.replicate n .pull)).world = w ∧
      messages (Scanning.turns ⟨w, sc⟩ (List.replicate n .pull)) =
        (Scan.nextWithin w.store fuel sc).1.toList ∧
      match (Scan.nextWithin w.store fuel sc).1 with
      | some _ => (Scanning.run ⟨w, sc⟩ (List.replicate n .pull)).scan =
          (Scan.nextWithin w.store fuel sc).2
      | none => (Scanning.run ⟨w, sc⟩ (List.replicate n .pull)).scan.advance = .finished := by
  induction fuel generalizing sc with
  | zero => cases hfuel
  | succ fuel ih =>
      unfold Scan.nextWithin
      obtain ⟨skipped, p, page, -, -, -, hadvance⟩ | ⟨-, -, hmore, hadvance⟩ | ⟨hadvance, -⟩ :=
        sc.advance_cases
      · refine ⟨1, ?_, ?_, ?_⟩ <;>
          simp only [List.replicate, Scanning.run, List.foldl, Scanning.step, Scanning.turns,
            messages, List.filterMap, ScanTurn.message?, hadvance, Option.toList]
      · have hover :
            Scan.Over { sc with page := [], skip := sc.skip - sc.page.length } key range d :=
          ⟨h.key, h.direction, h.admits⟩
        have hless := Scan.pagesLeft_load hover hmore w.store
        obtain ⟨n, hworld, hmessages, hend⟩ := ih (hover.load w.store) (by
          change _ < sc.pagesLeft range w.store at hless
          omega)
        have hstep : Scanning.step ⟨w, sc⟩ .pull =
            ⟨w, Scan.load { sc with page := [], skip := sc.skip - sc.page.length } w.store⟩ := by
          simp only [Scanning.step, hadvance]
        have hmessage : ScanTurn.message? ⟨⟨w, sc⟩, .pull⟩ = none := by
          simp only [ScanTurn.message?, hadvance]
        refine ⟨n + 1, ?_, ?_, ?_⟩
        · rw [List.replicate_succ, Scanning.run, List.foldl_cons, hstep]
          exact hworld
        · rw [List.replicate_succ, Scanning.turns, hstep, messages, List.filterMap_cons, hmessage,
            hadvance]
          exact hmessages
        · rw [List.replicate_succ, Scanning.run, List.foldl_cons, hstep, hadvance]
          exact hend
      · refine ⟨0, rfl, ?_, ?_⟩
        · rw [hadvance]
          rfl
        · rw [hadvance]
          exact hadvance

theorem next_is_pulls {sc : Scan} {key : Bytes} {range : Range} {d : Direction}
    (h : sc.Over key range d) (w : World) :
    ∃ n, (Scanning.run ⟨w, sc⟩ (List.replicate n .pull)).world = w ∧
      messages (Scanning.turns ⟨w, sc⟩ (List.replicate n .pull)) = (sc.next w.store).1.toList ∧
      match (sc.next w.store).1 with
      | some _ => (Scanning.run ⟨w, sc⟩ (List.replicate n .pull)).scan = (sc.next w.store).2
      | none => (Scanning.run ⟨w, sc⟩ (List.replicate n .pull)).scan.advance = .finished :=
  nextWithin_is_pulls h w (sc.pagesLeft_lt range w.store)

/-- However the moves of others come between the pages of a scan, its messages are entries in the
order of its direction and inside its bounds, each as it stood in the store when its page was taken,
and no more than the window allows; and where the scan has no window and is over, every entry inside
its bounds that stood in the store each time a page was taken has been given exactly once. -/
theorem paged_scan_under_changes {range : Range} (hreads : range.reads) (key : Bytes)
    (window : Option Window) (d : Direction) :
    ∃ sc, Scan.start key range window d = .ok sc ∧ ∀ (w : World) (moves : List ScanMove),
      ∃ entries : List (EntryId × Body),
        messages (Scanning.turns ⟨w, sc⟩ moves) = entries.map (fun p => .ofEntry key p.1 p.2) ∧
        (entries.Pairwise fun p q => d.before p.1 q.1) ∧
        (∀ p ∈ entries, range.holds p.1) ∧
        (∀ early t late, Scanning.turns ⟨w, sc⟩ moves = early ++ t :: late →
          ∀ m, t.message? = some m → ∃ p store, m = .ofEntry key p.1 p.2 ∧
            (fetches early).getLast? = some store ∧ store.Has key p) ∧
        (∀ v, window = some v → entries.length ≤ v.count.toNat) ∧
        (window = none → (Scanning.run ⟨w, sc⟩ moves).scan.advance = .finished →
          ∀ id, range.holds id →
            (∀ store ∈ fetches (Scanning.turns ⟨w, sc⟩ moves),
              ∃ body, store.Has key (id, body)) →
            (entries.map (·.1)).count id = 1) := by
  obtain ⟨sc, hstart⟩ := Scan.start_of_reads key hreads window d
  refine ⟨sc, hstart, fun w moves => ?_⟩
  obtain ⟨passed, entries, hcourse, h⟩ :=
    (Accounted.of_start hstart).run (s := ⟨w, sc⟩) (.of_start hstart) moves
  rw [List.nil_append] at h
  have hsorted : entries.Pairwise fun p q => d.before p.1 q.1 := by
    have hall := (List.pairwise_append.1 hcourse.sorted).1
    exact (List.pairwise_append.1 hall).2.1
  refine ⟨entries, h.told, hsorted, ?_, h.source, hcourse.within, ?_⟩
  · intro p hp
    exact hcourse.inside p (List.mem_append_left _ (List.mem_append_right _ hp))
  · intro hwindow hover id hholds hstood
    have hnodup : (entries.map (·.1)).Nodup :=
      List.pairwise_map.2 (hsorted.imp fun {p q} hbefore hsame => by
        rw [hsame] at hbefore
        exact d.not_before_self q.1 hbefore)
    obtain ⟨hnone, hpage, hmore⟩ := hcourse.at_end hwindow hover
    have hmem : id ∈ entries.map (·.1) := by
      rcases h.met id hholds hstood with ⟨body, hbody⟩ | ⟨hstill, -⟩
      · rw [hnone, hpage, List.nil_append, List.append_nil] at hbody
        exact List.mem_map.2 ⟨_, hbody, rfl⟩
      · rw [hmore] at hstill
        cases hstill
    rw [hnodup.count, if_pos hmem]

/-- Adds an entry whose identifier is chosen by the clock. -/
def addAt (millis : Nat) : Move :=
  .add [97] none (.ofList [([102], [118])]) (some (.ofNat millis))

/-- A stream with two entries more than a page holds. -/
def crowded : World := World.start.run ((List.range' 1 66).map addAt)

/-- A scan of the whole stream, before its first page. -/
def wholeScan : Scan := ⟨[97], .unbounded, .unbounded, .ascending, 0, none, none, [], true⟩

/-- While the last entry of the first page is still to be given, it is deleted together with the one
with which the second page would have begun, and another comes behind all.  Then the scan goes on to
its end. -/
def changedOnTheWay : List ScanMove :=
  List.replicate 64 .pull ++
    [.other (.delete [97] ["64", "65"]), .other (addAt 67)] ++ List.replicate 4 .pull

theorem paged_scan_under_changes_changedOnTheWay :
    ∃ entries : List (EntryId × Body),
      messages (Scanning.turns ⟨crowded, wholeScan⟩ changedOnTheWay) =
        entries.map (fun p => .ofEntry [97] p.1 p.2) ∧
      messages (Scanning.turns ⟨crowded, wholeScan⟩ changedOnTheWay) =
        (List.range' 1 64 ++ [66, 67]).map
          (fun n => .ofEntry [97] ⟨.ofNat n, 0⟩ (.ofList [([102], [118])])) ∧
      (fetches (Scanning.turns ⟨crowded, wholeScan⟩ changedOnTheWay)).length = 2 ∧
      (entries.Pairwise fun p q => Direction.ascending.before p.1 q.1) ∧
      (entries.map (·.1)).count ⟨66, 0⟩ = 1 := by
  have hreads : Range.reads ⟨.unbounded, .unbounded⟩ := rfl
  obtain ⟨sc, hstart, hruns⟩ := paged_scan_under_changes hreads [97] none .ascending
  obtain rfl : wholeScan = sc := Except.ok.inj hstart
  obtain ⟨entries, htold, hsorted, -, -, -, hall⟩ := hruns crowded changedOnTheWay
  -- One evaluation for all that is looked at, since each of them goes through the whole run.
  obtain ⟨hgiven, hpages, hstood, hover⟩ :
      messages (Scanning.turns ⟨crowded, wholeScan⟩ changedOnTheWay) =
        (List.range' 1 64 ++ [66, 67]).map
          (fun n => .ofEntry [97] ⟨.ofNat n, 0⟩ (.ofList [([102], [118])])) ∧
      (fetches (Scanning.turns ⟨crowded, wholeScan⟩ changedOnTheWay)).length = 2 ∧
      (∀ store ∈ fetches (Scanning.turns ⟨crowded, wholeScan⟩ changedOnTheWay),
        (store.get? [97]).bind (·.entries.get? ⟨66, 0⟩) = some (.ofList [([102], [118])])) ∧
      (Scanning.run ⟨crowded, wholeScan⟩ changedOnTheWay).scan.advance = .finished := by
    decide +kernel
  refine ⟨entries, htold, hgiven, hpages, hsorted, hall rfl hover ⟨66, 0⟩ rfl ?_⟩
  intro store hstore
  exact ⟨_, Option.bind_eq_some_iff.1 (hstood store hstore)⟩

end StreamBroker
