import StreamBroker.Proofs.Front.Records
import StreamBroker.Script.Recorder
set_option autoImplicit false

/-!
# Record streams side by side

Asking for the responses to scans or reads pulls their commands and does nothing else.  The record
streams are then pulled and given up in any order, between further askings and whatever else happens
to the world.  Each response keeps to its own query and to what its own channel gave
(`Retrieving.Fits`), and what is done with one leaves the others as they are.
-/

namespace StreamBroker

variable {σ C : Type} {p : Provider σ} {routed : C → Except Failure (Route × Query)}

/-- A response that was taken, with what was done for its record stream and what that told.  The
stream is there until it is given up. -/
structure Taken (p : Provider σ) (C : Type) where
  command : C
  stream : Except Failure (Option (RecordStream p.watched))
  deeds : List (Deed p)
  told : List (Pull Record)

namespace Taken

/-- A response that was just taken. -/
def ofResponse (r : Response C (RecordStream p.watched)) : Taken p C :=
  ⟨r.command, r.outcome.map some, [], []⟩

/-- Pulls the record stream of a response, if it is there. -/
def pull (t : Taken p C) : StateM σ (Taken p C) := fun s =>
  match t.stream with
  | .ok (some stream) =>
    let ((item, stream), w) := (stream.pull p.watched).run ⟨s, t.deeds⟩
    (⟨t.command, .ok (some stream), w.deeds, t.told ++ [item]⟩, w.world)
  | _ => (t, s)

/-- Gives up the record stream of a response, if it is there. -/
def drop (t : Taken p C) : StateM σ (Taken p C) := fun s =>
  match t.stream with
  | .ok (some stream) =>
    let (_, w) := (stream.drop p.watched).run ⟨s, t.deeds⟩
    (⟨t.command, .ok none, w.deeds, t.told⟩, w.world)
  | _ => (t, s)

/-- A response is the failure of its command, or its record stream fits what it did and told. -/
inductive Fits (routed : C → Except Failure (Route × Query)) : Taken p C → Prop where
  | rejected {c : C} {failure : Failure} (hrouted : routed c = .error failure) :
      Fits routed ⟨c, .error failure, [], []⟩
  | kept {c : C} {route : Route} {query : Query} {stream : RecordStream p.watched}
      {deeds : List (Deed p)} {told : List (Pull Record)} (hrouted : routed c = .ok (route, query))
      (hfits : stream.Fits route query deeds told) : Fits routed ⟨c, .ok (some stream), deeds, told⟩
  | dropped {c : C} {route : Route} {query : Query} {deeds : List (Deed p)}
      {told : List (Pull Record)} (hrouted : routed c = .ok (route, query))
      (hsound : RecordStream.Sound route query deeds told) :
      Fits routed ⟨c, .ok none, deeds, told⟩

variable {t : Taken p C}

theorem fits_respond (routed : C → Except Failure (Route × Query)) (c : C) :
    Fits routed (ofResponse (Lazily.respond p.watched routed c)) := by
  unfold ofResponse Lazily.respond
  cases hrouted : routed c with
  | error failure => exact .rejected hrouted
  | ok q => exact .kept hrouted ⟨rfl, rfl, .nil q.1 q.2, ⟨rfl, nofun⟩⟩

theorem Fits.pull (h : Fits routed t) (s : σ) : Fits routed (t.pull.run s).1 := by
  cases h with
  | rejected hrouted => exact .rejected hrouted
  | dropped hrouted hsound => exact .dropped hrouted hsound
  | @kept c route query stream deeds told hrouted hfits =>
      exact .kept hrouted (RecordStream.fits_pull (w := ⟨s, deeds⟩) hfits)

theorem Fits.drop (h : Fits routed t) (s : σ) : Fits routed (t.drop.run s).1 := by
  cases h with
  | rejected hrouted => exact .rejected hrouted
  | dropped hrouted hsound => exact .dropped hrouted hsound
  | @kept c route query stream deeds told hrouted hfits =>
      exact .dropped hrouted (RecordStream.sound_drop (w := ⟨s, deeds⟩) hfits)

/-- Nothing is done for a command that is rejected. -/
theorem Fits.of_error (h : Fits routed t) {failure : Failure}
    (hrejected : routed t.command = .error failure) :
    t.stream = .error failure ∧ t.deeds = [] ∧ t.told = [] := by
  cases h with
  | rejected hrouted =>
      rw [hrouted] at hrejected
      cases hrejected
      exact ⟨rfl, rfl, rfl⟩
  | kept hrouted | dropped hrouted =>
      rw [hrouted] at hrejected
      cases hrejected

theorem Fits.of_ok (h : Fits routed t) {route : Route} {query : Query}
    (hrouted : routed t.command = .ok (route, query)) :
    (∃ stream, t.stream = .ok stream) ∧ RecordStream.Sound route query t.deeds t.told := by
  cases h with
  | rejected hrejected =>
      rw [hrejected] at hrouted
      cases hrouted
  | kept hown hfits =>
      rw [hown] at hrouted
      cases hrouted
      exact ⟨⟨_, rfl⟩, hfits.sound⟩
  | dropped hown hsound =>
      rw [hown] at hrouted
      cases hrouted
      exact ⟨⟨_, rfl⟩, hsound⟩

theorem command_pull (t : Taken p C) (s : σ) : (t.pull.run s).1.command = t.command := by
  obtain ⟨c, outcome, deeds, told⟩ := t
  cases outcome with
  | error => rfl
  | ok stream => cases stream <;> rfl

theorem command_drop (t : Taken p C) (s : σ) : (t.drop.run s).1.command = t.command := by
  obtain ⟨c, outcome, deeds, told⟩ := t
  cases outcome with
  | error => rfl
  | ok stream => cases stream <;> rfl

end Taken

/-- A scan or a read as it is carried out. -/
structure Retrieving (p : Provider σ) (C : Type) where
  world : σ
  /-- How many commands were pulled. -/
  pulled : Nat
  /-- What was done when responses were asked for. -/
  deeds : List (Deed p)
  taken : List (Taken p C)

/-- What may happen while responses are taken and their record streams used. -/
inductive Use (σ : Type) where
  /-- The next response is asked for. -/
  | ask
  /-- The record stream of the response at a position is pulled. -/
  | pull (position : Nat)
  /-- The record stream of the response at a position is given up. -/
  | drop (position : Nat)
  /-- The world becomes another. -/
  | change (f : σ → σ)

namespace Use

def isAsk : Use σ → Bool
  | ask => true
  | _ => false

/-- The position of the response that is used. -/
def position? : Use σ → Option Nat
  | pull position | drop position => some position
  | _ => none

end Use

namespace Retrieving

variable {source : Nat → Option C} {r : Retrieving p C}

/-- Nothing has happened yet. -/
def start (p : Provider σ) (C : Type) (s : σ) : Retrieving p C := ⟨s, 0, [], []⟩

/-- Asks for the next response. -/
def ask (source : Nat → Option C) (routed : C → Except Failure (Route × Query))
    (r : Retrieving p C) : Retrieving p C :=
  let ((response, pulled), w) :=
    (Lazily.next p.watched source routed r.pulled).run ⟨r.world, r.deeds⟩
  ⟨w.world, pulled, w.deeds, r.taken ++ (response.map Taken.ofResponse).toList⟩

/-- Does something with the response at a position, if it was taken. -/
def tend (act : Taken p C → StateM σ (Taken p C)) (position : Nat) (r : Retrieving p C) :
    Retrieving p C :=
  match r.taken[position]? with
  | none => r
  | some t =>
    let (t, world) := (act t).run r.world
    { r with world, taken := r.taken.set position t }

/-- What a use brings about. -/
def step (source : Nat → Option C) (routed : C → Except Failure (Route × Query))
    (r : Retrieving p C) : Use σ → Retrieving p C
  | .ask => r.ask source routed
  | .pull position => r.tend Taken.pull position
  | .drop position => r.tend Taken.drop position
  | .change f => { r with world := f r.world }

/-- What some uses bring about, one after the other. -/
def run (source : Nat → Option C) (routed : C → Except Failure (Route × Query))
    (uses : List (Use σ)) (r : Retrieving p C) : Retrieving p C :=
  uses.foldl (step source routed) r

/-- After some askings there are as many responses as commands were pulled, fewer than askings only
if no command is left, and each fits its own command. -/
structure Fits (source : Nat → Option C) (routed : C → Except Failure (Route × Query))
    (askings : Nat) (r : Retrieving p C) : Prop where
  pulled : r.pulled = r.taken.length
  deeds : r.deeds = (List.range r.taken.length).map .pulled
  few : r.taken.length ≤ askings
  enough : r.taken.length < askings → source r.taken.length = none
  commands : (r.taken.map fun t => some t.command) = (List.range r.taken.length).map source
  own : ∀ t ∈ r.taken, t.Fits routed

theorem Fits.start (source : Nat → Option C) (routed : C → Except Failure (Route × Query)) (s : σ) :
    Fits source routed 0 (start p C s) where
  pulled := rfl
  deeds := rfl
  few := Nat.le_refl 0
  enough := nofun
  commands := rfl
  own := nofun

theorem ask_of_none (hsource : source r.pulled = none) : r.ask source routed = r := by
  unfold ask Lazily.next
  rw [hsource]
  change { r with taken := r.taken ++ [] } = r
  rw [List.append_nil]

theorem ask_of_some (r : Retrieving p C) (routed : C → Except Failure (Route × Query)) {c : C}
    (hsource : source r.pulled = some c) :
    ∃ world, r.ask source routed = ⟨world, r.pulled + 1, r.deeds ++ [.pulled r.pulled],
      r.taken ++ [.ofResponse (Lazily.respond p.watched routed c)]⟩ := by
  refine ⟨((p.onPull r.pulled).run r.world).2, ?_⟩
  unfold ask Lazily.next
  rw [hsource]
  rfl

theorem Fits.ask {askings : Nat} (h : Fits source routed askings r) :
    Fits source routed (askings + 1) (r.ask source routed) := by
  cases hsource : source r.pulled with
  | none =>
      rw [ask_of_none hsource]
      rw [h.pulled] at hsource
      exact { h with few := Nat.le_succ_of_le h.few, enough := fun _ => hsource }
  | some c =>
      obtain ⟨world, hask⟩ := ask_of_some r routed hsource
      rw [hask]
      rw [h.pulled] at hsource ⊢
      -- No command was missing so far, or there would be none at this position.
      have hall : r.taken.length = askings := by
        rcases Nat.lt_or_eq_of_le h.few with hlt | heq
        · rw [h.enough hlt] at hsource
          cases hsource
        · exact heq
      have hlength : ∀ t : Taken p C, (r.taken ++ [t]).length = r.taken.length + 1 := fun _ =>
        List.length_append
      refine ⟨(hlength _).symm, ?_, ?_, ?_, ?_, ?_⟩
      · rw [hlength, List.range_succ, List.map_append, h.deeds]
        rfl
      · exact Nat.le_of_eq ((hlength _).trans (congrArg (· + 1) hall))
      · intro hlt
        rw [hlength, hall] at hlt
        exact absurd hlt (Nat.lt_irrefl _)
      · rw [hlength, List.range_succ, List.map_append, List.map_append, h.commands]
        exact congrArg _ (congrArg (fun c? => [c?]) hsource.symm)
      · intro t ht
        rcases List.mem_append.1 ht with hbefore | hlast
        · exact h.own t hbefore
        · rw [List.mem_singleton.1 hlast]
          exact Taken.fits_respond routed c

theorem tend_of_some {act : Taken p C → StateM σ (Taken p C)} {position : Nat} {t : Taken p C}
    (ht : r.taken[position]? = some t) :
    r.tend act position = { r with
      world := ((act t).run r.world).2
      taken := r.taken.set position ((act t).run r.world).1 } := by
  unfold tend
  rw [ht]
  rfl

theorem Fits.tend {askings : Nat} (h : Fits source routed askings r)
    {act : Taken p C → StateM σ (Taken p C)}
    (hcommand : ∀ t s, ((act t).run s).1.command = t.command)
    (hfits : ∀ t s, t.Fits routed → ((act t).run s).1.Fits routed) (position : Nat) :
    Fits source routed askings (r.tend act position) := by
  cases ht : r.taken[position]? with
  | none =>
      unfold Retrieving.tend
      rw [ht]
      exact h
  | some t =>
      rw [tend_of_some ht]
      have hlength : (r.taken.set position ((act t).run r.world).1).length = r.taken.length :=
        List.length_set
      have hat : (r.taken.map fun t => some t.command)[position]? = some (some t.command) := by
        rw [List.getElem?_map, ht]
        rfl
      refine ⟨?_, ?_, ?_, ?_, ?_, ?_⟩
      · exact h.pulled.trans hlength.symm
      · rw [hlength]
        exact h.deeds
      · rw [hlength]
        exact h.few
      · rw [hlength]
        exact h.enough
      · obtain ⟨hlt, hself⟩ := List.getElem?_eq_some_iff.1 hat
        rw [hlength, List.map_set, hcommand, ← hself, List.set_getElem_self]
        exact h.commands
      · intro t' ht'
        rcases List.mem_or_eq_of_mem_set ht' with hmem | rfl
        · exact h.own t' hmem
        · exact hfits t r.world (h.own t (List.mem_of_getElem? ht))

/-- The askings among some uses. -/
def askings (uses : List (Use σ)) : Nat := uses.countP Use.isAsk

theorem Fits.step {n : Nat} (h : Fits source routed n r) (use : Use σ) :
    Fits source routed (n + askings [use]) (r.step source routed use) := by
  cases use with
  | ask => exact h.ask
  | pull position => exact h.tend Taken.command_pull (fun _ s ht => ht.pull s) position
  | drop position => exact h.tend Taken.command_drop (fun _ s ht => ht.drop s) position
  | change f => exact { h with }

theorem Fits.run {n : Nat} (h : Fits source routed n r) (uses : List (Use σ)) :
    Fits source routed (n + askings uses) (r.run source routed uses) := by
  induction uses generalizing n r with
  | nil => exact h
  | cons use rest ih =>
      have hcount : askings (use :: rest) = askings [use] + askings rest :=
        (List.countP_append : ([use] ++ rest).countP Use.isAsk = _)
      rw [hcount, ← Nat.add_assoc]
      exact ih (h.step use)

/-- A use of one response leaves every other as it is, and asking leaves all. -/
theorem step_frame {use : Use σ} {position : Nat} (huse : use.position? ≠ some position)
    (hposition : position < r.taken.length) :
    (r.step source routed use).taken[position]? = r.taken[position]? ∧
      r.taken.length ≤ (r.step source routed use).taken.length := by
  have htend (act : Taken p C → StateM σ (Taken p C)) (other : Nat) (hother : other ≠ position) :
      (r.tend act other).taken[position]? = r.taken[position]? ∧
        r.taken.length ≤ (r.tend act other).taken.length := by
    cases ht : r.taken[other]? with
    | none =>
        unfold tend
        rw [ht]
        exact ⟨rfl, Nat.le_refl _⟩
    | some t =>
        rw [tend_of_some ht]
        exact ⟨List.getElem?_set_ne hother, Nat.le_of_eq List.length_set.symm⟩
  cases use with
  | ask =>
      exact ⟨List.getElem?_append_left hposition, (List.sublist_append_left ..).length_le⟩
  | pull other | drop other => exact htend _ other fun heq => huse (congrArg some heq)
  | change f => exact ⟨rfl, Nat.le_refl _⟩

theorem run_frame {uses : List (Use σ)} {position : Nat}
    (huses : ∀ use ∈ uses, use.position? ≠ some position) (hposition : position < r.taken.length) :
    (r.run source routed uses).taken[position]? = r.taken[position]? := by
  induction uses generalizing r with
  | nil => rfl
  | cons use rest ih =>
      obtain ⟨hsame, hlonger⟩ : (r.step source routed use).taken[position]? = r.taken[position]? ∧
          r.taken.length ≤ (r.step source routed use).taken.length :=
        step_frame (huses use List.mem_cons_self) hposition
      have hrest : ∀ use ∈ rest, use.position? ≠ some position := fun use huse =>
        huses use (List.mem_cons_of_mem _ huse)
      exact (ih hrest (Nat.lt_of_lt_of_le hposition hlonger)).trans hsame

end Retrieving

/-- What is seen of the askings when nobody watches. -/
theorem Lazily.run_next_unwatched (source : Nat → Option C)
    (routed : C → Except Failure (Route × Query)) (pulled : Nat) (w : Watched p) :
    (next p source routed pulled).run w.world =
      let ((response, pulled), w) := (next p.watched source routed pulled).run w
      ((response.map fun r => ⟨r.command, r.outcome.map RecordStream.unwatched⟩, pulled),
        w.world) := by
  unfold next
  cases source pulled with
  | none => rfl
  | some c =>
      unfold respond
      dsimp only
      cases routed c <;> rfl

/-! ## Scans and reads -/

/-- An operation whose commands are answered with record streams. -/
inductive Retrieval where
  | scan (direction : Direction)
  | read
  deriving DecidableEq, Repr

namespace Retrieval

/-- The commands of an operation. -/
abbrev Input : Retrieval → Type
  | scan _ => RangeCommand
  | read => ReadCommand

/-- The channel and the query of a command. -/
def plan : (op : Retrieval) → op.Input → Except Failure (Route × Query)
  | scan direction => RangeCommand.routed direction
  | read => ReadCommand.query

end Retrieval

/-- However responses are asked for and their record streams pulled and given up, and whatever
happens to the world in between: there is one response for each command in their order, as long as
they are asked for, and asking does nothing but pull the commands.  A response is a failure just if
its command is rejected.  A record stream makes no query but its own, and that once, unless it was
refused a channel; it tells the records of what its channel gave up to what closes it, and then its
end.  What is done with other responses does not change that, nor does the watching. -/
theorem retrievals_keep_apart {σ : Type} (p : Provider σ) (op : Retrieval)
    (source : Nat → Option op.Input) (s : σ) (uses : List (Use σ)) :
    let r := (Retrieving.start p op.Input s).run source op.plan uses
    r.taken.length ≤ Retrieving.askings uses ∧
    (r.taken.length < Retrieving.askings uses → source r.taken.length = none) ∧
    ((r.taken.map fun t => some t.command) = (List.range r.taken.length).map source) ∧
    r.deeds = (List.range r.taken.length).map .pulled ∧
    (∀ t ∈ r.taken, ∀ failure, op.plan t.command = .error failure →
      t.stream = .error failure ∧ t.deeds = [] ∧ t.told = []) ∧
    (∀ t ∈ r.taken, ∀ route query, op.plan t.command = .ok (route, query) →
      (∃ stream, t.stream = .ok stream) ∧
      (∃ tickets feeds, RecordStream.Traced route query tickets feeds t.deeds) ∧
      (RecordStream.Open t.deeds t.told ∨ RecordStream.Closed t.deeds t.told) ∧
      ∃ n, t.told = retold t.deeds ++ List.replicate n .finished) ∧
    (∀ more position, (∀ use ∈ more, use.position? ≠ some position) →
      position < r.taken.length →
      (r.run source op.plan more).taken[position]? = r.taken[position]?) ∧
    (∀ pulled (w : Watched p),
      (Lazily.next p source op.plan pulled).run w.world =
        let ((response, pulled), w) := (Lazily.next p.watched source op.plan pulled).run w
        ((response.map fun r => ⟨r.command, r.outcome.map RecordStream.unwatched⟩, pulled),
          w.world)) ∧
    (∀ (stream : RecordStream p.watched) (w : Watched p),
      (stream.unwatched.pull p).run w.world =
        let ((item, stream), w) := (stream.pull p.watched).run w
        ((item, stream.unwatched), w.world)) ∧
    ∀ (stream : RecordStream p.watched) (w : Watched p),
      (stream.unwatched.drop p).run w.world = ((), ((stream.drop p.watched).run w).2.world) := by
  intro r
  have hfits : Retrieving.Fits source op.plan (0 + Retrieving.askings uses) r :=
    (Retrieving.Fits.start source op.plan s).run uses
  rw [Nat.zero_add] at hfits
  refine ⟨hfits.few, hfits.enough, hfits.commands, hfits.deeds, ?_, ?_, ?_, ?_, ?_, ?_⟩
  · exact fun t ht failure => (hfits.own t ht).of_error
  · intro t ht route query hplan
    obtain ⟨hstream, tickets, feeds, htraced, htold⟩ := (hfits.own t ht).of_ok hplan
    exact ⟨hstream, ⟨tickets, feeds, htraced⟩, htold, RecordStream.told_eq htold⟩
  · exact fun more position huses hposition => Retrieving.run_frame huses hposition
  · exact Lazily.run_next_unwatched source op.plan
  · exact fun stream w => RecordStream.run_pull_unwatched w stream
  · exact fun stream w => RecordStream.run_drop_unwatched w stream

/-- Four reads: the second names no stream, and the third, which may wait, is refused a channel. -/
def fourReads : List ReadCommand :=
  [⟨[([97], .latest)], some .none, none⟩, ⟨[], some .none, none⟩,
    ⟨[([97], .latest)], some ⟨some 0, none, false⟩, none⟩, ⟨[([98], .latest)], some .none, none⟩]

/-- A recording in which the last read is answered first, and the first with an identifier between
its messages that does not read. -/
def mixedReplies : Recorder :=
  .start [⟨.messages [.ok ⟨[98], "1-1", ∅⟩, .ok ⟨[98], "1-2", ∅⟩], 0⟩,
      ⟨.messages [.ok ⟨[97], "1-1", ∅⟩, .ok ⟨[97], "one", ∅⟩, .ok ⟨[97], "1-3", ∅⟩], 0⟩]
    [some (.transport .noReply)]

/-- All responses are asked for, and then their record streams pulled in turns. -/
def inTurns : List (Use Recorder) :=
  List.replicate 5 .ask ++ [3, 0, 2, 3, 0, 2, 0, 1, 3].map .pull

theorem retrievals_keep_apart_fourReads :
    let r := (Retrieving.start Recorder.provider ReadCommand mixedReplies).run (fourReads[·]?)
      ReadCommand.query inTurns
    (r.taken.map fun t => t.told.map Pull.closes) =
        [[false, true, true], [], [true, true], [false, false, true]] ∧
      r.deeds.filterMap Deed.pulled? = [0, 1, 2, 3] := by
  intro r
  obtain ⟨-, -, -, hdeeds, -⟩ :=
    retrievals_keep_apart Recorder.provider .read (fourReads[·]?) mixedReplies inTurns
  refine ⟨by decide +kernel, ?_⟩
  have hlength : r.taken.length = 4 := by decide +kernel
  have hpulled : r.deeds = (List.range r.taken.length).map .pulled := hdeeds
  rw [hpulled, hlength]
  rfl

end StreamBroker
