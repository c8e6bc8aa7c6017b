import StreamBroker.Front.Ordered
import StreamBroker.Proofs.Front.Watched
import StreamBroker.Script.Recorder
set_option autoImplicit false

/-!
# Commands in lock step

Each time a response of an ordered operation is asked for, one command is pulled, carried out and
answered, and nothing of the next one is done before its own response is asked for
(`Ordered.LockStep`).  A failure that blames the command is one response among others; any other is
the last, behind which nothing is done at all.
-/

namespace StreamBroker

/-! ## What one asking brings about -/

/-- What the front end did when a response was asked for, and the response, if there was one. -/
structure Exchange {σ : Type} (p : Provider σ) (C R : Type) where
  deeds : List (Deed p)
  response : Option (Response C R)

namespace Ordered

variable {σ C R : Type} {p : Provider σ} {source : Nat → Option C}
  {plan : C → Except Failure (Plan R)}

/-- What is done for the command at a position: it is pulled, and called out and waited for unless
its plan fails. -/
inductive Answers (p : Provider σ) (plan : C → Except Failure (Plan R)) (position : Nat) :
    List (Deed p) → Response C R → Prop where
  | rejected {c : C} {failure : Failure} (hplan : plan c = .error failure) :
      Answers p plan position [.pulled position] ⟨c, .error failure⟩
  | called {c : C} {chosen : Plan R} (hplan : plan c = .ok chosen) (delay : Nat)
      (reply : Except Failure chosen.kind.Value) :
      Answers p plan position [.pulled position, .called chosen.call delay reply, .elapsed delay]
        ⟨c, reply >>= chosen.conclude⟩

/-- The askings of an operation that has come so far. -/
inductive LockStep (p : Provider σ) (source : Nat → Option C)
    (plan : C → Except Failure (Plan R)) : Ordered → List (Exchange p C R) → Prop where
  | nil (o : Ordered) : LockStep p source plan o []
  | idle {k : Nat} {l : List (Exchange p C R)} (hrest : LockStep p source plan ⟨k, true⟩ l) :
      LockStep p source plan ⟨k, true⟩ (⟨[], none⟩ :: l)
  | dry {k : Nat} {l : List (Exchange p C R)} (hsource : source k = none)
      (hrest : LockStep p source plan ⟨k, true⟩ l) :
      LockStep p source plan ⟨k, false⟩ (⟨[], none⟩ :: l)
  | answered {k : Nat} {deeds : List (Deed p)} {response : Response C R}
      {l : List (Exchange p C R)} (hsource : source k = some response.command)
      (hanswers : Answers p plan k deeds response)
      (hrest : LockStep p source plan ⟨k + 1, !goesOn response.outcome⟩ l) :
      LockStep p source plan ⟨k, false⟩ (⟨deeds, some response⟩ :: l)

theorem run_execute_rejected {c : C} {failure : Failure} (hplan : plan c = .error failure)
    (w : Watched p) : (execute p.watched plan c).run w = (.error failure, w) := by
  unfold execute
  rw [hplan]
  rfl

section Together

variable {o : Ordered} {k : Nat} {l : List (Exchange p C R)}

/-- The responses that were given. -/
def given (l : List (Exchange p C R)) : List (Response C R) := l.filterMap (·.response)

@[simp] theorem given_cons_some (deeds : List (Deed p)) (response : Response C R)
    (l : List (Exchange p C R)) : given (⟨deeds, some response⟩ :: l) = response :: given l := rfl

/-- The call that a command stands for, if its plan does not fail. -/
def translation (plan : C → Except Failure (Plan R)) (c : C) : Option AnyCall :=
  match plan c with
  | .ok chosen => some ⟨chosen.kind, chosen.call⟩
  | .error _ => none

theorem Answers.pulled {deeds : List (Deed p)} {response : Response C R}
    (h : Answers p plan k deeds response) : deeds.filterMap Deed.pulled? = [k] := by
  cases h <;> rfl

theorem Answers.called_translation {deeds : List (Deed p)} {response : Response C R}
    (h : Answers p plan k deeds response) :
    deeds.filterMap Deed.called? = (translation plan response.command).toList := by
  unfold translation
  cases h with
  | rejected hplan => rw [hplan]; rfl
  | called hplan delay reply => rw [hplan]; rfl

namespace LockStep

/-- Nothing comes of asking an operation that is over. -/
theorem silent (h : LockStep p source plan ⟨k, true⟩ l) :
    (∀ e ∈ l, e = ⟨[], none⟩) ∧ given l = [] := by
  generalize ho : (⟨k, true⟩ : Ordered) = o at h
  induction h with
  | nil => exact ⟨nofun, rfl⟩
  | idle hrest ih =>
      obtain ⟨hsilent, hgiven⟩ := ih ho
      exact ⟨List.forall_mem_cons.2 ⟨rfl, hsilent⟩, hgiven⟩
  | dry | answered => cases ho

/-- The commands are pulled in their order, one for each response. -/
theorem pulls (h : LockStep p source plan o l) :
    (l.flatMap (·.deeds)).filterMap Deed.pulled? = List.range' o.pulled (given l).length := by
  induction h with
  | nil => rfl
  | idle hrest ih => exact ih
  | dry hsource hrest ih => exact ih
  | answered hsource hanswers hrest ih =>
      rw [List.flatMap_cons, List.filterMap_append, hanswers.pulled, ih]
      rfl

/-- Each response carries the command that was pulled for it. -/
theorem commands (h : LockStep p source plan o l) :
    (given l).map (fun r => some r.command) =
      (List.range' o.pulled (given l).length).map source := by
  induction h with
  | nil => rfl
  | idle hrest ih => exact ih
  | dry hsource hrest ih => exact ih
  | answered hsource hanswers hrest ih =>
      rw [given_cons_some, List.map_cons, ih, List.length_cons, List.range'_succ, List.map_cons,
        hsource]

/-- The calls are the translations of the commands that have one. -/
theorem calls (h : LockStep p source plan o l) :
    (l.flatMap (·.deeds)).filterMap Deed.called? =
      (given l).filterMap fun r => translation plan r.command := by
  induction h with
  | nil => rfl
  | idle hrest ih => exact ih
  | dry hsource hrest ih => exact ih
  | @answered k deeds response l hsource hanswers hrest ih =>
      rw [List.flatMap_cons, List.filterMap_append, hanswers.called_translation, ih,
        given_cons_some, List.filterMap_cons]
      cases translation plan response.command <;> rfl

/-- An asking is one that answered its command, or one behind the last response. -/
theorem asking (h : LockStep p source plan o l) {i : Nat} {e : Exchange p C R}
    (hi : l[i]? = some e) :
    (∃ deeds response, e = ⟨deeds, some response⟩ ∧ (given l)[i]? = some response ∧
        Answers p plan (o.pulled + i) deeds response) ∨
      e = ⟨[], none⟩ ∧ (given l).length ≤ i := by
  induction h generalizing i with
  | nil => cases hi
  | idle hrest | dry _ hrest =>
      obtain ⟨hsilent, hgiven⟩ := (LockStep.idle hrest).silent
      refine .inr ⟨hsilent e (List.mem_of_getElem? hi), ?_⟩
      rw [hgiven]
      exact Nat.zero_le i
  | answered hsource hanswers hrest ih =>
      cases i with
      | zero =>
          obtain rfl := Option.some.inj hi
          exact .inl ⟨_, _, rfl, rfl, hanswers⟩
      | succ i =>
          rcases ih hi with ⟨deeds, response, rfl, hresponse, hanswers'⟩ | ⟨rfl, hle⟩
          · refine .inl ⟨deeds, response, rfl, hresponse, ?_⟩
            rwa [Nat.add_right_comm] at hanswers'
          · exact .inr ⟨rfl, Nat.succ_le_succ hle⟩

end LockStep

end Together

/-- What comes of asking for responses one after the other, unwatched. -/
def asked (p : Provider σ) (source : Nat → Option C) (plan : C → Except Failure (Plan R)) :
    List (σ → σ) → σ → Ordered → List (Option (Response C R))
  | [], _, _ => []
  | change :: changes, s, o =>
    let ((response, o), s) := (next p source plan o).run (change s)
    response :: asked p source plan changes s o

theorem run_next_unwatched (source : Nat → Option C) (plan : C → Except Failure (Plan R))
    (o : Ordered) (w : Watched p) :
    (next p source plan o).run w.world =
      (((next p.watched source plan o).run w).1,
        ((next p.watched source plan o).run w).2.world) := by
  unfold next
  split
  · rfl
  · split
    · rfl
    · unfold execute
      rename_i c hc
      cases plan c <;> rfl

end Ordered

/-! ## The operations that change a stream -/

/-- An operation whose commands are answered in strict order. -/
inductive Change where
  | add
  | acknowledge
  | delete
  | group
  | trim
  deriving DecidableEq, Repr

namespace Change

/-- The commands of an operation. -/
abbrev Input : Change → Type
  | add => AddCommand
  | acknowledge => AcknowledgeCommand
  | delete => DeleteCommand
  | group => GroupCommand
  | trim => TrimCommand

/-- What a command of an operation gives. -/
abbrev Result : Change → Type
  | add => RecordId
  | acknowledge | delete | trim => Nat
  | group => String

/-- How the commands of an operation are planned. -/
def plan : (op : Change) → op.Input → Except Failure (Plan op.Result)
  | add => AddCommand.plan
  | acknowledge => AcknowledgeCommand.plan
  | delete => DeleteCommand.plan
  | group => GroupCommand.plan
  | trim => TrimCommand.plan

end Change

/-- A check that fails only because a contract is broken. -/
structure OnlyBreaks {α : Type} (x : Except Failure α) : Prop where
  kind : ∀ failure, x = .error failure → failure.kind = .contract

namespace OnlyBreaks

variable {α β : Type}

theorem ok (a : α) : OnlyBreaks (.ok a) := ⟨nofun⟩

theorem require (field : Field) (a? : Option α) : OnlyBreaks (require field a?) := by
  refine ⟨fun failure h => ?_⟩
  cases a? with
  | none =>
      cases h
      rfl
  | some a => cases h

theorem requireSome (field : Field) (l : List α) : OnlyBreaks (requireSome field l) := by
  refine ⟨fun failure h => ?_⟩
  unfold StreamBroker.requireSome at h
  split at h
  · cases h
    rfl
  · cases h

theorem bind {x : Except Failure α} {f : α → Except Failure β} (hx : OnlyBreaks x)
    (hf : ∀ a, OnlyBreaks (f a)) : OnlyBreaks (x >>= f) := by
  refine ⟨fun failure h => ?_⟩
  cases x with
  | error first =>
      cases h
      exact hx.kind failure rfl
  | ok a => exact (hf a).kind failure h

end OnlyBreaks

/-- A command that is rejected breaks its contract. -/
theorem Change.plan_onlyBreaks (op : Change) (c : op.Input) : OnlyBreaks (op.plan c) := by
  cases op with
  | add => exact .bind (.require ..) fun _ => .bind (.require ..) fun _ => .ok _
  | acknowledge =>
      exact .bind (.require ..) fun _ => .bind (.require ..) fun _ =>
        .bind (.requireSome ..) fun _ => .ok _
  | delete => exact .bind (.require ..) fun _ => .bind (.requireSome ..) fun _ => .ok _
  | group =>
      refine .bind (.require ..) fun key => .bind (.require ..) fun group => ?_
      split <;> exact .ok _
  | trim => exact .bind (.require ..) fun _ => .bind (.require ..) fun _ => .ok _

end StreamBroker
