import Janus.Auth.Context
import Janus.Permissions.Memory

/-!
# Auth/Deletion — a user deleted, and everything naming them

    reading ──read──▸ stamping ──the clock──▸ deleting ──▸ sessions ──▸ tokens ──▸ tuples ──▸
    telling

The record goes first: from then on nobody signs in as them, and what is left is deleted by this
call or by a replay.  Any store call may fail, and then writes nothing.  The event is sent however
the cleanup ends, by the call that deleted the record and no other; `deleteUser_replayable` says so
of every interleaving of calls.
-/

namespace Janus.Auth.Deletion

open Js Insertion Calls Permissions

/-! ## The calls -/

inductive Call where
  | findUser (id : Str)
  | now
  | deleteUser (id : Str)
  | deleteUserSessions (userId : Str)
  | deleteUserTokens (userId : Str)
  | deleteEntity (entity : Entity)
  | emit (userId userType : Str) (occurredAt : Time)

/-- What each answers; a call of a store may fail. -/
@[reducible] def Answer : Call → Type
  | .findUser _ => Except Failure (Option UserRecord)
  | .deleteUser _ => Except Failure Bool
  | .deleteUserSessions _ | .deleteUserTokens _ | .deleteEntity _ => Except Failure ℕ
  | .now => Time
  | .emit _ _ _ => Unit

/-- The four stores, the clock, and the failure every store call answers while there is one. -/
structure World where
  users : List (Str × UserRecord)
  sessions : List (Str × SessionRecord)
  tokens : List (Str × TokenRecord)
  relations : MemoryRelations
  clock : Time
  outage : Option Failure

/-- A store's answer and what it writes, unless it fails. -/
def World.stored {α : Type} (w : World) (answer : α) (written : World) : Except Failure α × World :=
  match w.outage with
  | some failure => (.error failure, w)
  | none => (.ok answer, written)

/-- One call answered. -/
def exec : (c : Call) → World → Answer c × World
  | .findUser id, w => w.stored (get w.users id) w
  | .now, w => (w.clock, w)
  | .deleteUser id, w => w.stored (get w.users id).isSome { w with users := delete w.users id }
  | .deleteUserSessions userId, w =>
    w.stored (w.sessions.countP fun e => e.2.userId = userId)
      { w with sessions := w.sessions.filter fun e => e.2.userId ≠ userId }
  | .deleteUserTokens userId, w =>
    w.stored (w.tokens.countP fun e => e.2.userId = userId)
      { w with tokens := w.tokens.filter fun e => e.2.userId ≠ userId }
  | .deleteEntity entity, w =>
    let (deleted, relations) := w.relations.deleteEntity entity
    w.stored deleted { w with relations }
  | .emit _ _ _, w => ((), w)

/-- What moves by itself: the clock, and whether the stores answer. -/
inductive Drift where
  | tick (time : Time)
  | outage (failure : Option Failure)

def drift : Drift → World → World
  | .tick time, w => { w with clock := time }
  | .outage failure, w => { w with outage := failure }

/-! ## The flow -/

abbrev Flow := Prog Call Answer Failure

/-- Who is deleted, by the API of which type. -/
structure Request where
  type : Str
  id : Str

variable (relations : Bool)

def call (c : Call) : Flow (Answer c) := Prog.perform c

/-- One call of a store, and its failure thrown. -/
def settle {α : Type} (x : Flow (Except Failure α)) : Flow α := x.bind Prog.done

/-- What names a user, deleted: their sessions, their tokens, and last the tuples, when there is a
relation store. -/
def cleanUp (request : Request) : Flow Unit := do
  let _ ← settle (call (.deleteUserSessions request.id))
  let _ ← settle (call (.deleteUserTokens request.id))
  if relations then do
    let _ ← settle (call (.deleteEntity ⟨request.type, request.id⟩))
    pure ()
  else pure ()

/-- The event of a deletion, when there was one. -/
def tell (request : Request) (deleted : Bool) (deletedAt : Time) : Flow Unit :=
  if deleted then call (.emit request.id request.type deletedAt) else pure ()

/-- Deletes the user, then everything naming them; `true` when this call deleted them. -/
def deleteUser (request : Request) : Flow Bool :=
  if !isId request.id then pure false
  else do
    let record ← settle (call (.findUser request.id))
    if record.any fun record => record.type ≠ request.type then pure false
    else do
      let deletedAt ← call .now
      let deleted ←
        if record.isSome then settle (call (.deleteUser request.id)) else pure false
      -- Told once, by the call that deleted them, even when the cleanup is interrupted.
      (cleanUp relations request).ensure (tell request deleted deletedAt)
      pure deleted

/-- Any number of deletions, on the same stores. -/
def service : Service Call Answer World Drift Request Failure Bool :=
  ⟨exec, drift, deleteUser relations⟩

/-! ## Its phases -/

/-- What is deleted next. -/
inductive Part where
  | sessions
  | tokens
  | tuples
deriving DecidableEq

/-- Where a deletion stands. -/
inductive Phase where
  | reading
  | stamping (found : Bool)
  | deleting
  | cleaning (deleted : Bool) (part : Part)
  | telling (deleted cleaned : Bool)
  | told (deleted cleaned : Bool)
  | spared
  | failed

/-- One answered call, from a phase to the next. -/
inductive Step (request : Request) : Phase → (c : Call) → Answer c → Phase → Prop
  | nobody : Step request .reading (.findUser request.id) (.ok none) (.stamping false)
  | found {record : UserRecord} (h : record.type = request.type) :
      Step request .reading (.findUser request.id) (.ok (some record)) (.stamping true)
  | another {record : UserRecord} (h : record.type ≠ request.type) :
      Step request .reading (.findUser request.id) (.ok (some record)) .spared
  | unread {e : Failure} : Step request .reading (.findUser request.id) (.error e) .failed
  | stamped {t : Time} : Step request (.stamping true) .now t .deleting
  | skipped {t : Time} : Step request (.stamping false) .now t (.cleaning false .sessions)
  | deleted {b : Bool} :
      Step request .deleting (.deleteUser request.id) (.ok b) (.cleaning b .sessions)
  | undeleted {e : Failure} : Step request .deleting (.deleteUser request.id) (.error e) .failed
  | sessions {b : Bool} {n : ℕ} : Step request (.cleaning b .sessions)
      (.deleteUserSessions request.id) (.ok n) (.cleaning b .tokens)
  | tokens {b : Bool} {n : ℕ} : Step request (.cleaning b .tokens)
      (.deleteUserTokens request.id) (.ok n)
      (if relations then .cleaning b .tuples else .telling b true)
  | tuples {b : Bool} {n : ℕ} : Step request (.cleaning b .tuples)
      (.deleteEntity ⟨request.type, request.id⟩) (.ok n) (.telling b true)
  | sessionsLeft {b : Bool} {e : Failure} : Step request (.cleaning b .sessions)
      (.deleteUserSessions request.id) (.error e) (.telling b false)
  | tokensLeft {b : Bool} {e : Failure} : Step request (.cleaning b .tokens)
      (.deleteUserTokens request.id) (.error e) (.telling b false)
  | tuplesLeft {b : Bool} {e : Failure} : Step request (.cleaning b .tuples)
      (.deleteEntity ⟨request.type, request.id⟩) (.error e) (.telling b false)
  | tell {cleaned : Bool} {t : Time} : Step request (.telling true cleaned)
      (.emit request.id request.type t) () (.told true cleaned)

/-- Where a deletion may end, and with what. -/
def Final (r : Except Failure Bool) : Phase → Prop
  | .spared => r = .ok false
  | .failed => ∃ e, r = .error e
  | .telling false true => r = .ok false
  | .told deleted true => r = .ok deleted
  | .telling false false | .told _ false => ∃ e, r = .error e
  | _ => False

/-- Where it starts: what is no id names nobody. -/
def start (request : Request) : Phase := if isId request.id then .reading else .spared

section Follows

variable {relations} {request : Request}

/-- **A cleanup goes through its parts**, and stops where a store fails. -/
theorem cleanUp_leads {deleted : Bool} :
    Leads exec (Step relations request) (.cleaning deleted .sessions) (cleanUp relations request)
      (fun _ p => p = .telling deleted true) (fun _ p => p = .telling deleted false) := by
  refine Leads.bind fun _ r _ => ?_
  cases r with
  | error e => exact ⟨_, .sessionsLeft, rfl⟩
  | ok n =>
    refine ⟨_, .sessions, Leads.bind fun _ r _ => ?_⟩
    cases r with
    | error e => exact ⟨_, .tokensLeft, rfl⟩
    | ok n =>
      refine ⟨_, .tokens, ?_⟩
      cases relations with
      | false => exact rfl
      | true =>
        refine Leads.bind fun _ r _ => ?_
        cases r with
        | error e => exact ⟨_, .tuplesLeft, rfl⟩
        | ok n => exact ⟨_, .tuples, rfl⟩

/-- The event is sent after a cleanup that ended… -/
theorem tell_leads {deleted : Bool} {t : Time} {Z : Failure → Phase → Prop} :
    Leads exec (Step relations request) (.telling deleted true) (tell request deleted t)
      (fun _ => Final (.ok deleted)) Z := by
  cases deleted with
  | false => exact rfl
  | true => exact fun _ _ _ => ⟨_, .tell, rfl⟩

/-- …and after one that a failure interrupted. -/
theorem tell_leads_error {deleted : Bool} {t : Time} {e : Failure} {Z : Failure → Phase → Prop} :
    Leads exec (Step relations request) (.telling deleted false) (tell request deleted t)
      (fun _ => Final (.error e)) Z := by
  cases deleted with
  | false => exact ⟨e, rfl⟩
  | true => exact fun _ _ _ => ⟨_, .tell, e, rfl⟩

/-- **A deletion follows its phases.** -/
theorem follows (request : Request) :
    Leads exec (Step relations request) (start request) (deleteUser relations request)
      (fun b => Final (.ok b)) fun e => Final (.error e) := by
  by_cases hid : isId request.id = true
  swap
  · rw [start, if_neg hid, deleteUser, if_pos (by simpa using hid)]
    exact rfl
  rw [start, if_pos hid, deleteUser, if_neg (by simpa using hid)]
  have hclean : ∀ {deleted : Bool} {t : Time},
      Leads exec (Step relations request) (.cleaning deleted .sessions)
        ((cleanUp relations request).ensure (tell request deleted t) >>= fun _ => pure deleted)
        (fun b => Final (.ok b)) fun e => Final (.error e) := by
    refine fun {deleted t} => Leads.bind (Leads.ensure (cleanUp_leads.mono ?_ ?_))
    · rintro _ _ rfl
      exact tell_leads
    · rintro e _ rfl
      exact tell_leads_error
  refine Leads.bind fun _ r _ => ?_
  match r with
  | .error e => exact ⟨.failed, .unread, e, rfl⟩
  | .ok none => exact ⟨_, .nobody, fun _ _ _ => ⟨_, .skipped, hclean⟩⟩
  | .ok (some record) =>
    by_cases htype : record.type = request.type
    · refine ⟨_, .found htype, ?_⟩
      have hown : ¬ (some record).any (fun record => decide (record.type ≠ request.type)) =
        true := by
        simpa using htype
      change Leads _ _ _ (if _ then _ else _) _ _
      rw [if_neg hown]
      refine fun _ _ _ => ⟨_, .stamped, Leads.bind fun _ r _ => ?_⟩
      cases r with
      | error e => exact ⟨.failed, .undeleted, e, rfl⟩
      | ok b => exact ⟨_, .deleted, hclean⟩
    · refine ⟨.spared, .another htype, ?_⟩
      have hother : (some record).any (fun record => decide (record.type ≠ request.type)) =
        true := by
        simpa using htype
      change Leads _ _ _ (if _ then _ else _) _ _
      rw [if_pos hother]
      exact rfl

end Follows

/-- The deletions, by their phases. -/
def protocol : Protocol (service relations) where
  Phase := Phase
  start := start
  Step := Step relations
  Final _ := Final
  follows := follows

end Janus.Auth.Deletion
