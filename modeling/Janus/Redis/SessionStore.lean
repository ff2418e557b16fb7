import Janus.Redis.Serving

/-!
# Redis/SessionStore — one store of sessions, over Redis or in memory

A call of the store over scripts answers what it answers in memory, and leaves the same sessions
(`Same.step`); so does time, where memory collects what Redis expires (`Same.pass`).
-/

namespace Janus.Redis

open Js Keyspace Auth

/-! ## The port -/

/-- A call of the session store. -/
inductive SessionRequest where
  | insertSession (record : SessionRecord)
  | findSessionByTokenHash (tokenHash : Str)
  | extendSession (id : Str) (expiresAt : Time)
  | reauthenticateSession (id : Str) (at_ : Time)
  | revokeSession (id : Str) (at_ : Time)
  | revokeUserSessions (userId : Str) (at_ : Time) (except : Option Str)
  | deleteUserSessions (userId : Str)

inductive SessionReply where
  | nothing
  | session (found : Option SessionRecord)
  | known (found : Bool)
  | count (sessions : ℕ)
deriving DecidableEq

/-! ## Over Redis -/

/-- A script's reply, decoded: a fault is a failure, and nothing is ever answered as an absence. -/
def serve {α β : Type} (slot operation : Str) (script : Script Str α)
    (decode : α → Call → Except StoreFailure β) (db : Db Str) : Except StoreFailure β × Db Str :=
  match script db with
  | (.ok reply, db') => (decode reply ⟨slot, operation⟩, db')
  | (.error fault, db') => (.error (unanswered ⟨slot, operation⟩ fault), db')

section Redis

-- what `new Date(Number(value))` makes of a text that is no plain count of milliseconds
variable (otherwise : Str → Option Time) (p : Str)

def serveSession {α : Type} (operation : Str) (script : Script Str α)
    (decode : α → Call → Except StoreFailure SessionReply) :
    Db Str → Except StoreFailure SessionReply × Db Str :=
  serve (js "sessions") operation script decode

def answerSession (reply : Option (Str × List (Str × Str))) (call : Call) :
    Except StoreFailure SessionReply := .session <$> toSession otherwise reply call

/-- The session store over scripts. -/
def sessionStore (db : Db Str) : SessionRequest → Except StoreFailure SessionReply × Db Str
  | .insertSession record =>
    serveSession (js "insertSession") (insertSession p record.id record.tokenHash record.userId
      (stamp record.authenticatedAt) record.expiresAt (stampOf record.revokedAt)
      (stamp record.createdAt)) (fun _ _ => .ok .nothing) db
  | .findSessionByTokenHash tokenHash =>
    serveSession (js "findSessionByTokenHash") (findSession p tokenHash) (answerSession otherwise)
      db
  | .extendSession id expiresAt =>
    serveSession (js "extendSession") (extendSession p id expiresAt) (answerSession otherwise) db
  | .reauthenticateSession id at_ =>
    serveSession (js "reauthenticateSession") (reauthenticateSession p id (stamp at_))
      (answerSession otherwise) db
  | .revokeSession id at_ =>
    serveSession (js "revokeSession") (revokeSession p id (stamp at_))
      (fun reply _ => .ok (.known (reply = 1))) db
  | .revokeUserSessions userId at_ except =>
    serveSession (js "revokeUserSessions")
      (revokeUserSessions p userId (stamp at_) (except.getD [])) (fun n _ => .ok (.count n)) db
  | .deleteUserSessions userId =>
    serveSession (js "deleteUserSessions") (deleteUserSessions p userId)
      (fun n _ => .ok (.count n)) db

end Redis

/-! ## In memory -/

/-- The session store in memory. -/
def memorySessionStore (index : SessionIndex) :
    SessionRequest → Except StoreFailure SessionReply × SessionIndex
  | .insertSession record => (.ok .nothing, index.insertSession record)
  | .findSessionByTokenHash tokenHash =>
    (.ok (.session (index.findSessionByTokenHash tokenHash)), index)
  | .extendSession id expiresAt =>
    let (written, index) := index.extendSession id expiresAt
    (.ok (.session written), index)
  | .reauthenticateSession id at_ =>
    let (written, index) := index.reauthenticateSession id at_
    (.ok (.session written), index)
  | .revokeSession id at_ =>
    let (found, index) := index.revokeSession id at_
    (.ok (.known found), index)
  | .revokeUserSessions userId at_ except =>
    let (revoked, index) := index.revokeUserSessions userId at_ except
    (.ok (.count revoked), index)
  | .deleteUserSessions userId =>
    let (deleted, index) := index.deleteUserSessions userId
    (.ok (.count deleted), index)

/-! ## Asked the same -/

section Refines

variable {otherwise : Str → Option Time} {p : Str} {userOf idOf : Str → Str} {db : Db Str}
  {now : Time} {index : SessionIndex} {live : Str → Option SessionRecord}

/-- What callers keep to: an id is minted, and one user's; a token's hash is one session's; and no
session is stored or extended to expire in the past. -/
def SessionRequest.Fits (userOf idOf : Str → Str) (now : Time) : SessionRequest → Prop
  | .insertSession record => Minted record.id ∧ Dated record ∧ userOf record.id = record.userId ∧
    idOf record.tokenHash = record.id ∧ now < record.expiresAt
  | .extendSession id expiresAt => Minted id ∧ now < expiresAt ∧ expiresAt ≤ lastMoment
  | .reauthenticateSession id at_ | .revokeSession id at_ => Minted id ∧ at_ ≤ lastMoment
  | .revokeUserSessions _ at_ _ => at_ ≤ lastMoment
  | _ => True

/-- The two hold the same sessions. -/
structure Same (p : Str) (userOf idOf : Str → Str) (db : Db Str) (index : SessionIndex)
    (live : Str → Option SessionRecord) : Prop where
  serves : Serves p userOf db live
  remembers : Remembers index live
  own : ∀ id record, live id = some record → idOf record.tokenHash = id

/-- A call the two answer alike, at once, and that leaves them the same. -/
def SameAfter (otherwise : Str → Option Time) (p : Str) (userOf idOf : Str → Str) (db : Db Str)
    (index : SessionIndex) (request : SessionRequest) : Prop :=
  let redis := sessionStore otherwise p db request
  let memory := memorySessionStore index request
  redis.1 = memory.1 ∧ redis.2.now = db.now ∧ ∃ live, Same p userOf idOf redis.2 memory.2 live

theorem serve_eq {α β : Type} {slot operation : Str} {script : Script Str α}
    {decode : α → Call → Except StoreFailure β} {db db' : Db Str} {reply : α}
    (hrun : script db = (.ok reply, db')) :
    serve slot operation script decode db = (decode reply ⟨slot, operation⟩, db') := by
  rw [serve, hrun]

theorem answerSession_map {found : Option SessionRecord}
    (hdated : ∀ record, found = some record → Dated record) (call : Call) :
    answerSession otherwise (found.map fun record => (record.id, sessionHash record)) call =
      .ok (.session found) := by
  cases found with
  | none => rfl
  | some record => rw [Option.map_some, answerSession, toSession_hash (hdated record rfl)]; rfl

namespace Same

/-- Sessions written where they are, by token hash. -/
theorem own_of {live' : Str → Option SessionRecord} (h : Same p userOf idOf db index live)
    (hlive : ∀ id record, live' id = some record →
      ∃ stored, live id = some stored ∧ record.tokenHash = stored.tokenHash) :
    ∀ id record, live' id = some record → idOf record.tokenHash = id := by
  intro id record hrecord
  obtain ⟨stored, hstored, htoken⟩ := hlive id record hrecord
  rw [htoken]
  exact h.own id stored hstored

theorem insertSession (h : Same p userOf idOf db index live) (hclock : db.now = now)
    {record : SessionRecord}
    (hfits : SessionRequest.Fits userOf idOf now (.insertSession record)) :
    SameAfter otherwise p userOf idOf db index (.insertSession record) := by
  obtain ⟨hminted, hdated, huser, hid, hlater⟩ := hfits
  have hfree : ∀ id stored, live id = some stored → stored.tokenHash = record.tokenHash →
      id = record.id := by
    intro id stored hstored hhash
    rw [← h.own id stored hstored, hhash, hid]
  obtain ⟨n, db', hrun, hnow, hserves⟩ := (h.serves.insertSession hminted hdated huser.symm hfree
    (by rw [hclock]; exact_mod_cast hlater)).exists_run
  rw [SameAfter, sessionStore, serveSession, serve_eq hrun]
  cases hlive : live record.id with
  | some stored =>
    rw [hlive] at hserves
    have hmemory : index.insertSession record = index := by
      rw [SessionIndex.insertSession, h.remembers.byId, hlive]
      rfl
    rw [memorySessionStore, hmemory]
    exact ⟨rfl, hnow, live, hserves, h.remembers, h.own⟩
  | none =>
    rw [hlive] at hserves
    refine ⟨rfl, hnow, _, hserves, h.remembers.insertSession hlive fun id stored hstored hhash => ?_,
      fun id stored hstored => ?_⟩
    · rw [hfree id stored hstored hhash, hlive] at hstored
      cases hstored
    · change Function.update live record.id (some record) id = some stored at hstored
      rw [Function.update_apply] at hstored
      split at hstored
      case isTrue heq =>
        cases hstored
        exact hid.trans heq.symm
      case isFalse => exact h.own id stored hstored

theorem findSession (h : Same p userOf idOf db index live) (tokenHash : Str) :
    SameAfter otherwise p userOf idOf db index (.findSessionByTokenHash tokenHash) := by
  have hfound := h.serves.findSession fun record =>
    (h.remembers.findSession : index.findSessionByTokenHash tokenHash = some record ↔ _)
  rw [SameAfter, sessionStore, serveSession, serve_eq hfound]
  refine ⟨answerSession_map (fun record hrecord => ?_) _, rfl, live, h⟩
  obtain ⟨id, hlive, -⟩ := h.remembers.findSession.mp hrecord
  exact (h.serves.kept id record hlive).1

/-- What is written of a session that stands keeps its token's hash. -/
theorem own_standing (h : Same p userOf idOf db index live) (id : Str)
    {patch : SessionRecord → SessionRecord}
    (htoken : ∀ record, (patch record).tokenHash = record.tokenHash) :
    ∀ id' record, (((live id).filter fun stored => stored.revokedAt = none).map patch).elim live
      (fun record => Function.update live id (some record)) id' = some record →
      idOf record.tokenHash = id' := by
  refine h.own_of fun id' record hrecord => ?_
  cases hstands : (live id).filter fun stored => stored.revokedAt = none with
  | none =>
    rw [hstands] at hrecord
    exact ⟨record, hrecord, rfl⟩
  | some stored =>
    rw [hstands, Option.map_some, Option.elim_some, Function.update_apply] at hrecord
    split at hrecord
    case isTrue heq =>
      cases hrecord
      exact ⟨stored, heq ▸ (Option.filter_eq_some_iff.mp hstands).1, htoken stored⟩
    case isFalse => exact ⟨record, hrecord, rfl⟩

theorem dated_standing (h : Same p userOf idOf db index live) (id : Str)
    (patch : SessionRecord → SessionRecord) (hdated : ∀ record, Dated record → Dated (patch record))
    (record : SessionRecord)
    (hrecord : ((live id).filter fun stored => stored.revokedAt = none).map patch = some record) :
    Dated record := by
  obtain ⟨stored, hstands, rfl⟩ := Option.map_eq_some_iff.mp hrecord
  exact hdated stored (h.serves.kept id stored (Option.filter_eq_some_iff.mp hstands).1).1

theorem extendSession (h : Same p userOf idOf db index live) (hclock : db.now = now) {id : Str}
    {expiresAt : Time}
    (hfits : SessionRequest.Fits userOf idOf now (.extendSession id expiresAt)) :
    SameAfter otherwise p userOf idOf db index (.extendSession id expiresAt) := by
  obtain ⟨hminted, hlater, hlast⟩ := hfits
  obtain ⟨reply, db', hrun, rfl, hnow, hserves⟩ := (h.serves.extendSession hminted
    (by rw [hclock]; exact_mod_cast hlater) hlast).exists_run
  obtain ⟨hwritten, hremembers⟩ := h.remembers.standingWrite id
    (fun stored => { stored with expiresAt }) fun _ => rfl
  rw [SameAfter, sessionStore, serveSession, serve_eq hrun, answerSession_map (h.dated_standing id
    (fun stored => { stored with expiresAt }) fun record hdated =>
      { hdated with expiresAt := hlast })]
  exact ⟨congrArg (fun found => Except.ok (SessionReply.session found)) hwritten.symm, hnow, _,
    hserves, hremembers, h.own_standing id fun _ => rfl⟩

theorem reauthenticateSession (h : Same p userOf idOf db index live) {id : Str} {at_ : Time}
    (hfits : SessionRequest.Fits userOf idOf now (.reauthenticateSession id at_)) :
    SameAfter otherwise p userOf idOf db index (.reauthenticateSession id at_) := by
  obtain ⟨hminted, hat⟩ := hfits
  obtain ⟨reply, db', hrun, rfl, hnow, hserves⟩ :=
    (h.serves.reauthenticateSession hminted hat).exists_run
  obtain ⟨hwritten, hremembers⟩ := h.remembers.standingWrite id
    (fun stored => { stored with authenticatedAt := at_ }) fun _ => rfl
  rw [SameAfter, sessionStore, serveSession, serve_eq hrun, answerSession_map (h.dated_standing id
    (fun stored => { stored with authenticatedAt := at_ }) fun record hdated =>
      { hdated with authenticatedAt := hat })]
  exact ⟨congrArg (fun found => Except.ok (SessionReply.session found)) hwritten.symm, hnow, _,
    hserves, hremembers, h.own_standing id fun _ => rfl⟩

theorem tokenHash_revoked (at_ : Time) (record : SessionRecord) :
    (record.revoked at_).tokenHash = record.tokenHash := by
  rw [SessionRecord.revoked]
  split <;> rfl

theorem revokeSession (h : Same p userOf idOf db index live) {id : Str} {at_ : Time}
    (hfits : SessionRequest.Fits userOf idOf now (.revokeSession id at_)) :
    SameAfter otherwise p userOf idOf db index (.revokeSession id at_) := by
  obtain ⟨hminted, hat⟩ := hfits
  obtain ⟨reply, db', hrun, hreply, hnow, hserves⟩ :=
    (h.serves.revokeSession hminted hat).exists_run
  obtain ⟨hfound, hremembers⟩ := h.remembers.revokeSession id at_
  rw [SameAfter, sessionStore, serveSession, serve_eq hrun]
  refine ⟨?_, hnow, _, hserves, hremembers, h.own_of fun id' record hrecord => ?_⟩
  · have hsame : decide (reply = 1) = (index.revokeSession id at_).1 := by
      rw [hfound, Bool.eq_iff_iff, decide_eq_true_iff, hreply]
    exact congrArg (fun found => Except.ok (SessionReply.known found)) hsame
  · cases hlive : live id with
    | none =>
      rw [hlive] at hrecord
      exact ⟨record, hrecord, rfl⟩
    | some stored =>
      rw [hlive, Option.elim_some, Function.update_apply] at hrecord
      split at hrecord
      case isTrue heq =>
        cases hrecord
        exact ⟨stored, heq ▸ hlive, tokenHash_revoked at_ stored⟩
      case isFalse => exact ⟨record, hrecord, rfl⟩

theorem mem_keys_iff (h : Same p userOf idOf db index live) (id : Str) :
    id ∈ index.byId.map Prod.fst ↔ (live id).isSome := by
  rw [Insertion.mem_keys, h.remembers.byId]

theorem revokeUserSessions (h : Same p userOf idOf db index live) {userId : Str} {at_ : Time}
    (except : Option Str) (hat : at_ ≤ lastMoment) :
    SameAfter otherwise p userOf idOf db index (.revokeUserSessions userId at_ except) := by
  obtain ⟨hcount, hremembers⟩ := h.remembers.revokeUserSessions userId at_ except
  obtain ⟨revoked, db', hrun, hrevoked, hnow, hserves⟩ :=
    (h.serves.revokeUserSessions userId hat except h.remembers.nodup
      h.mem_keys_iff).exists_run
  rw [SameAfter, sessionStore, serveSession, serve_eq hrun]
  refine ⟨congrArg (fun n => Except.ok (SessionReply.count n)) (hrevoked.trans hcount.symm), hnow,
    _, hserves, hremembers, h.own_of fun id record hrecord => ?_⟩
  obtain ⟨stored, hstored, rfl⟩ := Option.map_eq_some_iff.mp hrecord
  refine ⟨stored, hstored, ?_⟩
  split
  · exact tokenHash_revoked at_ stored
  · rfl

theorem deleteUserSessions (h : Same p userOf idOf db index live) (userId : Str) :
    SameAfter otherwise p userOf idOf db index (.deleteUserSessions userId) := by
  obtain ⟨hcount, hremembers⟩ := h.remembers.deleteWhere fun stored => stored.userId = userId
  obtain ⟨deleted, db', hrun, hdeleted, hnow, hserves⟩ :=
    (h.serves.deleteUserSessions userId h.remembers.nodup h.mem_keys_iff).exists_run
  rw [SameAfter, sessionStore, serveSession, serve_eq hrun]
  have hsame : deleted = (index.deleteUserSessions userId).1 := by
    rw [hdeleted, SessionIndex.deleteUserSessions, hcount, List.countP_map]
    refine List.countP_congr fun e he => ?_
    have hlive : live e.1 = some e.2 :=
      (h.remembers.byId e.1).symm.trans (Insertion.get_of_mem h.remembers.nodup he)
    simp [hlive]
  refine ⟨congrArg (fun n => Except.ok (SessionReply.count n)) hsame, hnow, _, hserves, ?_,
    fun id record hrecord => h.own id record (Option.filter_eq_some_iff.mp hrecord).1⟩
  change Remembers (index.deleteWhere _).2 _
  simpa only [ne_eq, decide_not] using hremembers

/-- What Redis has expired is what would have been collected. -/
theorem pass (h : Same p userOf idOf db index live) (hclock : db.now = now) (elapsed : ℕ) :
    ∃ live', Same p userOf idOf (db.tick (elapsed + 1))
      (index.deleteExpiredSessions (now + elapsed)).2 live' := by
  obtain ⟨-, hremembers⟩ := h.remembers.deleteWhere fun stored => stored.expiresAt ≤ now + elapsed
  have hlater : db.now + (elapsed + 1 : ℕ) = ((now + elapsed + 1 : ℕ) : ℤ) := by
    rw [hclock]
    push_cast
    omega
  refine ⟨_, h.serves.tick (elapsed + 1), ?_,
    fun id record hrecord => h.own id record (Option.filter_eq_some_iff.mp hrecord).1⟩
  have hsame : (fun id => (live id).filter fun record =>
      decide (db.now + (elapsed + 1 : ℕ) ≤ (record.expiresAt : ℤ))) =
      fun id => (live id).filter fun stored => !decide (stored.expiresAt ≤ now + elapsed) := by
    funext id
    congr 1
    funext record
    rw [hlater, ← decide_not]
    refine decide_eq_decide.mpr ?_
    rw [Int.ofNat_le, not_le]
    exact Nat.succ_le_iff
  rw [hsame]
  exact hremembers

variable (otherwise) in
/-- **One call**: the two answer alike, and hold the same sessions after it. -/
theorem step (h : Same p userOf idOf db index live) (hclock : db.now = now)
    {request : SessionRequest} (hfits : request.Fits userOf idOf now) :
    SameAfter otherwise p userOf idOf db index request := by
  cases request with
  | insertSession record => exact h.insertSession hclock hfits
  | findSessionByTokenHash tokenHash => exact h.findSession tokenHash
  | extendSession id expiresAt => exact h.extendSession hclock hfits
  | reauthenticateSession id at_ => exact h.reauthenticateSession hfits
  | revokeSession id at_ => exact h.revokeSession hfits
  | revokeUserSessions userId at_ except => exact h.revokeUserSessions except hfits
  | deleteUserSessions userId => exact h.deleteUserSessions userId

end Same

end Refines

end Janus.Redis
