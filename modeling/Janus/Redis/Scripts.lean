import Janus.Js.Text
import Janus.Machinery.Keyspace

/-!
# Redis/Scripts — the scripts of the session store

One script for each of the store's methods, over one keyspace and one prefix.  A session is a hash,
named by its token's key and listed in its user's set.  A date travels as its milliseconds, and
`null` as the empty text.
-/

namespace Janus.Redis

open Js Keyspace

/-- `String(at.getTime())`. -/
def stamp : ℤ → Str
  | .ofNat n => decimal n
  | .negSucc n => 45 :: decimal (n + 1)

def stampOrEmpty : Option ℤ → Str
  | none => []
  | some at_ => stamp at_

/-- A date's text is never the one of `null`. -/
theorem stamp_ne_nil (at_ : ℤ) : stamp at_ ≠ [] := by
  cases at_ with
  | ofNat n => exact decimal_ne_nil n
  | negSucc n => exact List.cons_ne_nil _ _

/-! ## The keys -/

def sessionKey (p id : Str) : Str := p ++ js "session:" ++ id

/-- The key of a session's token. -/
def sessionTokenKey (p tokenHash : Str) : Str := p ++ js "session:token:" ++ tokenHash

/-- The set of a user's sessions. -/
def sessionsKey (p userId : Str) : Str := p ++ js "user:" ++ userId ++ js ":sessions"

section Keys

variable {p id id' userId userId' tokenHash tokenHash' : Str}

@[simp] theorem sessionKey_inj : sessionKey p id = sessionKey p id' ↔ id = id' :=
  List.append_right_inj _

@[simp] theorem sessionTokenKey_inj :
    sessionTokenKey p tokenHash = sessionTokenKey p tokenHash' ↔ tokenHash = tokenHash' :=
  List.append_right_inj _

@[simp] theorem sessionsKey_inj : sessionsKey p userId = sessionsKey p userId' ↔
    userId = userId' := by
  rw [sessionsKey, sessionsKey, List.append_cancel_right_eq, List.append_cancel_left_eq]

/-- A session's token key is the key of the session with this id. -/
theorem sessionTokenKey_eq : sessionTokenKey p tokenHash =
    sessionKey p (js "token:" ++ tokenHash) := by
  simp only [sessionTokenKey, sessionKey, List.append_assoc]
  rfl

/-- Keys that go on with two letters after the prefix are two. -/
theorem ne_of_head {a b : Str} {u v : CodeUnit} (h : u ≠ v) :
    p ++ u :: a ≠ p ++ v :: b := fun heq =>
  h (List.head_eq_of_cons_eq (List.append_cancel_left heq))

theorem sessionKey_ne_sessionsKey : sessionKey p id ≠ sessionsKey p userId := by
  simp only [sessionKey, sessionsKey, List.append_assoc]
  exact ne_of_head (u := 115) (v := 117) (by decide)

@[simp] theorem sessionKey_eq_sessionsKey : (sessionKey p id = sessionsKey p userId) = False :=
  eq_false sessionKey_ne_sessionsKey

@[simp] theorem sessionsKey_eq_sessionKey : (sessionsKey p userId = sessionKey p id) = False :=
  eq_false sessionKey_ne_sessionsKey.symm

end Keys

/-! ## What the scripts share -/

/-- The set lives as long as what it lists the longest. -/
def extendSet (key : Str) (at_ : ℤ) : Script Str Unit := do
  if (← pttl key) < 0 then pexpireat key at_
  else pexpireatGt key at_

/-- Members whose key is gone, taken out of their set. -/
def prune (set p : Str) : Script Str Unit := do
  (← smembers set).foldlM (fun _ member => do
    if !(← existsKey (p ++ member)) then srem set member) ()

/-- What a text is made with. -/
def concatenated : Option Str → Script Str Str
  | none => fault .concatenation
  | some value => pure value

/-! ## Sessions -/

/-- A session as its hash holds it: with none, there is no session. -/
def session (key id : Str) : Script Str (Option (Str × List (Str × Str))) := do
  let fields ← hgetall key
  if fields = [] then pure none else pure (some (id, fields))

def insertSession (p id tokenHash userId authenticatedAt : Str) (expiresAt : ℤ)
    (revokedAt createdAt : Str) : Script Str ℕ := do
  let key := sessionKey p id
  if ← existsKey key then pure 0
  else
    let holder ← get (sessionTokenKey p tokenHash)
    if holder.any (· ≠ id) then
      fault (.reply (js "JANUS a session token hash is held by another session"))
    else
      hset key [(js "tokenHash", tokenHash), (js "userId", userId),
        (js "authenticatedAt", authenticatedAt), (js "expiresAt", stamp expiresAt),
        (js "revokedAt", revokedAt), (js "createdAt", createdAt)]
      pexpireat key expiresAt
      setPxat (sessionTokenKey p tokenHash) id expiresAt
      prune (sessionsKey p userId) (p ++ js "session:")
      sadd (sessionsKey p userId) id
      extendSet (sessionsKey p userId) expiresAt
      pure 1

def findSession (p tokenHash : Str) : Script Str (Option (Str × List (Str × Str))) := do
  match ← get (sessionTokenKey p tokenHash) with
  | none => pure none
  | some id => session (sessionKey p id) id

def extendSession (p id : Str) (expiresAt : ℤ) : Script Str (Option (Str × List (Str × Str))) := do
  let key := sessionKey p id
  if !(← existsKey key) then pure none
  else if (← hget key (js "revokedAt")) ≠ some [] then pure none
  else
    hset key [(js "expiresAt", stamp expiresAt)]
    let written ← session key id
    let tokenHash ← hget key (js "tokenHash")
    let userId ← hget key (js "userId")
    pexpireat key expiresAt
    pexpireat (sessionTokenKey p (← concatenated tokenHash)) expiresAt
    extendSet (sessionsKey p (← concatenated userId)) expiresAt
    pure written

def reauthenticateSession (p id at_ : Str) : Script Str (Option (Str × List (Str × Str))) := do
  let key := sessionKey p id
  if !(← existsKey key) then pure none
  else if (← hget key (js "revokedAt")) ≠ some [] then pure none
  else
    hset key [(js "authenticatedAt", at_)]
    session key id

def revokeSession (p id at_ : Str) : Script Str ℕ := do
  let key := sessionKey p id
  if !(← existsKey key) then pure 0
  else
    if (← hget key (js "revokedAt")) = some [] then hset key [(js "revokedAt", at_)]
    pure 1

/-- One member of a user's set, revoked or dropped. -/
def revokeMember (p userId at_ except : Str) (revoked : ℕ) (id : Str) : Script Str ℕ := do
  let key := sessionKey p id
  if !(← existsKey key) then
    srem (sessionsKey p userId) id
    pure revoked
  else if id = except then pure revoked
  else if (← hget key (js "revokedAt")) = some [] then
    hset key [(js "revokedAt", at_)]
    pure (revoked + 1)
  else pure revoked

def revokeUserSessions (p userId at_ except : Str) : Script Str ℕ := do
  (← smembers (sessionsKey p userId)).foldlM (revokeMember p userId at_ except) 0

/-- One member of a user's set, deleted with the token key that names it. -/
def deleteMember (p : Str) (deleted : ℕ) (id : Str) : Script Str ℕ := do
  let key := sessionKey p id
  match ← hget key (js "tokenHash") with
  | none => pure deleted
  | some tokenHash =>
    if (← get (sessionTokenKey p tokenHash)) = some id then
      let _ ← del (sessionTokenKey p tokenHash)
    let _ ← del key
    pure (deleted + 1)

def deleteUserSessions (p userId : Str) : Script Str ℕ := do
  let deleted ← (← smembers (sessionsKey p userId)).foldlM (deleteMember p) 0
  let _ ← del (sessionsKey p userId)
  pure deleted

end Janus.Redis
