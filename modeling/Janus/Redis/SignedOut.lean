import Janus.Redis.Sessions

/-!
# Redis/SignedOut — a sign-out everywhere misses no session

Whatever calls came before, and however much time, every session that stands is listed in its user's
set and named by its token's key for as long (`indexed_calls`).  So revoking a user's sessions
leaves none to be read that is not revoked, and deleting them leaves none (`signedOut`).  This rests
on the ids sessions are inserted under: one that begins as a token's key does breaks it
(`signedOut_token`).
-/

namespace Janus.Redis

open Js Keyspace

/-- A call of the session store that writes, or some time passing. -/
inductive SessionCall where
  | insert (id tokenHash userId : Str) (authenticatedAt expiresAt : ℤ) (revokedAt : Option ℤ)
      (createdAt : ℤ)
  | extend (id : Str) (expiresAt : ℤ)
  | reauthenticate (id : Str) (at_ : ℤ)
  | revoke (id : Str) (at_ : ℤ)
  | revokeUser (userId : Str) (at_ : ℤ) (except : Option Str)
  | deleteUser (userId : Str)
  | pass (elapsed : ℕ)

/-- The keyspace a call leaves, whether its script ended or faulted. -/
def SessionCall.step (p : Str) (db : Db Str) : SessionCall → Db Str
  | .insert id tokenHash userId authenticatedAt expiresAt revokedAt createdAt =>
    (insertSession p id tokenHash userId (stamp authenticatedAt) expiresAt (stampOrEmpty revokedAt)
      (stamp createdAt) db).2
  | .extend id expiresAt => (extendSession p id expiresAt db).2
  | .reauthenticate id at_ => (reauthenticateSession p id (stamp at_) db).2
  | .revoke id at_ => (revokeSession p id (stamp at_) db).2
  | .revokeUser userId at_ except =>
    (revokeUserSessions p userId (stamp at_) (except.getD []) db).2
  | .deleteUser userId => (deleteUserSessions p userId db).2
  | .pass elapsed => db.tick elapsed

/-- Sessions are inserted under minted ids. -/
def SessionCall.Minting : SessionCall → Prop
  | .insert id _ _ _ _ _ _ => Minted id
  | _ => True

variable {p : Str} {db : Db Str}

/-- **One call keeps every session listed and named.** -/
theorem Indexed.step (h : Indexed p db none) {call : SessionCall} (hminting : call.Minting) :
    Indexed p (call.step p db) none := by
  cases call with
  | insert => exact (h.insertSession hminting).left
  | extend => exact h.extendSession.left
  | reauthenticate => exact h.reauthenticateSession.left
  | revoke => exact h.revokeSession.left
  | revokeUser =>
    exact ((h.revokeUserSessions (stamp_ne_nil _)).mono (fun _ _ h => h.1) fun _ _ h => h.elim).left
  | deleteUser => exact (h.deleteUserSessions.mono (fun _ _ h => h.1) fun _ _ h => h.elim).left
  | pass elapsed => exact h.tick elapsed

/-- An empty keyspace lists every session it has. -/
theorem Indexed.of_empty (hempty : ∀ k, db.keys k = none) (hclock : 0 ≤ db.now) :
    Indexed p db none where
  clock := hclock
  standing _ e _ _ hkey := absurd ((hempty _).symm.trans hkey) (Option.some_ne_none e).symm
  blank := hempty _
  token _ e hkey := absurd ((hempty _).symm.trans hkey) (Option.some_ne_none e).symm
  user _ e hkey := absurd ((hempty _).symm.trans hkey) (Option.some_ne_none e).symm

/-- **Calls and time keep every session listed and named.** -/
theorem indexed_calls (hempty : ∀ k, db.keys k = none) (hclock : 0 ≤ db.now)
    (calls : List SessionCall) (hminting : ∀ call ∈ calls, call.Minting) :
    Indexed p (calls.foldl (SessionCall.step p) db) none := by
  suffices h : ∀ db, Indexed p db none → Indexed p (calls.foldl (SessionCall.step p) db) none from
    h db (.of_empty hempty hclock)
  intro db h
  induction calls generalizing db with
  | nil => exact h
  | cons call calls ih =>
    exact ih (fun call hcall => hminting call (List.mem_cons_of_mem _ hcall)) _
      (h.step (hminting call List.mem_cons_self))

/-- A hash under a session's key is a session that is listed and named. -/
theorem Indexed.held (h : Indexed p db none) {id : Str} {fields : List (Str × Str)}
    {last : Option ℤ}
    (hkey : db.keys (sessionKey p id) = some ⟨.hash fields, last⟩) :
    ∃ until_, last = some until_ ∧ Nonempty (Held p db id fields until_) := by
  obtain ⟨-, fields', until_, heq, held⟩ | ⟨value, until_, heq⟩ := h.kind hkey
  · obtain ⟨rfl, rfl⟩ : fields = fields' ∧ last = some until_ := by simpa using heq
    exact ⟨until_, rfl, held⟩
  · exact absurd heq (by simp)

/-- What is read by a token is what a session's key holds. -/
theorem Indexed.found (h : Indexed p db none) {tokenHash id : Str} {fields : List (Str × Str)}
    (hfound : (Redis.findSession p tokenHash db).1 = .ok (some (id, fields))) :
    ∃ last, db.keys (sessionKey p id) = some ⟨.hash fields, some last⟩ ∧
      Nonempty (Held p db id fields last) := by
  obtain ⟨found, db', hrun, rfl, hread⟩ := After.exists_run
    (h.findSession : After (Redis.findSession p tokenHash) db _ _)
  rw [hrun] at hfound
  exact hread id fields (Except.ok.inj hfound)

/-- **A session that stands is in its user's set and under its token's key for as long, so that a
sign-out everywhere misses none of them.** -/
theorem signedOut (hempty : ∀ k, db.keys k = none) (hclock : 0 ≤ db.now) (calls : List SessionCall)
    (hminting : ∀ call ∈ calls, call.Minting) :
    let reached := calls.foldl (SessionCall.step p) db
    (∀ id fields last, reached.keys (sessionKey p id) = some ⟨.hash fields, last⟩ →
      ∃ until_ tokenHash userId, last = some until_ ∧
        Insertion.get fields (js "tokenHash") = some tokenHash ∧
        Insertion.get fields (js "userId") = some userId ∧
        Lists (reached.keys (sessionsKey p userId)) id until_ ∧
        Names (reached.keys (sessionTokenKey p tokenHash)) id until_) ∧
    (∀ userId at_ except tokenHash id fields,
      (findSession p tokenHash (SessionCall.step p reached (.revokeUser userId at_ except))).1 =
        .ok (some (id, fields)) →
      Insertion.get fields (js "userId") = some userId → some id ≠ except →
      Insertion.get fields (js "revokedAt") ≠ some []) ∧
    ∀ userId tokenHash id fields,
      (findSession p tokenHash (SessionCall.step p reached (.deleteUser userId))).1 =
        .ok (some (id, fields)) →
      Insertion.get fields (js "userId") ≠ some userId := by
  intro reached
  have h : Indexed p reached none := indexed_calls hempty hclock calls hminting
  refine ⟨?_, ?_, ?_⟩
  · intro id fields last hkey
    obtain ⟨until_, rfl, ⟨held⟩⟩ := h.held hkey
    exact ⟨until_, held.tokenHash, held.userId, rfl, held.tokenHash_eq, held.userId_eq, held.listed,
      held.named⟩
  · intro userId at_ except tokenHash id fields hfound huser hexcept
    obtain ⟨_, db', hrun, h', hrevoked⟩ := After.exists_run
      (h.revokeUserSessions (stamp_ne_nil at_) : After (revokeUserSessions p userId _
        (except.getD [])) reached _ _)
    rw [SessionCall.step, hrun] at hfound
    obtain ⟨last, hkey, ⟨held⟩⟩ := h'.found hfound
    have hsame : held.userId = userId := Option.some.inj (held.userId_eq.symm.trans huser)
    refine hrevoked id last (hsame ▸ held.listed) ?_ fields _ hkey
    cases except with
    | none => exact fun hnil => absurd (h'.blank.symm.trans (hnil ▸ hkey)) (by simp)
    | some id' => simpa using hexcept
  · intro userId tokenHash id fields hfound huser
    obtain ⟨_, db', hrun, h', hgone⟩ := After.exists_run
      (h.deleteUserSessions : After (deleteUserSessions p userId) reached _ _)
    rw [SessionCall.step, hrun] at hfound
    obtain ⟨last, -, ⟨held⟩⟩ := h'.found hfound
    have hsame : held.userId = userId := Option.some.inj (held.userId_eq.symm.trans huser)
    obtain ⟨_, _, hset, -⟩ := held.listed
    exact absurd (hgone.symm.trans (hsame ▸ hset)) (by simp)

/-- A session of a user, inserted, extended past another's end, and signed out with all. -/
theorem signedOut_ada : ∃ fields,
    (findSession (js "janus:") (js "a") (SessionCall.step (js "janus:")
      ([SessionCall.insert (js "s1") (js "a") (js "ada") 0 10 none 0,
        .insert (js "s2") (js "b") (js "ada") 0 20 none 0, .extend (js "s1") 90, .pass 50].foldl
          (SessionCall.step (js "janus:")) (Db.empty 0)) (.revokeUser (js "ada") 50 none))).1 =
        .ok (some (js "s1", fields)) ∧
      Insertion.get fields (js "revokedAt") ≠ some [] := by
  have hminted : ∀ rest, Minted (115 :: rest) := fun rest =>
    ⟨List.cons_ne_nil _ _, fun tokenHash heq =>
      absurd (show (115 : CodeUnit) = 116 from List.head_eq_of_cons_eq heq) (by decide)⟩
  have h := @signedOut (js "janus:") (Db.empty 0) (fun _ => rfl) le_rfl
    [.insert (js "s1") (js "a") (js "ada") 0 10 none 0,
      .insert (js "s2") (js "b") (js "ada") 0 20 none 0, .extend (js "s1") 90, .pass 50] (by
      simp only [List.forall_mem_cons]
      exact ⟨hminted _, hminted _, trivial, trivial, nofun⟩)
  exact ⟨_, rfl, h.2.1 (js "ada") 50 none (js "a") (js "s1") _ rfl rfl (by simp)⟩

/-- A session inserted under an id that begins as a token's key does: once it has lapsed, a token's
key is in its place in the set, and the sign-out stops there, before a session that stands. -/
theorem signedOut_token : ∃ fields,
    (findSession (js "janus:") (js "b") (SessionCall.step (js "janus:")
      ([SessionCall.insert (js "token:x") (js "a") (js "ada") 0 10 none 0,
        .insert (js "s1") (js "b") (js "ada") 0 90 none 0, .pass 20,
        .insert (js "s2") (js "x") (js "bob") 20 90 none 20].foldl
          (SessionCall.step (js "janus:")) (Db.empty 0)) (.revokeUser (js "ada") 20 none))).1 =
        .ok (some (js "s1", fields)) ∧
      Insertion.get fields (js "userId") = some (js "ada") ∧
      Insertion.get fields (js "revokedAt") = some [] :=
  ⟨_, rfl, rfl, rfl⟩

end Janus.Redis
