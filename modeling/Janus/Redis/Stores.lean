import Janus.Machinery.Refinement
import Janus.Redis.TokenStore

/-!
# Redis/Stores — the two stores over one prefix

    calls of either ──▸ scripts over one keyspace ──▸ replies, decoded
           └─────────▸ records in memory, collected as time passes

Neither store writes a key of the other's (`only_sessionStore`, `only_tokenStore`).  So the two over
one prefix answer as the two in memory, whatever is asked of either and for however long
(`stores_refine`).
-/

namespace Janus.Redis

open Js Keyspace Auth Refinement

variable {p : Str}

/-! ## Whose keys are written -/

/-- A key of the session store. -/
def IsSession (p k : Str) : Prop := (∃ id, k = sessionKey p id) ∨ ∃ userId, k = sessionsKey p userId

/-- A key of the token store. -/
def IsToken (p k : Str) : Prop :=
  (∃ tokenHash, k = tokenKey p tokenHash) ∨ ∃ userId, k = tokensKey p userId

theorem isSession_key (p id : Str) : IsSession p (sessionKey p id) := Or.inl ⟨id, rfl⟩

theorem isSession_token (p tokenHash : Str) : IsSession p (sessionTokenKey p tokenHash) :=
  Or.inl ⟨_, sessionTokenKey_eq⟩

theorem isSession_set (p userId : Str) : IsSession p (sessionsKey p userId) := Or.inr ⟨userId, rfl⟩

theorem isToken_key (p tokenHash : Str) : IsToken p (tokenKey p tokenHash) := Or.inl ⟨_, rfl⟩

theorem isToken_set (p userId : Str) : IsToken p (tokensKey p userId) := Or.inr ⟨userId, rfl⟩

/-- **No key is both stores'.** -/
theorem IsToken.not_isSession {k : Str} (h : IsToken p k) : ¬IsSession p k := by
  rintro (⟨id, rfl⟩ | ⟨userId, rfl⟩) <;> obtain ⟨tokenHash, heq⟩ | ⟨userId', heq⟩ := h
  · exact tokenKey_ne_sessionKey heq.symm
  · exact tokensKey_ne_sessionKey heq.symm
  · exact tokenKey_ne_sessionsKey heq.symm
  · exact tokensKey_ne_sessionsKey heq.symm

section Scripts

variable {K : Str → Prop} {k id tokenHash userId at_ : Str}

theorem only_extendSet {last : ℤ} (hk : K k) : Only K (extendSet k last) := by
  refine .bind only_pttl fun _ => ?_
  split
  · exact only_pexpireat hk
  · exact only_pexpireatGt hk

theorem only_prune {q : Str} (hk : K k) : Only K (prune k q) := by
  refine .bind only_smembers fun members => .foldlM (fun _ _ => ?_) members ()
  refine .bind only_existsKey fun _ => ?_
  split
  · exact only_srem hk
  · exact .pure

theorem only_session : Only K (session k id) := by
  refine .bind only_hgetall fun _ => ?_
  split <;> exact .pure

theorem only_concatenated {value : Option Str} : Only K (concatenated value) := by
  cases value with
  | none => exact .fault
  | some value => exact .pure

end Scripts

/-! ### Sessions -/

section Sessions

variable {id tokenHash userId at_ except : Str}

theorem only_insertSession {authenticatedAt revokedAt createdAt : Str} {expiresAt : ℤ} :
    Only (IsSession p) (insertSession p id tokenHash userId authenticatedAt expiresAt revokedAt
      createdAt) := by
  refine .bind only_existsKey fun _ => ?_
  split
  · exact .pure
  · refine .bind only_get fun _ => ?_
    split
    · exact .fault
    · exact .bind (only_hset (isSession_key p id)) fun _ =>
        .bind (only_pexpireat (isSession_key p id)) fun _ =>
        .bind (only_setPxat (isSession_token p tokenHash)) fun _ =>
        .bind (only_prune (isSession_set p userId)) fun _ =>
        .bind (only_sadd (isSession_set p userId)) fun _ =>
        .bind (only_extendSet (isSession_set p userId)) fun _ => .pure

theorem only_findSession : Only (IsSession p) (findSession p tokenHash) := by
  refine .bind only_get fun found => ?_
  cases found with
  | none => exact .pure
  | some id => exact only_session

theorem only_extendSession {expiresAt : ℤ} :
    Only (IsSession p) (extendSession p id expiresAt) := by
  refine .bind only_existsKey fun _ => ?_
  split
  · exact .pure
  · refine .bind only_hget fun _ => ?_
    split
    · exact .pure
    · exact .bind (only_hset (isSession_key p id)) fun _ => .bind only_session fun _ =>
        .bind only_hget fun _ => .bind only_hget fun _ =>
        .bind (only_pexpireat (isSession_key p id)) fun _ =>
        .bind only_concatenated fun tokenHash =>
        .bind (only_pexpireat (isSession_token p tokenHash)) fun _ =>
        .bind only_concatenated fun userId =>
        .bind (only_extendSet (isSession_set p userId)) fun _ => .pure

theorem only_reauthenticateSession : Only (IsSession p) (reauthenticateSession p id at_) := by
  refine .bind only_existsKey fun _ => ?_
  split
  · exact .pure
  · refine .bind only_hget fun _ => ?_
    split
    · exact .pure
    · exact .bind (only_hset (isSession_key p id)) fun _ => only_session

theorem only_revokeSession : Only (IsSession p) (revokeSession p id at_) := by
  refine .bind only_existsKey fun _ => ?_
  split
  · exact .pure
  · refine .bind only_hget fun _ => ?_
    dsimp only
    split
    · exact .bind (only_hset (isSession_key p id)) fun _ => .pure
    · exact .pure

theorem only_revokeUserSessions :
    Only (IsSession p) (revokeUserSessions p userId at_ except) := by
  refine .bind only_smembers fun members => .foldlM (fun _ id => ?_) members 0
  refine .bind only_existsKey fun _ => ?_
  split
  · exact .bind (only_srem (isSession_set p userId)) fun _ => .pure
  · split
    · exact .pure
    · refine .bind only_hget fun _ => ?_
      split
      · exact .bind (only_hset (isSession_key p id)) fun _ => .pure
      · exact .pure

theorem only_deleteUserSessions : Only (IsSession p) (deleteUserSessions p userId) := by
  refine .bind only_smembers fun members => .bind (.foldlM (fun _ id => ?_) members 0) fun _ =>
    .bind (only_del (isSession_set p userId)) fun _ => .pure
  refine .bind only_hget fun found => ?_
  cases found with
  | none => exact .pure
  | some tokenHash =>
    refine .bind only_get fun _ => ?_
    dsimp only
    split
    · exact .bind (only_del (isSession_token p tokenHash)) fun _ =>
        .bind (only_del (isSession_key p id)) fun _ => .pure
    · exact .bind (only_del (isSession_key p id)) fun _ => .pure

theorem serve_only {K : Str → Prop} {α β : Type} {slot operation : Str} {script : Script Str α}
    {decode : α → Call → Except StoreFailure β} (h : Only K script) (db : Db Str) :
    (serve slot operation script decode db).2.now = db.now ∧
      ∀ k, ¬K k → (serve slot operation script decode db).2.keys k = db.keys k := by
  have hsame : (serve slot operation script decode db).2 = (script db).2 := by
    rw [serve]
    split <;> rename_i hrun <;> rw [hrun]
  rw [hsame]
  exact h db

/-- **The session store writes its own keys only.** -/
theorem only_sessionStore (otherwise : Str → Option Time) (db : Db Str) (request : SessionRequest)
    {k : Str} (hk : ¬IsSession p k) : (sessionStore otherwise p db request).2.keys k = db.keys k := by
  cases request with
  | insertSession record => exact (serve_only only_insertSession db).2 k hk
  | findSessionByTokenHash tokenHash => exact (serve_only only_findSession db).2 k hk
  | extendSession id expiresAt => exact (serve_only only_extendSession db).2 k hk
  | reauthenticateSession id at_ => exact (serve_only only_reauthenticateSession db).2 k hk
  | revokeSession id at_ => exact (serve_only only_revokeSession db).2 k hk
  | revokeUserSessions userId at_ except => exact (serve_only only_revokeUserSessions db).2 k hk
  | deleteUserSessions userId => exact (serve_only only_deleteUserSessions db).2 k hk

end Sessions

/-! ### Tokens -/

section Tokens

variable {tokenHash kind userId at_ except : Str}

theorem only_hincrby {K : Str → Prop} {k field : Str} (hk : K k) : Only K (hincrby k field) := by
  refine .bind only_hget fun value => ?_
  split
  · exact .fault
  · split
    · exact only_hset hk
    · exact .fault

theorem only_insertToken {address spentAt createdAt codeHash attempts : Str} {expiresAt : ℤ} :
    Only (IsToken p) (insertToken p tokenHash kind userId address expiresAt spentAt createdAt
      codeHash attempts) := by
  refine .bind only_existsKey fun _ => ?_
  split
  · exact .pure
  · exact .bind (only_hset (isToken_key p tokenHash)) fun _ =>
      .bind (only_pexpireat (isToken_key p tokenHash)) fun _ =>
      .bind (only_prune (isToken_set p userId)) fun _ =>
      .bind (only_sadd (isToken_set p userId)) fun _ =>
      .bind (only_extendSet (isToken_set p userId)) fun _ => .pure

theorem only_consumeToken : Only (IsToken p) (consumeToken p tokenHash kind at_) := by
  refine .bind only_hget fun _ => ?_
  split
  · exact .pure
  · refine .bind only_hgetall fun before => .bind only_hget fun _ => ?_
    dsimp only
    split
    · exact .bind (only_hset (isToken_key p tokenHash)) fun _ => .pure
    · exact .pure

theorem only_countAttempt : Only (IsToken p) (countAttempt p tokenHash kind) := by
  refine .bind only_hget fun _ => ?_
  split
  · exact .pure
  · refine .bind only_hget fun _ => ?_
    dsimp only
    split
    · exact .bind (only_hincrby (isToken_key p tokenHash)) fun _ => only_hgetall.map
    · exact only_hgetall.map

theorem only_spendUserTokens : Only (IsToken p) (spendUserTokens p userId kind at_ except) := by
  refine .bind only_smembers fun members => .foldlM (fun _ tokenHash => ?_) members 0
  rw [spendMember]
  split
  · exact .pure
  · refine .bind only_hget fun _ => ?_
    split
    · exact .pure
    · refine .bind only_hget fun _ => ?_
      split
      · exact .bind (only_hset (isToken_key p tokenHash)) fun _ => .pure
      · exact .pure

theorem only_deleteUserTokens : Only (IsToken p) (deleteUserTokens p userId) :=
  .bind only_smembers fun members => .bind (.foldlM (fun _ tokenHash =>
    .bind (only_del (isToken_key p tokenHash)) fun _ => .pure) members 0) fun _ =>
    .bind (only_del (isToken_set p userId)) fun _ => .pure

/-- **…and so does the token store.** -/
theorem only_tokenStore (otherwise : Str → Option Time) (db : Db Str) (request : TokenRequest)
    {k : Str} (hk : ¬IsToken p k) : (tokenStore otherwise p db request).2.keys k = db.keys k := by
  cases request with
  | insertToken record => exact (serve_only only_insertToken db).2 k hk
  | consumeToken tokenHash kind at_ => exact (serve_only only_consumeToken db).2 k hk
  | countAttempt tokenHash kind => exact (serve_only only_countAttempt db).2 k hk
  | spendUserTokens userId kind at_ except => exact (serve_only only_spendUserTokens db).2 k hk
  | deleteUserTokens userId => exact (serve_only only_deleteUserTokens db).2 k hk

end Tokens

/-! ## The two together -/

/-- A call of either store, or some time passing: a millisecond, and so many more. -/
inductive StoreRequest where
  | sessions (request : SessionRequest)
  | tokens (request : TokenRequest)
  | pass (elapsed : ℕ)

inductive StoreReply where
  | sessions (reply : Except StoreFailure SessionReply)
  | tokens (reply : Except StoreFailure TokenReply)
  | passed

/-- Both stores, over one Redis and one prefix. -/
def redisStores (otherwise : Str → Option Time) (p : Str) (db : Db Str) :
    StoreRequest → StoreReply × Db Str
  | .sessions request =>
    let (reply, db) := sessionStore otherwise p db request
    (.sessions reply, db)
  | .tokens request =>
    let (reply, db) := tokenStore otherwise p db request
    (.tokens reply, db)
  | .pass elapsed => (.passed, db.tick (elapsed + 1))

/-- What both stores hold in memory, and the time. -/
structure Memory where
  now : Time
  sessions : SessionIndex
  tokens : List (Str × TokenRecord)

/-- Both stores in memory: as time passes, what expired is collected. -/
def memoryStores (memory : Memory) : StoreRequest → StoreReply × Memory
  | .sessions request =>
    let (reply, sessions) := memorySessionStore memory.sessions request
    (.sessions reply, { memory with sessions })
  | .tokens request =>
    let (reply, tokens) := memoryTokenStore memory.tokens request
    (.tokens reply, { memory with tokens })
  | .pass elapsed =>
    (.passed, ⟨memory.now + elapsed + 1,
      (memory.sessions.deleteExpiredSessions (memory.now + elapsed)).2,
      (deleteExpiredTokens memory.tokens (memory.now + elapsed)).2⟩)

/-- What callers of either store keep to. -/
def StoreRequest.Fits (userOf idOf ownerOf : Str → Str) (memory : Memory) : StoreRequest → Prop
  | .sessions request => request.Fits userOf idOf memory.now
  | .tokens request => request.Fits ownerOf memory.now memory.tokens
  | .pass _ => True

section Refines

variable {otherwise : Str → Option Time} {userOf idOf ownerOf : Str → Str} {db db' : Db Str}
  {memory : Memory} {index : SessionIndex} {live : Str → Option SessionRecord} {now : Time}

/-- Keys of other stores may change. -/
theorem Same.framed (h : Same p userOf idOf db index live) (hnow : db'.now = db.now)
    (hkeys : ∀ k, IsSession p k → db'.keys k = db.keys k) : Same p userOf idOf db' index live where
  serves := {
    indexed := {
      clock := hnow.symm ▸ h.serves.indexed.clock
      standing := fun id e hne hid hkey => by
        rw [hkeys _ (isSession_key p id)] at hkey
        obtain ⟨fields, last, rfl, held⟩ := h.serves.indexed.standing id e hne hid hkey
        refine ⟨fields, last, rfl, held.map fun held => { held with named := ?_, listed := ?_ }⟩
        · rw [hkeys _ (isSession_token p _)]
          exact held.named
        · rw [hkeys _ (isSession_set p _)]
          exact held.listed
      blank := (hkeys _ (isSession_key p [])).trans h.serves.indexed.blank
      token := fun tokenHash e hkey => h.serves.indexed.token tokenHash e
        ((hkeys _ (isSession_token p tokenHash)).symm.trans hkey)
      user := fun userId => by
        rw [hnow, hkeys _ (isSession_set p userId)]
        exact h.serves.indexed.user userId }
    hash := fun id hid => (hkeys _ (isSession_key p id)).trans (h.serves.hash id hid)
    minted := h.serves.minted
    kept := fun id record hlive => hnow ▸ h.serves.kept id record hlive
    token := fun tokenHash e hkey => h.serves.token tokenHash e
      ((hkeys _ (isSession_token p tokenHash)).symm.trans hkey)
    own := fun userId => by
      rw [hkeys _ (isSession_set p userId)]
      exact h.serves.own userId }
  remembers := h.remembers
  own := h.own

/-- The two hold the same, at the same time. -/
structure SameStores (p : Str) (userOf idOf ownerOf : Str → Str) (db : Db Str) (memory : Memory) :
    Prop where
  clock : db.now = memory.now
  sessions : ∃ live, Same p userOf idOf db memory.sessions live
  tokens : SameTokens p ownerOf db memory.tokens

theorem SameStores.session (h : SameStores p userOf idOf ownerOf db memory)
    {request : SessionRequest} (hfits : request.Fits userOf idOf memory.now) :
    let redis := redisStores otherwise p db (.sessions request)
    let left := memoryStores memory (.sessions request)
    redis.1 = left.1 ∧ SameStores p userOf idOf ownerOf redis.2 left.2 := by
  obtain ⟨live, hsame⟩ := h.sessions
  obtain ⟨hreply, hnow, hsame'⟩ := hsame.step otherwise h.clock hfits
  refine ⟨congrArg StoreReply.sessions hreply, hnow.trans h.clock, hsame',
    h.tokens.keeps.framed hnow (fun tokenHash => ?_) fun userId => ?_, h.tokens.nodup⟩
  · exact only_sessionStore otherwise db request (isToken_key p tokenHash).not_isSession
  · exact only_sessionStore otherwise db request (isToken_set p userId).not_isSession

theorem SameStores.token (h : SameStores p userOf idOf ownerOf db memory)
    {request : TokenRequest} (hfits : request.Fits ownerOf memory.now memory.tokens) :
    let redis := redisStores otherwise p db (.tokens request)
    let left := memoryStores memory (.tokens request)
    redis.1 = left.1 ∧ SameStores p userOf idOf ownerOf redis.2 left.2 := by
  obtain ⟨live, hsame⟩ := h.sessions
  obtain ⟨hreply, hnow, hsame'⟩ := h.tokens.step otherwise h.clock hfits
  refine ⟨congrArg StoreReply.tokens hreply, hnow.trans h.clock,
    ⟨live, hsame.framed hnow fun k hk => ?_⟩, hsame'⟩
  exact only_tokenStore otherwise db request fun htoken => htoken.not_isSession hk

theorem SameStores.pass (h : SameStores p userOf idOf ownerOf db memory) (elapsed : ℕ) :
    SameStores p userOf idOf ownerOf (db.tick (elapsed + 1))
      (memoryStores memory (.pass elapsed)).2 where
  clock := by
    change db.now + (elapsed + 1 : ℕ) = ((memory.now + elapsed + 1 : ℕ) : ℤ)
    rw [h.clock]
    push_cast
    omega
  sessions := by
    obtain ⟨live, hsame⟩ := h.sessions
    exact hsame.pass h.clock elapsed
  tokens := h.tokens.pass h.clock elapsed

variable (p otherwise userOf idOf ownerOf) in
/-- **One call of either, or some time**: the two answer alike, and hold the same after it. -/
theorem stores_step : Refines (SameStores p userOf idOf ownerOf)
    (StoreRequest.Fits userOf idOf ownerOf) (redisStores otherwise p) memoryStores := by
  intro db memory request h hfits
  cases request with
  | sessions request => exact h.session hfits
  | tokens request => exact h.token hfits
  | pass elapsed => exact ⟨rfl, h.pass elapsed⟩

/-- **Both stores over one Redis answer as both in memory, collected as time passes**, whatever is
asked of either and for however long, and what they hold is what memory does. -/
theorem stores_refine (hempty : ∀ k, db.keys k = none) (hclock : db.now = now)
    {requests : List StoreRequest}
    (hfit : Fit (StoreRequest.Fits userOf idOf ownerOf) memoryStores ⟨now, ⟨[], []⟩, []⟩ requests) :
    let redis := run (redisStores otherwise p) db requests
    let memory := run memoryStores ⟨now, ⟨[], []⟩, []⟩ requests
    redis.1 = memory.1 ∧
      (∀ id, Minted id → redis.2.keys (sessionKey p id) =
        (Insertion.get memory.2.sessions.byId id).map sessionEntry) ∧
      ∀ tokenHash, redis.2.keys (tokenKey p tokenHash) =
        (Insertion.get memory.2.tokens tokenHash).map tokenEntry := by
  have hstart : SameStores p userOf idOf ownerOf db ⟨now, ⟨[], []⟩, []⟩ :=
    ⟨hclock, ⟨fun _ => none, .empty hempty (hclock ▸ Int.natCast_nonneg now), .empty, by simp⟩,
      .empty hempty, List.nodup_nil⟩
  obtain ⟨hanswers, hlast⟩ := (stores_step p otherwise userOf idOf ownerOf).run hstart hfit
  obtain ⟨live, hsame⟩ := hlast.sessions
  exact ⟨hanswers, fun id hid => (hsame.serves.hash id hid).trans (by rw [hsame.remembers.byId]),
    hlast.tokens.keeps.hash⟩

/-- A sign-in by reset link: the link is spent, everything but one session is signed out, and what
lapses is gone from both. -/
theorem stores_refine_ada :
    let ada : SessionRecord := ⟨js "s1", js "a", js "ada", 0, 10, none, 0⟩
    let link : TokenRecord := ⟨js "t1", .resetPassword, js "ada", js "ada@clinic.test", none, 0, 60,
      none, 0⟩
    (run (redisStores (fun _ => none) (js "janus:")) (Db.empty 0)
      [.sessions (.insertSession ada),
        .sessions (.insertSession ⟨js "s2", js "b", js "ada", 0, 20, none, 0⟩),
        .tokens (.insertToken link), .sessions (.extendSession (js "s1") 90),
        .tokens (.countAttempt (js "t1") .resetPassword), .pass 49,
        .tokens (.consumeToken (js "t1") .resetPassword 50),
        .sessions (.revokeUserSessions (js "ada") 50 (some (js "s1"))),
        .tokens (.spendUserTokens (js "ada") .resetPassword 50 none), .pass 19,
        .tokens (.consumeToken (js "t1") .resetPassword 70),
        .sessions (.findSessionByTokenHash (js "a"))]).1 =
      [.sessions (.ok .nothing), .sessions (.ok .nothing), .tokens (.ok .nothing),
        .sessions (.ok (.session (some { ada with expiresAt := 90 }))),
        .tokens (.ok (.token (some { link with attempts := 1 }))), .passed,
        .tokens (.ok (.token (some { link with attempts := 1 }))), .sessions (.ok (.count 0)),
        .tokens (.ok (.count 0)), .passed, .tokens (.ok (.token none)),
        .sessions (.ok (.session (some { ada with expiresAt := 90 })))] := by
  have hminted : ∀ rest, Minted (115 :: rest) := fun rest =>
    ⟨List.cons_ne_nil _ _, fun tokenHash heq =>
      absurd (show (115 : CodeUnit) = 116 from List.head_eq_of_cons_eq heq) (by decide)⟩
  have hdated : ∀ (id tokenHash userId : Str) (expiresAt : Time), expiresAt ≤ lastMoment →
      Dated ⟨id, tokenHash, userId, 0, expiresAt, none, 0⟩ := fun _ _ _ _ hlast =>
    ⟨Nat.zero_le _, hlast, by simp, Nat.zero_le _⟩
  have hwritten : Written ⟨js "t1", .resetPassword, js "ada", js "ada@clinic.test", none, 0, 60,
      none, 0⟩ := ⟨by simp, Nat.zero_le _, by decide, by simp, Nat.zero_le _⟩
  have hbelow : ∀ record, some (⟨js "t1", .resetPassword, js "ada", js "ada@clinic.test", none, 0,
      60, none, 0⟩ : TokenRecord) = some record → record.attempts < maxSafeInteger := by
    rintro _ ⟨⟩
    decide
  have hfit : Fit (StoreRequest.Fits (fun _ => js "ada")
      (fun h => if h = js "a" then js "s1" else js "s2") fun _ => js "ada") memoryStores
      ⟨0, ⟨[], []⟩, []⟩ [.sessions (.insertSession ⟨js "s1", js "a", js "ada", 0, 10, none, 0⟩),
        .sessions (.insertSession ⟨js "s2", js "b", js "ada", 0, 20, none, 0⟩),
        .tokens (.insertToken ⟨js "t1", .resetPassword, js "ada", js "ada@clinic.test", none, 0, 60,
          none, 0⟩), .sessions (.extendSession (js "s1") 90),
        .tokens (.countAttempt (js "t1") .resetPassword), .pass 49,
        .tokens (.consumeToken (js "t1") .resetPassword 50),
        .sessions (.revokeUserSessions (js "ada") 50 (some (js "s1"))),
        .tokens (.spendUserTokens (js "ada") .resetPassword 50 none), .pass 19,
        .tokens (.consumeToken (js "t1") .resetPassword 70),
        .sessions (.findSessionByTokenHash (js "a"))] :=
    ⟨⟨hminted _, hdated _ _ _ _ (by decide), rfl, rfl, Nat.zero_lt_succ _⟩,
      ⟨hminted _, hdated _ _ _ _ (by decide), rfl, rfl, Nat.zero_lt_succ _⟩,
      ⟨hwritten, List.cons_ne_nil _ _, rfl, Nat.zero_lt_succ _⟩,
      ⟨hminted _, Nat.zero_lt_succ _, by decide⟩, hbelow, trivial,
      show 50 ≤ lastMoment by decide, show 50 ≤ lastMoment by decide,
      show 50 ≤ lastMoment by decide, trivial, show 70 ≤ lastMoment by decide, trivial, trivial⟩
  exact (stores_refine (fun _ => rfl) rfl hfit).1

end Refines

end Janus.Redis
