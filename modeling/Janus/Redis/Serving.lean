import Janus.Auth.Indexes
import Janus.Redis.Replies
import Janus.Redis.SignedOut

/-!
# Redis/Serving — the session store over scripts is the one in memory

    calls ──▸ scripts over a keyspace ──▸ replies, decoded
      └─────▸ records in memory, collected as time passes

A keyspace serves the sessions that live: each one's hash and token's key are exactly its record,
and expire when it does (`Serves`).  Every script keeps that, and answers what memory answers; what
lapses, Redis drops where memory collects it.
-/

namespace Janus.Redis

open Js Keyspace Auth

variable {p : Str} {userOf : Str → Str} {db db' : Db Str} {live : Str → Option SessionRecord}

/-- A session as Redis keeps it. -/
def sessionEntry (record : SessionRecord) : Entry Str :=
  ⟨.hash (sessionHash record), some record.expiresAt⟩

/-- What a user's set lists is that user's, each once. -/
def Lists.Own (userOf : Str → Str) (userId : Str) (e : Option (Entry Str)) : Prop :=
  ∀ members until_, e = some ⟨.set members, until_⟩ →
    members.Nodup ∧ ∀ id ∈ members, userOf id = userId

/-- A keyspace that holds these sessions, and no other. -/
structure Serves (p : Str) (userOf : Str → Str) (db : Db Str)
    (live : Str → Option SessionRecord) : Prop where
  indexed : Indexed p db none
  hash : ∀ id, Minted id → db.keys (sessionKey p id) = (live id).map sessionEntry
  minted : ∀ id record, live id = some record → Minted id ∧ record.id = id
  kept : ∀ id record, live id = some record → Dated record ∧ record.userId = userOf id ∧
    db.now ≤ record.expiresAt
  token : ∀ tokenHash e, db.keys (sessionTokenKey p tokenHash) = some e →
    ∃ id record, live id = some record ∧ record.tokenHash = tokenHash ∧
      e = ⟨.text id, some record.expiresAt⟩
  own : ∀ userId, Lists.Own userOf userId (db.keys (sessionsKey p userId))

/-! ## What a set lists -/

section Sets

variable {k member : Str} {at_ : ℤ}

/-- A set that lists no more than it did. -/
def Thins (e e' : Option (Entry Str)) : Prop :=
  ∀ members' until', e' = some ⟨.set members', until'⟩ →
    ∃ members until_, e = some ⟨.set members, until_⟩ ∧ members'.Sublist members

theorem Thins.refl {e : Option (Entry Str)} : Thins e e :=
  fun members until_ h => ⟨members, until_, h, List.Sublist.refl _⟩

theorem Thins.trans {e e' e'' : Option (Entry Str)} (h : Thins e e') (h' : Thins e' e'') :
    Thins e e'' := by
  intro members'' until'' heq
  obtain ⟨members', until', heq', hsub'⟩ := h' members'' until'' heq
  obtain ⟨members, until_, heq, hsub⟩ := h members' until' heq'
  exact ⟨members, until_, heq, hsub'.trans hsub⟩

theorem Thins.own {e e' : Option (Entry Str)} {userId : Str} (h : Thins e e')
    (hown : Lists.Own userOf userId e) : Lists.Own userOf userId e' := by
  intro members' until' heq
  obtain ⟨members, until_, heq, hsub⟩ := h members' until' heq
  obtain ⟨hnodup, hmembers⟩ := hown members until_ heq
  exact ⟨hnodup.sublist hsub, fun id hid => hmembers id (hsub.subset hid)⟩

theorem srem_thins : After (srem k member) db (fun _ db' => Away k db db' ∧
    Thins (db.keys k) (db'.keys k)) fun _ _ => True := by
  cases hkey : db.keys k with
  | none => exact .of_run (srem_none hkey) ⟨.refl, hkey ▸ .refl⟩
  | some e =>
    obtain ⟨value, until_⟩ := e
    cases value with
    | set members =>
      refine .of_run (srem_set hkey) ⟨put_away, fun members' until' heq => ?_⟩
      rw [put_keys, if_pos rfl, setEntry] at heq
      split at heq
      case isTrue => cases heq
      case isFalse =>
        cases heq
        exact ⟨members, _, rfl, List.filter_sublist⟩
    | text value =>
      have hrun : srem k member db = (.error .wrongType, db) := by rw [srem, hkey]
      rw [After, hrun]
      trivial
    | hash fields =>
      have hrun : srem k member db = (.error .wrongType, db) := by rw [srem, hkey]
      rw [After, hrun]
      trivial

theorem prune_thins {prefix_ : Str} : After (prune k prefix_) db (fun _ db' => Away k db db' ∧
    Thins (db.keys k) (db'.keys k)) fun _ _ => True := by
  have hloop : ∀ members : List Str, After (members.foldlM (fun _ member => do
      if !(← existsKey (prefix_ ++ member)) then srem k member) ()) db
      (fun _ db' => Away k db db' ∧ Thins (db.keys k) (db'.keys k)) fun _ _ => True := by
    intro members
    refine After.foldlM (P := fun _ _ db' => Away k db db' ∧ Thins (db.keys k) (db'.keys k))
      ⟨.refl, .refl⟩ ?_
    rintro done member - db' - ⟨haway, hthins⟩
    refine .next existsKey_run ?_
    split
    · exact srem_thins.mono (fun _ _ h => ⟨haway.trans h.1, hthins.trans h.2⟩) fun _ _ h => h
    · exact .pure ⟨haway, hthins⟩
  rw [prune]
  cases hrun : smembers k db with
  | mk result db' =>
    have hsame : db' = db := by
      rw [smembers] at hrun
      split at hrun <;> cases hrun <;> rfl
    subst hsame
    cases result with
    | ok members => exact .next hrun (hloop members)
    | error e => exact .stop hrun trivial

theorem extendSet_thins : After (extendSet k at_) db (fun _ db' => Away k db db' ∧
    Thins (db.keys k) (db'.keys k)) fun _ _ => True := by
  have hexpire : ∀ {e : Keyspace.Entry Str}, db.keys k = some e →
      Thins (some e) (Keyspace.Entry.until e at_ db.now) := by
    rintro ⟨value, until_⟩ - members' until' heq
    rw [Keyspace.Entry.until] at heq
    split at heq
    · cases heq
    · cases heq
      exact ⟨_, _, rfl, List.Sublist.refl _⟩
  cases hkey : db.keys k with
  | none =>
    have hrun : extendSet k at_ db = (.ok (), db) := by
      rw [extendSet, bind_ok (by rw [pttl, hkey]), if_pos (by decide), pexpireat, hkey]
    exact .of_run hrun ⟨.refl, hkey ▸ .refl⟩
  | some e =>
    obtain ⟨value, until_⟩ := e
    cases until_ with
    | none =>
      refine .next (pttl_lasting hkey) (.of_run (pexpireat_some hkey) ⟨put_away, ?_⟩)
      rw [put_keys, if_pos rfl]
      exact hexpire hkey
    | some old =>
      refine .next (pttl_some hkey) ?_
      split
      · refine .of_run (pexpireat_some hkey) ⟨put_away, ?_⟩
        rw [put_keys, if_pos rfl]
        exact hexpire hkey
      · by_cases hlater : old < at_
        · refine .of_run ((pexpireatGt_some hkey).trans (if_pos hlater)) ⟨put_away, ?_⟩
          rw [put_keys, if_pos rfl]
          exact hexpire hkey
        · exact .of_run ((pexpireatGt_some hkey).trans (if_neg hlater)) ⟨.refl, hkey ▸ .refl⟩

/-- A session added to its own user's set. -/
theorem enlist_own (userOf : Str → Str) (userId id : Str) : After (do sadd k id; extendSet k at_) db
    (fun _ db' => Lists.Own userOf userId (db.keys k) → userOf id = userId →
      Lists.Own userOf userId (db'.keys k)) fun _ _ => True := by
  have hadd : After (sadd k id) db (fun _ db' => Lists.Own userOf userId (db.keys k) →
      userOf id = userId → Lists.Own userOf userId (db'.keys k)) fun _ _ => True := by
    cases hkey : db.keys k with
    | none =>
      refine .of_run (sadd_none hkey) fun _ hid members until_ heq => ?_
      rw [put_keys, if_pos rfl] at heq
      cases heq
      exact ⟨List.nodup_singleton _, fun id' hmem => List.mem_singleton.mp hmem ▸ hid⟩
    | some e =>
      obtain ⟨value, until_⟩ := e
      cases value with
      | set members =>
        refine .of_run (sadd_set hkey) fun hown hid members' until' heq => ?_
        rw [put_keys, if_pos rfl] at heq
        cases heq
        obtain ⟨hnodup, hmembers⟩ := hown members _ rfl
        refine ⟨Insertion.nodup_add hnodup, fun id' hmem => ?_⟩
        obtain hmem | rfl := Insertion.mem_add.mp hmem
        · exact hmembers id' hmem
        · exact hid
      | text value =>
        have hrun : sadd k id db = (.error .wrongType, db) := by rw [sadd, hkey]
        rw [After, hrun]
        trivial
      | hash fields =>
        have hrun : sadd k id db = (.error .wrongType, db) := by rw [sadd, hkey]
        rw [After, hrun]
        trivial
  refine .seq hadd fun _ db₁ hadded => extendSet_thins.mono (fun _ _ h hown hid => ?_)
    fun _ _ h => h
  exact h.2.own (hadded hown hid)

end Sets

/-! ## What serving says -/

namespace Serves

variable {id id' : Str} {record record' : SessionRecord}

theorem empty (hempty : ∀ k, db.keys k = none) (hclock : 0 ≤ db.now) :
    Serves p userOf db fun _ => none where
  indexed := Indexed.of_empty hempty hclock
  hash _ _ := hempty _
  minted _ _ h := nomatch h
  kept _ _ h := nomatch h
  token _ _ hkey := nomatch (hempty _).symm.trans hkey
  own _ _ _ hkey := nomatch (hempty _).symm.trans hkey

theorem key (h : Serves p userOf db live) (hlive : live id = some record) :
    db.keys (sessionKey p id) = some (sessionEntry record) := by
  rw [h.hash id (h.minted id record hlive).1, hlive, Option.map_some]

/-- A session that lives is named by its token's key, and listed in its user's set. -/
theorem held (h : Serves p userOf db live) (hlive : live id = some record) :
    db.keys (sessionTokenKey p record.tokenHash) = some ⟨.text id, some record.expiresAt⟩ ∧
      ∃ members until_, db.keys (sessionsKey p record.userId) = some ⟨.set members, some until_⟩ ∧
        id ∈ members := by
  obtain ⟨fields, last, heq, ⟨held⟩⟩ := h.indexed.standing id _ (Option.some_ne_none id)
    (h.minted id record hlive).1 (h.key hlive)
  obtain ⟨rfl, -⟩ : sessionHash record = fields ∧ _ := by simpa [sessionEntry] using heq
  obtain htoken : record.tokenHash = held.tokenHash := Option.some.inj held.tokenHash_eq
  obtain huser : record.userId = held.userId := Option.some.inj held.userId_eq
  obtain ⟨until_, hname, -⟩ := held.named
  obtain ⟨id', record', hlive', hhash, hentry⟩ := h.token _ _ hname
  obtain rfl : id = id' := by
    simp only [Keyspace.Entry.mk.injEq, Value.text.injEq] at hentry
    exact hentry.1
  cases hlive.symm.trans hlive'
  obtain ⟨members, until_, hset, hmem, -⟩ := held.listed
  exact ⟨by rw [htoken, hname, hentry], members, until_, by rw [huser, hset], hmem⟩

/-- Two sessions of one token hash are one. -/
theorem unique (h : Serves p userOf db live) (hlive : live id = some record)
    (hlive' : live id' = some record') (heq : record.tokenHash = record'.tokenHash) : id = id' := by
  have hname := (h.held hlive).1
  rw [heq, (h.held hlive').1] at hname
  simp only [Option.some.injEq, Keyspace.Entry.mk.injEq, Value.text.injEq] at hname
  exact hname.1.symm

/-- Who is listed is the user's, and who of the user lives is listed. -/
theorem members (h : Serves p userOf db live) (userId : Str) :
    ∃ members, smembers (sessionsKey p userId) db = (.ok members, db) ∧ members.Nodup ∧
      (∀ id ∈ members, Minted id ∧ userOf id = userId) ∧
      ∀ id record, live id = some record → record.userId = userId → id ∈ members := by
  cases hset : db.keys (sessionsKey p userId) with
  | none =>
    refine ⟨[], smembers_none hset, List.nodup_nil, nofun, fun id record hlive huser => ?_⟩
    obtain ⟨members, until_, hlisted, -⟩ := (h.held hlive).2
    rw [huser, hset] at hlisted
    cases hlisted
  | some e =>
    obtain ⟨members, until_, rfl, -, hminted⟩ := h.indexed.user userId e hset
    obtain ⟨hnodup, hown⟩ := h.own userId members _ hset
    refine ⟨_, smembers_set hset, (db.arranged members).nodup_iff.mpr hnodup, fun id hid => ?_,
      fun id record hlive huser => ?_⟩
    · have hid := mem_arrange.mp hid
      exact ⟨hminted id hid, hown id hid⟩
    · obtain ⟨members', until', hlisted, hmem⟩ := (h.held hlive).2
      rw [huser, hset] at hlisted
      cases hlisted
      exact mem_arrange.mpr hmem

/-- A record put in its place, under its token and in sets that are their users' own. -/
theorem placed (h : Serves p userOf db live) (hid : Minted record.id) (hdated : Dated record)
    (huser : record.userId = userOf record.id) (hlater : db.now ≤ record.expiresAt)
    (hsame : ∀ stored, live record.id = some stored → stored.tokenHash = record.tokenHash)
    (hindexed : Indexed p db' none) (hnow : db'.now = db.now)
    (hsession : ∀ id, Minted id → db'.keys (sessionKey p id) =
      if id = record.id then some (sessionEntry record) else db.keys (sessionKey p id))
    (htoken : ∀ tokenHash, db'.keys (sessionTokenKey p tokenHash) =
      if tokenHash = record.tokenHash then some ⟨.text record.id, some record.expiresAt⟩
      else db.keys (sessionTokenKey p tokenHash))
    (hown : ∀ userId, Lists.Own userOf userId (db'.keys (sessionsKey p userId))) :
    Serves p userOf db' (Function.update live record.id (some record)) where
  indexed := hindexed
  hash id hminted := by
    rw [hsession id hminted, Function.update_apply]
    split
    · rfl
    · exact h.hash id hminted
  minted id stored hlive := by
    rw [Function.update_apply] at hlive
    split at hlive
    case isTrue heq =>
      cases hlive
      exact ⟨heq ▸ hid, heq.symm⟩
    case isFalse => exact h.minted id stored hlive
  kept id stored hlive := by
    rw [Function.update_apply] at hlive
    rw [hnow]
    split at hlive
    case isTrue heq =>
      cases hlive
      exact ⟨hdated, heq ▸ huser, hlater⟩
    case isFalse => exact h.kept id stored hlive
  token tokenHash e hkey := by
    rw [htoken] at hkey
    split at hkey
    case isTrue heq =>
      cases hkey
      exact ⟨record.id, record, Function.update_self .., heq.symm, rfl⟩
    case isFalse hne =>
      obtain ⟨id, stored, hlive, hhash, rfl⟩ := h.token tokenHash e hkey
      refine ⟨id, stored, ?_, hhash, rfl⟩
      rw [Function.update_of_ne _ _ live]
      · exact hlive
      · rintro rfl
        exact hne (hhash.symm.trans (hsame stored hlive))
  own := hown

/-- A record rewritten where it is. -/
theorem write (h : Serves p userOf db live) (hlive : live id = some record)
    {written : SessionRecord} (hid : written.id = record.id)
    (htoken : written.tokenHash = record.tokenHash) (huser : written.userId = record.userId)
    (hexpires : written.expiresAt = record.expiresAt) (hdated : Dated written) :
    Serves p userOf (db.put (sessionKey p id) (some (sessionEntry written)))
      (Function.update live id (some written)) := by
  obtain ⟨hminted, rfl⟩ := h.minted id record hlive
  obtain ⟨-, hown, hlater⟩ := h.kept _ record hlive
  obtain ⟨hname, members, until_, hset, hmem⟩ := h.held hlive
  obtain ⟨_, _, heq, ⟨held⟩⟩ := h.indexed.standing _ _ (Option.some_ne_none _) hminted (h.key hlive)
  obtain ⟨rfl, rfl⟩ : sessionHash record = _ ∧ (record.expiresAt : ℤ) = _ := by
    simpa [sessionEntry] using heq
  rw [← hid] at hlive hminted hown ⊢
  refine h.placed hminted hdated (huser.trans hown) (hexpires ▸ hlater) ?_ ?_ rfl ?_ ?_ ?_
  · intro stored hstored
    cases hlive.symm.trans hstored
    exact htoken.symm
  · refine (h.indexed.weaken.put_session hminted _).settle fun e he => ?_
    rw [put_keys, if_pos rfl] at he
    cases he
    refine ⟨_, _, rfl, ⟨⟨written.tokenHash, written.userId, stampOf written.revokedAt, rfl, rfl, rfl,
      ?_, ?_⟩⟩⟩
    · rw [put_keys, if_neg hminted.ne_token, htoken, hexpires, hid]
      exact ⟨_, hname, le_rfl⟩
    · rw [put_keys, if_neg (by simp), huser, hexpires]
      obtain huserId : record.userId = held.userId := Option.some.inj held.userId_eq
      rw [hid, huserId]
      exact held.listed
  · intro id' hid'
    rw [put_keys]
    simp only [sessionKey_inj]
  · intro tokenHash
    rw [put_keys, if_neg hminted.ne_token]
    split
    case isTrue heq => rw [heq, htoken, hname, hid, hexpires]
    case isFalse => rfl
  · intro userId
    rw [put_keys, if_neg (by simp)]
    exact h.own userId

/-! ## What each script does -/

theorem session_eq {fields : List (Str × Str)} {last : Option ℤ} (hne : fields ≠ [])
    (hkey : db.keys (sessionKey p id) = some ⟨.hash fields, last⟩) :
    Redis.session (sessionKey p id) id db = (.ok (some (id, fields)), db) := by
  rw [Redis.session, bind_ok (hgetall_hash hkey), if_neg hne]
  rfl

/-- **A token's session is found.** -/
theorem findSession (h : Serves p userOf db live) {tokenHash : Str} {found : Option SessionRecord}
    (hfound : ∀ record, found = some record ↔
      ∃ id, live id = some record ∧ record.tokenHash = tokenHash) :
    Redis.findSession p tokenHash db =
      (.ok (found.map fun record => (record.id, sessionHash record)), db) := by
  cases hkey : db.keys (sessionTokenKey p tokenHash) with
  | none =>
    have hnone : found = none := by
      by_contra hsome
      obtain ⟨record, hrecord⟩ := Option.ne_none_iff_exists'.mp hsome
      obtain ⟨id, hlive, rfl⟩ := (hfound record).mp hrecord
      rw [(h.held hlive).1] at hkey
      cases hkey
    rw [Redis.findSession, bind_ok (get_none hkey), hnone]
    rfl
  | some e =>
    obtain ⟨id, record, hlive, hhash, rfl⟩ := h.token tokenHash e hkey
    rw [Redis.findSession, bind_ok (get_text hkey), (hfound record).mpr ⟨id, hlive, hhash⟩,
      Option.map_some, (h.minted id record hlive).2]
    exact session_eq (List.cons_ne_nil _ _) (h.key hlive)

/-- What a script reads first of a session: there is none, or its hash. -/
theorem cases_key (h : Serves p userOf db live) (hid : Minted id) :
    live id = none ∧ db.keys (sessionKey p id) = none ∨
      ∃ record, live id = some record ∧ record.id = id ∧
        db.keys (sessionKey p id) = some (sessionEntry record) := by
  rw [h.hash id hid]
  cases hlive : live id with
  | none => exact Or.inl ⟨rfl, rfl⟩
  | some record => exact Or.inr ⟨record, rfl, (h.minted id record hlive).2, rfl⟩

theorem revokedAt_eq (hkey : db.keys (sessionKey p id) = some (sessionEntry record)) :
    hget (sessionKey p id) (js "revokedAt") db = (.ok (some (stampOf record.revokedAt)), db) :=
  hget_hash hkey

/-- **A step-up moves the moment of a session that stands**, and answers it. -/
theorem reauthenticateSession (h : Serves p userOf db live) (hid : Minted id) {at_ : Time}
    (hat : at_ ≤ lastMoment) :
    After (Redis.reauthenticateSession p id (stamp at_)) db (fun reply db' =>
      let written := ((live id).filter fun stored => stored.revokedAt = none).map
        fun stored => { stored with authenticatedAt := at_ }
      reply = written.map (fun record => (record.id, sessionHash record)) ∧ db'.now = db.now ∧
        Serves p userOf db' (written.elim live fun record =>
          Function.update live id (some record))) fun _ _ => False := by
  refine .next existsKey_run ?_
  obtain ⟨hlive, hkey⟩ | ⟨record, hlive, rfl, hkey⟩ := h.cases_key hid
  · rw [hkey, hlive]
    exact .pure ⟨rfl, rfl, h⟩
  · rw [hkey, hlive]
    refine .next (revokedAt_eq hkey) ?_
    by_cases hstands : record.revokedAt = none
    · have hwritten : (some record).filter (fun stored => stored.revokedAt = none) =
          some record := by simp [hstands]
      rw [hwritten, hstands]
      refine .next (hset_hash hkey) ?_
      have hput : putAll (sessionHash record) [(js "authenticatedAt", stamp at_)] =
          sessionHash { record with authenticatedAt := at_ } := rfl
      obtain ⟨hdated, -⟩ := h.kept _ record hlive
      rw [hput]
      refine .of_run (session_eq (List.cons_ne_nil _ _) (put_keys.trans (if_pos rfl)))
        ⟨rfl, rfl, ?_⟩
      exact h.write hlive rfl rfl rfl rfl { hdated with authenticatedAt := hat }
    · have hwritten : (some record).filter (fun stored => stored.revokedAt = none) = none := by
        simp [hstands]
      rw [hwritten, if_pos (by simpa [stampOf_eq_nil] using hstands)]
      exact .pure ⟨rfl, rfl, h⟩

theorem revoked_of_none {at_ : Time} (h : record.revokedAt = none) :
    record.revoked at_ = { record with revokedAt := some at_ } := if_pos h

theorem revoked_of_ne {at_ : Time} (h : record.revokedAt ≠ none) : record.revoked at_ = record :=
  if_neg h

/-- A session revoked where it is. -/
theorem revoke (h : Serves p userOf db live) (hlive : live id = some record)
    (hstands : record.revokedAt = none) {at_ : Time} (hat : at_ ≤ lastMoment) :
    Serves p userOf (db.put (sessionKey p id)
        (some ⟨.hash (putAll (sessionHash record) [(js "revokedAt", stamp at_)]),
          some record.expiresAt⟩))
      (Function.update live id (some (record.revoked at_))) := by
  have hput : putAll (sessionHash record) [(js "revokedAt", stamp at_)] =
      sessionHash { record with revokedAt := some at_ } := rfl
  obtain ⟨hdated, -⟩ := h.kept _ record hlive
  rw [hput, revoked_of_none hstands]
  refine h.write hlive rfl rfl rfl rfl { hdated with revokedAt := ?_ }
  rintro _ ⟨⟩
  exact hat

/-- **A session revoked keeps its first moment.** -/
theorem revokeSession (h : Serves p userOf db live) (hid : Minted id) {at_ : Time}
    (hat : at_ ≤ lastMoment) :
    After (Redis.revokeSession p id (stamp at_)) db (fun reply db' =>
      (reply = 1 ↔ (live id).isSome) ∧ db'.now = db.now ∧
        Serves p userOf db' ((live id).elim live fun record =>
          Function.update live id (some (record.revoked at_)))) fun _ _ => False := by
  refine .next existsKey_run ?_
  obtain ⟨hlive, hkey⟩ | ⟨record, hlive, -, hkey⟩ := h.cases_key hid
  · rw [hkey, hlive]
    exact .pure ⟨by simp, rfl, h⟩
  · rw [hkey, hlive]
    refine .next (revokedAt_eq hkey) ?_
    by_cases hstands : record.revokedAt = none
    · rw [hstands]
      exact .next (hset_hash hkey) (.pure ⟨by simp, rfl, h.revoke hlive hstands hat⟩)
    · rw [if_neg (by simpa [stampOf_eq_nil] using hstands)]
      refine .pure ⟨by simp, rfl, ?_⟩
      rw [Option.elim_some, revoked_of_ne hstands, ← hlive, Function.update_eq_self]
      exact h

/-! ## The sessions of a user -/

/-- A set that lists less of what is gone. -/
theorem relisted {userId : Str} (h : Serves p userOf db live)
    (haway : Away (sessionsKey p userId) db db') (hindexed : Indexed p db' none)
    (hthins : Thins (db.keys (sessionsKey p userId)) (db'.keys (sessionsKey p userId))) :
    Serves p userOf db' live where
  indexed := hindexed
  hash id hid := (haway.2 _ sessionKey_ne_sessionsKey).trans (h.hash id hid)
  minted := h.minted
  kept id record hlive := haway.1 ▸ h.kept id record hlive
  token tokenHash e hkey :=
    h.token tokenHash e ((haway.2 _ sessionTokenKey_ne_sessionsKey).symm.trans hkey)
  own userId' := by
    by_cases hsame : userId' = userId
    · exact hsame ▸ hthins.own (h.own userId)
    · rw [haway.2 _ (by simpa using hsame)]
      exact h.own userId'

/-- Whether a sign-out revokes a session. -/
def due (live : Str → Option SessionRecord) (except id : Str) : Bool :=
  id ≠ except && (live id).any (·.revokedAt = none)

/-- What some members revoked leave. -/
def revokedOf (live : Str → Option SessionRecord) (at_ : Time) (except : Str) (done : List Str)
    (id : Str) : Option SessionRecord :=
  if id ∈ done ∧ id ≠ except then (live id).map (·.revoked at_) else live id

theorem revokeMember {userId except : Str} {at_ : Time} {done : List Str} {revoked : ℕ}
    (hat : at_ ≤ lastMoment) (hid : Minted id) (hnew : id ∉ done)
    (h : Serves p userOf db (revokedOf live at_ except done)) :
    After (Redis.revokeMember p userId (stamp at_) except revoked id) db (fun revoked' db' =>
      revoked' = revoked + (due live except id).toNat ∧ db'.now = db.now ∧
        Serves p userOf db' (revokedOf live at_ except (done ++ [id]))) fun _ _ => False := by
  have hhere : revokedOf live at_ except done id = live id :=
    if_neg fun hdone => hnew hdone.1
  have hother : ∀ live' : Str → Option SessionRecord,
      live' id = (if id ≠ except then (live id).map (·.revoked at_) else live id) →
      (∀ id' ≠ id, live' id' = revokedOf live at_ except done id') →
      live' = revokedOf live at_ except (done ++ [id]) := by
    intro live' hself hne
    funext id'
    by_cases hsame : id' = id
    · subst hsame
      rw [hself, revokedOf]
      simp
    · rw [hne id' hsame, revokedOf, revokedOf]
      simp [hsame]
  refine .next existsKey_run ?_
  obtain ⟨hlive, hkey⟩ | ⟨record, hlive, -, hkey⟩ := h.cases_key hid
  · rw [hhere] at hlive
    rw [hkey]
    refine .seq (((h.indexed.srem hkey (F := fun _ _ => False)).and srem_thins).mono
      (fun _ _ h => h) fun _ _ h => h.1) fun _ db' ⟨⟨hindexed, haway, _⟩, hthins⟩ => ?_
    refine .pure ⟨by simp [due, hlive], haway.1, ?_⟩
    rw [← hother (revokedOf live at_ except done) (by simp [hhere, hlive]) fun _ _ => rfl]
    exact h.relisted haway hindexed hthins.2
  · rw [hkey]
    change After (if id = except then _ else _) _ _ _
    by_cases hexcept : id = except
    · rw [if_pos hexcept]
      refine .pure ⟨by simp [due, hexcept], rfl, ?_⟩
      rw [← hother (revokedOf live at_ except done)
        (hhere.trans (if_neg (not_not_intro hexcept)).symm) fun _ _ => rfl]
      exact h
    · rw [if_neg hexcept]
      refine .next (revokedAt_eq hkey) ?_
      have hself : ∀ stored, record.revoked at_ = stored →
          some stored = if id ≠ except then (live id).map (·.revoked at_) else live id := by
        rintro _ rfl
        rw [if_pos hexcept, ← hhere, hlive, Option.map_some]
      by_cases hstands : record.revokedAt = none
      · rw [hstands]
        refine .next (hset_hash hkey) (.pure ⟨?_, rfl, ?_⟩)
        · rw [hhere] at hlive
          simp [due, hlive, hstands, hexcept]
        · rw [← hother (Function.update _ id (some (record.revoked at_)))
            ((Function.update_self ..).trans (hself _ rfl))
            fun _ hne => Function.update_of_ne hne ..]
          exact h.revoke hlive hstands hat
      · rw [if_neg (by simpa [stampOf_eq_nil] using hstands)]
        refine .pure ⟨?_, rfl, ?_⟩
        · rw [hhere] at hlive
          simp [due, hlive, hstands]
        · rw [← hother (revokedOf live at_ except done)
            (hlive.trans (hself _ (revoked_of_ne hstands))) fun _ _ => rfl]
          exact h

/-- **A sign-out everywhere revokes the user's sessions that stand, but the excepted one**, and
counts them. -/
theorem revokeUserSessions (h : Serves p userOf db live) (userId : Str) {at_ : Time}
    (hat : at_ ≤ lastMoment) (except : Option Str) {ids : List Str} (hids : ids.Nodup)
    (hall : ∀ id, id ∈ ids ↔ (live id).isSome) :
    After (Redis.revokeUserSessions p userId (stamp at_) (except.getD [])) db (fun revoked db' =>
      revoked = ids.countP (fun id => (live id).any fun stored => stored.userId = userId ∧
        stored.revokedAt = none ∧ some id ≠ except) ∧ db'.now = db.now ∧
        Serves p userOf db' fun id => (live id).map fun stored =>
          if stored.userId = userId ∧ some id ≠ except then stored.revoked at_ else stored)
      fun _ _ => False := by
  obtain ⟨members, hrun, hnodup, hown, hlisted⟩ := h.members userId
  have hexcept : ∀ id, Minted id → (id ≠ except.getD [] ↔ some id ≠ except) := by
    intro id hid
    cases except with
    | none => exact iff_of_true hid.1 (Option.some_ne_none id)
    | some id' => simp
  refine .next hrun ((After.foldlM_split (P := fun done revoked db' =>
    revoked = done.countP (due live (except.getD [])) ∧ db'.now = db.now ∧
      Serves p userOf db' (revokedOf live at_ (except.getD []) done)) ?_ ?_).mono ?_ fun _ _ h => h)
  · refine ⟨rfl, rfl, ?_⟩
    have hsame : revokedOf live at_ (except.getD []) [] = live := by
      funext id
      simp [revokedOf]
    exact hsame ▸ h
  · rintro done id rest revoked db' hsplit ⟨rfl, hnow, hserves⟩
    have hnew : id ∉ done := fun hdone => by
      rw [hsplit] at hnodup
      exact List.disjoint_of_nodup_append hnodup hdone List.mem_cons_self
    have hid : Minted id := (hown id (hsplit ▸ List.mem_append_right _ List.mem_cons_self)).1
    refine (revokeMember hat hid hnew hserves).mono (fun revoked' db'' ⟨hcount, hnow', hserves'⟩ =>
      ⟨?_, hnow'.trans hnow, hserves'⟩) fun _ _ h => h
    rw [hcount, List.countP_append, List.countP_singleton]
    cases due live (except.getD []) id <;> rfl
  · rintro revoked db' ⟨rfl, hnow, hserves⟩
    refine ⟨?_, hnow, ?_⟩
    · have hcounts : ∀ id ∈ members, due live (except.getD []) id = (live id).any fun stored =>
          stored.userId = userId ∧ stored.revokedAt = none ∧ some id ≠ except := by
        intro id hid
        obtain ⟨hminted, hof⟩ := hown id hid
        rw [due]
        cases hlive : live id with
        | none => simp
        | some record =>
          obtain ⟨-, huser, -⟩ := h.kept id record hlive
          by_cases hout : some id = except
          · have := (hexcept id hminted).not_left.mpr hout
            simp [hout, this]
          · have := (hexcept id hminted).mpr hout
            simp [hout, this, huser.trans hof]
      rw [List.countP_congr fun id hid => by rw [hcounts id hid]]
      refine countP_eq_of_nodup hnodup hids fun id hcounted => ?_
      obtain ⟨record, hlive, hdue⟩ := (Option.any_eq_true ..).mp hcounted
      have huser : record.userId = userId := (of_decide_eq_true hdue).1
      exact iff_of_true (hlisted id record hlive huser) ((hall id).mpr (hlive ▸ rfl))
    · have hsame : revokedOf live at_ (except.getD []) members = fun id => (live id).map
          fun stored => if stored.userId = userId ∧ some id ≠ except then stored.revoked at_
            else stored := by
        funext id
        rw [revokedOf]
        cases hlive : live id with
        | none => simp
        | some record =>
          obtain ⟨hminted, -⟩ := h.minted id record hlive
          obtain ⟨-, huser, -⟩ := h.kept id record hlive
          by_cases hof : record.userId = userId
          · have hmem := hlisted id record hlive hof
            by_cases hout : some id = except
            · have := (hexcept id hminted).not_left.mpr hout
              simp [hout, this]
            · have := (hexcept id hminted).mpr hout
              simp [hout, this, hof, hmem]
          · have hmem : id ∉ members := fun hmem => hof (huser.trans (hown id hmem).2)
            simp [hof, hmem]
      exact hsame ▸ hserves

/-- One session out, with the token's key that names it. -/
theorem removed (h : Serves p userOf db live) (hlive : live id = some record)
    (hindexed : Indexed p ((db.put (sessionTokenKey p record.tokenHash) none).put
      (sessionKey p id) none) none) :
    Serves p userOf ((db.put (sessionTokenKey p record.tokenHash) none).put (sessionKey p id) none)
      (Function.update live id none) where
  indexed := hindexed
  hash id' hid' := by
    rw [put_keys, put_keys, if_neg hid'.ne_token.symm, Function.update_apply]
    simp only [sessionKey_inj]
    split
    · rfl
    · exact h.hash id' hid'
  minted id' stored hstored := by
    rw [Function.update_apply] at hstored
    split at hstored
    · cases hstored
    · exact h.minted id' stored hstored
  kept id' stored hstored := by
    rw [Function.update_apply] at hstored
    split at hstored
    · cases hstored
    · exact h.kept id' stored hstored
  token tokenHash e hkey := by
    rw [put_keys, if_neg (h.minted id record hlive).1.ne_token, put_keys] at hkey
    simp only [sessionTokenKey_inj] at hkey
    split at hkey
    case isTrue => cases hkey
    case isFalse hne =>
      obtain ⟨id', stored, hstored, hhash, rfl⟩ := h.token tokenHash e hkey
      refine ⟨id', stored, ?_, hhash, rfl⟩
      rw [Function.update_of_ne _ _ live]
      · exact hstored
      · rintro rfl
        cases hlive.symm.trans hstored
        exact hne hhash.symm
  own userId := by
    rw [put_keys, if_neg (by simp), put_keys, if_neg sessionTokenKey_ne_sessionsKey.symm]
    exact h.own userId

/-- What some members deleted leave. -/
def leftOf (live : Str → Option SessionRecord) (done : List Str) (id : Str) :
    Option SessionRecord :=
  if id ∈ done then none else live id

theorem deleteMember {done : List Str} {deleted : ℕ} (hid : Minted id) (hnew : id ∉ done)
    (h : Serves p userOf db (leftOf live done)) :
    After (Redis.deleteMember p deleted id) db (fun deleted' db' =>
      deleted' = deleted + (live id).isSome.toNat ∧ db'.now = db.now ∧
        Serves p userOf db' (leftOf live (done ++ [id]))) fun _ _ => False := by
  have hhere : leftOf live done id = live id := if_neg hnew
  have hupdate : Function.update (leftOf live done) id none = leftOf live (done ++ [id]) := by
    funext id'
    rw [Function.update_apply, leftOf, leftOf]
    by_cases hsame : id' = id <;> simp [hsame]
  obtain ⟨hlive, hkey⟩ | ⟨record, hlive, -, hkey⟩ := h.cases_key hid
  · refine .of_run (bind_ok (hget_none hkey)) ⟨by rw [← hhere, hlive]; rfl, rfl, ?_⟩
    rw [← hupdate, ← hlive, Function.update_eq_self]
    exact h
  · have hrun : Redis.deleteMember p deleted id db = (.ok (deleted + 1),
        (db.put (sessionTokenKey p record.tokenHash) none).put (sessionKey p id) none) := by
      refine (bind_ok (hget_hash hkey)).trans ((bind_ok (get_text (h.held hlive).1)).trans ?_)
      rw [if_pos rfl]
      rfl
    have hindexed := h.indexed.deleteMember hid deleted
    rw [After, hrun] at hindexed
    refine .of_run hrun ⟨by rw [← hhere, hlive]; rfl, rfl, ?_⟩
    rw [← hupdate]
    exact h.removed hlive hindexed.1

/-- **Every session of the user is deleted**, and counted. -/
theorem deleteUserSessions (h : Serves p userOf db live) (userId : Str) {ids : List Str}
    (hids : ids.Nodup) (hall : ∀ id, id ∈ ids ↔ (live id).isSome) :
    After (Redis.deleteUserSessions p userId) db (fun deleted db' =>
      deleted = ids.countP (fun id => (live id).any (·.userId = userId)) ∧ db'.now = db.now ∧
        Serves p userOf db' fun id => (live id).filter (·.userId ≠ userId)) fun _ _ => False := by
  obtain ⟨members, hrun, hnodup, hown, hlisted⟩ := h.members userId
  have hscript : After (Redis.deleteUserSessions p userId) db (fun deleted db' => ∃ db₁,
      (deleted = members.countP (fun id => (live id).isSome) ∧ db₁.now = db.now ∧
        Serves p userOf db₁ (leftOf live members)) ∧ db' = db₁.put (sessionsKey p userId) none)
      fun _ _ => False := by
    refine .next hrun (.seq (After.foldlM_split (P := fun done deleted db' =>
      deleted = done.countP (fun id => (live id).isSome) ∧ db'.now = db.now ∧
        Serves p userOf db' (leftOf live done)) ?_ ?_)
      fun deleted db' hdone => .next del_run (.pure ⟨db', hdone, rfl⟩))
    · have hsame : leftOf live [] = live := by
        funext id
        simp [leftOf]
      exact ⟨rfl, rfl, hsame ▸ h⟩
    · rintro done id rest deleted db' hsplit ⟨rfl, hnow, hserves⟩
      have hnew : id ∉ done := fun hdone => by
        rw [hsplit] at hnodup
        exact List.disjoint_of_nodup_append hnodup hdone List.mem_cons_self
      have hid : Minted id := (hown id (hsplit ▸ List.mem_append_right _ List.mem_cons_self)).1
      refine (deleteMember hid hnew hserves).mono (fun deleted' db'' ⟨hcount, hnow', hserves'⟩ =>
        ⟨?_, hnow'.trans hnow, hserves'⟩) fun _ _ h => h
      rw [hcount, List.countP_append, List.countP_singleton]
      cases (live id).isSome <;> rfl
  refine (h.indexed.deleteUserSessions.and hscript).mono ?_ fun _ _ h => h.1
  rintro deleted db' ⟨⟨hindexed, -⟩, db₁, ⟨rfl, hnow, hserves⟩, rfl⟩
  have hof : ∀ id record, live id = some record → (id ∈ members ↔ record.userId = userId) := by
    intro id record hlive
    obtain ⟨-, huser, -⟩ := h.kept id record hlive
    exact ⟨fun hmem => huser.trans (hown id hmem).2, hlisted id record hlive⟩
  refine ⟨?_, hnow, ?_⟩
  · have hcounts : ∀ id ∈ members, (live id).isSome = (live id).any (·.userId = userId) := by
      intro id hid
      cases hlive : live id with
      | none => rfl
      | some record => simp [(hof id record hlive).mp hid]
    rw [List.countP_congr fun id hid => by rw [hcounts id hid]]
    refine countP_eq_of_nodup hnodup hids fun id hcounted => ?_
    obtain ⟨record, hlive, huser⟩ := (Option.any_eq_true ..).mp hcounted
    exact iff_of_true ((hof id record hlive).mpr (of_decide_eq_true huser))
      ((hall id).mpr (hlive ▸ rfl))
  · have hsame : leftOf live members = fun id => (live id).filter (·.userId ≠ userId) := by
      funext id
      rw [leftOf]
      cases hlive : live id with
      | none => simp
      | some record =>
        by_cases huser : record.userId = userId
        · simp [Option.filter_some, huser, (hof id record hlive).mpr huser]
        · simp [Option.filter_some, huser, (hof id record hlive).not.mpr huser]
    rw [← hsame]
    refine hserves.relisted put_away hindexed fun members' until' heq => ?_
    rw [put_keys, if_pos rfl] at heq
    cases heq

/-! ## A session inserted, and one extended -/

theorem until_later {value : Value Str} {expiresAt : Option ℤ} {now last : ℤ} (h : now < last) :
    Keyspace.Entry.until ⟨value, expiresAt⟩ last now = some ⟨value, some last⟩ :=
  if_neg (not_le.mpr h)

/-- **A new session is kept as it is given**, and one inserted again is left as it is. -/
theorem insertSession (h : Serves p userOf db live) (hid : Minted record.id)
    (hdated : Dated record) (huser : record.userId = userOf record.id)
    (hfree : ∀ id stored, live id = some stored → stored.tokenHash = record.tokenHash →
      id = record.id) (hlater : db.now < record.expiresAt) :
    After (Redis.insertSession p record.id record.tokenHash record.userId
        (stamp record.authenticatedAt) record.expiresAt (stampOf record.revokedAt)
        (stamp record.createdAt)) db
      (fun _ db' => db'.now = db.now ∧ Serves p userOf db'
        (if (live record.id).isSome then live
          else Function.update live record.id (some record))) fun _ _ => False := by
  obtain ⟨hlive, hkey⟩ | ⟨stored, hlive, -, hkey⟩ := h.cases_key hid
  · have htoken : db.keys (sessionTokenKey p record.tokenHash) = none := by
      by_contra hsome
      obtain ⟨e, hsome⟩ := Option.ne_none_iff_exists'.mp hsome
      obtain ⟨id, stored, hstored, hhash, -⟩ := h.token _ e hsome
      rw [hfree id stored hstored hhash, hlive] at hstored
      cases hstored
    have hpositive : (0 : ℤ) < record.expiresAt := h.indexed.clock.trans_lt hlater
    let named := (db.put (sessionKey p record.id) (some (sessionEntry record))).put
      (sessionTokenKey p record.tokenHash) (some ⟨.text record.id, some record.expiresAt⟩)
    have hnamed : Indexed p named (some record.id) := by
      refine (h.indexed.weaken.put_session hid _).put_token hid (fun e he => ?_) fun e he => ?_
      · rw [put_keys, if_neg hid.ne_token, htoken] at he
        cases he
      · cases he
        rfl
    have hown : Lists.Own userOf record.userId (named.keys (sessionsKey p record.userId)) := by
      rw [put_keys, if_neg sessionTokenKey_ne_sessionsKey.symm, put_keys, if_neg (by simp)]
      exact h.own record.userId
    have hscript : After (Redis.insertSession p record.id record.tokenHash record.userId
        (stamp record.authenticatedAt) record.expiresAt (stampOf record.revokedAt)
        (stamp record.createdAt)) db
        (fun _ db' => Away (sessionsKey p record.userId) named db' ∧
          Lists.Own userOf record.userId (db'.keys (sessionsKey p record.userId)))
        fun _ _ => False := by
      refine .next existsKey_run ?_
      rw [hkey]
      refine .next (get_none htoken) (.next (hset_none hkey)
        (.next (pexpireat_some (put_keys.trans (if_pos rfl))) ?_))
      rw [put_now, until_later hlater, put_put]
      refine .next (setPxat_ok hpositive) ?_
      rw [put_now, if_neg (not_lt.mpr hlater.le)]
      refine .seq (((Indexed.prune hnamed (F := fun _ _ => False)).and prune_thins).mono
        (fun _ _ h => h) fun _ _ h => h.1) fun _ db₁ ⟨⟨h₁, haway₁⟩, _, hthins⟩ => ?_
      refine .seq₂ (((h₁.enlist hid (F := fun _ _ => False)).and
        (enlist_own userOf record.userId record.id)).mono (fun _ _ h => h) fun _ _ h => h.1)
        fun _ db₂ ⟨⟨_, haway₂, _⟩, hlisted⟩ => ?_
      exact .pure ⟨haway₁.trans haway₂, hlisted (hthins.own hown) huser.symm⟩
    refine ((h.indexed.insertSession hid).and hscript).mono ?_ fun _ _ h => h.2
    rintro _ db' ⟨hindexed, haway, hlists⟩
    rw [hlive]
    refine ⟨haway.1, h.placed hid hdated huser hlater.le (fun stored hstored => ?_) hindexed haway.1
      (fun id hminted => ?_) (fun tokenHash => ?_) fun userId => ?_⟩
    · rw [hlive] at hstored
      cases hstored
    · rw [haway.2 _ sessionKey_ne_sessionsKey, put_keys, if_neg hminted.ne_token.symm, put_keys]
      simp only [sessionKey_inj]
    · rw [haway.2 _ sessionTokenKey_ne_sessionsKey, put_keys]
      simp only [sessionTokenKey_inj]
      rw [put_keys, if_neg hid.ne_token]
    · by_cases hsame : userId = record.userId
      · exact hsame ▸ hlists
      · rw [haway.2 _ (by simpa using hsame), put_keys, if_neg sessionTokenKey_ne_sessionsKey.symm,
          put_keys, if_neg (by simp)]
        exact h.own userId
  · refine .next existsKey_run ?_
    rw [hkey, hlive]
    exact .pure ⟨rfl, h⟩

/-- **A session that stands is extended with its token's key**, and answered as written. -/
theorem extendSession (h : Serves p userOf db live) (hid : Minted id) {expiresAt : Time}
    (hlater : db.now < expiresAt) (hat : expiresAt ≤ lastMoment) :
    After (Redis.extendSession p id expiresAt) db (fun reply db' =>
      let written := ((live id).filter fun stored => stored.revokedAt = none).map
        fun stored => { stored with expiresAt }
      reply = written.map (fun record => (record.id, sessionHash record)) ∧ db'.now = db.now ∧
        Serves p userOf db' (written.elim live fun record =>
          Function.update live id (some record))) fun _ _ => False := by
  have hindexed : After (Redis.extendSession p id expiresAt) db (fun _ db' => Indexed p db' none)
    fun _ db' => Indexed p db' none := h.indexed.extendSession
  obtain ⟨hlive, hkey⟩ | ⟨record, hlive, rfl, hkey⟩ := h.cases_key hid
  · refine .next existsKey_run ?_
    rw [hkey, hlive]
    exact .pure ⟨rfl, rfl, h⟩
  by_cases hstands : record.revokedAt = none
  · have hwritten : (some record).filter (fun stored => stored.revokedAt = none) =
        some record := by simp [hstands]
    obtain ⟨hdated, huser, -⟩ := h.kept _ record hlive
    obtain ⟨hname, members, until_, hset, -⟩ := h.held hlive
    let extended : SessionRecord := { record with expiresAt }
    let moved := (db.put (sessionKey p record.id) (some (sessionEntry extended))).put
      (sessionTokenKey p record.tokenHash) (some ⟨.text record.id, some expiresAt⟩)
    have hscript : After (Redis.extendSession p record.id expiresAt) db (fun reply db' =>
        reply = some (record.id, sessionHash extended) ∧ Away (sessionsKey p record.userId) moved db' ∧
          Thins (db.keys (sessionsKey p record.userId)) (db'.keys (sessionsKey p record.userId)))
        fun _ _ => False := by
      refine .next existsKey_run ?_
      rw [hkey]
      refine .next (revokedAt_eq hkey) ?_
      rw [hstands]
      have hput : putAll (sessionHash record) [(js "expiresAt", stamp expiresAt)] =
          sessionHash extended := rfl
      refine .next (hset_hash hkey) ?_
      rw [hput]
      refine .next (session_eq (List.cons_ne_nil _ _) (put_keys.trans (if_pos rfl)))
        (.next (hget_hash (put_keys.trans (if_pos rfl)))
        (.next (hget_hash (put_keys.trans (if_pos rfl)))
        (.next (pexpireat_some (put_keys.trans (if_pos rfl))) (.next (pure_run _ _) ?_))))
      rw [put_now, until_later hlater, put_put]
      have hname' : (db.put (sessionKey p record.id) (some (sessionEntry extended))).keys
          (sessionTokenKey p record.tokenHash) =
          some ⟨.text record.id, some record.expiresAt⟩ := by
        rw [put_keys, if_neg hid.ne_token]
        exact hname
      refine .next (pexpireat_some hname') (.next (pure_run _ _) ?_)
      rw [put_now, until_later hlater]
      have hset' : Db.keys moved (sessionsKey p record.userId) =
          some ⟨.set members, some until_⟩ := by
        rw [put_keys, if_neg sessionTokenKey_ne_sessionsKey.symm, put_keys, if_neg (by simp)]
        exact hset
      obtain ⟨_, _, heq, hlasts, -⟩ := h.indexed.user _ _ hset
      cases heq
      refine .seq (((extendSet_some (F := fun _ _ => False) hset' hlasts).and extendSet_thins).mono
        (fun _ _ h => h) fun _ _ h => h.1) fun _ db' ⟨_, haway, hthins⟩ => .pure ⟨rfl, haway, ?_⟩
      rw [hset'] at hthins
      rwa [hset]
    refine (hindexed.and hscript).mono ?_ fun _ _ h => h.2
    rintro reply db' ⟨hindexed, rfl, haway, hthins⟩
    rw [hlive, hwritten]
    refine ⟨rfl, haway.1, h.placed (show Minted extended.id from hid)
      { hdated with expiresAt := hat } huser hlater.le (fun stored hstored => ?_) hindexed haway.1
      (fun id' hminted => ?_) (fun tokenHash => ?_) fun userId => ?_⟩
    · cases hlive.symm.trans hstored
      rfl
    · rw [haway.2 _ sessionKey_ne_sessionsKey, put_keys, if_neg hminted.ne_token.symm, put_keys]
      simp only [sessionKey_inj]
      rfl
    · rw [haway.2 _ sessionTokenKey_ne_sessionsKey, put_keys]
      simp only [sessionTokenKey_inj]
      rw [put_keys, if_neg hid.ne_token]
    · by_cases hsame : userId = record.userId
      · exact hsame ▸ hthins.own (h.own record.userId)
      · rw [haway.2 _ (by simpa using hsame), put_keys, if_neg sessionTokenKey_ne_sessionsKey.symm,
          put_keys, if_neg (by simp)]
        exact h.own userId
  · have hwritten : (some record).filter (fun stored => stored.revokedAt = none) = none := by
      simp [hstands]
    refine .next existsKey_run ?_
    rw [hkey, hlive]
    refine .next (revokedAt_eq hkey) ?_
    rw [hwritten, if_pos (by simpa [stampOf_eq_nil] using hstands)]
    exact .pure ⟨rfl, rfl, h⟩

/-- **Time takes the sessions that lapsed**, and nothing else. -/
theorem tick (h : Serves p userOf db live) (elapsed : ℕ) :
    Serves p userOf (db.tick elapsed) fun id => (live id).filter fun record =>
      db.now + elapsed ≤ record.expiresAt where
  indexed := h.indexed.tick elapsed
  hash id hid := by
    change (db.keys (sessionKey p id)).filter _ = _
    rw [h.hash id hid]
    cases live id with
    | none => rfl
    | some record =>
      rw [Option.map_some, Option.filter_some, Option.filter_some]
      change (if decide (db.now + elapsed ≤ (record.expiresAt : ℤ)) = true then _ else _) = _
      split <;> rfl
  minted id record hlive := h.minted id record (Option.filter_eq_some_iff.mp hlive).1
  kept id record hlive := by
    obtain ⟨hlive, hlasts⟩ := Option.filter_eq_some_iff.mp hlive
    obtain ⟨hdated, huser, -⟩ := h.kept id record hlive
    exact ⟨hdated, huser, of_decide_eq_true hlasts⟩
  token tokenHash e hkey := by
    obtain ⟨hkey, halive⟩ := Option.filter_eq_some_iff.mp hkey
    obtain ⟨id, record, hlive, hhash, rfl⟩ := h.token tokenHash e hkey
    exact ⟨id, record, Option.filter_eq_some_iff.mpr ⟨hlive, halive⟩, hhash, rfl⟩
  own userId members until_ heq := by
    exact h.own userId members until_ (Option.filter_eq_some_iff.mp heq).1

end Serves

end Janus.Redis
