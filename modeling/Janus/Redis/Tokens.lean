import Janus.Redis.Replies
import Janus.Redis.Sessions

/-!
# Redis/Tokens — the scripts of the token store

A token is one hash, named by the token's own hash and listed in its user's set.  A keyspace keeps
the tokens of a store where each one's hash is exactly its record, expires when it does, and is
listed for as long (`Keeps`); every script keeps that, and answers what the store in memory does.
-/

namespace Janus.Redis

open Js Keyspace Auth

/-! ## The scripts -/

def tokenKey (p tokenHash : Str) : Str := p ++ js "token:" ++ tokenHash

/-- The set of a user's tokens. -/
def tokensKey (p userId : Str) : Str := p ++ js "user:" ++ userId ++ js ":tokens"

/-- A text as the 64-bit integer it is written for: no sign but one, no zero before it. -/
def toInt64 (value : Str) : Option ℤ :=
  if value.head? = some 45 then
    if isCount value.tail ∧ value.tail ≠ [48] ∧ toNumber value.tail ≤ 2 ^ 63 then
      some (-toNumber value.tail)
    else none
  else if isCount value ∧ toNumber value < 2 ^ 63 then some (toNumber value)
  else none

/-- A count in a hash, one more: one that is absent is none yet. -/
def hincrby (k field : Str) : Script Str Unit := do
  match toInt64 ((← hget k field).getD [48]) with
  | none => fault (.reply (js "ERR hash value is not an integer"))
  | some n =>
    if n + 1 < 2 ^ 63 then hset k [(field, stamp (n + 1))]
    else fault (.reply (js "ERR increment or decrement would overflow"))

def insertToken (p tokenHash kind userId address : Str) (expiresAt : ℤ)
    (spentAt createdAt codeHash attempts : Str) : Script Str ℕ := do
  let key := tokenKey p tokenHash
  if ← existsKey key then pure 0
  else
    hset key [(js "kind", kind), (js "userId", userId), (js "address", address),
      (js "expiresAt", stamp expiresAt), (js "spentAt", spentAt), (js "createdAt", createdAt),
      (js "codeHash", codeHash), (js "attempts", attempts)]
    pexpireat key expiresAt
    prune (tokensKey p userId) (p ++ js "token:")
    sadd (tokensKey p userId) tokenHash
    extendSet (tokensKey p userId) expiresAt
    pure 1

/-- Spends the token, and answers it as it was before. -/
def consumeToken (p tokenHash kind at_ : Str) : Script Str (Option (List (Str × Str))) := do
  let key := tokenKey p tokenHash
  if (← hget key (js "kind")) ≠ some kind then pure none
  else
    let before ← hgetall key
    if (← hget key (js "spentAt")) = some [] then hset key [(js "spentAt", at_)]
    pure (some before)

/-- Counts one attempt, and answers the token as it is after. -/
def countAttempt (p tokenHash kind : Str) : Script Str (Option (List (Str × Str))) := do
  let key := tokenKey p tokenHash
  if (← hget key (js "kind")) ≠ some kind then pure none
  else
    if (← hget key (js "spentAt")) = some [] then hincrby key (js "attempts")
    some <$> hgetall key

/-- One member of a user's set, spent. -/
def spendMember (p kind at_ except : Str) (spent : ℕ) (tokenHash : Str) : Script Str ℕ := do
  let key := tokenKey p tokenHash
  if tokenHash = except then pure spent
  else if (← hget key (js "kind")) ≠ some kind then pure spent
  else if (← hget key (js "spentAt")) = some [] then
    hset key [(js "spentAt", at_)]
    pure (spent + 1)
  else pure spent

def spendUserTokens (p userId kind at_ except : Str) : Script Str ℕ := do
  (← smembers (tokensKey p userId)).foldlM (spendMember p kind at_ except) 0

def deleteTokenMember (p : Str) (deleted : ℕ) (tokenHash : Str) : Script Str ℕ := do
  pure (deleted + (← del (tokenKey p tokenHash)).toNat)

def deleteUserTokens (p userId : Str) : Script Str ℕ := do
  let deleted ← (← smembers (tokensKey p userId)).foldlM (deleteTokenMember p) 0
  let _ ← del (tokensKey p userId)
  pure deleted

/-! ## The keys -/

section Keys

variable {p id userId userId' tokenHash tokenHash' : Str}

@[simp] theorem tokenKey_inj : tokenKey p tokenHash = tokenKey p tokenHash' ↔
    tokenHash = tokenHash' := List.append_right_inj _

@[simp] theorem tokensKey_inj : tokensKey p userId = tokensKey p userId' ↔ userId = userId' := by
  rw [tokensKey, tokensKey, List.append_cancel_right_eq, List.append_cancel_left_eq]

@[simp] theorem tokenKey_ne_tokensKey : tokenKey p tokenHash ≠ tokensKey p userId := by
  simp only [tokenKey, tokensKey, List.append_assoc]
  exact ne_of_head (u := 116) (v := 117) (by decide)

theorem tokenKey_ne_sessionKey : tokenKey p tokenHash ≠ sessionKey p id := by
  simp only [tokenKey, sessionKey, List.append_assoc]
  exact ne_of_head (u := 116) (v := 115) (by decide)

theorem tokenKey_ne_sessionsKey : tokenKey p tokenHash ≠ sessionsKey p userId := by
  simp only [tokenKey, sessionsKey, List.append_assoc]
  exact ne_of_head (u := 116) (v := 117) (by decide)

theorem tokensKey_ne_sessionKey : tokensKey p userId ≠ sessionKey p id := by
  simp only [tokensKey, sessionKey, List.append_assoc]
  exact ne_of_head (u := 117) (v := 115) (by decide)

/-- A user's two sets are two, whoever the users are. -/
theorem tokensKey_ne_sessionsKey : tokensKey p userId ≠ sessionsKey p userId' := by
  intro heq
  have hend := congrArg List.reverse heq
  simp only [tokensKey, sessionsKey, List.reverse_append, List.append_assoc] at hend
  change (115 : CodeUnit) :: 110 :: 101 :: _ = 115 :: 110 :: 111 :: _ at hend
  exact absurd (List.head_eq_of_cons_eq (List.tail_eq_of_cons_eq (List.tail_eq_of_cons_eq hend)))
    (by decide)

end Keys

/-! ## What a set lists -/

/-- A set that still lasts, lists each once, and only these. -/
def Enlists (now : ℤ) (owns : Str → Prop) (e : Option (Entry Str)) : Prop :=
  ∀ e', e = some e' → ∃ members until_, e' = ⟨.set members, some until_⟩ ∧ now ≤ until_ ∧
    members.Nodup ∧ ∀ member ∈ members, owns member

section Sets

variable {db : Db Str} {k member : Str} {last : ℤ} {owns : Str → Prop}

theorem Enlists.none {now : ℤ} : Enlists now owns none := fun _ heq => nomatch heq

/-- Members taken out of a set. -/
theorem Enlists.setEntry {now until_ : ℤ} {members members' : List Str} (hlasts : now ≤ until_)
    (hnodup : members.Nodup) (hown : ∀ member ∈ members, owns member)
    (hsub : members'.Sublist members) :
    Enlists now owns (Keyspace.setEntry members' (some until_)) := by
  intro e' heq
  rw [Keyspace.setEntry] at heq
  split at heq
  case isTrue => cases heq
  case isFalse =>
    cases heq
    exact ⟨members', until_, rfl, hlasts, hnodup.sublist hsub,
      fun member hmem => hown member (hsub.subset hmem)⟩

/-- **Pruning keeps every member whose key is there**, for as long. -/
theorem Enlists.prune {q : Str} (h : Enlists db.now owns (db.keys k)) (hq : ∀ m, q ++ m ≠ k) :
    After (prune k q) db (fun _ db' => Away k db db' ∧ Enlists db.now owns (db'.keys k) ∧
      ∀ m last, db.keys (q ++ m) ≠ Option.none → Lists (db.keys k) m last →
        Lists (db'.keys k) m last) fun _ _ => False := by
  have hloop : ∀ members : List Str, After (members.foldlM (fun _ member => do
      if !(← existsKey (q ++ member)) then srem k member) ()) db (fun _ db' => Away k db db' ∧
        Enlists db.now owns (db'.keys k) ∧ ∀ m last, db.keys (q ++ m) ≠ Option.none →
          Lists (db.keys k) m last → Lists (db'.keys k) m last) fun _ _ => False := by
    intro members
    refine After.foldlM (P := fun _ _ db' => Away k db db' ∧ Enlists db.now owns (db'.keys k) ∧
      ∀ m last, db.keys (q ++ m) ≠ Option.none → Lists (db.keys k) m last →
        Lists (db'.keys k) m last) ⟨.refl, h, fun _ _ _ hlists => hlists⟩ ?_
    rintro done member - db' - ⟨haway, hset, hlists⟩
    refine .next existsKey_run ?_
    rw [haway.2 _ (hq member)]
    cases hmember : db.keys (q ++ member) with
    | some e => exact .pure ⟨haway, hset, hlists⟩
    | none =>
      change After (srem k member) db' _ _
      cases hkey : db'.keys k with
      | none =>
        refine .of_run (srem_none hkey) ⟨haway, hset, hlists⟩
      | some e =>
        obtain ⟨listed, until_, rfl, hlasts, hnodup, hown⟩ := hset e hkey
        refine .of_run (srem_set hkey) ⟨haway.trans put_away, ?_, fun m last hm hlisted => ?_⟩
        · rw [put_keys, if_pos rfl]
          exact .setEntry hlasts hnodup hown List.filter_sublist
        · obtain ⟨_, _, heq, hmem, hle⟩ := hlists m last hm hlisted
          obtain ⟨rfl, rfl⟩ : listed = _ ∧ until_ = _ := by simpa using hkey.symm.trans heq
          have hne : m ≠ member := fun heq => hm (heq ▸ hmember)
          rw [put_keys, if_pos rfl, lists_setEntry]
          exact ⟨List.mem_filter.mpr ⟨hmem, by simpa using hne⟩, hle⟩
  obtain ⟨members, hrun⟩ : ∃ members, smembers k db = (.ok members, db) := by
    cases hkey : db.keys k with
    | none => exact ⟨[], smembers_none hkey⟩
    | some e =>
      obtain ⟨members, until_, rfl, -⟩ := h e hkey
      exact ⟨_, smembers_set hkey⟩
  exact .next hrun (hloop members)

/-- **A member added is listed for as long as asked**, and the others as they were. -/
theorem Enlists.enlist (h : Enlists db.now owns (db.keys k)) (hown : owns member)
    (hlater : db.now < last) :
    After (do sadd k member; extendSet k last) db (fun _ db' => Away k db db' ∧
      Enlists db.now owns (db'.keys k) ∧ Lists (db'.keys k) member last ∧
      ∀ m last', Lists (db.keys k) m last' → Lists (db'.keys k) m last') fun _ _ => False := by
  cases hset : db.keys k with
  | none =>
    refine .next (sadd_none hset) ((extendSet_lasting (put_keys.trans (if_pos rfl))).mono
      (fun _ db' hextended => ?_) fun _ _ h => h)
    obtain ⟨haway, hkey⟩ := hextended
    rw [put_now, Entry.until, if_neg (not_le.mpr hlater)] at hkey
    refine ⟨put_away.trans haway, fun e' he' => ?_, ⟨[member], last, hkey, by simp, le_rfl⟩, ?_⟩
    · cases hkey.symm.trans he'
      exact ⟨[member], last, rfl, hlater.le, List.nodup_singleton _, by simpa using hown⟩
    · rintro m last' ⟨_, _, heq, _⟩
      cases heq
  | some e =>
    obtain ⟨members, until_, rfl, hlasts, hnodup, hmembers⟩ := h e hset
    refine .next (sadd_set hset) ((extendSet_some (put_keys.trans (if_pos rfl)) hlasts).mono
      (fun _ db' hextended => ?_) fun _ _ h => h)
    obtain ⟨haway, hkey⟩ := hextended
    refine ⟨put_away.trans haway, fun e' he' => ?_,
      ⟨_, _, hkey, Insertion.mem_add.mpr (Or.inr rfl), le_max_right _ _⟩, ?_⟩
    · cases hkey.symm.trans he'
      refine ⟨_, _, rfl, hlasts.trans (le_max_left _ _), Insertion.nodup_add hnodup,
        fun m hmem => ?_⟩
      obtain hmem | rfl := Insertion.mem_add.mp hmem
      · exact hmembers m hmem
      · exact hown
    · rintro m last' ⟨_, _, heq, hmem, hle⟩
      cases heq
      exact ⟨_, _, hkey, Insertion.mem_add.mpr (Or.inl hmem), hle.trans (le_max_left _ _)⟩

end Sets

/-! ## What a keyspace keeps -/

/-- A token as Redis keeps it. -/
def tokenEntry (record : TokenRecord) : Entry Str :=
  ⟨.hash (tokenHashOf record), some record.expiresAt⟩

/-- A keyspace that keeps these tokens, and no other. -/
structure Keeps (p : Str) (userOf : Str → Str) (db : Db Str) (live : Str → Option TokenRecord) :
    Prop where
  hash : ∀ tokenHash, db.keys (tokenKey p tokenHash) = (live tokenHash).map tokenEntry
  kept : ∀ tokenHash record, live tokenHash = some record → record.tokenHash = tokenHash ∧
    Written record ∧ tokenHash ≠ [] ∧ record.userId = userOf tokenHash ∧
    db.now ≤ record.expiresAt
  listed : ∀ tokenHash record, live tokenHash = some record →
    Lists (db.keys (tokensKey p (userOf tokenHash))) tokenHash record.expiresAt
  sets : ∀ userId, Enlists db.now (userOf · = userId) (db.keys (tokensKey p userId))

/-- One token of a kind rewritten. -/
def rewritten (live : Str → Option TokenRecord) (tokenHash : Str) (kind : TokenKind)
    (write : TokenRecord → TokenRecord) (hash : Str) : Option TokenRecord :=
  (live hash).map fun stored =>
    if tokenHash = hash ∧ stored.kind = kind then write stored else stored

namespace Keeps

variable {p : Str} {userOf : Str → Str} {db db' : Db Str} {live : Str → Option TokenRecord}
  {tokenHash : Str} {kind : TokenKind} {record : TokenRecord} {at_ : Time}

theorem empty (hempty : ∀ k, db.keys k = none) : Keeps p userOf db fun _ => none where
  hash _ := hempty _
  kept _ _ h := nomatch h
  listed _ _ h := nomatch h
  sets _ := hempty _ ▸ .none

/-- A record rewritten where it is. -/
theorem write (h : Keeps p userOf db live) (hlive : live tokenHash = some record)
    {written : TokenRecord} (hwritten : Written written)
    (hhash : written.tokenHash = record.tokenHash) (huser : written.userId = record.userId)
    (hexpires : written.expiresAt = record.expiresAt) :
    Keeps p userOf (db.put (tokenKey p tokenHash) (some (tokenEntry written)))
      (Function.update live tokenHash (some written)) where
  hash hash := by
    rw [put_keys, Function.update_apply]
    simp only [tokenKey_inj]
    split
    · rfl
    · exact h.hash hash
  kept hash stored hstored := by
    rw [Function.update_apply] at hstored
    split at hstored
    case isTrue heq =>
      cases hstored
      obtain ⟨hsame, -, hne, hown, hlasts⟩ := h.kept tokenHash record hlive
      subst heq
      exact ⟨hhash.trans hsame, hwritten, hne, huser.trans hown, hexpires ▸ hlasts⟩
    case isFalse => exact h.kept hash stored hstored
  listed hash stored hstored := by
    rw [put_keys, if_neg tokenKey_ne_tokensKey.symm]
    rw [Function.update_apply] at hstored
    split at hstored
    case isTrue heq =>
      cases hstored
      exact heq ▸ hexpires ▸ h.listed tokenHash record hlive
    case isFalse => exact h.listed hash stored hstored
  sets userId := by
    rw [put_keys, if_neg tokenKey_ne_tokensKey.symm]
    exact h.sets userId

/-- …and one taken out. -/
theorem removed (h : Keeps p userOf db live) :
    Keeps p userOf (db.put (tokenKey p tokenHash) none) (Function.update live tokenHash none) where
  hash hash := by
    rw [put_keys, Function.update_apply]
    simp only [tokenKey_inj]
    split
    · rfl
    · exact h.hash hash
  kept hash stored hstored := by
    rw [Function.update_apply] at hstored
    split at hstored
    case isTrue => cases hstored
    case isFalse => exact h.kept hash stored hstored
  listed hash stored hstored := by
    rw [put_keys, if_neg tokenKey_ne_tokensKey.symm]
    rw [Function.update_apply] at hstored
    split at hstored
    case isTrue => cases hstored
    case isFalse => exact h.listed hash stored hstored
  sets userId := by
    rw [put_keys, if_neg tokenKey_ne_tokensKey.symm]
    exact h.sets userId

/-- A set that is gone lists nothing. -/
theorem delisted (h : Keeps p userOf db live) {userId : Str}
    (hgone : ∀ tokenHash stored, live tokenHash = some stored → userOf tokenHash ≠ userId) :
    Keeps p userOf (db.put (tokensKey p userId) none) live where
  hash tokenHash := by
    rw [put_keys, if_neg tokenKey_ne_tokensKey]
    exact h.hash tokenHash
  kept := h.kept
  listed tokenHash stored hlive := by
    rw [put_keys, if_neg (by simpa using hgone tokenHash stored hlive)]
    exact h.listed tokenHash stored hlive
  sets userId' := by
    rw [put_keys]
    split
    · exact .none
    · exact h.sets userId'

/-! ### One token -/

theorem rewritten_of_none {write : TokenRecord → TokenRecord}
    (hnone : (live tokenHash).filter (·.kind = kind) = none) :
    rewritten live tokenHash kind write = live := by
  funext hash
  rw [rewritten]
  cases hlive : live hash with
  | none => rfl
  | some stored =>
    rw [Option.map_some, if_neg]
    rintro ⟨rfl, hkind⟩
    rw [hlive, Option.filter_some, if_pos (decide_eq_true hkind)] at hnone
    cases hnone

theorem rewritten_of_some {write : TokenRecord → TokenRecord}
    (hlive : live tokenHash = some record) (hkind : record.kind = kind) :
    rewritten live tokenHash kind write =
      Function.update live tokenHash (some (write record)) := by
  funext hash
  rw [rewritten, Function.update_apply]
  by_cases hsame : hash = tokenHash
  · subst hsame
    rw [hlive, Option.map_some, if_pos ⟨rfl, hkind⟩, if_pos rfl]
  · rw [if_neg hsame]
    cases live hash with
    | none => rfl
    | some stored => rw [Option.map_some, if_neg fun h => hsame h.1.symm]

theorem kind_eq (hkey : db.keys (tokenKey p tokenHash) = some (tokenEntry record)) :
    hget (tokenKey p tokenHash) (js "kind") db = (.ok (some (kindText record.kind)), db) :=
  hget_hash hkey

theorem spentAt_eq (hkey : db.keys (tokenKey p tokenHash) = some (tokenEntry record)) :
    hget (tokenKey p tokenHash) (js "spentAt") db = (.ok (some (stampOf record.spentAt)), db) :=
  hget_hash hkey

/-- What a script reads first of a token: none of its kind, or its hash. -/
theorem cases_kind (h : Keeps p userOf db live) (tokenHash : Str) (kind : TokenKind) :
    ((live tokenHash).filter (·.kind = kind) = none ∧ ∃ value,
      hget (tokenKey p tokenHash) (js "kind") db = (.ok value, db) ∧
        value ≠ some (kindText kind)) ∨
      ∃ record, live tokenHash = some record ∧ record.kind = kind ∧
        db.keys (tokenKey p tokenHash) = some (tokenEntry record) := by
  have hkey := h.hash tokenHash
  cases hlive : live tokenHash with
  | none =>
    rw [hlive] at hkey
    exact Or.inl ⟨rfl, none, hget_none hkey, (Option.some_ne_none _).symm⟩
  | some record =>
    rw [hlive, Option.map_some] at hkey
    by_cases hkind : record.kind = kind
    · exact Or.inr ⟨record, rfl, hkind, hkey⟩
    · refine Or.inl ⟨?_, _, kind_eq hkey, ?_⟩
      · rw [Option.filter_some, if_neg (by simpa using hkind)]
      · rwa [Ne, Option.some.injEq, kindText_inj]

/-- **A token is spent in one step**, and answered as it was. -/
theorem consumeToken (h : Keeps p userOf db live) (tokenHash : Str) (kind : TokenKind)
    (hat : at_ ≤ lastMoment) :
    After (Redis.consumeToken p tokenHash (kindText kind) (stamp at_)) db (fun reply db' =>
      reply = ((live tokenHash).filter (·.kind = kind)).map tokenHashOf ∧ db'.now = db.now ∧
        Keeps p userOf db' (rewritten live tokenHash kind (·.spent at_))) fun _ _ => False := by
  obtain ⟨hnone, value, hrun, hne⟩ | ⟨record, hlive, hkind, hkey⟩ := h.cases_kind tokenHash kind
  · refine .next hrun ?_
    rw [if_pos hne, hnone, rewritten_of_none hnone]
    exact .pure ⟨rfl, rfl, h⟩
  · refine .next (kind_eq hkey) ?_
    rw [if_neg (not_not_intro (by rw [hkind])), hlive, Option.filter_some,
      if_pos (decide_eq_true hkind), rewritten_of_some hlive hkind, TokenRecord.spent]
    refine .next (hgetall_hash hkey) (.next (spentAt_eq hkey) ?_)
    by_cases hspent : record.spentAt = none
    · rw [hspent, if_pos rfl]
      obtain ⟨-, hwritten, -⟩ := h.kept tokenHash record hlive
      refine .next (hset_hash hkey) (.pure ⟨rfl, rfl, ?_⟩)
      have hspent' : Written { record with spentAt := some at_ } :=
        { hwritten with spentAt := fun _ heq => Option.some.inj heq ▸ hat }
      exact h.write hlive hspent' rfl rfl rfl
    · have hsame : Function.update live tokenHash (some record) = live := by
        rw [← hlive, Function.update_eq_self]
      rw [if_neg (by simpa [stampOf_eq_nil] using hspent), if_neg hspent, hsame]
      exact .pure ⟨rfl, rfl, h⟩

theorem toInt64_decimal {n : ℕ} (h : n < 2 ^ 63) : toInt64 (decimal n) = some (n : ℤ) := by
  have hsign : (decimal n).head? ≠ some 45 := by
    intro hhead
    obtain ⟨rest, hrest⟩ := List.head?_eq_some_iff.mp hhead
    obtain ⟨hlow, -⟩ := mem_decimal (hrest ▸ List.mem_cons_self : (45 : CodeUnit) ∈ decimal n)
    exact absurd hlow (by decide)
  rw [toInt64, if_neg hsign, toNumber_decimal, if_pos ⟨isCount_decimal n, h⟩]

theorem hincrby_run {k field : Str} {fields : List (Str × Str)} {last : Option ℤ} {n : ℕ}
    (hkey : db.keys k = some ⟨.hash fields, last⟩)
    (hget : Insertion.get fields field = some (decimal n)) (hn : n + 1 < 2 ^ 63) :
    hincrby k field db =
      (.ok (), db.put k (some ⟨.hash (putAll fields [(field, decimal (n + 1))]), last⟩)) := by
  rw [hincrby, bind_ok (hget_hash hkey), hget, Option.getD_some, toInt64_decimal (by omega)]
  have hlater : (n : ℤ) + 1 < 2 ^ 63 := by exact_mod_cast hn
  change (if (n : ℤ) + 1 < 2 ^ 63 then hset k [(field, stamp (n + 1))] else _) db = _
  rw [if_pos hlater, hset_hash hkey]
  rfl

/-- **An attempt is counted in one step**, and answered with it. -/
theorem countAttempt (h : Keeps p userOf db live) (tokenHash : Str) (kind : TokenKind)
    (hbelow : ∀ record, live tokenHash = some record → record.attempts < maxSafeInteger) :
    After (Redis.countAttempt p tokenHash (kindText kind)) db (fun reply db' =>
      reply = ((live tokenHash).filter (·.kind = kind)).map (fun stored =>
        tokenHashOf stored.counted) ∧ db'.now = db.now ∧
        Keeps p userOf db' (rewritten live tokenHash kind (·.counted))) fun _ _ => False := by
  obtain ⟨hnone, value, hrun, hne⟩ | ⟨record, hlive, hkind, hkey⟩ := h.cases_kind tokenHash kind
  · refine .next hrun ?_
    rw [if_pos hne, hnone, rewritten_of_none hnone]
    exact .pure ⟨rfl, rfl, h⟩
  · refine .next (kind_eq hkey) ?_
    rw [if_neg (not_not_intro (by rw [hkind])), hlive, Option.filter_some,
      if_pos (decide_eq_true hkind), rewritten_of_some hlive hkind, Option.map_some,
      TokenRecord.counted]
    refine .next (spentAt_eq hkey) ?_
    by_cases hspent : record.spentAt = none
    · rw [if_pos (congrArg some (stampOf_eq_nil.mpr hspent)), if_pos hspent]
      obtain ⟨-, hwritten, -⟩ := h.kept tokenHash record hlive
      have hcount := hbelow record hlive
      have hcounted : Written { record with attempts := record.attempts + 1 } :=
        { hwritten with attempts := hcount }
      refine .next (hincrby_run hkey rfl ?_) ?_
      · rw [maxSafeInteger] at hcount
        omega
      · exact .of_run (map_ok (hgetall_hash (put_keys.trans (if_pos rfl))))
          ⟨rfl, rfl, h.write hlive hcounted rfl rfl rfl⟩
    · have hsame : Function.update live tokenHash (some record) = live := by
        rw [← hlive, Function.update_eq_self]
      rw [if_neg (by simpa [stampOf_eq_nil] using hspent), if_neg hspent, hsame]
      exact .of_run (map_ok (hgetall_hash hkey)) ⟨rfl, rfl, h⟩

/-! ### The tokens of a user -/

/-- Who is listed is the user's, and who of the user is there is listed. -/
theorem members (h : Keeps p userOf db live) (userId : Str) :
    ∃ members, smembers (tokensKey p userId) db = (.ok members, db) ∧ members.Nodup ∧
      (∀ tokenHash ∈ members, userOf tokenHash = userId) ∧
      ∀ tokenHash record, live tokenHash = some record → record.userId = userId →
        tokenHash ∈ members := by
  cases hset : db.keys (tokensKey p userId) with
  | none =>
    refine ⟨[], smembers_none hset, List.nodup_nil, nofun, fun tokenHash record hlive huser => ?_⟩
    obtain ⟨-, -, -, hown, -⟩ := h.kept tokenHash record hlive
    obtain ⟨_, _, heq, -⟩ := h.listed tokenHash record hlive
    rw [← hown, huser, hset] at heq
    cases heq
  | some e =>
    obtain ⟨members, until_, rfl, -, hnodup, hown⟩ := h.sets userId e hset
    refine ⟨_, smembers_set hset, (db.arranged members).nodup_iff.mpr hnodup,
      fun tokenHash hmem => hown tokenHash (mem_arrange.mp hmem),
      fun tokenHash record hlive huser => ?_⟩
    obtain ⟨-, -, -, hown, -⟩ := h.kept tokenHash record hlive
    obtain ⟨_, _, heq, hmem, -⟩ := h.listed tokenHash record hlive
    rw [← hown, huser, hset] at heq
    cases heq
    exact mem_arrange.mpr hmem

/-- What some members spent leave. -/
def spentOf (live : Str → Option TokenRecord) (userId : Str) (kind : TokenKind) (at_ : Time)
    (except : Option Str) (done : List Str) (tokenHash : Str) : Option TokenRecord :=
  (live tokenHash).map fun stored =>
    if tokenHash ∈ done ∧ stored.isOf userId kind except then stored.spent at_ else stored

/-- Whether a token is spent with its user's others. -/
def spends (live : Str → Option TokenRecord) (userId : Str) (kind : TokenKind)
    (except : Option Str) (tokenHash : Str) : Bool :=
  (live tokenHash).any fun stored => stored.isOf userId kind except ∧ stored.spentAt = none

theorem spendMember {userId : Str} {except : Option Str} {done : List Str} {spent : ℕ}
    (hat : at_ ≤ lastMoment) (hof : userOf tokenHash = userId) (hnew : tokenHash ∉ done)
    (h : Keeps p userOf db (spentOf live userId kind at_ except done)) :
    After (Redis.spendMember p (kindText kind) (stamp at_) (except.getD []) spent tokenHash) db
      (fun spent' db' => spent' = spent + (spends live userId kind except tokenHash).toNat ∧
        db'.now = db.now ∧
        Keeps p userOf db' (spentOf live userId kind at_ except (done ++ [tokenHash])))
      fun _ _ => False := by
  have hhere : spentOf live userId kind at_ except done tokenHash = live tokenHash := by
    rw [spentOf]
    cases live tokenHash with
    | none => rfl
    | some stored => rw [Option.map_some, if_neg fun hdone => hnew hdone.1]
  have hother : ∀ live' : Str → Option TokenRecord,
      live' tokenHash = (live tokenHash).map (fun stored =>
        if stored.isOf userId kind except then stored.spent at_ else stored) →
      (∀ hash ≠ tokenHash, live' hash = spentOf live userId kind at_ except done hash) →
      live' = spentOf live userId kind at_ except (done ++ [tokenHash]) := by
    intro live' hself hne
    funext hash
    by_cases hsame : hash = tokenHash
    · subst hsame
      simp [hself, spentOf]
    · rw [hne hash hsame, spentOf, spentOf]
      simp [hsame]
  -- a token that is left as it is
  have hleft : (∀ stored, live tokenHash = some stored →
      stored.isOf userId kind except = false ∨ stored.spentAt ≠ none) →
      spends live userId kind except tokenHash = false ∧
        Keeps p userOf db (spentOf live userId kind at_ except (done ++ [tokenHash])) := by
    intro hstays
    constructor
    · cases hlive : live tokenHash with
      | none => simp [spends, hlive]
      | some stored =>
        obtain hnot | hspent := hstays stored hlive
        · simp [spends, hlive, hnot]
        · simp [spends, hlive, hspent]
    · rw [← hother _ (hhere.trans ?_) fun _ _ => rfl]
      · exact h
      · cases hlive : live tokenHash with
        | none => rfl
        | some stored =>
          obtain hnot | hspent := hstays stored hlive
          · rw [Option.map_some, hnot, if_neg Bool.false_ne_true]
          · rw [Option.map_some, TokenRecord.spent, if_neg hspent, ite_self]
  by_cases hexcept : tokenHash = except.getD []
  · have hnot : ∀ stored, live tokenHash = some stored → stored.isOf userId kind except = false := by
      intro stored hlive
      obtain ⟨hsame, -, hne, -⟩ := h.kept tokenHash stored (hhere.trans hlive)
      cases except with
      | none => exact absurd hexcept hne
      | some hash => simp [TokenRecord.isOf, hsame, hexcept]
    obtain ⟨hcount, hkeeps⟩ := hleft fun stored hlive => Or.inl (hnot stored hlive)
    rw [Redis.spendMember, if_pos hexcept, hcount]
    exact .pure ⟨rfl, rfl, hkeeps⟩
  · rw [Redis.spendMember, if_neg hexcept]
    obtain ⟨hnone, value, hrun, hne⟩ | ⟨record, hlive, hkind, hkey⟩ := h.cases_kind tokenHash kind
    · have hnot : ∀ stored, live tokenHash = some stored →
          stored.isOf userId kind except = false := by
        intro stored hlive
        rw [hhere, hlive, Option.filter_eq_none_iff] at hnone
        have hkind := hnone stored rfl
        simp only [decide_eq_true_eq] at hkind
        simp [TokenRecord.isOf, hkind]
      obtain ⟨hcount, hkeeps⟩ := hleft fun stored hlive => Or.inl (hnot stored hlive)
      refine .next hrun ?_
      rw [if_pos hne, hcount]
      exact .pure ⟨rfl, rfl, hkeeps⟩
    · refine .next (kind_eq hkey) ?_
      rw [if_neg (not_not_intro (by rw [hkind]))]
      refine .next (spentAt_eq hkey) ?_
      obtain ⟨hsame, hwritten, -, huser, -⟩ := h.kept tokenHash record hlive
      have hisOf : record.isOf userId kind except = true := by
        refine decide_eq_true ⟨?_, huser.trans hof, hkind⟩
        rw [hsame]
        rintro rfl
        exact hexcept rfl
      by_cases hspent : record.spentAt = none
      · rw [if_pos (congrArg some (stampOf_eq_nil.mpr hspent))]
        have hspent' : Written { record with spentAt := some at_ } :=
          { hwritten with spentAt := fun _ heq => Option.some.inj heq ▸ hat }
        refine .next (hset_hash hkey) (.pure ⟨?_, rfl, ?_⟩)
        · simp [spends, ← hhere, hlive, hisOf, hspent]
        · rw [← hother (Function.update _ tokenHash (some { record with spentAt := some at_ })) ?_
            fun _ hne => Function.update_of_ne hne ..]
          · exact h.write hlive hspent' rfl rfl rfl
          · rw [Function.update_self, ← hhere, hlive, Option.map_some, if_pos hisOf,
              TokenRecord.spent, if_pos hspent]
      · obtain ⟨hcount, hkeeps⟩ := hleft fun stored hstored =>
          Or.inr (Option.some.inj ((hhere.trans hstored).symm.trans hlive) ▸ hspent)
        rw [if_neg (by simpa [stampOf_eq_nil] using hspent), hcount]
        exact .pure ⟨rfl, rfl, hkeeps⟩

/-- **Every other unspent token of a kind is spent with its user's**, and counted. -/
theorem spendUserTokens (h : Keeps p userOf db live) (userId : Str) (kind : TokenKind)
    (hat : at_ ≤ lastMoment) (except : Option Str) {hashes : List Str} (hhashes : hashes.Nodup)
    (hall : ∀ tokenHash, tokenHash ∈ hashes ↔ (live tokenHash).isSome) :
    After (Redis.spendUserTokens p userId (kindText kind) (stamp at_) (except.getD [])) db
      (fun spent db' => spent = hashes.countP (spends live userId kind except) ∧
        db'.now = db.now ∧ Keeps p userOf db' fun tokenHash => (live tokenHash).map fun stored =>
          if stored.isOf userId kind except then stored.spent at_ else stored)
      fun _ _ => False := by
  obtain ⟨members, hrun, hnodup, hown, hlisted⟩ := h.members userId
  refine .next hrun ((After.foldlM_split (P := fun done spent db' =>
    spent = done.countP (spends live userId kind except) ∧ db'.now = db.now ∧
      Keeps p userOf db' (spentOf live userId kind at_ except done)) ?_ ?_).mono ?_ fun _ _ h => h)
  · have hsame : spentOf live userId kind at_ except [] = live := by
      funext tokenHash
      simp [spentOf]
    exact ⟨rfl, rfl, hsame.symm ▸ h⟩
  · rintro done tokenHash rest spent db' hsplit ⟨rfl, hnow, hkeeps⟩
    have hnew : tokenHash ∉ done := fun hdone => by
      rw [hsplit] at hnodup
      exact List.disjoint_of_nodup_append hnodup hdone List.mem_cons_self
    have hof : userOf tokenHash = userId :=
      hown tokenHash (hsplit ▸ List.mem_append_right _ List.mem_cons_self)
    refine (spendMember hat hof hnew hkeeps).mono (fun spent' db'' ⟨hcount, hnow', hkeeps'⟩ =>
      ⟨?_, hnow'.trans hnow, hkeeps'⟩) fun _ _ h => h
    rw [hcount, List.countP_append, List.countP_singleton]
    cases spends live userId kind except tokenHash <;> rfl
  · rintro spent db' ⟨rfl, hnow, hkeeps⟩
    have hmembers : ∀ tokenHash stored, live tokenHash = some stored →
        stored.isOf userId kind except → tokenHash ∈ members := fun tokenHash stored hlive hisOf =>
      hlisted tokenHash stored hlive (of_decide_eq_true hisOf).2.1
    refine ⟨countP_eq_of_nodup hnodup hhashes fun tokenHash hcounted => ?_, hnow, ?_⟩
    · obtain ⟨stored, hlive, hspends⟩ := (Option.any_eq_true ..).mp hcounted
      exact iff_of_true (hmembers tokenHash stored hlive (of_decide_eq_true hspends).1)
        ((hall tokenHash).mpr (hlive ▸ rfl))
    · have hsame : spentOf live userId kind at_ except members = fun tokenHash =>
          (live tokenHash).map fun stored =>
            if stored.isOf userId kind except then stored.spent at_ else stored := by
        funext tokenHash
        rw [spentOf]
        cases hlive : live tokenHash with
        | none => rfl
        | some stored =>
          by_cases hisOf : stored.isOf userId kind except = true
          · simp [hisOf, hmembers tokenHash stored hlive hisOf]
          · simp [hisOf]
      exact hsame ▸ hkeeps

/-- What some members deleted leave. -/
def leftOf (live : Str → Option TokenRecord) (done : List Str) (tokenHash : Str) :
    Option TokenRecord := if tokenHash ∈ done then none else live tokenHash

/-- **Every token of the user is deleted**, and counted. -/
theorem deleteUserTokens (h : Keeps p userOf db live) (userId : Str) {hashes : List Str}
    (hhashes : hashes.Nodup) (hall : ∀ tokenHash, tokenHash ∈ hashes ↔ (live tokenHash).isSome) :
    After (Redis.deleteUserTokens p userId) db (fun deleted db' =>
      deleted = hashes.countP (fun tokenHash => (live tokenHash).any (·.userId = userId)) ∧
        db'.now = db.now ∧
        Keeps p userOf db' fun tokenHash => (live tokenHash).filter (·.userId ≠ userId))
      fun _ _ => False := by
  obtain ⟨members, hrun, hnodup, hown, hlisted⟩ := h.members userId
  refine .next hrun (.seq (After.foldlM_split (P := fun done deleted db' =>
    deleted = done.countP (fun tokenHash => (live tokenHash).isSome) ∧ db'.now = db.now ∧
      Keeps p userOf db' (leftOf live done)) ?_ ?_) ?_)
  · have hsame : leftOf live [] = live := by
      funext tokenHash
      simp [leftOf]
    exact ⟨rfl, rfl, hsame ▸ h⟩
  · rintro done tokenHash rest deleted db' hsplit ⟨rfl, hnow, hkeeps⟩
    have hnew : tokenHash ∉ done := fun hdone => by
      rw [hsplit] at hnodup
      exact List.disjoint_of_nodup_append hnodup hdone List.mem_cons_self
    refine .next del_run (.pure ⟨?_, hnow, ?_⟩)
    · rw [hkeeps.hash tokenHash, leftOf, if_neg hnew, List.countP_append, List.countP_singleton]
      cases live tokenHash <;> rfl
    · have hsame : Function.update (leftOf live done) tokenHash none =
          leftOf live (done ++ [tokenHash]) := by
        funext hash
        rw [Function.update_apply, leftOf, leftOf]
        by_cases hsame : hash = tokenHash <;> simp [hsame]
      exact hsame ▸ hkeeps.removed
  · rintro deleted db' ⟨rfl, hnow, hkeeps⟩
    have hof : ∀ tokenHash stored, live tokenHash = some stored →
        (tokenHash ∈ members ↔ stored.userId = userId) := by
      intro tokenHash stored hlive
      obtain ⟨-, -, -, huser, -⟩ := h.kept tokenHash stored hlive
      exact ⟨fun hmem => huser.trans (hown tokenHash hmem), hlisted tokenHash stored hlive⟩
    have hsame : leftOf live members = fun tokenHash =>
        (live tokenHash).filter (·.userId ≠ userId) := by
      funext tokenHash
      rw [leftOf]
      cases hlive : live tokenHash with
      | none => simp
      | some stored =>
        by_cases huser : stored.userId = userId
        · simp [Option.filter_some, huser, (hof tokenHash stored hlive).mpr huser]
        · simp [Option.filter_some, huser, (hof tokenHash stored hlive).not.mpr huser]
    refine .next del_run (.pure ⟨?_, hnow, ?_⟩)
    · have hcounts : ∀ tokenHash ∈ members,
          (live tokenHash).isSome = (live tokenHash).any (·.userId = userId) := by
        intro tokenHash hmem
        cases hlive : live tokenHash with
        | none => rfl
        | some stored => simp [(hof tokenHash stored hlive).mp hmem]
      rw [List.countP_congr fun tokenHash hmem => by rw [hcounts tokenHash hmem]]
      refine countP_eq_of_nodup hnodup hhashes fun tokenHash hcounted => ?_
      obtain ⟨stored, hlive, huser⟩ := (Option.any_eq_true ..).mp hcounted
      exact iff_of_true ((hof tokenHash stored hlive).mpr (of_decide_eq_true huser))
        ((hall tokenHash).mpr (hlive ▸ rfl))
    · rw [← hsame]
      refine hkeeps.delisted fun tokenHash stored hlive heq => ?_
      rw [leftOf] at hlive
      split at hlive
      case isTrue => cases hlive
      case isFalse hout =>
        obtain ⟨-, -, -, huser, -⟩ := h.kept tokenHash stored hlive
        exact hout ((hof tokenHash stored hlive).mpr (huser.trans heq))

/-! ### A token inserted, and what time takes -/

/-- **A new token is kept as it is given**, and one inserted again is left as it is. -/
theorem insertToken (h : Keeps p userOf db live) (hwritten : Written record)
    (hne : record.tokenHash ≠ []) (huser : record.userId = userOf record.tokenHash)
    (hlater : db.now < record.expiresAt) :
    After (Redis.insertToken p record.tokenHash (kindText record.kind) record.userId record.address
        record.expiresAt (stampOf record.spentAt) (stamp record.createdAt)
        (record.codeHash.getD []) (decimal record.attempts)) db
      (fun _ db' => db'.now = db.now ∧ Keeps p userOf db' (if (live record.tokenHash).isSome then
        live else Function.update live record.tokenHash (some record))) fun _ _ => False := by
  have hkey := h.hash record.tokenHash
  refine .next existsKey_run ?_
  cases hlive : live record.tokenHash with
  | some stored =>
    rw [hkey, hlive]
    exact .pure ⟨rfl, h⟩
  | none =>
    rw [hlive, Option.map_none] at hkey
    rw [hkey]
    refine .next (hset_none hkey) (.next (pexpireat_some (put_keys.trans (if_pos rfl))) ?_)
    rw [put_now, Keyspace.Entry.until, if_neg (not_le.mpr hlater), put_put]
    let kept := db.put (tokenKey p record.tokenHash) (some (tokenEntry record))
    have hset : ∀ userId, Db.keys kept (tokensKey p userId) = db.keys (tokensKey p userId) :=
      fun userId => put_keys.trans (if_neg tokenKey_ne_tokensKey.symm)
    have henlists : Enlists kept.now (userOf · = record.userId)
        (kept.keys (tokensKey p record.userId)) := hset _ ▸ h.sets record.userId
    refine .seq (henlists.prune fun _ => tokenKey_ne_tokensKey) fun _ db₁ hpruned => ?_
    obtain ⟨haway₁, henlists₁, hlists₁⟩ := hpruned
    rw [← haway₁.1] at henlists₁
    refine .seq₂ (henlists₁.enlist (show userOf record.tokenHash = record.userId from huser.symm)
      (haway₁.1 ▸ hlater)) fun _ db₂ henlisted => ?_
    obtain ⟨haway₂, henlists₂, hlisted, hlists₂⟩ := henlisted
    have haway : Away (tokensKey p record.userId) kept db₂ := haway₁.trans haway₂
    have hkeys : ∀ tokenHash, db₂.keys (tokenKey p tokenHash) =
        if tokenHash = record.tokenHash then some (tokenEntry record)
        else db.keys (tokenKey p tokenHash) := by
      intro tokenHash
      rw [haway.2 _ tokenKey_ne_tokensKey, put_keys]
      simp only [tokenKey_inj]
    refine .pure ⟨haway.1, ⟨fun tokenHash => ?_, fun tokenHash stored hstored => ?_,
      fun tokenHash stored hstored => ?_, fun userId => ?_⟩⟩
    · rw [hkeys]
      change _ = (Function.update live record.tokenHash (some record) tokenHash).map tokenEntry
      rw [Function.update_apply]
      split
      · rfl
      · exact h.hash tokenHash
    · change Function.update live record.tokenHash (some record) tokenHash = some stored at hstored
      rw [Function.update_apply] at hstored
      rw [haway.1]
      split at hstored
      case isTrue heq =>
        cases hstored
        subst heq
        exact ⟨rfl, hwritten, hne, huser, hlater.le⟩
      case isFalse => exact h.kept tokenHash stored hstored
    · change Function.update live record.tokenHash (some record) tokenHash = some stored at hstored
      rw [Function.update_apply] at hstored
      split at hstored
      case isTrue heq =>
        cases hstored
        subst heq
        exact huser ▸ hlisted
      case isFalse hother =>
        have hlists := h.listed tokenHash stored hstored
        by_cases hsame : userOf tokenHash = record.userId
        · rw [hsame] at hlists ⊢
          refine hlists₂ _ _ (hlists₁ _ _ ?_ ((hset _).symm ▸ hlists))
          change Db.keys kept (tokenKey p tokenHash) ≠ none
          rw [put_keys, if_neg (by simpa using hother), h.hash, hstored]
          exact Option.some_ne_none _
        · rw [haway.2 _ (by simpa using hsame), hset]
          exact hlists
    · rw [haway.1]
      by_cases hsame : userId = record.userId
      · subst hsame
        rw [haway₁.1] at henlists₂
        exact henlists₂
      · rw [haway.2 _ (by simpa using hsame), hset]
        exact h.sets userId

/-- **Time takes the tokens that lapsed**, and nothing else. -/
theorem tick (h : Keeps p userOf db live) (elapsed : ℕ) :
    Keeps p userOf (db.tick elapsed) fun tokenHash => (live tokenHash).filter fun stored =>
      db.now + elapsed ≤ stored.expiresAt where
  hash tokenHash := by
    change (db.keys (tokenKey p tokenHash)).filter _ = _
    rw [h.hash tokenHash]
    cases live tokenHash with
    | none => rfl
    | some stored =>
      rw [Option.map_some, Option.filter_some, Option.filter_some]
      change (if decide (db.now + elapsed ≤ (stored.expiresAt : ℤ)) = true then _ else _) = _
      split <;> rfl
  kept tokenHash stored hlive := by
    obtain ⟨hlive, hlasts⟩ := Option.filter_eq_some_iff.mp hlive
    obtain ⟨hsame, hwritten, hne, huser, -⟩ := h.kept tokenHash stored hlive
    exact ⟨hsame, hwritten, hne, huser, of_decide_eq_true hlasts⟩
  listed tokenHash stored hlive := by
    obtain ⟨hlive, hlasts⟩ := Option.filter_eq_some_iff.mp hlive
    obtain ⟨members, until_, heq, hmem, hle⟩ := h.listed tokenHash stored hlive
    refine ⟨members, until_, ?_, hmem, hle⟩
    exact Option.filter_eq_some_iff.mpr
      ⟨heq, decide_eq_true ((of_decide_eq_true hlasts).trans hle)⟩
  sets userId e heq := by
    obtain ⟨heq, halive⟩ := Option.filter_eq_some_iff.mp heq
    obtain ⟨members, until_, rfl, -, hnodup, hown⟩ := h.sets userId e heq
    exact ⟨members, until_, rfl, of_decide_eq_true halive, hnodup, hown⟩

/-- Keys of other stores may change. -/
theorem framed (h : Keeps p userOf db live) (hnow : db'.now = db.now)
    (htoken : ∀ tokenHash, db'.keys (tokenKey p tokenHash) = db.keys (tokenKey p tokenHash))
    (hset : ∀ userId, db'.keys (tokensKey p userId) = db.keys (tokensKey p userId)) :
    Keeps p userOf db' live where
  hash tokenHash := (htoken tokenHash).trans (h.hash tokenHash)
  kept tokenHash stored hlive := hnow ▸ h.kept tokenHash stored hlive
  listed tokenHash stored hlive := hset _ ▸ h.listed tokenHash stored hlive
  sets userId := hnow ▸ hset userId ▸ h.sets userId

end Keeps

end Janus.Redis
