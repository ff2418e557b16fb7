import Janus.Redis.Scripts

/-!
# Redis/Sessions — a session that stands is listed and named for as long

A session is three keys that expire apart: its hash, its token's key and its user's set.  `Indexed`
is what every script and the passing of time keep: wherever a hash is, the set lists it and the
token's key names it, and neither goes before it does (`indexed_steps`).  So a script that reads the
set misses no session.
-/

namespace Janus.Redis

open Js Keyspace

variable {p id userId tokenHash at_ : Str} {db db' : Db Str} {skip : Option Str}

/-! ## The invariant -/

/-- An id no token's key has: what a session is inserted under. -/
def Minted (id : Str) : Prop := id ≠ [] ∧ ∀ tokenHash, id ≠ js "token:" ++ tokenHash

/-- A set that lists an id up to a time, or longer. -/
def Lists (e : Option (Entry Str)) (id : Str) (last : ℤ) : Prop :=
  ∃ members until_, e = some ⟨.set members, some until_⟩ ∧ id ∈ members ∧ last ≤ until_

/-- A text that names an id up to a time, or longer. -/
def Names (e : Option (Entry Str)) (id : Str) (last : ℤ) : Prop :=
  ∃ until_, e = some ⟨.text id, some until_⟩ ∧ last ≤ until_

/-- A session's hash, its token's key and its user's set. -/
structure Held (p : Str) (db : Db Str) (id : Str) (fields : List (Str × Str)) (last : ℤ) where
  tokenHash : Str
  userId : Str
  revokedAt : Str
  tokenHash_eq : Insertion.get fields (js "tokenHash") = some tokenHash
  userId_eq : Insertion.get fields (js "userId") = some userId
  revokedAt_eq : Insertion.get fields (js "revokedAt") = some revokedAt
  named : Names (db.keys (sessionTokenKey p tokenHash)) id last
  listed : Lists (db.keys (sessionsKey p userId)) id last

/-- A user's set: it still lasts, and lists minted ids. -/
def Listing (now : ℤ) (e : Option (Entry Str)) : Prop :=
  ∀ e', e = some e' → ∃ members until_, e' = ⟨.set members, some until_⟩ ∧ now ≤ until_ ∧
    ∀ id ∈ members, Minted id

/-- **Every session is listed and named for as long as its hash**, but for the one a script is at.
-/
structure Indexed (p : Str) (db : Db Str) (skip : Option Str) : Prop where
  clock : 0 ≤ db.now
  standing : ∀ id e, some id ≠ skip → Minted id → db.keys (sessionKey p id) = some e →
    ∃ fields last, e = ⟨.hash fields, some last⟩ ∧ Nonempty (Held p db id fields last)
  blank : db.keys (sessionKey p []) = none
  token : ∀ tokenHash e, db.keys (sessionTokenKey p tokenHash) = some e →
    ∃ id last, e = ⟨.text id, last⟩ ∧ Minted id
  user : ∀ userId, Listing db.now (db.keys (sessionsKey p userId))

theorem Minted.ne_token (h : Minted id) : sessionTokenKey p tokenHash ≠ sessionKey p id := by
  rw [sessionTokenKey_eq, Ne, sessionKey_inj]
  exact (h.2 tokenHash).symm

theorem sessionTokenKey_ne_sessionsKey : sessionTokenKey p tokenHash ≠ sessionsKey p userId :=
  sessionTokenKey_eq ▸ sessionKey_ne_sessionsKey

namespace Indexed

theorem weaken (h : Indexed p db none) : Indexed p db skip :=
  { h with standing := fun id e _ => h.standing id e (Option.some_ne_none id) }

/-- The session a script is at may be written as it will. -/
theorem put_session (h : Indexed p db (some id)) (hid : Minted id) (e : Option (Entry Str)) :
    Indexed p (db.put (sessionKey p id) e) (some id) where
  clock := h.clock
  standing id' e' hne hid' hkey := by
    rw [put_keys, if_neg (by simpa using hne)] at hkey
    obtain ⟨fields, last, rfl, held⟩ := h.standing id' e' hne hid' hkey
    refine ⟨fields, last, rfl, held.map fun held => { held with named := ?_, listed := ?_ }⟩
    · rw [put_keys, if_neg hid.ne_token]
      exact held.named
    · rw [put_keys, if_neg (by simp)]
      exact held.listed
  blank := by
    rw [put_keys, if_neg (by simpa using hid.1.symm)]
    exact h.blank
  token tokenHash e' hkey := by
    rw [put_keys, if_neg hid.ne_token] at hkey
    exact h.token tokenHash e' hkey
  user userId := by
    rw [put_keys, if_neg (by simp)]
    exact h.user userId

/-- …and so may the token's key that names it, or nothing. -/
theorem put_token (h : Indexed p db (some id)) (hid : Minted id) {e : Option (Entry Str)}
    (hold : ∀ e', db.keys (sessionTokenKey p tokenHash) = some e' → e'.value = .text id)
    (hnew : ∀ e', e = some e' → e'.value = .text id) :
    Indexed p (db.put (sessionTokenKey p tokenHash) e) (some id) where
  clock := h.clock
  standing id' e' hne hid' hkey := by
    rw [put_keys, if_neg hid'.ne_token.symm] at hkey
    obtain ⟨fields, last, rfl, held⟩ := h.standing id' e' hne hid' hkey
    refine ⟨fields, last, rfl, held.map fun held => { held with named := ?_, listed := ?_ }⟩
    · rw [put_keys, if_neg ?_]
      · exact held.named
      · intro heq
        obtain ⟨until_, hname, -⟩ := held.named
        rw [heq] at hname
        have hsame : Value.text id' = .text id := hold _ hname
        exact hne (by rw [Value.text.inj hsame])
    · rw [put_keys, if_neg sessionTokenKey_ne_sessionsKey.symm]
      exact held.listed
  blank := by
    rw [put_keys, if_neg (fun heq => ?_)]
    · exact h.blank
    · rw [sessionTokenKey_eq, sessionKey_inj] at heq
      exact absurd heq.symm (List.append_ne_nil_of_left_ne_nil (by decide) _)
  token tokenHash' e' hkey := by
    rw [put_keys] at hkey
    split at hkey
    case isTrue => exact ⟨id, e'.expiresAt, by rw [← hnew e' hkey], hid⟩
    case isFalse => exact h.token tokenHash' e' hkey
  user userId := by
    rw [put_keys, if_neg sessionTokenKey_ne_sessionsKey.symm]
    exact h.user userId

/-- A user's set may be written so that what it lists of the sessions that stand it lists still. -/
theorem relist (h : Indexed p db skip) (haway : Away (sessionsKey p userId) db db')
    (hlisting : Listing db.now (db'.keys (sessionsKey p userId)))
    (hkeep : ∀ id last, db.keys (sessionKey p id) ≠ none →
      Lists (db.keys (sessionsKey p userId)) id last →
      Lists (db'.keys (sessionsKey p userId)) id last) : Indexed p db' skip where
  clock := haway.1.symm ▸ h.clock
  standing id e hne hid hkey := by
    rw [haway.2 _ sessionKey_ne_sessionsKey] at hkey
    obtain ⟨fields, last, rfl, held⟩ := h.standing id e hne hid hkey
    refine ⟨fields, last, rfl, held.map fun held => { held with named := ?_, listed := ?_ }⟩
    · rw [haway.2 _ sessionTokenKey_ne_sessionsKey]
      exact held.named
    · by_cases hu : held.userId = userId
      · rw [hu]
        exact hkeep id last (hkey ▸ Option.some_ne_none _) (hu ▸ held.listed)
      · rw [haway.2 _ (by simpa using hu)]
        exact held.listed
  blank := (haway.2 _ sessionKey_ne_sessionsKey).trans h.blank
  token tokenHash e hkey := by
    rw [haway.2 _ sessionTokenKey_ne_sessionsKey] at hkey
    exact h.token tokenHash e hkey
  user userId' := by
    rw [haway.1]
    by_cases hu : userId' = userId
    · exact hu ▸ hlisting
    · rw [haway.2 _ (by simpa using hu)]
      exact h.user userId'

/-- A script leaves a session listed and named, or gone. -/
theorem settle (h : Indexed p db (some id))
    (hheld : ∀ e, db.keys (sessionKey p id) = some e →
      ∃ fields last, e = ⟨.hash fields, some last⟩ ∧ Nonempty (Held p db id fields last)) :
    Indexed p db none :=
  { h with
    standing := fun id' e _ hid' hkey => by
      by_cases hne : id' = id
      · exact hheld e (hne ▸ hkey) |>.imp fun _ => fun ⟨last, heq, held⟩ => ⟨last, heq, hne ▸ held⟩
      · exact h.standing id' e (by simpa using hne) hid' hkey }

theorem settle_none (h : Indexed p db (some id)) (hgone : db.keys (sessionKey p id) = none) :
    Indexed p db none :=
  h.settle fun e hkey => absurd (hgone.symm.trans hkey) (Option.some_ne_none e).symm

/-- **Time takes a hash no later than what lists and names it.** -/
theorem tick (h : Indexed p db none) (elapsed : ℕ) : Indexed p (db.tick elapsed) none where
  clock := Int.add_nonneg h.clock (Int.natCast_nonneg elapsed)
  standing id e hne hid hkey := by
    obtain ⟨hkey, halive⟩ := Option.filter_eq_some_iff.mp hkey
    obtain ⟨fields, last, rfl, held⟩ := h.standing id e hne hid hkey
    have hlast : db.now + elapsed ≤ last := by simpa [Entry.alive] using halive
    refine ⟨fields, last, rfl, held.map fun held => { held with named := ?_, listed := ?_ }⟩
    · obtain ⟨until_, hname, hle⟩ := held.named
      refine ⟨until_, Option.filter_eq_some_iff.mpr ⟨hname, ?_⟩, hle⟩
      simpa [Entry.alive] using hlast.trans hle
    · obtain ⟨members, until_, hset, hmem, hle⟩ := held.listed
      refine ⟨members, until_, Option.filter_eq_some_iff.mpr ⟨hset, ?_⟩, hmem, hle⟩
      simpa [Entry.alive] using hlast.trans hle
  blank := Option.filter_eq_none_iff.mpr fun e hkey => absurd (h.blank.symm.trans hkey) (by simp)
  token tokenHash e hkey := h.token tokenHash e (Option.filter_eq_some_iff.mp hkey).1
  user userId e hkey := by
    obtain ⟨hkey, halive⟩ := Option.filter_eq_some_iff.mp hkey
    obtain ⟨members, until_, rfl, -, hmembers⟩ := h.user userId e hkey
    exact ⟨members, until_, rfl, by simpa [Entry.alive, Db.tick] using halive, hmembers⟩

end Indexed

/-! ## What the scripts share -/

section Shared

variable {last : ℤ} {Q : Unit → Db Str → Prop} {F : Fault Str → Db Str → Prop}
  {members : List Str}

/-- A set that expires at no time is given one. -/
theorem extendSet_lasting {k : Str} {value : Value Str} (hkey : db.keys k = some ⟨value, none⟩) :
    After (extendSet k last) db
      (fun _ db' => Away k db db' ∧ db'.keys k = Entry.until ⟨value, none⟩ last db.now) F :=
  .next (pttl_lasting hkey) (.of_run (pexpireat_some hkey) ⟨put_away, put_keys.trans (if_pos rfl)⟩)

/-- A set that still lasts lasts the longer of the two. -/
theorem extendSet_some {k : Str} {value : Value Str} {old : ℤ}
    (hkey : db.keys k = some ⟨value, some old⟩) (hlasts : db.now ≤ old) :
    After (extendSet k last) db
      (fun _ db' => Away k db db' ∧ db'.keys k = some ⟨value, some (max old last)⟩) F := by
  refine .next (pttl_some hkey) ?_
  rw [if_neg (by omega)]
  by_cases hlater : old < last
  · refine .of_run ((pexpireatGt_some hkey).trans (if_pos hlater)) ⟨put_away, ?_⟩
    rw [put_keys, if_pos rfl, Entry.until, if_neg (by omega), max_eq_right hlater.le]
  · refine .of_run ((pexpireatGt_some hkey).trans (if_neg hlater)) ⟨.refl, ?_⟩
    rw [hkey, max_eq_left (not_lt.mp hlater)]

theorem lists_setEntry {until_ : ℤ} :
    Lists (setEntry members (some until_)) id last ↔ id ∈ members ∧ last ≤ until_ := by
  rw [setEntry]
  split
  case isTrue hnil =>
    refine ⟨fun ⟨_, _, heq, _⟩ => absurd heq.symm (Option.some_ne_none _), fun ⟨hmem, _⟩ => ?_⟩
    exact absurd (hnil ▸ hmem) List.not_mem_nil
  case isFalse =>
    refine ⟨fun ⟨_, _, heq, hmem, hle⟩ => ?_, fun ⟨hmem, hle⟩ => ⟨members, until_, rfl, hmem, hle⟩⟩
    obtain ⟨rfl, rfl⟩ : members = _ ∧ until_ = _ := by simpa using heq
    exact ⟨hmem, hle⟩

/-- **A session that is gone may be left out of a set.** -/
theorem Indexed.srem (h : Indexed p db skip) (hgone : db.keys (sessionKey p id) = none) :
    After (srem (sessionsKey p userId) id) db (fun _ db' => Indexed p db' skip ∧
      Away (sessionsKey p userId) db db' ∧ ∀ id last,
        Lists (db'.keys (sessionsKey p userId)) id last →
        Lists (db.keys (sessionsKey p userId)) id last) F := by
  cases hset : db.keys (sessionsKey p userId) with
  | none => exact .of_run (srem_none hset) ⟨h, .refl, fun _ _ hlists => hset ▸ hlists⟩
  | some e =>
    obtain ⟨members, until_, rfl, hlasts, hmembers⟩ := h.user userId e hset
    refine .of_run (srem_set hset) ⟨h.relist put_away ?_ ?_, put_away, ?_⟩
    · intro e' he'
      rw [put_keys, if_pos rfl, setEntry] at he'
      split at he'
      case isTrue => exact absurd he' (Option.some_ne_none _).symm
      case isFalse =>
        obtain rfl := Option.some.inj he'
        exact ⟨_, until_, rfl, hlasts, fun id hmem => hmembers id (List.mem_filter.mp hmem).1⟩
    · rintro id' last hstands ⟨_, _, heq, hmem, hle⟩
      obtain ⟨rfl, rfl⟩ : members = _ ∧ until_ = _ := by simpa using hset.symm.trans heq
      rw [put_keys, if_pos rfl, lists_setEntry]
      have hne : id' ≠ id := fun heq => hstands (heq ▸ hgone)
      exact ⟨List.mem_filter.mpr ⟨hmem, by simpa using hne⟩, hle⟩
    · intro id' last hlists
      rw [put_keys, if_pos rfl, lists_setEntry] at hlists
      exact ⟨members, until_, rfl, (List.mem_filter.mp hlists.1).1, hlists.2⟩

/-- **Pruning leaves out no session that stands.** -/
theorem Indexed.prune (h : Indexed p db skip) :
    After (prune (sessionsKey p userId) (p ++ js "session:")) db
      (fun _ db' => Indexed p db' skip ∧ Away (sessionsKey p userId) db db') F := by
  cases hset : db.keys (sessionsKey p userId) with
  | none => exact .next (smembers_none hset) (.pure ⟨h, .refl⟩)
  | some e =>
    obtain ⟨members, until_, rfl, -, -⟩ := h.user userId e hset
    refine .next (smembers_set hset) (After.foldlM (P := fun _ _ db' =>
      Indexed p db' skip ∧ Away (sessionsKey p userId) db db') ⟨h, .refl⟩ ?_)
    rintro done member - db' - ⟨h', haway⟩
    refine .next existsKey_run ?_
    change After (if !(db'.keys (sessionKey p member)).isSome then _ else _) _ _ _
    cases hkey : db'.keys (sessionKey p member) with
    | some e => exact .pure ⟨h', haway⟩
    | none =>
      refine (h'.srem hkey).mono (fun _ db'' hq => ⟨hq.1, haway.trans hq.2.1⟩) fun _ _ h => h

/-- **A session added to its user's set is listed for as long as it lasts**, and the others no
shorter. -/
theorem Indexed.enlist (h : Indexed p db skip) (hid : Minted id) :
    After (do sadd (sessionsKey p userId) id; extendSet (sessionsKey p userId) last) db
      (fun _ db' => Indexed p db' skip ∧ Away (sessionsKey p userId) db db' ∧
        (db.now < last → Lists (db'.keys (sessionsKey p userId)) id last)) F := by
  cases hset : db.keys (sessionsKey p userId) with
  | none =>
    refine .next (sadd_none hset) ((extendSet_lasting (put_keys.trans (if_pos rfl))).mono
      (fun _ db' ⟨haway, hkey⟩ => ?_) fun _ _ h => h)
    replace haway := put_away.trans haway
    rw [put_now, Entry.until] at hkey
    refine ⟨h.relist haway ?_ ?_, haway, ?_⟩
    · intro e' he'
      rw [hkey] at he'
      split at he'
      case isTrue => exact absurd he' (Option.some_ne_none _).symm
      case isFalse hlater =>
        obtain rfl := Option.some.inj he'
        exact ⟨[id], last, rfl, by omega, by simpa using hid⟩
    · rintro id' last' - ⟨_, _, heq, -⟩
      exact absurd (hset.symm.trans heq) (Option.some_ne_none _).symm
    · intro hlater
      rw [hkey, if_neg (by omega)]
      exact ⟨[id], last, rfl, List.mem_singleton_self id, le_rfl⟩
  | some e =>
    obtain ⟨members, until_, rfl, hlasts, hmembers⟩ := h.user userId e hset
    refine .next (sadd_set hset) ((extendSet_some (put_keys.trans (if_pos rfl)) hlasts).mono
      (fun _ db' ⟨haway, hkey⟩ => ?_) fun _ _ h => h)
    replace haway := put_away.trans haway
    refine ⟨h.relist haway ?_ ?_, haway, ?_⟩
    · intro e' he'
      obtain rfl := Option.some.inj (hkey.symm.trans he')
      refine ⟨_, _, rfl, hlasts.trans (le_max_left _ _), fun id' hmem => ?_⟩
      obtain hmem | rfl := Insertion.mem_add.mp hmem
      · exact hmembers id' hmem
      · exact hid
    · rintro id' last' - ⟨_, _, heq, hmem, hle⟩
      obtain ⟨rfl, rfl⟩ : members = _ ∧ until_ = _ := by simpa using hset.symm.trans heq
      exact ⟨_, _, hkey, Insertion.mem_add.mpr (Or.inl hmem), hle.trans (le_max_left _ _)⟩
    · intro _
      exact ⟨_, _, hkey, Insertion.mem_add.mpr (Or.inr rfl), le_max_right _ _⟩

end Shared

/-! ## The scripts -/

section Scripts

variable {last : ℤ} {except authenticatedAt revokedAt createdAt : Str}

/-- A session's fields but its token and its user may change. -/
def Held.write {fields : List (Str × Str)} (held : Held p db id fields last)
    (field value : Str) (htoken : field ≠ js "tokenHash") (huser : field ≠ js "userId") :
    Held p db id (Insertion.put fields field value) last :=
  { held with
    revokedAt := if field = js "revokedAt" then value else held.revokedAt
    tokenHash_eq := (Insertion.get_put_ne _ _ htoken).trans held.tokenHash_eq
    userId_eq := (Insertion.get_put_ne _ _ huser).trans held.userId_eq
    revokedAt_eq := by
      rw [Insertion.get_put, held.revokedAt_eq]
      split <;> rfl }

/-- What the hash is has no part in what lists and names it. -/
def Held.put {fields : List (Str × Str)} (held : Held p db id fields last) (hid : Minted id)
    (e : Option (Entry Str)) : Held p (db.put (sessionKey p id) e) id fields last :=
  { held with
    named := by
      rw [put_keys, if_neg hid.ne_token]
      exact held.named
    listed := by
      rw [put_keys, if_neg (by simp)]
      exact held.listed }

namespace Indexed

/-- What a session's key holds, under any id: its hash, or a text. -/
theorem kind (h : Indexed p db none) {e : Entry Str} (hkey : db.keys (sessionKey p id) = some e) :
    (Minted id ∧ ∃ fields last, e = ⟨.hash fields, some last⟩ ∧
    Nonempty (Held p db id fields last)) ∨
      ∃ value last, e = ⟨.text value, last⟩ := by
  by_cases hid : Minted id
  · exact Or.inl ⟨hid, h.standing id e (Option.some_ne_none id) hid hkey⟩
  · right
    have hne : id ≠ [] := fun hnil => absurd (h.blank.symm.trans (hnil ▸ hkey)) (by simp)
    obtain ⟨tokenHash, rfl⟩ : ∃ tokenHash, id = js "token:" ++ tokenHash := by
      simpa [Minted, hne] using hid
    obtain ⟨id, last, rfl, -⟩ := h.token tokenHash e (sessionTokenKey_eq ▸ hkey)
    exact ⟨id, last, rfl⟩

/-- A field of a session that stands is written, but not its token or its user. -/
theorem write (h : Indexed p db none) (hid : Minted id) {fields : List (Str × Str)}
    (held : Held p db id fields last) (field value : Str) (htoken : field ≠ js "tokenHash")
    (huser : field ≠ js "userId") : Indexed p
      (db.put (sessionKey p id) (some ⟨.hash (Insertion.put fields field value), some last⟩)) none :=
  (h.weaken.put_session hid _).settle fun e hkey => by
    rw [put_keys, if_pos rfl] at hkey
    exact ⟨_, last, (Option.some.inj hkey).symm, ⟨(held.write field value htoken huser).put hid _⟩⟩

/-- A hash that was written is named and listed for as long, or gone. -/
theorem nameAndList (h : Indexed p db (some id)) (hid : Minted id) {fields : List (Str × Str)}
    (hkey : db.keys (sessionKey p id) = Entry.until ⟨.hash fields, none⟩ last db.now)
    (htoken : Insertion.get fields (js "tokenHash") = some tokenHash)
    (huser : Insertion.get fields (js "userId") = some userId)
    (hrevoked : Insertion.get fields (js "revokedAt") = some revokedAt)
    (hold : ∀ e, db.keys (sessionTokenKey p tokenHash) = some e → e.value = .text id) :
    After (do
        setPxat (sessionTokenKey p tokenHash) id last
        Redis.prune (sessionsKey p userId) (p ++ js "session:")
        sadd (sessionsKey p userId) id
        extendSet (sessionsKey p userId) last
        pure 1 : Script Str ℕ) db
      (fun _ db' => Indexed p db' none) fun _ db' => Indexed p db' none := by
  rcases lt_or_ge 0 last with hpos | hneg
  · refine .next (setPxat_ok hpos) (.seq (Indexed.prune (h.put_token hid hold ?_))
      fun _ db₁ ⟨h₁, haway₁⟩ => ?_)
    · intro e he
      split at he
      case isTrue => exact absurd he (Option.some_ne_none e).symm
      case isFalse => rw [← Option.some.inj he]
    refine .seq₂ (h₁.enlist hid) fun _ db₂ ⟨h₂, haway₂, hlists⟩ => ?_
    refine .pure (h₂.settle fun e he => ?_)
    have haway := haway₁.trans haway₂
    rw [haway.2 _ sessionKey_ne_sessionsKey, put_keys, if_neg hid.ne_token.symm, hkey,
      Entry.until] at he
    split at he
    case isTrue => exact absurd he (Option.some_ne_none e).symm
    case isFalse hlater =>
      refine ⟨fields, last, (Option.some.inj he).symm, ⟨tokenHash, userId, revokedAt, htoken, huser,
        hrevoked, ⟨last, ?_, le_rfl⟩, hlists ?_⟩⟩
      · rw [haway.2 _ sessionTokenKey_ne_sessionsKey, put_keys, if_pos rfl, if_neg (by omega)]
      · rw [haway₁.1, put_now]
        omega
  · refine .stop (setPxat_past hneg) (h.settle_none ?_)
    rw [hkey, Entry.until, if_pos (hneg.trans h.clock)]

theorem insertSession (h : Indexed p db none) (hid : Minted id) :
    After (insertSession p id tokenHash userId authenticatedAt last revokedAt createdAt) db
      (fun _ db' => Indexed p db' none) fun _ db' => Indexed p db' none := by
  refine .next existsKey_run ?_
  cases hkey : db.keys (sessionKey p id) with
  | some e => exact .pure h
  | none =>
    have hget : ∃ holder, get (sessionTokenKey p tokenHash) db = (.ok holder, db) ∧
        ∀ e, db.keys (sessionTokenKey p tokenHash) = some e → ∃ id', e.value = .text id' ∧
          holder = some id' := by
      cases htoken : db.keys (sessionTokenKey p tokenHash) with
      | none => exact ⟨none, get_none htoken, fun e he => absurd he (Option.some_ne_none e).symm⟩
      | some e =>
        obtain ⟨id', last', rfl, -⟩ := h.token tokenHash e htoken
        refine ⟨some id', get_text htoken, fun e he => ⟨id', ?_, rfl⟩⟩
        rw [← Option.some.inj he]
    obtain ⟨holder, hget, hholder⟩ := hget
    refine .next hget ?_
    by_cases hheld : holder.any (· ≠ id)
    · rw [if_pos hheld]
      exact .fault h
    rw [if_neg hheld]
    refine .next (hset_none hkey) (.next (pexpireat_some (put_keys.trans (if_pos rfl))) ?_)
    refine nameAndList ((h.weaken.put_session hid _).put_session hid _) hid
      (put_keys.trans (if_pos rfl)) rfl rfl (show _ = some revokedAt from rfl) ?_
    · intro e he
      rw [put_keys, if_neg hid.ne_token, put_keys, if_neg hid.ne_token] at he
      obtain ⟨id', hvalue, rfl⟩ := hholder e he
      rw [hvalue, show id' = id by simpa using hheld]

/-- A session whose hash is extended is named and listed for as long, or gone. -/
theorem extendHeld (h : Indexed p db (some id)) (hid : Minted id)
    {fields : List (Str × Str)} {old : ℤ}
    (hkey : db.keys (sessionKey p id) = some ⟨.hash fields, some old⟩)
    (held : Held p db id fields old) :
    After (do
        let written ← Redis.session (sessionKey p id) id
        let tokenHash ← hget (sessionKey p id) (js "tokenHash")
        let userId ← hget (sessionKey p id) (js "userId")
        pexpireat (sessionKey p id) last
        pexpireat (sessionTokenKey p (← concatenated tokenHash)) last
        extendSet (sessionsKey p (← concatenated userId)) last
        pure written) db
      (fun _ db' => Indexed p db' none) fun _ db' => Indexed p db' none := by
  obtain ⟨until_, htoken, hle⟩ := held.named
  obtain ⟨members, lasts, hset, hmem, hle'⟩ := held.listed
  have hsession : ∃ written, Redis.session (sessionKey p id) id db = (.ok written, db) := by
    rw [Redis.session, bind_ok (hgetall_hash hkey)]
    split <;> exact ⟨_, rfl⟩
  obtain ⟨written, hsession⟩ := hsession
  refine .next hsession (.next (hget_hash hkey) (.next (hget_hash hkey) ?_))
  rw [held.tokenHash_eq, held.userId_eq]
  have htoken' : (db.put (sessionKey p id) (Entry.until ⟨.hash fields, some old⟩ last db.now)).keys
      (sessionTokenKey p held.tokenHash) = some ⟨.text id, some until_⟩ := by
    rw [put_keys, if_neg hid.ne_token]
    exact htoken
  refine .next (pexpireat_some hkey) (.next (pure_run _ _) (.next (pexpireat_some htoken')
    (.next (pure_run _ _) ?_)))
  obtain ⟨_, _, heq, hlasts, hmembers⟩ := h.user held.userId _ hset
  obtain ⟨rfl, rfl⟩ : members = _ ∧ lasts = _ := by simpa using heq
  refine .seq (extendSet_some (show Db.keys _ _ = some ⟨.set members, some lasts⟩ from ?_) hlasts)
    fun _ db' ⟨haway, hset'⟩ => .pure ?_
  · rw [put_keys, if_neg sessionTokenKey_ne_sessionsKey.symm, put_keys, if_neg (by simp)]
    exact hset
  have h' : Indexed p db' (some id) := by
    refine ((h.put_session hid _).put_token hid ?_ ?_).relist haway ?_ ?_
    · intro e he
      rw [put_keys, if_neg hid.ne_token, htoken] at he
      rw [← Option.some.inj he]
    · intro e he
      rw [Entry.until] at he
      split at he
      case isTrue => exact absurd he (Option.some_ne_none e).symm
      case isFalse => rw [← Option.some.inj he]
    · intro e he
      obtain rfl := Option.some.inj (hset'.symm.trans he)
      exact ⟨_, _, rfl, hlasts.trans (le_max_left _ _), hmembers⟩
    · rintro id' last' - ⟨_, _, heq, hmem', hle'⟩
      rw [put_keys, if_neg sessionTokenKey_ne_sessionsKey.symm, put_keys,
        if_neg (by simp), hset] at heq
      obtain ⟨rfl, rfl⟩ : members = _ ∧ lasts = _ := by simpa using heq
      exact ⟨_, _, hset', hmem', hle'.trans (le_max_left _ _)⟩
  refine h'.settle fun e he => ?_
  rw [haway.2 _ sessionKey_ne_sessionsKey, put_keys, if_neg hid.ne_token.symm, put_keys, if_pos rfl,
    Entry.until] at he
  split at he
  case isTrue => exact absurd he (Option.some_ne_none e).symm
  case isFalse hlater =>
    refine ⟨fields, last, (Option.some.inj he).symm, ⟨{ held with
      named := ⟨last, ?_, le_rfl⟩
      listed := ⟨members, _, hset', hmem, le_max_right _ _⟩ }⟩⟩
    rw [haway.2 _ sessionTokenKey_ne_sessionsKey, put_keys, if_pos rfl, Entry.until, put_now,
      if_neg hlater]

theorem extendSession (h : Indexed p db none) :
    After (extendSession p id last) db (fun _ db' => Indexed p db' none)
      fun _ db' => Indexed p db' none := by
  refine .next existsKey_run ?_
  cases hkey : db.keys (sessionKey p id) with
  | none => exact .pure h
  | some e =>
    obtain ⟨hid, fields, old, rfl, ⟨held⟩⟩ | ⟨value, old, rfl⟩ := h.kind hkey
    case inr => exact .stop (hget_text hkey) h
    refine .next (hget_hash hkey) ?_
    rw [held.revokedAt_eq]
    by_cases hrevoked : some held.revokedAt ≠ some []
    · rw [if_pos hrevoked]
      exact .pure h
    rw [if_neg hrevoked]
    refine .next (hset_hash hkey) ?_
    exact (extendHeld (h.weaken.put_session hid _) hid (put_keys.trans (if_pos rfl))
      ((held.write (js "expiresAt") (stamp last) (by decide) (by decide)).put hid _))

theorem reauthenticateSession (h : Indexed p db none) :
    After (reauthenticateSession p id at_) db (fun _ db' => Indexed p db' none)
      fun _ db' => Indexed p db' none := by
  refine .next existsKey_run ?_
  cases hkey : db.keys (sessionKey p id) with
  | none => exact .pure h
  | some e =>
    obtain ⟨hid, fields, old, rfl, ⟨held⟩⟩ | ⟨value, old, rfl⟩ := h.kind hkey
    case inr => exact .stop (hget_text hkey) h
    refine .next (hget_hash hkey) ?_
    split
    case isTrue => exact .pure h
    refine .next (hset_hash hkey) (.next (hgetall_hash (put_keys.trans (if_pos rfl))) ?_)
    have h' := h.write hid held (js "authenticatedAt") at_ (by decide) (by decide)
    split <;> exact .pure h'

theorem revokeSession (h : Indexed p db none) :
    After (revokeSession p id at_) db (fun _ db' => Indexed p db' none)
      fun _ db' => Indexed p db' none := by
  refine .next existsKey_run ?_
  cases hkey : db.keys (sessionKey p id) with
  | none => exact .pure h
  | some e =>
    obtain ⟨hid, fields, old, rfl, ⟨held⟩⟩ | ⟨value, old, rfl⟩ := h.kind hkey
    case inr => exact .stop (hget_text hkey) h
    refine .next (hget_hash hkey) ?_
    split
    case isTrue =>
      exact .next (hset_hash hkey) (.pure
        (h.write hid held (js "revokedAt") at_ (by decide) (by decide)))
    case isFalse => exact .pure h

/-- A session of a user's set is gone, or revoked but for the excepted one. -/
def Revoked (p : Str) (db : Db Str) (id : Str) : Prop :=
  ∀ fields last, db.keys (sessionKey p id) = some ⟨.hash fields, last⟩ →
    Insertion.get fields (js "revokedAt") ≠ some []

theorem revokeMember (h : Indexed p db none) (hid : Minted id) (hat : at_ ≠ []) (revoked : ℕ) :
    After (revokeMember p userId at_ except revoked id) db
      (fun _ db' => Indexed p db' none ∧
        (∀ id' last, Lists (db'.keys (sessionsKey p userId)) id' last →
          Lists (db.keys (sessionsKey p userId)) id' last) ∧
        (∀ id', Revoked p db id' → Revoked p db' id') ∧ (id ≠ except → Revoked p db' id))
      fun _ _ => False := by
  refine .next existsKey_run ?_
  cases hkey : db.keys (sessionKey p id) with
  | none =>
    refine .seq (h.srem hkey) fun _ db' ⟨h', haway, hlists⟩ => .pure ⟨h', hlists, ?_, ?_⟩
    · intro id' hrevoked fields last hkey'
      exact hrevoked fields last ((haway.2 _ sessionKey_ne_sessionsKey).symm.trans hkey')
    · intro _ fields last hkey'
      rw [haway.2 _ sessionKey_ne_sessionsKey, hkey] at hkey'
      exact absurd hkey' (by simp)
  | some e =>
    obtain ⟨fields, last, rfl, ⟨held⟩⟩ := h.standing id e (Option.some_ne_none id) hid hkey
    change After (if id = except then _ else _) _ _ _
    by_cases hexcept : id = except
    · rw [if_pos hexcept]
      exact .pure ⟨h, fun _ _ h => h, fun _ h => h, absurd hexcept⟩
    rw [if_neg hexcept]
    refine .next (hget_hash hkey) ?_
    split
    case isTrue =>
      have hrevokes : Revoked p (db.put (sessionKey p id)
          (some ⟨.hash (Insertion.put fields (js "revokedAt") at_), some last⟩)) id := by
        intro fields' last' hkey'
        rw [put_keys, if_pos rfl] at hkey'
        obtain ⟨rfl, -⟩ : Insertion.put fields (js "revokedAt") at_ = fields' ∧
          some last = last' := by
          simpa using hkey'
        rw [Insertion.get_put_self]
        exact fun heq => hat (Option.some.inj heq)
      refine .next (hset_hash hkey) (.pure
        ⟨h.write hid held (js "revokedAt") at_ (by decide) (by decide), ?_, ?_, ?_⟩)
      · intro id' last' hlists
        rwa [put_keys, if_neg (by simp)] at hlists
      · intro id' hrevoked fields' last' hkey'
        by_cases hid' : id' = id
        · exact hrevokes fields' last' (hid' ▸ hkey')
        · rw [put_keys, if_neg (by simpa using hid')] at hkey'
          exact hrevoked fields' last' hkey'
      · exact fun _ => hrevokes
    case isFalse hset =>
      refine .pure ⟨h, fun _ _ h => h, fun _ h => h, fun _ fields' last' hkey' => ?_⟩
      obtain ⟨rfl, -⟩ : fields = fields' ∧ some last = last' := by simpa using hkey.symm.trans hkey'
      exact hset

/-- **Every session of the user but the excepted one is revoked.** -/
theorem revokeUserSessions (h : Indexed p db none) (hat : at_ ≠ []) :
    After (revokeUserSessions p userId at_ except) db
      (fun _ db' => Indexed p db' none ∧
        ∀ id last, Lists (db'.keys (sessionsKey p userId)) id last → id ≠ except → Revoked p db' id)
      fun _ _ => False := by
  cases hset : db.keys (sessionsKey p userId) with
  | none =>
    refine .next (smembers_none hset) (.pure ⟨h, ?_⟩)
    rintro id last ⟨_, _, heq, -⟩
    exact absurd (hset.symm.trans heq) (by simp)
  | some e =>
    obtain ⟨members, until_, rfl, -, hmembers⟩ := h.user userId e hset
    refine .next (smembers_set hset) ((After.foldlM (P := fun done _ db' => Indexed p db' none ∧
      (∀ id last, Lists (db'.keys (sessionsKey p userId)) id last →
        Lists (db.keys (sessionsKey p userId)) id last) ∧
      ∀ id ∈ done, id ≠ except → Revoked p db' id) ?_ ?_).mono ?_ fun _ _ h => h)
    · exact ⟨h, fun _ _ h => h, fun id hid => absurd hid List.not_mem_nil⟩
    · rintro done id revoked db' hid ⟨h', hlists, hdone⟩
      refine (h'.revokeMember (hmembers id (mem_arrange.mp hid)) hat revoked).mono
        (fun _ db'' ⟨h'', hlists', hkeep, hrevoked⟩ => ⟨h'', fun id last hl => ?_, ?_⟩)
        fun _ _ h => h
      · exact hlists id last (hlists' id last hl)
      · intro id' hid' hne
        rcases List.mem_append.mp hid' with hid' | hid'
        · exact hkeep id' (hdone id' hid' hne)
        · obtain rfl := List.mem_singleton.mp hid'
          exact hrevoked hne
    · rintro _ db' ⟨h', hlists, hdone⟩
      refine ⟨h', fun id last hl hne => hdone id ?_ hne⟩
      obtain ⟨_, _, heq, hmem, -⟩ := hlists id last hl
      obtain ⟨rfl, -⟩ : members = _ ∧ until_ = _ := by simpa using hset.symm.trans heq
      exact mem_arrange.mpr hmem

theorem deleteMember (h : Indexed p db none) (hid : Minted id) (deleted : ℕ) :
    After (deleteMember p deleted id) db
      (fun _ db' => Indexed p db' none ∧ (∀ userId, db'.keys (sessionsKey p userId) =
        db.keys (sessionsKey p userId)) ∧ db'.keys (sessionKey p id) = none ∧
        ∀ id', db.keys (sessionKey p id') = none → db'.keys (sessionKey p id') = none)
      fun _ _ => False := by
  cases hkey : db.keys (sessionKey p id) with
  | none => exact .next (hget_none hkey) (.pure ⟨h, fun _ => rfl, hkey, fun _ h => h⟩)
  | some e =>
    obtain ⟨fields, last, rfl, ⟨held⟩⟩ := h.standing id e (Option.some_ne_none id) hid hkey
    obtain ⟨until_, htoken, -⟩ := held.named
    refine .next (hget_hash hkey) ?_
    rw [held.tokenHash_eq]
    refine .next (get_text htoken) ?_
    rw [if_pos rfl]
    refine .next del_run (.next del_run (.pure ⟨?_, ?_, ?_, ?_⟩))
    · refine ((h.weaken.put_token hid ?_ ?_).put_session hid none).settle_none ?_
      · intro e he
        rw [← Option.some.inj (htoken.symm.trans he)]
      · exact fun e he => absurd he (Option.some_ne_none e).symm
      · exact put_keys.trans (if_pos rfl)
    · intro userId
      rw [put_keys, if_neg (by simp), put_keys, if_neg sessionTokenKey_ne_sessionsKey.symm]
    · exact put_keys.trans (if_pos rfl)
    · intro id' hgone
      rw [put_keys]
      split
      · rfl
      · rw [put_keys]
        split
        · rfl
        · exact hgone

/-- **Every session of the user is gone.** -/
theorem deleteUserSessions (h : Indexed p db none) :
    After (deleteUserSessions p userId) db
      (fun _ db' => Indexed p db' none ∧ db'.keys (sessionsKey p userId) = none)
      fun _ _ => False := by
  have hmembers : ∃ members, smembers (sessionsKey p userId) db = (.ok members, db) ∧
      (∀ id ∈ members, Minted id) ∧
      ∀ id last, Lists (db.keys (sessionsKey p userId)) id last → id ∈ members := by
    cases hset : db.keys (sessionsKey p userId) with
    | none =>
      refine ⟨[], smembers_none hset, fun id hid => absurd hid List.not_mem_nil, ?_⟩
      rintro id last ⟨_, _, heq, -⟩
      exact absurd heq (by simp)
    | some e =>
      obtain ⟨members, until_, rfl, -, hmembers⟩ := h.user userId e hset
      refine ⟨_, smembers_set hset, fun id hid => hmembers id (mem_arrange.mp hid), ?_⟩
      rintro id last ⟨_, _, heq, hmem, -⟩
      obtain ⟨rfl, -⟩ : members = _ ∧ until_ = _ := by simpa using heq
      exact mem_arrange.mpr hmem
  obtain ⟨members, hread, hminted, hlisted⟩ := hmembers
  refine .next hread (.seq (After.foldlM (P := fun done _ db' => Indexed p db' none ∧
      db'.keys (sessionsKey p userId) = db.keys (sessionsKey p userId) ∧
      ∀ id ∈ done, db'.keys (sessionKey p id) = none) ?_ ?_) ?_)
  · exact ⟨h, rfl, fun id hid => absurd hid List.not_mem_nil⟩
  · rintro done id deleted db' hid ⟨h', hset, hdone⟩
    refine (h'.deleteMember (hminted id hid) deleted).mono
      (fun _ db'' ⟨h'', hset', hgone, hkeep⟩ => ⟨h'', (hset' userId).trans hset, ?_⟩) fun _ _ h => h
    intro id' hid'
    rcases List.mem_append.mp hid' with hid' | hid'
    · exact hkeep id' (hdone id' hid')
    · obtain rfl := List.mem_singleton.mp hid'
      exact hgone
  · rintro deleted db' ⟨h', hset, hdone⟩
    refine .next del_run (.pure ⟨h'.relist put_away ?_ ?_, put_keys.trans (if_pos rfl)⟩)
    · intro e he
      rw [put_keys, if_pos rfl] at he
      exact absurd he (Option.some_ne_none e).symm
    · intro id last hstands hlists
      exact absurd (hdone id (hlisted id last (hset ▸ hlists))) hstands

/-- What a token reads is a session that stands, listed and named. -/
theorem findSession (h : Indexed p db none) :
    After (findSession p tokenHash) db
      (fun found db' => db' = db ∧ ∀ id fields, found = some (id, fields) →
        ∃ last, db.keys (sessionKey p id) = some ⟨.hash fields, some last⟩ ∧
          Nonempty (Held p db id fields last))
      fun _ _ => False := by
  cases htoken : db.keys (sessionTokenKey p tokenHash) with
  | none => exact .next (get_none htoken) (.pure ⟨rfl, nofun⟩)
  | some e =>
    obtain ⟨id, until_, rfl, hid⟩ := h.token tokenHash e htoken
    refine .next (get_text htoken) ?_
    cases hkey : db.keys (sessionKey p id) with
    | none => exact .next (hgetall_none hkey) (.pure ⟨rfl, nofun⟩)
    | some e =>
      obtain ⟨fields, last, rfl, held⟩ := h.standing id e (Option.some_ne_none id) hid hkey
      refine .next (hgetall_hash hkey) ?_
      split
      · exact .pure ⟨rfl, nofun⟩
      · refine .pure ⟨rfl, fun id' fields' heq => ?_⟩
        obtain ⟨rfl, rfl⟩ : id = id' ∧ fields = fields' := by simpa using heq
        exact ⟨last, hkey, held⟩

end Indexed

end Scripts

end Janus.Redis
