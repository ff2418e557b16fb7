import Janus.Auth.Store
import Mathlib.Data.List.Perm.Basic

/-!
# Auth/Indexes — the sessions and the tokens in memory, with their indexes

Sessions are kept by id, and found by token hash through an index; whatever deletes a session takes
it out of both.  `Remembers` is what every method keeps: the index names each session by its own
token's hash, and nothing else.
-/

namespace Janus.Auth

open Js Insertion

/-! ## Sessions -/

/-- The records, and the index on their token hashes. -/
structure SessionIndex where
  byId : List (Str × SessionRecord)
  byTokenHash : List (Str × Str)

namespace SessionIndex

variable (index : SessionIndex)

def insertSession (record : SessionRecord) : SessionIndex :=
  if (get index.byId record.id).isSome then index
  else ⟨put index.byId record.id record, put index.byTokenHash record.tokenHash record.id⟩

def findSessionByTokenHash (tokenHash : Str) : Option SessionRecord :=
  (get index.byTokenHash tokenHash).bind (get index.byId)

def extendSession (id : Str) (expiresAt : Time) : Option SessionRecord × SessionIndex :=
  let (written, byId) := Auth.extendSession index.byId id expiresAt
  (written, { index with byId })

def reauthenticateSession (id : Str) (at_ : Time) : Option SessionRecord × SessionIndex :=
  let (written, byId) := Auth.reauthenticateSession index.byId id at_
  (written, { index with byId })

def revokeSession (id : Str) (at_ : Time) : Bool × SessionIndex :=
  let (found, byId) := Auth.revokeSession index.byId id at_
  (found, { index with byId })

def revokeUserSessions (userId : Str) (at_ : Time) (except : Option Str) : ℕ × SessionIndex :=
  let (revoked, byId) := Auth.revokeUserSessions index.byId userId at_ except
  (revoked, { index with byId })

/-- One session `matches_` accepts, out of both maps, and counted. -/
def deleteOne (matches_ : SessionRecord → Bool) (acc : ℕ × SessionIndex)
    (e : Str × SessionRecord) : ℕ × SessionIndex :=
  if matches_ e.2 then
    (acc.1 + 1, ⟨delete acc.2.byId e.1, delete acc.2.byTokenHash e.2.tokenHash⟩)
  else acc

/-- Deletes every session `matches_` accepts, from both maps, and counts them. -/
def deleteWhere (matches_ : SessionRecord → Bool) : ℕ × SessionIndex :=
  index.byId.foldl (deleteOne matches_) (0, index)

def deleteUserSessions (userId : Str) : ℕ × SessionIndex :=
  index.deleteWhere fun stored => stored.userId = userId

def deleteExpiredSessions (before : Time) : ℕ × SessionIndex :=
  index.deleteWhere fun stored => stored.expiresAt ≤ before

end SessionIndex

/-- What each id holds, and that the index names each session by its own token's hash. -/
structure Remembers (index : SessionIndex) (live : Str → Option SessionRecord) : Prop where
  nodup : (index.byId.map Prod.fst).Nodup
  byId : ∀ id, get index.byId id = live id
  named : ∀ tokenHash id, get index.byTokenHash tokenHash = some id ↔
    ∃ record, live id = some record ∧ record.tokenHash = tokenHash

namespace Remembers

variable {index : SessionIndex} {live : Str → Option SessionRecord}

theorem empty : Remembers ⟨[], []⟩ fun _ => none := ⟨List.nodup_nil, fun _ => rfl, by simp⟩

/-- Two sessions of one token hash are one. -/
theorem unique (h : Remembers index live) {id id' : Str} {record record' : SessionRecord}
    (hid : live id = some record) (hid' : live id' = some record')
    (heq : record.tokenHash = record'.tokenHash) : id = id' :=
  Option.some.inj (((h.named _ _).mpr ⟨record, hid, rfl⟩).symm.trans
    ((h.named _ _).mpr ⟨record', hid', heq.symm⟩))

theorem findSession (h : Remembers index live) {tokenHash : Str} {record : SessionRecord} :
    index.findSessionByTokenHash tokenHash = some record ↔
      ∃ id, live id = some record ∧ record.tokenHash = tokenHash := by
  rw [SessionIndex.findSessionByTokenHash, Option.bind_eq_some_iff]
  constructor
  · rintro ⟨id, hname, hget⟩
    obtain ⟨stored, hlive, hhash⟩ := (h.named _ _).mp hname
    rw [h.byId, hlive] at hget
    cases hget
    exact ⟨id, hlive, hhash⟩
  · rintro ⟨id, hlive, hhash⟩
    exact ⟨id, (h.named _ _).mpr ⟨record, hlive, hhash⟩, (h.byId id).trans hlive⟩

theorem insertSession (h : Remembers index live) {record : SessionRecord}
    (hnew : live record.id = none)
    (hfree : ∀ id stored, live id = some stored → stored.tokenHash ≠ record.tokenHash) :
    Remembers (index.insertSession record) (Function.update live record.id (some record)) := by
  rw [SessionIndex.insertSession, h.byId, hnew]
  refine ⟨nodup_put h.nodup _ _, fun id => ?_, fun tokenHash id => ?_⟩
  · change get (put index.byId record.id record) id = _
    rw [get_put, Function.update_apply]
    split
    case isTrue heq => rw [if_pos heq.symm]
    case isFalse hne => rw [if_neg (Ne.symm hne), h.byId]
  · change get (put index.byTokenHash record.tokenHash record.id) tokenHash = some id ↔ _
    rw [get_put, Function.update_apply]
    by_cases hid : id = record.id
    · subst hid
      rw [if_pos rfl]
      constructor
      · intro hget
        split at hget
        case isTrue heq => exact ⟨record, rfl, heq⟩
        case isFalse =>
          obtain ⟨stored, hlive, -⟩ := (h.named _ _).mp hget
          rw [hnew] at hlive
          cases hlive
      · rintro ⟨_, ⟨⟩, heq⟩
        rw [if_pos heq]
    · rw [if_neg hid]
      by_cases heq : record.tokenHash = tokenHash
      · rw [if_pos heq]
        refine iff_of_false (fun hsome => hid (Option.some.inj hsome).symm) ?_
        rintro ⟨stored, hlive, hhash⟩
        exact hfree id stored hlive (hhash.trans heq.symm)
      · rw [if_neg heq]
        exact h.named tokenHash id

/-- Every record rewritten, but not its token's hash. -/
theorem map (h : Remembers index live) {byId : List (Str × SessionRecord)}
    {w : Str → SessionRecord → SessionRecord} (hnodup : (byId.map Prod.fst).Nodup)
    (hget : ∀ id, get byId id = (live id).map (w id))
    (htoken : ∀ id record, (w id record).tokenHash = record.tokenHash) :
    Remembers { index with byId } fun id => (live id).map (w id) := by
  refine ⟨hnodup, hget, fun tokenHash id => ?_⟩
  rw [h.named]
  constructor
  · rintro ⟨record, hlive, hhash⟩
    exact ⟨w id record, by rw [hlive, Option.map_some], (htoken id record).trans hhash⟩
  · rintro ⟨_, hwritten, hhash⟩
    obtain ⟨record, hlive, rfl⟩ := Option.map_eq_some_iff.mp hwritten
    exact ⟨record, hlive, (htoken id record).symm.trans hhash⟩

/-- One record rewritten, but not its token's hash. -/
theorem write (h : Remembers index live) {id : Str} {record written : SessionRecord}
    (hlive : live id = some record) (htoken : written.tokenHash = record.tokenHash) :
    Remembers { index with byId := put index.byId id written }
      (Function.update live id (some written)) := by
  refine ⟨nodup_put h.nodup _ _, fun id' => ?_, fun tokenHash id' => ?_⟩
  · change get (put index.byId id written) id' = _
    rw [get_put, Function.update_apply]
    split
    case isTrue heq => rw [if_pos heq.symm]
    case isFalse hne => rw [if_neg (Ne.symm hne), h.byId]
  · rw [h.named, Function.update_apply]
    split
    case isTrue heq =>
      subst heq
      constructor
      · rintro ⟨stored, hstored, hhash⟩
        cases hlive.symm.trans hstored
        exact ⟨written, rfl, htoken.trans hhash⟩
      · rintro ⟨_, ⟨⟩, hhash⟩
        exact ⟨record, hlive, htoken.symm.trans hhash⟩
    case isFalse => exact Iff.rfl

/-- A write made only while the session is not revoked. -/
theorem standingWrite (h : Remembers index live) (id : Str) (patch : SessionRecord → SessionRecord)
    (htoken : ∀ record, (patch record).tokenHash = record.tokenHash) :
    let written := ((live id).filter fun stored => stored.revokedAt = none).map patch
    (Auth.standingWrite index.byId id patch).1 = written ∧
      Remembers { index with byId := (Auth.standingWrite index.byId id patch).2 }
        (written.elim live fun record => Function.update live id (some record)) := by
  rw [Auth.standingWrite, h.byId]
  cases hstands : (live id).filter fun stored => stored.revokedAt = none with
  | none => exact ⟨rfl, h⟩
  | some record =>
    exact ⟨rfl, h.write (Option.filter_eq_some_iff.mp hstands).1 (htoken record)⟩

theorem revokeSession (h : Remembers index live) (id : Str) (at_ : Time) :
    (index.revokeSession id at_).1 = (live id).isSome ∧
      Remembers (index.revokeSession id at_).2 ((live id).elim live fun record =>
        Function.update live id (some (record.revoked at_))) := by
  rw [SessionIndex.revokeSession, Auth.revokeSession, h.byId]
  cases hlive : live id with
  | none => exact ⟨rfl, h⟩
  | some record =>
    refine ⟨rfl, h.write hlive ?_⟩
    rw [SessionRecord.revoked]
    split <;> rfl

theorem revokeUserSessions (h : Remembers index live) (userId : Str) (at_ : Time)
    (except : Option Str) :
    (index.revokeUserSessions userId at_ except).1 =
        (index.byId.map Prod.fst).countP (fun id => (live id).any fun stored =>
          stored.userId = userId ∧ stored.revokedAt = none ∧ some id ≠ except) ∧
      Remembers (index.revokeUserSessions userId at_ except).2 fun id => (live id).map fun stored =>
        if stored.userId = userId ∧ some id ≠ except then stored.revoked at_ else stored := by
  constructor
  · change index.byId.countP _ = _
    rw [List.countP_map]
    refine List.countP_congr fun e he => ?_
    have hlive : live e.1 = some e.2 := (h.byId e.1).symm.trans (get_of_mem h.nodup he)
    simp [hlive]
  · refine h.map (w := fun id stored => if stored.userId = userId ∧ some id ≠ except then
      stored.revoked at_ else stored) ?_ (fun id => ?_) fun id record => ?_
    · rw [List.map_map]
      exact h.nodup
    · rw [← h.byId]
      exact get_revokeUserSessions userId at_ except id
    · split
      · rw [SessionRecord.revoked]
        split <;> rfl
      · rfl

/-- One session out of both maps. -/
theorem delete (h : Remembers index live) {id : Str} {record : SessionRecord}
    (hlive : live id = some record) :
    Remembers ⟨Insertion.delete index.byId id, Insertion.delete index.byTokenHash record.tokenHash⟩
      (Function.update live id none) where
  nodup := nodup_delete h.nodup _
  byId id' := by
    rw [get_delete, h.byId, Function.update_apply]
    by_cases hid : id = id'
    · rw [if_pos hid, if_pos hid.symm]
    · rw [if_neg hid, if_neg (Ne.symm hid)]
  named tokenHash id' := by
    rw [get_delete, Function.update_apply]
    by_cases hid : id' = id
    · rw [if_pos hid]
      refine iff_of_false (fun hname => ?_) (by rintro ⟨_, ⟨⟩, -⟩)
      split at hname
      case isTrue => cases hname
      case isFalse hne =>
        obtain ⟨stored, hstored, hhash⟩ := (h.named _ _).mp hname
        rw [hid, hlive] at hstored
        cases hstored
        exact hne hhash
    · rw [if_neg hid, ← h.named]
      by_cases hhash : record.tokenHash = tokenHash
      · rw [if_pos hhash]
        refine iff_of_false (Option.some_ne_none _).symm fun hname => hid ?_
        obtain ⟨stored, hstored, hsame⟩ := (h.named _ _).mp hname
        exact h.unique hstored hlive (hsame.trans hhash.symm)
      · rw [if_neg hhash]

/-- Some of the entries, each as it is kept, deleted where they match. -/
theorem foldl_deleteOne (matches_ : SessionRecord → Bool) {entries : List (Str × SessionRecord)}
    (hkeys : (entries.map Prod.fst).Nodup) {acc : ℕ × SessionIndex} (h : Remembers acc.2 live)
    (hlive : ∀ e ∈ entries, live e.1 = some e.2) :
    (entries.foldl (SessionIndex.deleteOne matches_) acc).1 =
        acc.1 + entries.countP (fun e => matches_ e.2) ∧
      Remembers (entries.foldl (SessionIndex.deleteOne matches_) acc).2 fun id =>
        if entries.any fun e => e.1 = id && matches_ e.2 then none else live id := by
  induction entries generalizing acc live with
  | nil => exact ⟨rfl, h⟩
  | cons e entries ih =>
    obtain ⟨hnew, hkeys⟩ := List.nodup_cons.mp hkeys
    obtain ⟨he, hrest⟩ := List.forall_mem_cons.mp hlive
    rw [List.foldl_cons, SessionIndex.deleteOne, List.countP_cons]
    split
    case isTrue hmatches =>
      have hdeleted : Remembers (acc.1 + 1, (⟨_, _⟩ : SessionIndex)).2 _ := h.delete he
      obtain ⟨hcount, hleft⟩ := ih hkeys hdeleted fun e' he' => by
        rw [Function.update_of_ne, hrest e' he']
        exact fun heq => hnew (heq ▸ List.mem_map_of_mem he')
      refine ⟨by omega, ?_⟩
      have hsame : (fun id => if entries.any (fun e => e.1 = id && matches_ e.2) then none else
          Function.update live e.1 none id) = fun id =>
          if (e :: entries).any (fun e => e.1 = id && matches_ e.2) then none else live id := by
        funext id
        by_cases hid : e.1 = id
        · subst hid
          simp [hmatches]
        · rw [List.any_cons, decide_eq_false hid, Bool.false_and, Bool.false_or,
            Function.update_of_ne (Ne.symm hid)]
      exact hsame ▸ hleft
    case isFalse hkeeps =>
      obtain ⟨hcount, hleft⟩ := ih hkeys h hrest
      refine ⟨by omega, ?_⟩
      simp only [List.any_cons, Bool.eq_false_of_not_eq_true hkeeps, Bool.and_false, Bool.false_or]
      exact hleft

/-- **Deleting leaves what is not matched**, and counts what is. -/
theorem deleteWhere (h : Remembers index live) (matches_ : SessionRecord → Bool) :
    (index.deleteWhere matches_).1 = index.byId.countP (fun e => matches_ e.2) ∧
      Remembers (index.deleteWhere matches_).2 fun id => (live id).filter (!matches_ ·) := by
  have hentries : ∀ e ∈ index.byId, live e.1 = some e.2 := fun e he =>
    (h.byId e.1).symm.trans (get_of_mem h.nodup he)
  have hstart : Remembers (0, index).2 live := h
  obtain ⟨hcount, hleft⟩ := foldl_deleteOne matches_ h.nodup hstart hentries
  refine ⟨hcount.trans (Nat.zero_add _), ?_⟩
  have hsame : (fun id => if index.byId.any (fun e => e.1 = id && matches_ e.2) then none else
      live id) = fun id => (live id).filter (!matches_ ·) := by
    funext id
    cases hlive : live id with
    | none => simp
    | some record =>
      have hany : index.byId.any (fun e => e.1 = id && matches_ e.2) = matches_ record := by
        rw [Bool.eq_iff_iff, List.any_eq_true]
        constructor
        · rintro ⟨e, he, hmatches⟩
          obtain ⟨hid, hmatches⟩ := Bool.and_eq_true_iff.mp hmatches
          have he := hentries e he
          rw [of_decide_eq_true hid, hlive] at he
          rw [Option.some.inj he]
          exact hmatches
        · intro hmatches
          refine ⟨(id, record), mem_of_get ((h.byId id).trans hlive), ?_⟩
          simpa using hmatches
      rw [hany, Option.filter_some]
      cases matches_ record <;> rfl
  exact hsame ▸ hleft

end Remembers

/-! ## Tokens -/

section Tokens

variable (tokens : List (Str × TokenRecord))

/-- Deletes every token `matches_` accepts, and counts them. -/
def deleteTokensWhere (matches_ : TokenRecord → Bool) : ℕ × List (Str × TokenRecord) :=
  (tokens.countP fun e => matches_ e.2, tokens.filter fun e => !matches_ e.2)

def deleteUserTokens (userId : Str) : ℕ × List (Str × TokenRecord) :=
  deleteTokensWhere tokens fun stored => stored.userId = userId

def deleteExpiredTokens (before : Time) : ℕ × List (Str × TokenRecord) :=
  deleteTokensWhere tokens fun stored => stored.expiresAt ≤ before

variable {tokens}

theorem get_deleteTokensWhere (hnodup : (tokens.map Prod.fst).Nodup)
    (matches_ : TokenRecord → Bool) (tokenHash : Str) :
    get (deleteTokensWhere tokens matches_).2 tokenHash =
      (get tokens tokenHash).filter (!matches_ ·) := get_filter hnodup _ _

theorem nodup_deleteTokensWhere (hnodup : (tokens.map Prod.fst).Nodup)
    (matches_ : TokenRecord → Bool) :
    ((deleteTokensWhere tokens matches_).2.map Prod.fst).Nodup :=
  hnodup.sublist (List.filter_sublist.map _)

theorem nodup_deleteUserTokens (hnodup : (tokens.map Prod.fst).Nodup) (userId : Str) :
    ((deleteUserTokens tokens userId).2.map Prod.fst).Nodup := nodup_deleteTokensWhere hnodup _

theorem nodup_insertToken (hnodup : (tokens.map Prod.fst).Nodup) (record : TokenRecord) :
    ((insertToken tokens record).map Prod.fst).Nodup := by
  rw [insertToken]
  split
  · exact hnodup
  · exact nodup_put hnodup _ _

theorem nodup_writeToken (hnodup : (tokens.map Prod.fst).Nodup) (tokenHash : Str)
    (kind : TokenKind) (write : TokenRecord → TokenRecord) :
    ((writeToken tokens tokenHash kind write).map Prod.fst).Nodup := by
  rw [writeToken]
  split
  · exact hnodup
  · exact nodup_put hnodup _ _

theorem nodup_spendUserTokens (hnodup : (tokens.map Prod.fst).Nodup) (userId : Str)
    (kind : TokenKind) (at_ : Time) (except : Option Str) :
    ((spendUserTokens tokens userId kind at_ except).2.map Prod.fst).Nodup := by
  rw [spendUserTokens, mapValues, List.map_map]
  exact hnodup

end Tokens

end Janus.Auth
