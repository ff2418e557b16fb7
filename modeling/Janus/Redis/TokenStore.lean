import Janus.Redis.SessionStore
import Janus.Redis.Tokens

/-!
# Redis/TokenStore — one store of tokens, over Redis or in memory

A call of the store over scripts answers what it answers in memory, and leaves the same tokens
(`SameTokens.step`); so does time, where memory collects what Redis expires (`SameTokens.pass`).
-/

namespace Janus.Redis

open Js Keyspace Auth

/-! ## The token store -/

/-- A call of the token store. -/
inductive TokenRequest where
  | insertToken (record : TokenRecord)
  | consumeToken (tokenHash : Str) (kind : TokenKind) (at_ : Time)
  | countAttempt (tokenHash : Str) (kind : TokenKind)
  | spendUserTokens (userId : Str) (kind : TokenKind) (at_ : Time) (except : Option Str)
  | deleteUserTokens (userId : Str)

inductive TokenReply where
  | nothing
  | token (found : Option TokenRecord)
  | count (tokens : ℕ)
deriving DecidableEq

section Redis

-- what `new Date(Number(value))` makes of a text that is no plain count of milliseconds
variable (otherwise : Str → Option Time) (p : Str)

def serveToken {α : Type} (operation : Str) (script : Script Str α)
    (decode : α → Call → Except StoreFailure TokenReply) :
    Db Str → Except StoreFailure TokenReply × Db Str :=
  serve (js "tokens") operation script decode

def answerToken (tokenHash : Str) (kind : TokenKind) (reply : Option (List (Str × Str)))
    (call : Call) : Except StoreFailure TokenReply :=
  .token <$> toToken otherwise reply tokenHash kind call

/-- The token store over scripts. -/
def tokenStore (db : Db Str) : TokenRequest → Except StoreFailure TokenReply × Db Str
  | .insertToken record =>
    serveToken (js "insertToken") (insertToken p record.tokenHash (kindText record.kind)
      record.userId record.address record.expiresAt (stampOf record.spentAt)
      (stamp record.createdAt) (record.codeHash.getD []) (decimal record.attempts))
      (fun _ _ => .ok .nothing) db
  | .consumeToken tokenHash kind at_ =>
    serveToken (js "consumeToken") (consumeToken p tokenHash (kindText kind) (stamp at_))
      (answerToken otherwise tokenHash kind) db
  | .countAttempt tokenHash kind =>
    serveToken (js "countAttempt") (countAttempt p tokenHash (kindText kind))
      (answerToken otherwise tokenHash kind) db
  | .spendUserTokens userId kind at_ except =>
    serveToken (js "spendUserTokens")
      (spendUserTokens p userId (kindText kind) (stamp at_) (except.getD []))
      (fun n _ => .ok (.count n)) db
  | .deleteUserTokens userId =>
    serveToken (js "deleteUserTokens") (deleteUserTokens p userId) (fun n _ => .ok (.count n)) db

end Redis

/-- The token store in memory. -/
def memoryTokenStore (tokens : List (Str × TokenRecord)) :
    TokenRequest → Except StoreFailure TokenReply × List (Str × TokenRecord)
  | .insertToken record => (.ok .nothing, Auth.insertToken tokens record)
  | .consumeToken tokenHash kind at_ =>
    let (before, tokens) := Auth.consumeToken tokens tokenHash kind at_
    (.ok (.token before), tokens)
  | .countAttempt tokenHash kind =>
    let (after, tokens) := Auth.countAttempt tokens tokenHash kind
    (.ok (.token after), tokens)
  | .spendUserTokens userId kind at_ except =>
    let (spent, tokens) := Auth.spendUserTokens tokens userId kind at_ except
    (.ok (.count spent), tokens)
  | .deleteUserTokens userId =>
    let (deleted, tokens) := Auth.deleteUserTokens tokens userId
    (.ok (.count deleted), tokens)

/-- What callers keep to: a token's hash is one user's, and no empty text; no token is stored
lapsed; and no attempt is counted past what a number counts. -/
def TokenRequest.Fits (ownerOf : Str → Str) (now : Time) (tokens : List (Str × TokenRecord)) :
    TokenRequest → Prop
  | .insertToken record => Written record ∧ record.tokenHash ≠ [] ∧
    ownerOf record.tokenHash = record.userId ∧ now < record.expiresAt
  | .consumeToken _ _ at_ | .spendUserTokens _ _ at_ _ => at_ ≤ lastMoment
  | .countAttempt tokenHash _ => ∀ record, Insertion.get tokens tokenHash = some record →
    record.attempts < maxSafeInteger
  | .deleteUserTokens _ => True

section Refines

variable {otherwise : Str → Option Time} {p : Str} {userOf idOf ownerOf : Str → Str} {db : Db Str}
  {now : Time} {tokens : List (Str × TokenRecord)}

/-- The two hold the same tokens. -/
structure SameTokens (p : Str) (ownerOf : Str → Str) (db : Db Str)
    (tokens : List (Str × TokenRecord)) : Prop where
  keeps : Keeps p ownerOf db (Insertion.get tokens)
  nodup : (tokens.map Prod.fst).Nodup

/-- A call the two answer alike, at once, and that leaves them the same. -/
def SameTokensAfter (otherwise : Str → Option Time) (p : Str) (ownerOf : Str → Str) (db : Db Str)
    (tokens : List (Str × TokenRecord)) (request : TokenRequest) : Prop :=
  let redis := tokenStore otherwise p db request
  let memory := memoryTokenStore tokens request
  redis.1 = memory.1 ∧ redis.2.now = db.now ∧ SameTokens p ownerOf redis.2 memory.2

theorem answerToken_map {tokenHash : Str} {kind : TokenKind} {found : Option TokenRecord}
    (hwritten : ∀ record, found = some record → record.tokenHash = tokenHash ∧
      record.kind = kind ∧ Written record) (call : Call) :
    answerToken otherwise tokenHash kind (found.map tokenHashOf) call = .ok (.token found) := by
  cases found with
  | none => rfl
  | some record =>
    obtain ⟨rfl, rfl, hrecord⟩ := hwritten record rfl
    rw [Option.map_some, answerToken, toToken_hash hrecord]
    rfl

theorem rewritten_eq (tokenHash : Str) (kind : TokenKind) (write : TokenRecord → TokenRecord) :
    rewritten (Insertion.get tokens) tokenHash kind write =
      Insertion.get (writeToken tokens tokenHash kind write) := by
  funext hash
  rw [get_writeToken]
  rfl

namespace SameTokens

/-- A token of a kind, as it is kept. -/
theorem of_findToken (h : SameTokens p ownerOf db tokens) {tokenHash : Str} {kind : TokenKind}
    {record : TokenRecord} (hfound : findToken tokens tokenHash kind = some record) :
    record.tokenHash = tokenHash ∧ record.kind = kind ∧ Written record := by
  obtain ⟨hget, hkind⟩ := Option.filter_eq_some_iff.mp hfound
  obtain ⟨hsame, hwritten, -⟩ := h.keeps.kept tokenHash record hget
  exact ⟨hsame, of_decide_eq_true hkind, hwritten⟩

theorem mem_keys_iff (tokenHash : Str) :
    tokenHash ∈ tokens.map Prod.fst ↔ (Insertion.get tokens tokenHash).isSome :=
  Insertion.mem_keys

theorem insertToken (h : SameTokens p ownerOf db tokens) (hclock : db.now = now)
    {record : TokenRecord} (hfits : TokenRequest.Fits ownerOf now tokens (.insertToken record)) :
    SameTokensAfter otherwise p ownerOf db tokens (.insertToken record) := by
  obtain ⟨hwritten, hne, huser, hlater⟩ := hfits
  obtain ⟨n, db', hrun, hnow, hkeeps⟩ := (h.keeps.insertToken hwritten hne huser.symm
    (by rw [hclock]; exact_mod_cast hlater)).exists_run
  rw [SameTokensAfter, tokenStore, serveToken, serve_eq hrun]
  refine ⟨rfl, hnow, ?_, nodup_insertToken h.nodup record⟩
  have hsame : (if (Insertion.get tokens record.tokenHash).isSome then Insertion.get tokens
      else Function.update (Insertion.get tokens) record.tokenHash (some record)) =
      Insertion.get (Auth.insertToken tokens record) := by
    rw [Auth.insertToken]
    split
    · rfl
    · funext hash
      rw [Insertion.get_put, Function.update_apply]
      by_cases heq : hash = record.tokenHash
      · rw [if_pos heq, if_pos heq.symm]
      · rw [if_neg heq, if_neg (Ne.symm heq)]
  exact hsame ▸ hkeeps

theorem consumeToken (h : SameTokens p ownerOf db tokens) {tokenHash : Str} {kind : TokenKind}
    {at_ : Time} (hat : at_ ≤ lastMoment) :
    SameTokensAfter otherwise p ownerOf db tokens (.consumeToken tokenHash kind at_) := by
  obtain ⟨reply, db', hrun, rfl, hnow, hkeeps⟩ :=
    (h.keeps.consumeToken tokenHash kind hat).exists_run
  rw [SameTokensAfter, tokenStore, serveToken, serve_eq hrun]
  rw [rewritten_eq] at hkeeps
  exact ⟨answerToken_map (fun record hrecord => h.of_findToken hrecord) _, hnow, hkeeps,
    nodup_writeToken h.nodup ..⟩

theorem countAttempt (h : SameTokens p ownerOf db tokens) {tokenHash : Str} {kind : TokenKind}
    (hbelow : ∀ record, Insertion.get tokens tokenHash = some record →
      record.attempts < maxSafeInteger) :
    SameTokensAfter otherwise p ownerOf db tokens (.countAttempt tokenHash kind) := by
  obtain ⟨reply, db', hrun, rfl, hnow, hkeeps⟩ :=
    (h.keeps.countAttempt tokenHash kind hbelow).exists_run
  rw [SameTokensAfter, tokenStore, serveToken, serve_eq hrun]
  rw [rewritten_eq] at hkeeps
  refine ⟨?_, hnow, hkeeps, nodup_writeToken h.nodup ..⟩
  have hmap : ((Insertion.get tokens tokenHash).filter (·.kind = kind)).map
      (fun stored => tokenHashOf stored.counted) =
      ((findToken tokens tokenHash kind).map (·.counted)).map tokenHashOf := by
    rw [Option.map_map]
    rfl
  rw [hmap]
  refine answerToken_map (fun record hrecord => ?_) _
  obtain ⟨stored, hfound, rfl⟩ := Option.map_eq_some_iff.mp hrecord
  obtain ⟨hsame, hkind, hwritten⟩ := h.of_findToken hfound
  have hcount := hbelow stored (Option.filter_eq_some_iff.mp hfound).1
  rw [TokenRecord.counted]
  split
  · exact ⟨hsame, hkind, { hwritten with attempts := hcount }⟩
  · exact ⟨hsame, hkind, hwritten⟩

theorem spendUserTokens (h : SameTokens p ownerOf db tokens) {userId : Str} {kind : TokenKind}
    {at_ : Time} (except : Option Str) (hat : at_ ≤ lastMoment) :
    SameTokensAfter otherwise p ownerOf db tokens (.spendUserTokens userId kind at_ except) := by
  obtain ⟨spent, db', hrun, rfl, hnow, hkeeps⟩ :=
    (h.keeps.spendUserTokens userId kind hat except h.nodup mem_keys_iff).exists_run
  rw [SameTokensAfter, tokenStore, serveToken, serve_eq hrun]
  have hcount : (tokens.map Prod.fst).countP (Keeps.spends (Insertion.get tokens) userId kind
      except) = (Auth.spendUserTokens tokens userId kind at_ except).1 := by
    rw [Auth.spendUserTokens, List.countP_map]
    refine List.countP_congr fun e he => ?_
    have hget : Insertion.get tokens e.1 = some e.2 := Insertion.get_of_mem h.nodup he
    simp [Keeps.spends, hget]
  refine ⟨congrArg (fun n => Except.ok (TokenReply.count n)) hcount, hnow, ?_,
    nodup_spendUserTokens h.nodup ..⟩
  · have hsame : (fun tokenHash => (Insertion.get tokens tokenHash).map fun stored =>
        if stored.isOf userId kind except then stored.spent at_ else stored) =
        Insertion.get (Auth.spendUserTokens tokens userId kind at_ except).2 := by
      funext tokenHash
      rw [get_spendUserTokens]
    exact hsame ▸ hkeeps

theorem deleteUserTokens (h : SameTokens p ownerOf db tokens) (userId : Str) :
    SameTokensAfter otherwise p ownerOf db tokens (.deleteUserTokens userId) := by
  obtain ⟨deleted, db', hrun, rfl, hnow, hkeeps⟩ :=
    (h.keeps.deleteUserTokens userId h.nodup mem_keys_iff).exists_run
  rw [SameTokensAfter, tokenStore, serveToken, serve_eq hrun]
  have hcount : (tokens.map Prod.fst).countP (fun tokenHash =>
      (Insertion.get tokens tokenHash).any (·.userId = userId)) =
      (Auth.deleteUserTokens tokens userId).1 := by
    rw [Auth.deleteUserTokens, deleteTokensWhere, List.countP_map]
    refine List.countP_congr fun e he => ?_
    have hget : Insertion.get tokens e.1 = some e.2 := Insertion.get_of_mem h.nodup he
    simp [hget]
  refine ⟨congrArg (fun n => Except.ok (TokenReply.count n)) hcount, hnow, ?_,
    nodup_deleteUserTokens h.nodup userId⟩
  · have hsame : (fun tokenHash => (Insertion.get tokens tokenHash).filter (·.userId ≠ userId)) =
        Insertion.get (Auth.deleteUserTokens tokens userId).2 := by
      funext tokenHash
      rw [Auth.deleteUserTokens, get_deleteTokensWhere h.nodup]
      simp only [ne_eq, decide_not]
    exact hsame ▸ hkeeps

variable (otherwise) in
/-- **One call**: the two answer alike, and hold the same tokens after it. -/
theorem step (h : SameTokens p ownerOf db tokens) (hclock : db.now = now) {request : TokenRequest}
    (hfits : request.Fits ownerOf now tokens) :
    SameTokensAfter otherwise p ownerOf db tokens request := by
  cases request with
  | insertToken record => exact h.insertToken hclock hfits
  | consumeToken tokenHash kind at_ => exact h.consumeToken hfits
  | countAttempt tokenHash kind => exact h.countAttempt hfits
  | spendUserTokens userId kind at_ except => exact h.spendUserTokens except hfits
  | deleteUserTokens userId => exact h.deleteUserTokens userId

/-- What Redis has expired is what would have been collected. -/
theorem pass (h : SameTokens p ownerOf db tokens) (hclock : db.now = now) (elapsed : ℕ) :
    SameTokens p ownerOf (db.tick (elapsed + 1))
      (deleteExpiredTokens tokens (now + elapsed)).2 := by
  have hlater : db.now + (elapsed + 1 : ℕ) = ((now + elapsed + 1 : ℕ) : ℤ) := by
    rw [hclock]
    push_cast
    omega
  have hsame : (fun tokenHash => (Insertion.get tokens tokenHash).filter fun stored =>
      decide (db.now + (elapsed + 1 : ℕ) ≤ (stored.expiresAt : ℤ))) =
      Insertion.get (deleteExpiredTokens tokens (now + elapsed)).2 := by
    funext tokenHash
    rw [deleteExpiredTokens, get_deleteTokensWhere h.nodup]
    congr 1
    funext stored
    rw [hlater, ← decide_not]
    refine decide_eq_decide.mpr ?_
    rw [Int.ofNat_le, not_le]
    exact Nat.succ_le_iff
  exact ⟨hsame ▸ h.keeps.tick (elapsed + 1), nodup_deleteTokensWhere h.nodup _⟩

end SameTokens

end Refines

end Janus.Redis
