import Janus.Auth.Store
import Janus.Redis.Scripts

/-!
# Redis/Replies — what a script answers, read back

A hash answers its fields, and a record is read out of them: a reply this adapter did not write is a
failure, never an absence.  What it wrote reads back as itself (`toSession_hash`, `toToken_hash`).
-/

namespace Janus.Redis

open Js Insertion Auth

/-! ## Failures -/

/-- The call a reply answers: what a failure names. -/
structure Call where
  slot : Str
  operation : Str

structure StoreFailure where
  message : Str
  call : Call
  /-- What ended the script, when it was not answered. -/
  cause : Option (Keyspace.Fault Str)

def unreadable (call : Call) (what : Str) : StoreFailure where
  message := call.slot ++ js "." ++ call.operation ++ js ": a reply that is not " ++ what ++
    js " — a key under the prefix this adapter did not write"
  call := call
  cause := none

def unanswered (call : Call) (cause : Keyspace.Fault Str) : StoreFailure where
  message := call.slot ++ js "." ++ call.operation ++ js ": the store could not answer"
  call := call
  cause := some cause

/-! ## Reading a hash -/

def isDigit (u : CodeUnit) : Bool := 48 ≤ u.val && u.val ≤ 57

/-- The last moment a `Date` names. -/
def lastMoment : Time := 8640000000000000

/-- `Number.MAX_SAFE_INTEGER`. -/
def maxSafeInteger : ℕ := 9007199254740991

/-- The fields of a hash, as a map. -/
def readerOf (reply : List (Str × Str)) : List (Str × Str) :=
  reply.foldl (fun fields e => put fields e.1 e.2) []

section Reader

-- what `new Date(Number(value))` makes of a text that is no plain count of milliseconds
variable (otherwise : Str → Option Time) (call : Call) (fields : List (Str × Str)) (name : Str)

def text : Except StoreFailure Str :=
  match get fields name with
  | none => .error (unreadable call (js "a hash with `" ++ name ++ js "`"))
  | some value => .ok value

/-- `new Date(Number(value))`, when it is a date. -/
def toDate (value : Str) : Option Time :=
  if value ≠ [] ∧ value.all isDigit then
    if toNumber value ≤ lastMoment then some (toNumber value) else none
  else otherwise value

def date : Except StoreFailure Time := do
  let value ← text call fields name
  match if value = [] then none else toDate otherwise value with
  | none => .error (unreadable call (js "a date in `" ++ name ++ js "`"))
  | some at_ => .ok at_

def dateOrNull : Except StoreFailure (Option Time) := do
  if (← text call fields name) = [] then pure none
  else some <$> date otherwise call fields name

/-- An absent field is the empty text. -/
def optional : Str := (get fields name).getD []

/-- `/^(0|[1-9]\d*)$/`. -/
def isCount (value : Str) : Bool :=
  value = [48] || value ≠ [] && value.head? ≠ some 48 && value.all isDigit

/-- Absent, none; and only what this adapter writes. -/
def count : Except StoreFailure ℕ :=
  match get fields name with
  | none => .ok 0
  | some value =>
    if isCount value ∧ toNumber value ≤ maxSafeInteger then .ok (toNumber value)
    else .error (unreadable call (js "a count in `" ++ name ++ js "`"))

end Reader

/-- `[id, field, value, …]` as a session, or `null`. -/
def toSession (otherwise : Str → Option Time) (reply : Option (Str × List (Str × Str)))
    (call : Call) : Except StoreFailure (Option SessionRecord) :=
  match reply with
  | none => .ok none
  | some (id, rest) => do
    let fields := readerOf rest
    let tokenHash ← text call fields (js "tokenHash")
    let userId ← text call fields (js "userId")
    let authenticatedAt ← date otherwise call fields (js "authenticatedAt")
    let expiresAt ← date otherwise call fields (js "expiresAt")
    let revokedAt ← dateOrNull otherwise call fields (js "revokedAt")
    let createdAt ← date otherwise call fields (js "createdAt")
    pure (some ⟨id, tokenHash, userId, authenticatedAt, expiresAt, revokedAt, createdAt⟩)

/-- The name of a kind. -/
def kindText : TokenKind → Str
  | .verifyEmail => js "verifyEmail"
  | .resetPassword => js "resetPassword"
  | .secondFactor => js "secondFactor"
  | .signInCode => js "signInCode"
  | .magicLink => js "magicLink"
  | .stepUp => js "stepUp"
  | .changeEmail => js "changeEmail"

theorem kindText_injective : Function.Injective kindText := by
  intro kind kind' h
  cases kind <;> cases kind' <;> first | rfl | exact absurd h (by decide)

@[simp] theorem kindText_inj {kind kind' : TokenKind} : kindText kind = kindText kind' ↔
    kind = kind' := kindText_injective.eq_iff

/-- `[field, value, …]` as the token `tokenHash` names, or `null`. -/
def toToken (otherwise : Str → Option Time) (reply : Option (List (Str × Str))) (tokenHash : Str)
    (kind : TokenKind) (call : Call) : Except StoreFailure (Option TokenRecord) :=
  match reply with
  | none => .ok none
  | some reply => do
    let fields := readerOf reply
    if (← text call fields (js "kind")) ≠ kindText kind then
      .error (unreadable call (js "a " ++ kindText kind ++ js " token"))
    else
      let userId ← text call fields (js "userId")
      let address ← text call fields (js "address")
      -- Absent on a token an earlier version wrote: read as none, and no attempt.
      let codeHash := some (optional fields (js "codeHash")) |>.filter (· ≠ [])
      let attempts ← count call fields (js "attempts")
      let expiresAt ← date otherwise call fields (js "expiresAt")
      let spentAt ← dateOrNull otherwise call fields (js "spentAt")
      let createdAt ← date otherwise call fields (js "createdAt")
      pure (some ⟨tokenHash, kind, userId, address, codeHash, attempts, expiresAt, spentAt,
        createdAt⟩)

/-! ## What the adapter wrote -/

/-- A date's text, or the empty one. -/
def stampOf (at_ : Option Time) : Str := stampOrEmpty (at_.map Int.ofNat)

theorem stampOf_eq_nil {at_ : Option Time} : stampOf at_ = [] ↔ at_ = none := by
  cases at_ with
  | none => exact iff_of_true rfl rfl
  | some at_ => exact iff_of_false (stamp_ne_nil at_) (Option.some_ne_none at_)

/-- A session's hash, as it is inserted. -/
def sessionHash (record : SessionRecord) : List (Str × Str) :=
  [(js "tokenHash", record.tokenHash), (js "userId", record.userId),
    (js "authenticatedAt", stamp record.authenticatedAt), (js "expiresAt", stamp record.expiresAt),
    (js "revokedAt", stampOf record.revokedAt), (js "createdAt", stamp record.createdAt)]

/-- A token's. -/
def tokenHashOf (record : TokenRecord) : List (Str × Str) :=
  [(js "kind", kindText record.kind), (js "userId", record.userId), (js "address", record.address),
    (js "expiresAt", stamp record.expiresAt), (js "spentAt", stampOf record.spentAt),
    (js "createdAt", stamp record.createdAt), (js "codeHash", record.codeHash.getD []),
    (js "attempts", decimal record.attempts)]

/-- A session's dates are dates. -/
structure Dated (record : SessionRecord) : Prop where
  authenticatedAt : record.authenticatedAt ≤ lastMoment
  expiresAt : record.expiresAt ≤ lastMoment
  revokedAt : ∀ at_, record.revokedAt = some at_ → at_ ≤ lastMoment
  createdAt : record.createdAt ≤ lastMoment

/-- A token's dates are dates, its count is a count, and its code's hash no empty text. -/
structure Written (record : TokenRecord) : Prop where
  codeHash : record.codeHash ≠ some []
  attempts : record.attempts ≤ maxSafeInteger
  expiresAt : record.expiresAt ≤ lastMoment
  spentAt : ∀ at_, record.spentAt = some at_ → at_ ≤ lastMoment
  createdAt : record.createdAt ≤ lastMoment

section RoundTrip

variable {otherwise : Str → Option Time} {call : Call} {fields : List (Str × Str)} {name : Str}

theorem all_isDigit_decimal (n : ℕ) : (decimal n).all isDigit := by
  refine List.all_eq_true.mpr fun u hu => ?_
  obtain ⟨hlow, hhigh⟩ := mem_decimal hu
  simp [isDigit, hlow, hhigh]

theorem toDate_decimal {t : Time} (h : t ≤ lastMoment) :
    toDate otherwise (decimal t) = some t := by
  rw [toDate, if_pos ⟨decimal_ne_nil t, all_isDigit_decimal t⟩, toNumber_decimal, if_pos h]

theorem date_eq {t : Time} (hget : get fields name = some (stamp t)) (h : t ≤ lastMoment) :
    date otherwise call fields name = .ok t := by
  have hread : (if stamp t = [] then none else toDate otherwise (stamp t)) = some t := by
    rw [if_neg (stamp_ne_nil t)]
    exact toDate_decimal h
  rw [date, text, hget]
  change (match if stamp t = [] then none else toDate otherwise (stamp t) with
    | none => Except.error _
    | some at_ => Except.ok at_) = _
  rw [hread]

theorem dateOrNull_eq {t : Option Time} (hget : get fields name = some (stampOf t))
    (h : ∀ at_, t = some at_ → at_ ≤ lastMoment) :
    dateOrNull otherwise call fields name = .ok t := by
  rw [dateOrNull, text, hget]
  cases t with
  | none => rfl
  | some at_ =>
    change (if stamp at_ = [] then Except.ok none else
      some <$> date otherwise call fields name) = _
    rw [if_neg (stamp_ne_nil at_), date_eq hget (h at_ rfl)]
    rfl

theorem isCount_decimal (n : ℕ) : isCount (decimal n) = true := by
  obtain rfl | hn := Nat.eq_zero_or_pos n
  · rfl
  · have hhead : (decimal n).head? ≠ some 48 := by
      intro hhead
      obtain ⟨rest, hrest⟩ := List.head?_eq_some_iff.mp hhead
      exact head_decimal hn.ne' hrest
    simp [isCount, decimal_ne_nil, hhead, all_isDigit_decimal]

theorem count_eq {n : ℕ} (hget : get fields name = some (decimal n)) (h : n ≤ maxSafeInteger) :
    count call fields name = .ok n := by
  rw [count, hget]
  dsimp only
  rw [toNumber_decimal, if_pos ⟨isCount_decimal n, h⟩]

/-- A hash whose fields are all different is its own map. -/
theorem readerOf_eq (h : (fields.map Prod.fst).Nodup) : readerOf fields = fields := by
  suffices hmore : ∀ done rest : List (Str × Str), ((done ++ rest).map Prod.fst).Nodup →
      rest.foldl (fun fields e => put fields e.1 e.2) done = done ++ rest from hmore [] fields h
  intro done rest hnodup
  induction rest generalizing done with
  | nil => rw [List.append_nil, List.foldl_nil]
  | cons e rest ih =>
    have hnone : get done e.1 = none := by
      by_contra hsome
      have hmem := mem_keys.mpr (Option.isSome_iff_ne_none.mpr hsome)
      rw [List.map_append, List.map_cons] at hnodup
      exact List.disjoint_of_nodup_append hnodup hmem List.mem_cons_self
    rw [List.foldl_cons, put_of_get_none hnone, ih _ (by simpa using hnodup), List.append_assoc,
      List.singleton_append]

/-- **A session reads back as itself.** -/
theorem toSession_hash {record : SessionRecord} (h : Dated record) :
    toSession otherwise (some (record.id, sessionHash record)) call = .ok (some record) := by
  have hreader : readerOf (sessionHash record) = sessionHash record :=
    readerOf_eq (by simp only [sessionHash, List.map_cons, List.map_nil]; decide)
  rw [toSession, hreader, date_eq (t := record.authenticatedAt) rfl h.authenticatedAt,
    date_eq (t := record.expiresAt) rfl h.expiresAt,
    dateOrNull_eq (t := record.revokedAt) rfl h.revokedAt,
    date_eq (t := record.createdAt) rfl h.createdAt]
  rfl

/-- **…and so does a token.** -/
theorem toToken_hash {record : TokenRecord} (h : Written record) :
    toToken otherwise (some (tokenHashOf record)) record.tokenHash record.kind call =
      .ok (some record) := by
  have hreader : readerOf (tokenHashOf record) = tokenHashOf record :=
    readerOf_eq (by simp only [tokenHashOf, List.map_cons, List.map_nil]; decide)
  have hcode : (some (optional (tokenHashOf record) (js "codeHash"))).filter (· ≠ []) =
      record.codeHash := by
    change (some (record.codeHash.getD [])).filter (· ≠ []) = record.codeHash
    cases hcodeHash : record.codeHash with
    | none => rfl
    | some code =>
      rw [Option.getD_some, Option.filter_eq_some_iff]
      exact ⟨rfl, by simpa [hcodeHash] using h.codeHash⟩
  rw [toToken, hreader, hcode, count_eq (n := record.attempts) rfl h.attempts,
    date_eq (t := record.expiresAt) rfl h.expiresAt,
    dateOrNull_eq (t := record.spentAt) rfl h.spentAt,
    date_eq (t := record.createdAt) rfl h.createdAt]
  change (if kindText record.kind ≠ kindText record.kind then _ else _) = _
  rw [if_neg (not_not_intro rfl)]
  rfl

end RoundTrip

end Janus.Redis
