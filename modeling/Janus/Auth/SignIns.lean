import Janus.Auth.Chain
import Janus.Auth.History
import Janus.Auth.Protocol

/-!
# Auth/SignIns — a sign-in against everything that ends a password

    verified ──▸ opened ──read again──▸ kept
                             └────────▸ failing ──ended──▸ refused
    a writer:  read ──▸ wrote ──▸ challenges spent, sessions revoked

Sign-ins, redemptions, writers and first proofs, in any order of their calls.  What a sign-in opened
is stored before the record is read again, and whoever writes a password ends what was open after
it wrote: so one of the two sees the other.
-/

namespace Janus.Auth

open Js Insertion Calls

abbrev AuthEntry := Entry Call Answer AuthFlow Failure AuthAnswer

namespace SignIns

variable {ctx : Context}

/-! ## What is told of a run -/

/-- A sign-in stores what it opens. -/
inductive Stores (i : ℕ) : Opened → AuthEntry → Prop
  | session (record : SessionRecord) :
    Stores i (.session record.id) (.called i (.insertSession record) ())
  | challenge (record : TokenRecord) (h : isId record.userId = true) :
    Stores i (.challenge record.tokenHash) (.called i (.insertToken record) ())

/-- Nothing was stored by a flow. -/
def Unstored (log : AuthLog) (i : ℕ) : Prop := ∀ e ∈ log, ∀ x, ¬ Stores i x e

/-- One thing was. -/
def StoredOnly (log : AuthLog) (i : ℕ) (x : Opened) : Prop :=
  (∃ e ∈ log, Stores i x e) ∧ ∀ e ∈ log, ∀ x', Stores i x' e → x' = x

/-- A sign-in read a record that holds the password. -/
def ReadHolding (ctx : Context) (log : AuthLog) (i : ℕ) (id password : Str) : Prop :=
  ∃ type login read, .called i (.findUserByLogin type login) (some read) ∈ log ∧ read.id = id ∧
    Holds ctx (some password) read

/-- Since then a writer, or a first proof, wrote another password, or none. -/
def Overwritten (ctx : Context) (log : AuthLog) (i : ℕ) (id password : Str) : Prop :=
  ∃ l₁ j patch v new l₂, log = l₁ ++ .called j (.updateUser id patch v) (.ok new) :: l₂ ∧
    ReadHolding ctx l₁ i id password ∧ ¬ Holds ctx (some password) new ∧
    ∃ g, .began j g ∈ l₁ ∧ g.leaves.isSome

/-- The password was held by the record read, and is still, or was overwritten. -/
def Upheld (ctx : Context) (w : World) (log : AuthLog) (i : ℕ) (read : UserRecord)
    (password : Str) : Prop :=
  ReadHolding ctx log i read.id password ∧ ∃ current, get w.users read.id = some current ∧
    Known ctx read current ∧
    (Holds ctx (some password) current ∨ Overwritten ctx log i read.id password)

/-- Read again, the record no longer held the password: it was overwritten before. -/
def Refusing (ctx : Context) (log : AuthLog) (i : ℕ) (id password : Str) : Prop :=
  ∃ l₁ now l₂, log = l₁ ++ .called i (.findUser id) now :: l₂ ∧
    (∀ record, now = some record → ¬ Holds ctx (some password) record) ∧
    Overwritten ctx l₁ i id password

/-- What was opened is in its store. -/
def Present (w : World) : Opened → Prop
  | .session id => (get w.sessions id).isSome
  | .challenge hash => (get w.tokens hash).isSome

/-- …and is of no more use: revoked, or spent. -/
def Closed (w : World) : Opened → Prop
  | .session id => ∃ record, get w.sessions id = some record ∧ record.revokedAt ≠ none
  | .challenge hash => ∃ record, get w.tokens hash = some record ∧
    (record.kind = .secondFactor → record.spentAt ≠ none)

abbrev Locals := ℕ → Option (AuthFlow × Phase)

/-- A flow that revokes has not yet, since it wrote. -/
def Pending (m : Locals) (k : ℕ) : Prop := ∀ g q, m k = some (g, q) → g.revokes →
  ∃ left record spent, q.place = .wrote left record false spent

/-- A session that stands saw no password written since, but by flows that have yet to revoke. -/
def Lasting (w : World) (m : Locals) (since : AuthLog) (x : Opened) (userId : Str) : Prop :=
  ∀ id, x = .session id → ∀ record, get w.sessions id = some record → record.revokedAt = none →
    record.userId = userId → ∀ k patch v new,
    .called k (.updateUser userId patch v) (.ok new) ∈ since → patch.password ≠ none → Pending m k

/-- A sign-in kept what it opened: it read the record again, and the record held the password. -/
def KeptAt (ctx : Context) (w₀ w : World) (log : AuthLog) (m : Locals) (i : ℕ)
    (type : ResolvedType) (x : Opened) (id : Str) (now : UserRecord) (password : Str) : Prop :=
  ∃ l₁ e l₂ l₃, log = l₁ ++ e :: (l₂ ++ .called i (.findUser id) (some now) :: l₃) ∧
    Stores i x e ∧ Held ctx type password now ∧ now.id = id ∧
    recordAfter w₀ id (l₁ ++ e :: l₂) = some now ∧ Lasting w m l₃ x id

/-- Where a sign-in stands. -/
def SignInStands (ctx : Context) (w₀ w : World) (log : AuthLog) (m : Locals) (i : ℕ)
    (type : ResolvedType) : Place → Prop
  | .plain seen => Unstored log i ∧ ∀ read, seen = some read → read.type = type.name ∧
    ∀ password, Holds ctx (some password) read → Upheld ctx w log i read password
  | .opened x verified password => verified.type = type.name ∧
    Upheld ctx w log i verified password ∧ StoredOnly log i x ∧ Present w x
  | .kept x verified now password =>
    KeptAt ctx w₀ w log m i type x verified.id now password ∧ Present w x
  | .failing x verified password => Refusing ctx log i verified.id password ∧ StoredOnly log i x ∧
    Present w x
  | .refused x verified password => Refusing ctx log i verified.id password ∧ StoredOnly log i x ∧
    Closed w x
  | .lost | .stuck => False
  | _ => True

def Stands (ctx : Context) (w₀ w : World) (log : AuthLog) (m : Locals) (i : ℕ) :
    AuthFlow → Place → Prop
  | .signIn type _ _, place => SignInStands ctx w₀ w log m i type place
  | _, _ => True

/-- The record a flow read last, to write it. -/
def seen : Place → Option UserRecord
  | .plain seen => seen
  | .settled _ seen => some seen
  | _ => none

/-- Only a writer or a first proof changes the password held: whatever else is written holds what
the record held. -/
def Told (ctx : Context) (w₀ : World) (l : AuthLog) (e : AuthEntry) : Prop :=
  ∀ j id patch v new, e = .called j (.updateUser id patch v) (.ok new) →
    ∃ g old, .began j g ∈ l ∧ recordAfter w₀ id l = some old ∧
      (g.leaves = none ∨ patch.password = none →
        ∀ password, Holds ctx (some password) new ↔ Holds ctx (some password) old)

/-- A writer of this user has yet to spend the challenges. -/
def Owes (userId : Str) (place : Place) : Prop :=
  ∃ left record revoked, place = .wrote left record revoked false ∧ record.id = userId

/-- The record holds the password, or a writer has yet to spend what it opened. -/
def Settling (ctx : Context) (w : World) (m : Locals) (userId password : Str) : Prop :=
  (∃ current, get w.users userId = some current ∧ Holds ctx (some password) current) ∨
    ∃ k g q, m k = some (g, q) ∧ Owes userId q.place

/-- Whose a challenge still unspent is: of before the run, of a flow that proves an e-mail, or of a
sign-in, whose password the record holds once it is kept. -/
def Owned (ctx : Context) (w₀ w : World) (log : AuthLog) (m : Locals) (hash userId : Str) : Prop :=
  (∃ t, get w₀.tokens hash = some t ∧ t.kind = .secondFactor ∧ t.spentAt = none ∧
    t.userId = userId) ∨
  (∃ k g record, .began k g ∈ log ∧ g.isProver ∧ .called k (.insertToken record) () ∈ log ∧
    record.tokenHash = hash) ∨
  ∃ i f p verified password, m i = some (f, p) ∧ f.isSignIn ∧ verified.id = userId ∧
    (p.place = .opened (.challenge hash) verified password ∨
      p.place = .failing (.challenge hash) verified password ∨
      ∃ now, p.place = .kept (.challenge hash) verified now password ∧
        Settling ctx w m userId password)

structure Inv (ctx : Context) (w₀ w : World) (log : AuthLog) (m : Locals) : Prop where
  histories : Histories w₀ w log fun i => (m i).bind fun q => seen q.2.place
  minted : ∀ id record, get w.users id = some record → isId id = true
  tells : Tells (Told ctx w₀) log
  booked : (authProtocol ctx).Booked log m
  known : ∀ i, m i = none → ∀ e ∈ log, e.thread ≠ i
  stands : ∀ i f p, m i = some (f, p) → Stands ctx w₀ w log m i f p.place
  /-- A password is written once by a flow. -/
  wrote : ∀ k g q, m k = some (g, q) → g.isSignIn = false → ∀ id patch v new,
    .called k (.updateUser id patch v) (.ok new) ∈ log → patch.password ≠ none →
    ∃ left record revoked spent, q.place = .wrote left record revoked spent ∧ record.id = id
  challenges : ∀ hash t, get w.tokens hash = some t → t.kind = .secondFactor → t.spentAt = none →
    isId t.userId = true → Owned ctx w₀ w log m hash t.userId

/-! ## As the log grows -/

section Grows

variable {log more : AuthLog} {i : ℕ} {id password : Str} {x : Opened} {e : AuthEntry}

theorem Unstored.concat (h : Unstored log i) (he : ∀ x, ¬ Stores i x e) :
    Unstored (log ++ [e]) i := fun e' he' =>
  (List.mem_append.mp he').elim (h e') fun h => List.mem_singleton.mp h ▸ he

theorem StoredOnly.concat (h : StoredOnly log i x) (he : ∀ x, ¬ Stores i x e) :
    StoredOnly (log ++ [e]) i x := by
  obtain ⟨⟨e', he', hstores⟩, hall⟩ := h
  refine ⟨⟨e', List.mem_append_left _ he', hstores⟩, fun e' he' x' hx' => ?_⟩
  obtain he' | he' := List.mem_append.mp he'
  · exact hall e' he' x' hx'
  · exact absurd (List.mem_singleton.mp he' ▸ hx') (he x')

/-- What a sign-in stores first. -/
theorem Unstored.stores (h : Unstored log i) (he : Stores i x e) : StoredOnly (log ++ [e]) i x := by
  refine ⟨⟨e, List.mem_append_right _ List.mem_cons_self, he⟩, fun e' he' x' hx' => ?_⟩
  obtain he' | he' := List.mem_append.mp he'
  · exact absurd hx' (h e' he' x')
  · rw [List.mem_singleton.mp he'] at hx'
    cases he with
    | session => cases hx'; rfl
    | challenge => cases hx'; rfl

theorem ReadHolding.append (h : ReadHolding ctx log i id password) :
    ReadHolding ctx (log ++ more) i id password := by
  obtain ⟨type, login, read, hread, hid, holds⟩ := h
  exact ⟨type, login, read, List.mem_append_left _ hread, hid, holds⟩

theorem Overwritten.append (h : Overwritten ctx log i id password) :
    Overwritten ctx (log ++ more) i id password := by
  obtain ⟨l₁, j, patch, v, new, l₂, rfl, hread, hnot, hwriter⟩ := h
  exact ⟨l₁, j, patch, v, new, l₂ ++ more, by rw [List.append_assoc, List.cons_append], hread, hnot,
    hwriter⟩

theorem Refusing.append (h : Refusing ctx log i id password) :
    Refusing ctx (log ++ more) i id password := by
  obtain ⟨l₁, now, l₂, rfl, hnot, hover⟩ := h
  exact ⟨l₁, now, l₂ ++ more, by rw [List.append_assoc, List.cons_append], hnot, hover⟩

theorem stores_thread (h : Stores i x e) : e.thread = i := by
  cases h <;> rfl

end Grows

/-! ## As the stores move -/

section Stores

variable {w w' : World} {c : Call} {r : Answer c} {x : Opened}

/-- A session is never forgotten, and stands only if it did. -/
theorem session_exec (h : exec c w = (r, w')) {id : Str} {record : SessionRecord}
    (hget : get w.sessions id = some record) :
    ∃ record', get w'.sessions id = some record' ∧ record'.userId = record.userId ∧
      (record'.revokedAt = none → record.revokedAt = none) := by
  have hsame : ∃ record', get w.sessions id = some record' ∧ record'.userId = record.userId ∧
      (record'.revokedAt = none → record.revokedAt = none) := ⟨record, hget, rfl, fun h => h⟩
  have hrevoked : ∀ at_, (record.revoked at_).userId = record.userId ∧
      ((record.revoked at_).revokedAt = none → record.revokedAt = none) := by
    intro at_
    rw [SessionRecord.revoked]
    split
    · exact ⟨rfl, by rintro ⟨⟩⟩
    · exact ⟨rfl, fun h => h⟩
  have hstanding : ∀ id' (patch : SessionRecord → SessionRecord),
      (∀ s, (patch s).userId = s.userId ∧ (patch s).revokedAt = s.revokedAt) →
      ∃ record', get (standingWrite w.sessions id' patch).2 id = some record' ∧
        record'.userId = record.userId ∧
        (record'.revokedAt = none → record.revokedAt = none) := by
    intro id' patch hpatch
    rw [standingWrite]
    split
    case h_1 => exact hsame
    case h_2 stored hstored =>
      obtain ⟨hstored, -⟩ := Option.filter_eq_some_iff.mp hstored
      rw [get_put]
      split
      case isTrue heq =>
        subst heq
        cases hget.symm.trans hstored
        exact ⟨_, rfl, (hpatch record).1, fun h => (hpatch record).2 ▸ h⟩
      case isFalse => exact hsame
  cases c with
  | insertSession new =>
    cases h
    change ∃ record', get (Auth.insertSession w.sessions new) id = some record' ∧ _
    rw [Auth.insertSession]
    split
    case isTrue => exact hsame
    case isFalse hnew =>
      rw [get_put_ne _ _ fun heq => hnew (by rw [heq, hget]; rfl)]
      exact hsame
  | extendSession id' expiresAt =>
    cases h
    exact hstanding id' _ fun s => ⟨rfl, rfl⟩
  | reauthenticateSession id' at_ =>
    cases h
    exact hstanding id' _ fun s => ⟨rfl, rfl⟩
  | revokeSession id' at_ =>
    cases h
    change ∃ record', get (Auth.revokeSession w.sessions id' at_).2 id = some record' ∧ _
    rw [Auth.revokeSession]
    split
    case h_1 => exact hsame
    case h_2 stored hstored =>
      rw [get_put]
      split
      case isTrue heq =>
        subst heq
        cases hget.symm.trans hstored
        exact ⟨_, rfl, hrevoked at_⟩
      case isFalse => exact hsame
  | revokeUserSessions userId at_ except =>
    cases h
    refine ⟨_, (get_revokeUserSessions ..).trans (by rw [hget, Option.map_some]), ?_⟩
    split
    · exact hrevoked at_
    · exact ⟨rfl, fun h => h⟩
  | _ => cases h; exact hsame

/-- A token unspent was, or was just stored. -/
theorem token_exec (h : exec c w = (r, w')) {hash : Str} {t : TokenRecord}
    (hget : get w'.tokens hash = some t) :
    (∃ old, get w.tokens hash = some old ∧ old.kind = t.kind ∧ old.userId = t.userId ∧
      (t.spentAt = none → old.spentAt = none)) ∨ c = .insertToken t ∧ t.tokenHash = hash := by
  cases hold : get w.tokens hash with
  | some old =>
    obtain ⟨t', ht', ⟨hkind, huser⟩, hspent⟩ := kept_exec h hash old hold
    cases hget.symm.trans ht'
    refine Or.inl ⟨old, rfl, hkind.symm, huser.symm, fun hunspent => ?_⟩
    by_contra hne
    exact hne (hspent hne ▸ hunspent)
  | none =>
    right
    have hmapped : ∀ {tokens' : List (Str × TokenRecord)} {write : TokenRecord → TokenRecord},
        get tokens' hash = (get w.tokens hash).map write → get tokens' hash ≠ some t := by
      intro tokens' write heq
      rw [heq, hold]
      nofun
    cases c with
    | insertToken record =>
      cases h
      have hinsert := (get_insertToken record hash).symm.trans hget
      split at hinsert
      case isTrue heq =>
        rw [hold, Option.getD_none] at hinsert
        cases hinsert
        exact ⟨rfl, heq⟩
      case isFalse => rw [hold] at hinsert; cases hinsert
    | consumeToken => cases h; exact absurd hget (hmapped (get_writeToken ..))
    | countAttempt => cases h; exact absurd hget (hmapped (get_writeToken ..))
    | spendUserTokens => cases h; exact absurd hget (hmapped (get_spendUserTokens ..))
    | _ => cases h; rw [hold] at hget; cases hget

theorem Present.exec (h : Present w x) (hexec : exec c w = (r, w')) : Present w' x := by
  cases x with
  | session id =>
    obtain ⟨record, hrecord⟩ := Option.isSome_iff_exists.mp h
    obtain ⟨record', hrecord', -⟩ := session_exec hexec hrecord
    exact Option.isSome_iff_exists.mpr ⟨record', hrecord'⟩
  | challenge hash =>
    obtain ⟨t, ht⟩ := Option.isSome_iff_exists.mp h
    obtain ⟨t', ht', -⟩ := kept_exec hexec hash t ht
    exact Option.isSome_iff_exists.mpr ⟨t', ht'⟩

theorem Closed.exec (h : Closed w x) (hexec : exec c w = (r, w')) : Closed w' x := by
  cases x with
  | session id =>
    obtain ⟨record, hrecord, hrevoked⟩ := h
    obtain ⟨record', hrecord', -, hstands⟩ := session_exec hexec hrecord
    exact ⟨record', hrecord', fun hnone => hrevoked (hstands hnone)⟩
  | challenge hash =>
    obtain ⟨t, ht, hspent⟩ := h
    obtain ⟨t', ht', ⟨hkind, -⟩, hsame⟩ := kept_exec hexec hash t ht
    refine ⟨t', ht', fun hk => ?_⟩
    rw [hsame (hspent (hkind ▸ hk))]
    exact hspent (hkind ▸ hk)

/-- A session revoked is closed. -/
theorem closed_revokeSession {id : Str} {at_ : Time} {r : Bool} (h : Present w (.session id))
    (hexec : exec (.revokeSession id at_) w = (r, w')) : Closed w' (.session id) := by
  obtain ⟨record, hrecord⟩ := Option.isSome_iff_exists.mp h
  cases hexec
  refine ⟨record.revoked at_, ?_, ?_⟩
  · change get (Auth.revokeSession w.sessions id at_).2 id = _
    rw [Auth.revokeSession, hrecord]
    exact get_put_self ..
  · rw [SessionRecord.revoked]
    split
    · exact Option.some_ne_none _
    · assumption

/-- …and so is a challenge consumed. -/
theorem closed_consumeToken {hash : Str} {at_ : Time} {r : Option TokenRecord}
    (h : Present w (.challenge hash))
    (hexec : exec (.consumeToken hash .secondFactor at_) w = (r, w')) :
    Closed w' (.challenge hash) := by
  obtain ⟨t, ht⟩ := Option.isSome_iff_exists.mp h
  cases hexec
  refine ⟨_, (get_writeToken hash .secondFactor _ hash).trans (by rw [ht, Option.map_some]), ?_⟩
  split
  case isTrue =>
    intro _
    rw [TokenRecord.spent]
    split
    · exact Option.some_ne_none _
    · assumption
  case isFalse hkind => exact fun hk => absurd ⟨rfl, hk⟩ hkind

/-- Every session of the user is closed at once. -/
theorem revoked_revokeUserSessions {userId id : Str} {at_ : Time} {r : ℕ}
    (hexec : exec (.revokeUserSessions userId at_ none) w = (r, w')) {record : SessionRecord}
    (hget : get w'.sessions id = some record) (huser : record.userId = userId) :
    record.revokedAt ≠ none := by
  cases hexec
  obtain ⟨stored, -, hrecord⟩ :=
    Option.map_eq_some_iff.mp ((get_revokeUserSessions ..).symm.trans hget)
  subst hrecord
  by_cases hself : stored.userId = userId ∧ some id ≠ none
  · rw [if_pos hself, SessionRecord.revoked]
    split
    · exact Option.some_ne_none _
    · assumption
  · rw [if_neg hself] at huser
    exact absurd ⟨huser, nofun⟩ hself

/-- …and every challenge. -/
theorem spent_spendUserTokens {userId hash : Str} {at_ : Time} {r : ℕ}
    (hexec : exec (.spendUserTokens userId .secondFactor at_ none) w = (r, w')) {t : TokenRecord}
    (hget : get w'.tokens hash = some t) (huser : t.userId = userId)
    (hkind : t.kind = .secondFactor) : t.spentAt ≠ none := by
  cases hexec
  obtain ⟨stored, -, rfl⟩ :=
    Option.map_eq_some_iff.mp ((get_spendUserTokens ..).symm.trans hget)
  by_cases hself : stored.isOf userId .secondFactor none = true
  · rw [if_pos hself, TokenRecord.spent]
    split
    · exact Option.some_ne_none _
    · assumption
  · rw [if_neg hself] at huser hkind
    exact absurd (decide_eq_true ⟨Option.some_ne_none _, huser, hkind⟩) hself

end Stores

/-! ## What a write does -/

section Write

variable {w₀ w w' : World} {log : AuthLog} {m : Locals} {f : AuthFlow} {p p' : Phase}
  {old new : UserRecord} {patch : UserPatch} {i j v : ℕ} {id password : Str}

theorem holds_iff (h : new.password.map (·.hash) = old.password.map (·.hash)) (password : Str) :
    Holds ctx (some password) new ↔ Holds ctx (some password) old :=
  ⟨fun h' => h'.congr h.symm, fun h' => h'.congr h⟩

/-- What a write moves of a password. -/
structure Writes (ctx : Context) (f : AuthFlow) (patch : UserPatch) (old new : UserRecord) :
    Prop where
  rewritten : Rewritten ctx old new
  keeps : f.leaves = none ∨ patch.password = none →
    ∀ password, Holds ctx (some password) new ↔ Holds ctx (some password) old

theorem writes_untouched (hpatch : patch.password = none) :
    Writes ctx f patch old (applyPatch old patch) := by
  have hsame : (applyPatch old patch).password = old.password := by rw [applyPatch, hpatch]; rfl
  exact ⟨⟨rfl, rfl, rfl, Or.inl (by rw [hsame])⟩, fun _ => holds_iff (by rw [hsame])⟩

/-- A write answered was of the last record read, and moves a password only as its flow does. -/
theorem writes_of_step (h : Step ctx f p (.updateUser id patch v) (.ok new) p') :
    ∃ old, seen p.place = some old ∧ id = old.id ∧ v = old.version ∧
      Writes ctx f patch old (applyPatch old patch) ∧
      (∀ record, seen p'.place = some record → record = new) ∧
      (f.isSignIn ∨ patch.password = none ∨ ∃ left, p'.place = .wrote left new false false) := by
  have hself : ∀ record, some new = some record → record = new := fun _ h => by cases h; rfl
  cases h with
  | quiet hquiet => exact hquiet.elim
  | @rehash type input at_ d record written patch stored holds hpatch made =>
    refine ⟨record, rfl, rfl, rfl, ⟨⟨rfl, rfl, rfl, ?_⟩, fun _ password => ?_⟩, hself,
      Or.inl rfl⟩
    · exact Or.inr (Or.inr ⟨_, stored, by rw [applyPatch, hpatch]; rfl, made⟩)
    · have hnew : Holds ctx (some (passwordOf input)) (applyPatch record patch) :=
        ⟨stored, by rw [applyPatch, hpatch]; rfl, made.matches⟩
      refine ⟨fun hp => ?_, fun hp => ?_⟩
      · cases hp.unique hnew
        exact holds
      · cases hp.unique holds
        exact hnew
  | factor redeems hpatch active =>
    exact ⟨_, rfl, rfl, rfl, writes_untouched hpatch, hself, Or.inr (Or.inl hpatch)⟩
  | @write f d record written patch left leaves patches =>
    refine ⟨record, rfl, rfl, rfl, ⟨⟨rfl, rfl, rfl, ?_⟩, fun hkeeps => ?_⟩, nofun,
      Or.inr (Or.inr ⟨left, rfl⟩)⟩
    · cases left with
      | some plain =>
        obtain ⟨stored, hpatch, made⟩ := patches
        exact Or.inr (Or.inr ⟨plain, stored, by rw [applyPatch, hpatch]; rfl, made⟩)
      | none =>
        obtain hpatch | ⟨hpatch, -⟩ := patches.1
        · exact Or.inr (Or.inl (by rw [applyPatch, hpatch]; rfl))
        · exact Or.inl (by rw [applyPatch, hpatch]; rfl)
    · obtain hleaves | hpatch := hkeeps
      · cases hleaves.symm.trans leaves
      · exact (writes_untouched (f := f) hpatch).keeps (Or.inr hpatch)
  | touch hpatch hfactor =>
    exact ⟨_, rfl, rfl, rfl, writes_untouched hpatch, hself, Or.inr (Or.inl hpatch)⟩

/-- A password still upheld, or overwritten by this very write. -/
theorem Upheld.write {read : UserRecord} {g : AuthFlow} (h : Upheld ctx w log j read password)
    (hget : get w.users old.id = some old) (hw : Writes ctx g patch old new)
    (hg : .began i g ∈ log) :
    Upheld ctx { w with users := put w.users old.id new }
      (log ++ [.called i (.updateUser old.id patch v) (.ok new)]) j read password := by
  obtain ⟨hread, current, hcurrent, hknown, hholds⟩ := h
  refine ⟨hread.append, ?_⟩
  by_cases hid : old.id = read.id
  · rw [← hid] at hcurrent
    cases hget.symm.trans hcurrent
    refine ⟨new, by rw [← hid]; exact get_put_self .., hknown.rewritten hw.rewritten, ?_⟩
    obtain hholds | hover := hholds
    · by_cases hnew : Holds ctx (some password) new
      · exact Or.inl hnew
      · refine Or.inr ⟨log, i, patch, v, new, [], by rw [hid], hread, hnew, g, hg, ?_⟩
        by_contra hleaves
        exact hnew ((hw.keeps (Or.inl (Option.not_isSome_iff_eq_none.mp hleaves)) password).mpr
          hholds)
    · exact Or.inr hover.append
  · exact ⟨current, (get_put_ne _ _ hid).trans hcurrent, hknown,
      hholds.imp_right Overwritten.append⟩

theorem Upheld.writeless {read : UserRecord} {more : AuthLog}
    (h : Upheld ctx w log j read password) (husers : w'.users = w.users) :
    Upheld ctx w' (log ++ more) j read password := by
  obtain ⟨hread, current, hcurrent, hknown, hholds⟩ := h
  exact ⟨hread.append, current, by rw [husers]; exact hcurrent, hknown,
    hholds.imp_right Overwritten.append⟩

end Write

/-! ## What a step keeps -/

section Step

variable {w₀ w w' : World} {log : AuthLog} {m : Locals} {i : ℕ} {f : AuthFlow} {p p' : Phase}
  {c : Call} {r : Answer c}

/-- What a flow has read. -/
theorem seen_of_step (h : Step ctx f p c r p') (hexec : exec c w = (r, w')) {record : UserRecord}
    (hseen : seen p'.place = some record) :
    seen p.place = some record ∨ (∃ id, get w.users id = some record) ∨
      ∃ id, written id (.called i c r : AuthEntry) = some record := by
  cases h with
  | quiet => exact Or.inl (Phase.answered_place p c r ▸ hseen)
  | @read _ _ _ id => cases hseen; exact Or.inr (Or.inl ⟨id, congrArg Prod.fst hexec⟩)
  | readLogin =>
    cases hseen
    exact Or.inr (Or.inl (get_of_userByLogin (congrArg Prod.fst hexec)).1)
  | @settle _ _ _ id => cases hseen; exact Or.inr (Or.inl ⟨id, congrArg Prod.fst hexec⟩)
  | raced | ownSession | ownChallenge => exact Or.inl hseen
  | rehash | factor | touch => cases hseen; exact Or.inr (Or.inr ⟨_, if_pos rfl⟩)
  | _ => cases hseen

theorem revokes_not_signIn {g : AuthFlow} (h : g.revokes) : g.isSignIn = false := by
  cases g <;> first | rfl | cases h

theorem leaves_of_signIn {g : AuthFlow} (h : g.isSignIn) : g.leaves = none := by
  cases g <;> first | rfl | cases h

/-- Once it wrote, a flow leaves its place only to revoke and to spend. -/
theorem step_of_wrote {left : Option Str} {record : UserRecord} {revoked spent : Bool}
    (h : Step ctx f p c r p') (hp : p.place = .wrote left record revoked spent) :
    p'.place = .wrote left record revoked spent ∨
      (∃ at_, c = .revokeUserSessions record.id at_ none) ∧
        p'.place = .wrote left record true spent ∨
      (∃ at_, c = .spendUserTokens record.id .secondFactor at_ none) ∧
        p'.place = .wrote left record revoked true := by
  cases h with
  | quiet => exact Or.inl ((Phase.answered_place p c r).trans hp)
  | raced | ownSession | ownChallenge => exact Or.inl hp
  | revokeAll => cases hp; exact Or.inr (Or.inl ⟨⟨_, rfl⟩, rfl⟩)
  | spendAll => cases hp; exact Or.inr (Or.inr ⟨⟨_, rfl⟩, rfl⟩)
  | _ => cases hp

theorem Inv.began (h : Inv ctx w₀ w log m) (hi : m i = some (f, p)) : .began i f ∈ log :=
  h.booked.asked i f p hi

/-- A step writes nobody, or the last record read. -/
theorem Inv.cases_write (h : Inv ctx w₀ w log m) (hi : m i = some (f, p))
    (hexec : exec c w = (r, w')) (hstep : Step ctx f p c r p') :
    (w'.users = w.users ∧ ∀ id, written id (.called i c r : AuthEntry) = none) ∨
    ∃ old patch new, (.called i c r : AuthEntry) =
        .called i (.updateUser old.id patch old.version) (.ok new) ∧
      get w.users old.id = some old ∧ w' = { w with users := put w.users old.id new } ∧
      Writes ctx f patch old new ∧ recordAfter w₀ old.id log = some old ∧
      (∀ seen' : ℕ → Option UserRecord, (∀ j record, seen' j = some record →
          ((m j).bind fun q => seen q.2.place) = some record) →
        Histories w₀ w' (log ++ [.called i c r]) seen') ∧
      (∀ record, seen p'.place = some record → record = new) ∧
      (f.isSignIn ∨ patch.password = none ∨
        ∃ left, p'.place = .wrote left new false false) := by
  by_cases hc : c.Writeless
  · exact Or.inl ⟨exec_users hexec hc, written_of_writeless hc⟩
  · cases c with
    | updateUser id patch v =>
      cases r with
      | error e =>
        have hsame := (exec_updateUser_error (congrArg Prod.fst hexec)).1
        rw [hexec] at hsame
        exact Or.inl ⟨congrArg World.users hsame, fun _ => rfl⟩
      | ok new =>
        obtain ⟨old, hseen, rfl, rfl, hwrites, hnow, hplace⟩ := writes_of_step hstep
        obtain ⟨hafter, hnew, hnext⟩ := h.histories.write (i := i) (by rw [hi]; exact hseen) hexec
        obtain ⟨stored, hget, -, -, hw'⟩ := exec_updateUser (congrArg Prod.fst hexec)
        have hcurrent : get w.users old.id = some old := (h.histories.current _).trans hafter
        rw [hexec] at hw'
        exact Or.inr ⟨old, patch, new, rfl, hcurrent, hw', hnew ▸ hwrites, hafter, hnext,
          hnow, hplace⟩
    | _ => exact absurd trivial hc

theorem Inv.upheld (h : Inv ctx w₀ w log m) (hi : m i = some (f, p))
    (hexec : exec c w = (r, w')) (hstep : Step ctx f p c r p') {j : ℕ} {read : UserRecord}
    {password : Str} (hup : Upheld ctx w log j read password) :
    Upheld ctx w' (log ++ [.called i c r]) j read password := by
  obtain ⟨husers, -⟩ | ⟨old, patch, new, he, hget, rfl, hw, -⟩ := h.cases_write hi hexec hstep
  · exact hup.writeless husers
  · rw [he]
    exact hup.write hget hw (h.began hi)

theorem Inv.lasting (h : Inv ctx w₀ w log m) (hi : m i = some (f, p))
    (hexec : exec c w = (r, w')) (hstep : Step ctx f p c r p') {since : AuthLog} {x : Opened}
    {userId : Str} (hsince : since ⊆ log) (hlast : Lasting w m since x userId)
    (hpresent : Present w x) :
    Lasting w' (Function.update m i (some (f, p'))) (since ++ [.called i c r]) x userId := by
  rintro id rfl record hget hstands huser k patch v new hmem hpatch g q hk hrevokes
  obtain ⟨stored, hstored⟩ := Option.isSome_iff_exists.mp hpresent
  obtain ⟨record', hrecord', huser', hstands'⟩ := session_exec hexec hstored
  cases hget.symm.trans hrecord'
  have hpending : .called k (.updateUser userId patch v) (.ok new) ∈ since → Pending m k :=
    fun hmem => hlast id rfl stored hstored (hstands' hstands) (huser'.symm.trans huser) k patch v
      new hmem hpatch
  obtain ⟨rfl, heq⟩ | ⟨hki, hk⟩ := update_eq_some.mp hk
  · cases heq
    obtain hmem | hmem := List.mem_append.mp hmem
    · obtain ⟨left, written, spent, hplace⟩ := hpending hmem f p hi hrevokes
      obtain ⟨_, written', _, _, hplace', hid⟩ := h.wrote k f p hi (revokes_not_signIn hrevokes)
        userId patch v new (hsince hmem) hpatch
      cases hplace.symm.trans hplace'
      obtain hp' | ⟨⟨at_, rfl⟩, -⟩ | ⟨-, hp'⟩ := step_of_wrote hstep hplace
      · exact ⟨left, written, spent, hp'⟩
      · exact absurd hstands (revoked_revokeUserSessions hexec hrecord' (huser.trans hid.symm))
      · exact ⟨left, written, true, hp'⟩
    · cases List.mem_singleton.mp hmem
      obtain ⟨old, -, -, -, -, -, hplace⟩ := writes_of_step hstep
      obtain hsign | hnone | ⟨left, hp'⟩ := hplace
      · exact absurd (hsign.symm.trans (revokes_not_signIn hrevokes)) (by decide)
      · exact absurd hnone hpatch
      · exact ⟨left, new, false, hp'⟩
  · obtain hmem | hmem := List.mem_append.mp hmem
    · exact hpending hmem g q hk hrevokes
    · cases List.mem_singleton.mp hmem
      exact absurd rfl hki

/-- A password settling goes on settling, until the challenges it opened are spent. -/
theorem Inv.settling (h : Inv ctx w₀ w log m) (hi : m i = some (f, p))
    (hexec : exec c w = (r, w')) (hstep : Step ctx f p c r p') {userId password : Str}
    (hs : Settling ctx w m userId password)
    (hnot : ∀ at_, c ≠ .spendUserTokens userId .secondFactor at_ none) :
    Settling ctx w' (Function.update m i (some (f, p'))) userId password := by
  obtain ⟨current, hget, holds⟩ | ⟨k, g, q, hk, left, record, revoked, hplace, hid⟩ := hs
  · obtain ⟨husers, -⟩ | ⟨old, patch, new, he, hold, rfl, hw, -, -, -, hplace⟩ :=
      h.cases_write hi hexec hstep
    · exact Or.inl ⟨current, by rw [husers]; exact hget, holds⟩
    · by_cases hid : old.id = userId
      · subst hid
        cases hold.symm.trans hget
        by_cases hnew : Holds ctx (some password) new
        · exact Or.inl ⟨new, get_put_self .., hnew⟩
        · obtain hsign | hkeeps | ⟨left, hp'⟩ := hplace
          · exact absurd ((hw.keeps (Or.inl (leaves_of_signIn hsign)) password).mpr holds) hnew
          · exact absurd ((hw.keeps (Or.inr hkeeps) password).mpr holds) hnew
          · exact Or.inr ⟨i, f, p', Function.update_self .., left, new, false, hp',
              hw.rewritten.id⟩
      · exact Or.inl ⟨current, (get_put_ne _ _ hid).trans hget, holds⟩
  · by_cases hki : k = i
    · subst hki
      cases hi.symm.trans hk
      refine Or.inr ⟨k, f, p', Function.update_self .., ?_⟩
      obtain hp' | ⟨-, hp'⟩ | ⟨⟨at_, hc⟩, -⟩ := step_of_wrote hstep hplace
      · exact ⟨left, record, revoked, hp', hid⟩
      · exact ⟨left, record, true, hp', hid⟩
      · exact absurd (by rw [hc, hid]) (hnot at_)
    · exact Or.inr ⟨k, g, q, (Function.update_of_ne hki ..).trans hk, left, record, revoked, hplace,
        hid⟩

end Step

/-! ## Where each sign-in stands -/

section Standing

variable {w₀ w w' : World} {log : AuthLog} {m m' : Locals} {i j : ℕ} {f : AuthFlow}
  {p p' : Phase} {c : Call} {r : Answer c} {e : AuthEntry} {place : Place} {type : ResolvedType}

/-- What a sign-in stands on is kept by an entry that stores nothing of its own. -/
theorem SignInStands.concat (h : SignInStands ctx w₀ w log m j type place)
    (hupheld : ∀ read password, Upheld ctx w log j read password →
      Upheld ctx w' (log ++ [e]) j read password)
    (hpresent : ∀ x, Present w x → Present w' x) (hclosed : ∀ x, Closed w x → Closed w' x)
    (hlasting : ∀ since x id, since ⊆ log → Lasting w m since x id → Present w x →
      Lasting w' m' (since ++ [e]) x id)
    (he : ∀ x, ¬ Stores j x e) : SignInStands ctx w₀ w' (log ++ [e]) m' j type place := by
  cases place with
  | plain seen =>
    exact ⟨h.1.concat he, fun read hread =>
      ⟨(h.2 read hread).1, fun password holds => hupheld _ _ ((h.2 read hread).2 password holds)⟩⟩
  | opened x verified password =>
    exact ⟨h.1, hupheld _ _ h.2.1, h.2.2.1.concat he, hpresent _ h.2.2.2⟩
  | kept x verified now password =>
    obtain ⟨⟨l₁, e', l₂, l₃, rfl, hstores, held, hid, hafter, hlast⟩, hx⟩ := h
    refine ⟨⟨l₁, e', l₂, l₃ ++ [e], ?_, hstores, held, hid, hafter, ?_⟩, hpresent _ hx⟩
    · rw [List.append_assoc, List.cons_append, List.append_assoc, List.cons_append]
    · refine hlasting l₃ x _ (fun e' he' => ?_) hlast hx
      exact List.mem_append_right _ (List.mem_cons_of_mem _ (List.mem_append_right _
        (List.mem_cons_of_mem _ he')))
  | failing x verified password => exact ⟨h.1.append, h.2.1.concat he, hpresent _ h.2.2⟩
  | refused x verified password => exact ⟨h.1.append, h.2.1.concat he, hclosed _ h.2.2⟩
  | lost | stuck => exact h.elim
  | _ => trivial

/-- What a sign-in's own call may store. -/
theorem not_stores {c : Call} {r : Answer c} (hsession : ∀ record, c ≠ .insertSession record)
    (htoken : ∀ record, c = .insertToken record → isId record.userId = false) (x : Opened) :
    ¬ Stores i x (.called i c r) := by
  intro h
  cases h with
  | session record => exact hsession record rfl
  | challenge record hid => exact absurd (hid.symm.trans (htoken record rfl)) (by decide)

/-- **Where a sign-in stands after its own call.** -/
theorem Inv.ownStep (h : Inv ctx w₀ w log m) {input : Record} {at_ : At}
    (hi : m i = some (.signIn type input at_, p)) (hexec : exec c w = (r, w'))
    (hstep : Step ctx (.signIn type input at_) p c r p') :
    SignInStands ctx w₀ w' (log ++ [.called i c r])
      (Function.update m i (some (.signIn type input at_, p'))) i type p'.place := by
  have hstands : SignInStands ctx w₀ w log m i type p.place := h.stands i _ p hi
  have hstays : (∀ x, ¬ Stores i x (.called i c r : AuthEntry)) →
      SignInStands ctx w₀ w' (log ++ [.called i c r])
        (Function.update m i (some (.signIn type input at_, p'))) i type p.place := fun hnot =>
    hstands.concat (fun _ _ => h.upheld hi hexec hstep) (fun _ hx => hx.exec hexec)
      (fun _ hx => hx.exec hexec)
      (fun _ _ _ hsince hlast hx => h.lasting hi hexec hstep hsince hlast hx) hnot
  cases hstep with
  | quiet hquiet =>
    rw [Phase.answered_place] at *
    refine hstays (not_stores ?_ ?_)
    · rintro record rfl
      exact hquiet
    · rintro record rfl
      exact hquiet.1
  | read record other => cases other
  | @readLogin _ _ _ _ d login record =>
    obtain ⟨⟨id, hget⟩, htype⟩ := get_of_userByLogin (congrArg Prod.fst hexec)
    obtain rfl := h.histories.keyed id record hget
    obtain rfl : w = w' := congrArg Prod.snd hexec
    refine ⟨hstands.1.concat (not_stores (by simp) (by simp)), ?_⟩
    rintro _ ⟨⟩
    refine ⟨htype, fun password holds => ⟨⟨type.name, login, record,
      List.mem_append_right _ List.mem_cons_self, rfl, holds⟩, record, hget,
      Known.refl ctx record, Or.inl holds⟩⟩
  | @rehash _ _ _ d record written patch stored holds hpatch made =>
    obtain ⟨old, hget, -, hnew, hw'⟩ := exec_updateUser (congrArg Prod.fst hexec)
    rw [hexec] at hw'
    obtain rfl : w' = _ := hw'
    obtain ⟨hunstored, hseen⟩ := hstands
    obtain ⟨htype, hup⟩ := hseen record rfl
    obtain rfl : old = record := by
      obtain ⟨hafter, -⟩ := h.histories.write (i := i) (by rw [hi]; rfl) hexec
      exact Option.some.inj (hget.symm.trans ((h.histories.current _).trans hafter))
    refine ⟨hunstored.concat (not_stores (by simp) (by simp)), ?_⟩
    rintro _ ⟨⟩
    have hid : written.id = old.id := by rw [hnew]; rfl
    have hheld : Holds ctx (some (passwordOf input)) written :=
      ⟨stored, by rw [hnew, applyPatch, hpatch]; rfl, made.matches⟩
    refine ⟨(congrArg UserRecord.type hnew).trans htype, fun password holds' => ?_⟩
    cases holds'.unique hheld
    obtain ⟨name, login, read, hread, hreadId, hread'⟩ := (hup _ holds).1
    refine ⟨⟨name, login, read, List.mem_append_left _ hread, hreadId.trans hid.symm, hread'⟩,
      written, ?_, Known.refl ctx written, Or.inl hheld⟩
    rw [hid]
    exact get_put_self ..
  | raced e hconflict => exact hstays (not_stores (by simp) (by simp))
  | @lost _ _ _ d record patch ifVersion e he =>
    obtain ⟨message, details, rfl⟩ := he
    obtain ⟨-, ⟨hnone, -⟩ | ⟨_, _, he⟩ | ⟨-, _, _, he⟩⟩ :=
      exec_updateUser_error (congrArg Prod.fst hexec)
    · obtain ⟨now, hnow, -⟩ := h.histories.stale i record (by rw [hi]; rfl)
      cases hnone.symm.trans hnow
    · cases he
    · cases he
  | @openSession _ _ _ verified drawn record holds minted =>
    obtain ⟨hunstored, hseen⟩ := hstands
    obtain ⟨htype, hup⟩ := hseen verified rfl
    refine ⟨htype, h.upheld hi hexec (.openSession holds minted) (hup _ holds),
      hunstored.stores (.session record), ?_⟩
    cases hexec
    change (get (Auth.insertSession w.sessions record) record.id).isSome
    rw [Auth.insertSession]
    split
    case isTrue hsome => exact hsome
    case isFalse => rw [get_put_self]; rfl
  | @issue _ _ _ verified drawn record holds issued =>
    obtain ⟨hunstored, hseen⟩ := hstands
    obtain ⟨htype, hup⟩ := hseen verified rfl
    have hupheld := h.upheld hi hexec (.issue holds issued) (hup _ holds)
    obtain ⟨current, hcurrent, -⟩ := (hup _ holds).2
    have hid : isId record.userId = true := by
      rw [issued.2.1]
      exact h.minted _ _ hcurrent
    refine ⟨htype, hupheld, hunstored.stores (.challenge record hid), ?_⟩
    cases hexec
    change (get (Auth.insertToken w.tokens record) record.tokenHash).isSome
    rw [get_insertToken, if_pos rfl]
    rfl
  | @keep _ _ _ x verified d now held =>
    obtain rfl : w = w' := congrArg Prod.snd hexec
    have hget : get w.users verified.id = some now := congrArg Prod.fst hexec
    obtain ⟨-, -, ⟨⟨e, he, hstores⟩, -⟩, hx⟩ := hstands
    obtain ⟨l₁, l₂, rfl⟩ := List.append_of_mem he
    refine ⟨⟨l₁, e, l₂, [], ?_, hstores, held, h.histories.keyed _ _ hget,
      (h.histories.current _).symm.trans hget, ?_⟩, hx⟩
    · rw [List.append_assoc, List.cons_append]
    · exact fun _ _ _ _ _ _ _ _ _ _ hmem => absurd hmem List.not_mem_nil
  | @overtaken _ _ _ x verified d now hnot =>
    obtain rfl : w = w' := congrArg Prod.snd hexec
    obtain ⟨htype, ⟨-, current, hcurrent, hknown, hholds⟩, hstored, hx⟩ := hstands
    obtain rfl : now = some current := (congrArg Prod.fst hexec).symm.trans hcurrent
    have hgone : ¬ Holds ctx (some (passwordOf input)) current := fun holds =>
      hnot current rfl ⟨hknown.type.trans htype, holds⟩
    refine ⟨⟨log, some current, [], rfl, ?_, hholds.resolve_left hgone⟩,
      hstored.concat (not_stores (by simp) (by simp)), hx⟩
    rintro _ ⟨⟩
    exact hgone
  | @stuck _ _ _ x verified d where_ now e hash herror =>
    obtain ⟨-, ⟨-, current, hcurrent, hknown, -⟩, -⟩ := hstands
    obtain rfl : now = current :=
      Option.some.inj ((congrArg Prod.fst hexec).symm.trans hcurrent)
    obtain hsame | hnone | ⟨plain, stored, hstored, made⟩ := hknown.password
    · exact hash hsame
    · rw [passwordMatches, hnone] at herror
      cases herror
    · rw [passwordMatches_made hstored made] at herror
      cases herror
  | @unread _ _ _ x verified d t hid =>
    obtain ⟨-, ⟨-, current, hcurrent, -⟩, -⟩ := hstands
    rw [h.minted _ _ hcurrent] at hid
    cases hid
  | revokeOwn =>
    exact ⟨hstands.1.append, hstands.2.1.concat (not_stores (by simp) (by simp)),
      closed_revokeSession hstands.2.2 hexec⟩
  | burnOwn =>
    exact ⟨hstands.1.append, hstands.2.1.concat (not_stores (by simp) (by simp)),
      closed_consumeToken hstands.2.2 hexec⟩
  | factor redeems => cases redeems
  | enter redeems => cases redeems
  | write leaves => cases leaves
  | revokeAll | spendAll | settle | touch => trivial
  | ownSession proves => cases proves
  | ownChallenge proves => cases proves

end Standing

/-! ## The challenges still unspent -/

section Challenges

variable {w₀ w w' : World} {log : AuthLog} {m : Locals} {i : ℕ} {f : AuthFlow} {p p' : Phase}
  {c : Call} {r : Answer c} {hash userId : Str}

/-- **A challenge unspent before a call and after it has the owner it had.** -/
theorem Inv.owned_step (h : Inv ctx w₀ w log m) (hi : m i = some (f, p))
    (hexec : exec c w = (r, w')) (hstep : Step ctx f p c r p') {t : TokenRecord}
    (hget : get w'.tokens hash = some t) (hkind : t.kind = .secondFactor)
    (hunspent : t.spentAt = none) (howned : Owned ctx w₀ w log m hash t.userId) :
    Owned ctx w₀ w' (log ++ [.called i c r]) (Function.update m i (some (f, p'))) hash
      t.userId := by
  have hnot : ∀ at_, c ≠ .spendUserTokens t.userId .secondFactor at_ none := by
    rintro at_ rfl
    exact spent_spendUserTokens hexec hget rfl hkind hunspent
  have hsettling : ∀ {password}, Settling ctx w m t.userId password →
      Settling ctx w' (Function.update m i (some (f, p'))) t.userId password :=
    fun hs => h.settling hi hexec hstep hs hnot
  obtain hbefore | ⟨k, g, record, hbegan, hproves, hmem, hhash⟩ |
    ⟨k, g, q, verified, password, hk, hsign, huser, hplace⟩ := howned
  · exact Or.inl hbefore
  · exact Or.inr (Or.inl ⟨k, g, record, List.mem_append_left _ hbegan, hproves,
      List.mem_append_left _ hmem, hhash⟩)
  · refine Or.inr (Or.inr ?_)
    by_cases hki : k = i
    · subst hki
      cases hi.symm.trans hk
      refine ⟨k, f, p', verified, password, Function.update_self .., hsign, huser, ?_⟩
      have hsame : p'.place = p.place →
          p'.place = .opened (.challenge hash) verified password ∨
            p'.place = .failing (.challenge hash) verified password ∨
            ∃ now, p'.place = .kept (.challenge hash) verified now password ∧
              Settling ctx w' (Function.update m k (some (f, p'))) t.userId password := by
        intro heq
        rw [heq]
        exact hplace.imp_right (Or.imp_right fun ⟨now, hp, hs⟩ => ⟨now, hp, hsettling hs⟩)
      obtain hp | hp | ⟨now, hp, hs⟩ := hplace
      · cases hstep with
        | quiet => exact hsame (Phase.answered_place ..)
        | raced => exact hsame rfl
        | keep now held =>
          cases hp
          have hnow : get w.users verified.id = some now := congrArg Prod.fst hexec
          exact Or.inr (Or.inr ⟨now, rfl, hsettling (Or.inl ⟨now, huser ▸ hnow, held.2⟩)⟩)
        | overtaken => cases hp; exact Or.inr (Or.inl rfl)
        | unread => cases hp; exact Or.inr (Or.inl rfl)
        | stuck now e hash' herror => exact (h.ownStep hi hexec (.stuck now e hash' herror)).elim
        | ownSession | ownChallenge => exact hsame rfl
        | _ => cases hp
      · cases hstep with
        | quiet => exact hsame (Phase.answered_place ..)
        | raced => exact hsame rfl
        | burnOwn =>
          cases hp
          obtain ⟨old, hold, hokind, -⟩ | ⟨⟨⟩, -⟩ := token_exec hexec hget
          obtain ⟨t', ht', hspent⟩ := closed_consumeToken (Option.isSome_iff_exists.mpr ⟨old, hold⟩)
            hexec
          cases hget.symm.trans ht'
          exact absurd hunspent (hspent hkind)
        | ownSession | ownChallenge => exact hsame rfl
        | _ => cases hp
      · cases hstep with
        | quiet => exact hsame (Phase.answered_place ..)
        | raced => exact hsame rfl
        | ownSession | ownChallenge => exact hsame rfl
        | _ => cases hp
    · refine ⟨k, g, q, verified, password, (Function.update_of_ne hki ..).trans hk, hsign, huser,
        ?_⟩
      exact hplace.imp_right (Or.imp_right fun ⟨now, hp, hs⟩ => ⟨now, hp, hsettling hs⟩)

/-- **Whose every unspent challenge is, after a call.** -/
theorem Inv.challenges_step (h : Inv ctx w₀ w log m) (hi : m i = some (f, p))
    (hexec : exec c w = (r, w')) (hstep : Step ctx f p c r p') {t : TokenRecord}
    (hget : get w'.tokens hash = some t) (hkind : t.kind = .secondFactor)
    (hunspent : t.spentAt = none) (hid : isId t.userId = true) :
    Owned ctx w₀ w' (log ++ [.called i c r]) (Function.update m i (some (f, p'))) hash
      t.userId := by
  obtain ⟨old, hold, holdKind, huser, hwas⟩ | ⟨rfl, hhash⟩ := token_exec hexec hget
  · have howned := h.challenges hash old hold (holdKind.trans hkind) (hwas hunspent)
      (by rw [huser]; exact hid)
    exact h.owned_step hi hexec hstep hget hkind hunspent (huser ▸ howned)
  · cases hstep with
    | quiet hquiet => exact absurd (hid.symm.trans hquiet.1) (by decide)
    | @issue type input at_ verified drawn record holds issued =>
      refine Or.inr (Or.inr ⟨i, _, _, verified, passwordOf input, Function.update_self .., rfl,
        issued.2.1.symm, Or.inl ?_⟩)
      rw [hhash]
    | ownChallenge proves issued =>
      exact Or.inr (Or.inl ⟨i, f, t, List.mem_append_left _ (h.began hi), proves,
        List.mem_append_right _ List.mem_cons_self, hhash⟩)

end Challenges

/-! ## Every run -/

section Run

variable {w₀ w w' : World} {log : AuthLog} {m m' : Locals} {i : ℕ} {f : AuthFlow} {p p' : Phase}
  {c : Call} {r : Answer c}

theorem mem_concat {α : Type} {l : List α} {a b : α} (h : a ∈ l ++ [b]) : a ∈ l ∨ a = b :=
  (List.mem_append.mp h).imp_right List.mem_singleton.mp

/-- **One call keeps it all.** -/
theorem Inv.step (h : Inv ctx w₀ w log m) (hi : m i = some (f, p))
    (hends : ∀ a, .ended i a ∉ log) (hexec : exec c w = (r, w')) (hstep : Step ctx f p c r p') :
    Inv ctx w₀ w' (log ++ [.called i c r]) (Function.update m i (some (f, p'))) where
  histories := by
    have hseen : ∀ {j record}, (((Function.update m i (some (f, p'))) j).bind fun q =>
        seen q.2.place) = some record → j = i ∧ seen p'.place = some record ∨
        ((m j).bind fun q => seen q.2.place) = some record := by
      intro j record hj
      rw [Function.update_apply] at hj
      split at hj
      case isTrue heq => exact Or.inl ⟨heq, hj⟩
      case isFalse => exact Or.inr hj
    obtain ⟨husers, hnone⟩ | ⟨old, patch, new, he, -, rfl, -, -, hnext, hnow, -⟩ :=
      h.cases_write hi hexec hstep
    · refine h.histories.concat husers hnone fun j record hj => ?_
      obtain ⟨rfl, hp⟩ | hj := hseen hj
      · obtain hp | hread | ⟨id, hw⟩ := seen_of_step hstep hexec hp
        · exact Or.inl (by rw [hi]; exact hp)
        · exact Or.inr hread
        · rw [hnone] at hw
          cases hw
      · exact Or.inl hj
    · refine (hnext (fun j => if j = i then none else (m j).bind fun q => seen q.2.place)
        fun j record hj => ?_).reading fun j record hj => ?_
      · split at hj
        · cases hj
        · exact hj
      · by_cases hji : j = i
        · rw [hji, Function.update_self] at hj
          exact Or.inr ⟨old.id, (get_put_self ..).trans (congrArg some (hnow record hj).symm)⟩
        · rw [Function.update_of_ne hji] at hj
          exact Or.inl (by rw [if_neg hji]; exact hj)
  minted id record hget := by
    obtain ⟨husers, -⟩ | ⟨old, -, new, -, hold, rfl, -⟩ := h.cases_write hi hexec hstep
    · exact h.minted id record (by rw [← husers]; exact hget)
    · by_cases hid : old.id = id
      · exact hid ▸ h.minted _ _ hold
      · exact h.minted id record ((get_put_ne _ _ hid).symm.trans hget)
  tells := by
    refine h.tells.concat ?_
    rintro j id patch v new he
    obtain ⟨-, hnone⟩ | ⟨old, patch', new', he', -, -, hw, hafter, -⟩ :=
      h.cases_write hi hexec hstep
    · have hwritten := hnone id
      rw [he, written, if_pos rfl] at hwritten
      cases hwritten
    · cases he'.symm.trans he
      exact ⟨f, old, h.began hi, hafter, hw.keeps⟩
  booked := h.booked.concat_called hi hends
  known j hj e he := by
    have hji : j ≠ i := fun heq => by
      rw [heq, Function.update_self] at hj
      cases hj
    rw [Function.update_of_ne hji] at hj
    obtain he | rfl := mem_concat he
    · exact h.known j hj e he
    · exact hji.symm
  stands j g q hj := by
    obtain ⟨rfl, heq⟩ | ⟨hji, hj⟩ := update_eq_some.mp hj
    · cases heq
      cases f with
      | signIn => exact h.ownStep hi hexec hstep
      | _ => trivial
    · cases g with
      | signIn =>
        exact SignInStands.concat (h.stands j _ q hj) (fun _ _ => h.upheld hi hexec hstep)
          (fun _ hx => hx.exec hexec) (fun _ hx => hx.exec hexec)
          (fun _ _ _ hsince hlast hx => h.lasting hi hexec hstep hsince hlast hx)
          fun _ hs => hji (stores_thread hs).symm
      | _ => trivial
  wrote k g q hk hsign id patch v new hmem hpatch := by
    obtain ⟨rfl, heq⟩ | ⟨hki, hk⟩ := update_eq_some.mp hk
    · cases heq
      obtain hmem | hmem := mem_concat hmem
      · obtain ⟨left, record, revoked, spent, hp, hid⟩ :=
          h.wrote k f p hi hsign id patch v new hmem hpatch
        obtain hp' | ⟨-, hp'⟩ | ⟨-, hp'⟩ := step_of_wrote hstep hp
        · exact ⟨left, record, revoked, spent, hp', hid⟩
        · exact ⟨left, record, true, spent, hp', hid⟩
        · exact ⟨left, record, revoked, true, hp', hid⟩
      · cases hmem
        obtain ⟨stored, hget, -, hnew, -⟩ := exec_updateUser (congrArg Prod.fst hexec)
        obtain ⟨-, -, -, -, -, -, hs | hnone | ⟨left, hp'⟩⟩ := writes_of_step hstep
        · exact absurd (hs.symm.trans hsign) (by decide)
        · exact absurd hnone hpatch
        · have hid : new.id = stored.id := by rw [hnew]; rfl
          exact ⟨left, new, false, false, hp', hid.trans (h.histories.keyed _ _ hget)⟩
    · obtain hmem | hmem := mem_concat hmem
      · exact h.wrote k g q hk hsign id patch v new hmem hpatch
      · cases hmem
        exact absurd rfl hki
  challenges hash t hget hkind hunspent hid :=
    h.challenges_step hi hexec hstep hget hkind hunspent hid

theorem Inv.drift (h : Inv ctx w₀ w log m) (d : Drift) : Inv ctx w₀ (drift d w) log m := by
  cases d <;>
    exact
      { h with
        histories := { h.histories with }
        stands := fun i f p hi => by
          have hstands := h.stands i f p hi
          cases f with
          | signIn type input at_ =>
            change SignInStands ctx w₀ _ log m i type p.place at hstands ⊢
            generalize p.place = place at hstands ⊢
            cases place <;> exact hstands
          | _ => trivial }

/-- An entry of no call. -/
theorem Inv.mark (h : Inv ctx w₀ w log m) {e : AuthEntry} (hcall : ∀ id, written id e = none)
    (hstores : ∀ j x, ¬ Stores j x e) (hwrite : ∀ k id patch v new,
      e ≠ .called k (.updateUser id patch v) (.ok new))
    (hm : ∀ k g q, m' k = some (g, q) → m k = some (g, q) ∨
      q.place = .plain none ∧ ∀ e' ∈ log, e'.thread ≠ k)
    (hold : ∀ k g q, m k = some (g, q) → m' k = some (g, q))
    (hbooked : (authProtocol ctx).Booked (log ++ [e]) m')
    (hknown : ∀ i, m' i = none → ∀ e' ∈ log ++ [e], e'.thread ≠ i) :
    Inv ctx w₀ w (log ++ [e]) m' where
  histories := h.histories.concat rfl hcall fun j record hj => by
    cases hq : m' j with
    | none => rw [hq] at hj; cases hj
    | some q =>
      rw [hq] at hj
      obtain hq | ⟨hplain, -⟩ := hm j q.1 q.2 hq
      · exact Or.inl (by rw [hq]; exact hj)
      · change seen q.2.place = some record at hj
        rw [hplain] at hj
        cases hj
  minted := h.minted
  tells := h.tells.concat fun j id patch v new he => absurd he (hwrite j id patch v new)
  booked := hbooked
  known := hknown
  stands j g q hj := by
    cases g with
    | signIn type input at_ =>
      obtain hj | ⟨hplain, hnone⟩ := hm j _ q hj
      · refine SignInStands.concat (h.stands j _ q hj) (fun _ _ hup => hup.writeless rfl)
          (fun _ hx => hx) (fun _ hx => hx) (fun since x id hsince hlast hx => ?_) (hstores j)
        intro sid hsid record hget hstands huser k patch v new hmem hpatch g' q' hk hrevokes
        obtain hmem | hmem := mem_concat hmem
        · have hpending := hlast sid hsid record hget hstands huser k patch v new hmem hpatch
          obtain hk | ⟨-, hnone⟩ := hm k g' q' hk
          · exact hpending g' q' hk hrevokes
          · exact absurd rfl (hnone _ (hsince hmem))
        · exact absurd hmem.symm (hwrite k id patch v new)
      · change SignInStands ctx w₀ w (log ++ [e]) m' j type q.place
        rw [hplain]
        refine ⟨Unstored.concat (fun e' he' x hx => hnone e' he' (stores_thread hx)) (hstores j), ?_⟩
        rintro _ ⟨⟩
    | _ => trivial
  wrote k g q hk hsign id patch v new hmem hpatch := by
    obtain hmem | hmem := mem_concat hmem
    · obtain hk | ⟨-, hnone⟩ := hm k g q hk
      · exact h.wrote k g q hk hsign id patch v new hmem hpatch
      · exact absurd rfl (hnone _ hmem)
    · exact absurd hmem.symm (hwrite k id patch v new)
  challenges hash t hget hkind hunspent hid := by
    obtain hbefore | ⟨k, g, record, hbegan, hproves, hmem, hhash⟩ |
      ⟨k, g, q, verified, password, hk, hsign, huser, hplace⟩ :=
      h.challenges hash t hget hkind hunspent hid
    · exact Or.inl hbefore
    · exact Or.inr (Or.inl ⟨k, g, record, List.mem_append_left _ hbegan, hproves,
        List.mem_append_left _ hmem, hhash⟩)
    · refine Or.inr (Or.inr ⟨k, g, q, verified, password, hold k g q hk, hsign, huser, ?_⟩)
      exact hplace.imp_right (Or.imp_right fun ⟨now, hp, hs⟩ => ⟨now, hp, hs.imp_right
        fun ⟨k, g, q, hk, howes⟩ => ⟨k, g, q, hold k g q hk, howes⟩⟩)

theorem Inv.begin (h : Inv ctx w₀ w log m) (hi : m i = none) :
    Inv ctx w₀ w (log ++ [.began i f]) (Function.update m i (some (f, ⟨.plain none, none⟩))) := by
  refine h.mark (fun _ => rfl) (by rintro _ _ ⟨⟩) (by rintro _ _ _ _ _ ⟨⟩) (fun k g q hk => ?_)
    (fun k g q hk => ?_) (h.booked.concat_began hi) fun j hj e he => ?_
  · obtain ⟨rfl, heq⟩ | ⟨-, hk⟩ := update_eq_some.mp hk
    · cases heq
      exact Or.inr ⟨rfl, h.known k hi⟩
    · exact Or.inl hk
  · exact (Function.update_of_ne (fun hki => by rw [hki, hi] at hk; cases hk) _ m).trans hk
  · have hji : j ≠ i := fun heq => by
      rw [heq, Function.update_self] at hj
      cases hj
    rw [Function.update_of_ne hji] at hj
    obtain he | rfl := mem_concat he
    · exact h.known j hj e he
    · exact hji.symm

theorem Inv.finish (h : Inv ctx w₀ w log m) (hi : m i = some (f, p))
    {a : Except Failure AuthAnswer} (hfinal : Final ctx f a p) :
    Inv ctx w₀ w (log ++ [.ended i a]) m := by
  refine h.mark (fun _ => rfl) (by rintro _ _ ⟨⟩) (by rintro _ _ _ _ _ ⟨⟩) (fun _ _ _ => Or.inl)
    (fun _ _ _ hk => hk) (h.booked.concat_ended hi hfinal) fun j hj e he => ?_
  obtain he | rfl := mem_concat he
  · exact h.known j hj e he
  · rintro rfl
    cases hi.symm.trans hj

/-- A store of users under their own ids, all minted. -/
structure Registered (w : World) : Prop where
  keyed : ∀ id record, get w.users id = some record → record.id = id
  minted : ∀ id record, get w.users id = some record → isId id = true

theorem Inv.start (h : Registered w) : Inv ctx w w [] fun _ => none where
  histories := Histories.start h.keyed
  minted := h.minted
  tells := Tells.nil
  booked := Protocol.Booked.nil
  known _ _ _ h := nomatch h
  stands _ _ _ h := nomatch h
  wrote _ _ _ h := nomatch h
  challenges _ t hget hkind hunspent _ := Or.inl ⟨t, hget, hkind, hunspent, rfl⟩

theorem keeps (ctx : Context) (w₀ : World) :
    (authProtocol ctx).Keeps (fun _ => True) (Inv ctx w₀) where
  drift h _ := h.drift _
  began h hi _ := h.begin hi
  called h hi hends hexec hstep := h.step hi hends hexec hstep
  ended h hi hfinal _ := h.finish hi hfinal

end Run

/-! ## What a run of them tells -/

section Outcomes

variable {ctx : Context} {w : World} {moves : List (Move Drift AuthFlow)}

/-- A flow that ended, and how. -/
def Answered (s : Sys Call Answer World AuthFlow Failure AuthAnswer) (i : ℕ) (f : AuthFlow)
    (r : Except Failure AuthAnswer) : Prop := s.threads[i]? = some (f, .done r)

/-- What a sign-in that ended tells. -/
def Ended (ctx : Context) (w₀ w : World) (log : AuthLog) (i : ℕ) (type : ResolvedType)
    (password : Str) : Except Failure AuthAnswer → Prop
  | .ok answer => ∃ result verified x now l₁ e l₂ l₃, answer = .signedIn result ∧
    Gives ctx verified result x ∧
    log = l₁ ++ e :: (l₂ ++ .called i (.findUser verified.id) (some now) :: l₃) ∧ Stores i x e ∧
    recordAfter w₀ verified.id (l₁ ++ e :: l₂) = some now ∧ Held ctx type password now
  | .error e => Tame e ∧ Unstored log i ∨ ∃ x id, StoredOnly log i x ∧ Closed w x ∧
    Refusing ctx log i id password

/-- Ada's e-mail, and a password. -/
def typed (password : Str) : Record :=
  ⟨fun name => if name = js "email" then .str (js "ada@clinic.test") else .str password, false⟩

def patientAt : At := fun operation => js "patient." ++ operation

def adaSignsIn (password : Str) : AuthFlow := .signIn patient (typed password) patientAt

/-- Ada signs in, and her password is set to another once her session is stored. -/
def overtaken : List (Move Drift AuthFlow) :=
  .begin (adaSignsIn (js "a long one")) :: List.replicate 13 (.step 0) ++
    .begin (.setPassword patient (.id ada.id) (.str (js "another one")) none patientAt) ::
    List.replicate 8 (.step 1) ++ List.replicate 3 (.step 0)

end Outcomes

section Outcomes

variable {ctx : Context} {w : World} {moves : List (Move Drift AuthFlow)}

/-! ### At rest -/

/-- Everybody who began has ended. -/
def AtRest (s : Sys Call Answer World AuthFlow Failure AuthAnswer) : Prop :=
  ∀ f x, (f, x) ∈ s.threads → ∃ r, x = .done r

theorem AtRest.final {s : Sys Call Answer World AuthFlow Failure AuthAnswer} {m : Locals}
    (h : AtRest s) (hmatches : (authProtocol ctx).Matches s m) {i : ℕ} {f : AuthFlow} {p : Phase}
    (hi : m i = some (f, p)) : ∃ r, Answered s i f r ∧ Final ctx f r p := by
  obtain ⟨x, hx, -⟩ := hmatches.began hi
  obtain ⟨r, rfl⟩ := h f x (List.mem_of_getElem? hx)
  obtain ⟨⟨p', hp', hfinal⟩, -⟩ := hmatches.done hx
  cases hi.symm.trans hp'
  exact ⟨r, hx, hfinal⟩

/-- A challenge nobody has redeemed nor anybody ended. -/
def Open (w : World) (hash userId : Str) : Prop := ∃ t, get w.tokens hash = some t ∧
  t.kind = .secondFactor ∧ t.spentAt = none ∧ t.userId = userId

/-- A session of the user that nobody revoked. -/
def Standing (w : World) (session : SessionRecord) (userId : Str) : Prop :=
  ∃ record, get w.sessions session.id = some record ∧ record.userId = userId ∧
    record.revokedAt = none

end Outcomes

end SignIns

end Janus.Auth
