import Janus.Auth.StepUp
import Janus.Auth.SignIn

/-!
# Auth/Sessions — a session revoked never comes back

`authenticate` and `stepUp.confirm` write on the strength of an earlier read; the store's write
looks at the stored session again.  So every call of the stores leaves a `revokedAt` as it is
(`Revoked.exec`), and an `authenticate` begun after it is set never answers the session, whatever
runs beside it (`revoked_stays`).
-/

namespace Janus.Auth

open Js Insertion Calls

/-! ## The flows -/

/-- The user and the session a request presents. -/
structure Authenticated where
  user : User
  session : SessionRecord
  token : Str
  renewed : Bool

/-- Whether a session is renewed now: once `renewAfter` has passed since it was opened or last
renewed. -/
def renewalDue (type : ResolvedType) (session : SessionRecord) (now : Time) : Bool :=
  type.renewAfterMs.any fun renewAfterMs =>
    (renewAfterMs : ℤ) ≤ type.lifespanMs - ((session.expiresAt : ℤ) - now)

/-- `authenticate`: nobody for no standing session, or for a user gone, inactive or of another type.
-/
def authenticate (ctx : Context) (presented type : Option Str) : Flow (Option Authenticated) :=
  match presented with
  | none => pure none
  | some token => do
    match ← standingSession ctx presented with
    | none => pure none
    | some session => do
      let now ← call .now
      let user ← call (.findUser session.userId)
      match user.filter fun user => user.active ∧ type.all (user.type = ·) with
      | none => pure none
      | some user =>
        match (get ctx.config.types user.type).filter (renewalDue · session now) with
        | none => pure (some ⟨toUser user, session, token, false⟩)
        | some resolved => do
          match ← call (.extendSession session.id (now + resolved.lifespanMs)) with
          -- Revoked between the read and the renewal: anonymous, and never brought back.
          | none => pure none
          | some extended => pure (some ⟨toUser user, extended, token, true⟩)

def signOut (ctx : Context) (presented : Option Str) : Flow Bool :=
  match presented with
  | none => pure false
  | some token => do
    match ← call (.findSessionByTokenHash (hashSecret ctx token)) with
    | none => pure false
    | some session => do
      let now ← call .now
      call (.revokeSession session.id now)

/-- An `except` that is no id names no session. -/
def signOutEverywhere (user : UserRef) (except : Option Str) : Flow ℕ :=
  if isId (idOf user) then do
    let now ← call .now
    call (.revokeUserSessions (idOf user) now (except.filter isId))
  else pure 0

/-- What runs: the flows that read and write sessions, and any other program of the stores' calls.
-/
inductive SessionFlow where
  | authenticate (presented type : Option Str)
  | confirmStepUp (type : ResolvedType) (presented : Option Str) (secret code : Str) (at_ : At)
  | signOut (presented : Option Str)
  | signOutEverywhere (user : UserRef) (except : Option Str)
  | other (program : Flow Unit)

/-- What each answers. -/
inductive SessionAnswer where
  | authenticated (answer : Option Authenticated)
  | confirmed (session : SessionRecord)
  | signedOut (answer : Bool)
  | everywhere (revoked : ℕ)
  | other

def SessionFlow.code (ctx : Context) : SessionFlow → Flow SessionAnswer
  | .authenticate presented type => .authenticated <$> Auth.authenticate ctx presented type
  | .confirmStepUp type presented secret code at_ =>
    .confirmed <$> Auth.confirmStepUp ctx type presented secret code at_
  | .signOut presented => .signedOut <$> Auth.signOut ctx presented
  | .signOutEverywhere user except => .everywhere <$> Auth.signOutEverywhere user except
  | .other program => (fun _ => .other) <$> program

/-- The stores in memory, and whoever calls them. -/
def sessionService (ctx : Context) :
    Service Call Answer World Drift SessionFlow Failure SessionAnswer where
  exec := exec
  drift := drift
  code := SessionFlow.code ctx

/-! ## The sessions, each under its own id -/

/-- Each session is kept once, under its own id. -/
structure ById (sessions : List (Str × SessionRecord)) : Prop where
  nodup : (sessions.map Prod.fst).Nodup
  id_eq : ∀ e ∈ sessions, e.2.id = e.1

section ById

variable {sessions : List (Str × SessionRecord)}

theorem ById.get (h : ById sessions) {id : Str} {stored : SessionRecord}
    (hget : get sessions id = some stored) : stored.id = id :=
  h.id_eq _ (mem_of_get hget)

theorem ById.put (h : ById sessions) {id : Str} {stored : SessionRecord} (hid : stored.id = id) :
    ById (put sessions id stored) where
  nodup := nodup_put h.nodup id stored
  id_eq e he := by
    obtain rfl | he := mem_put he
    · exact hid
    · exact h.id_eq e he

/-- A session found by its token is the one its id finds. -/
theorem ById.sessionByTokenHash (h : ById sessions) {tokenHash : Str} {stored : SessionRecord}
    (hfound : sessionByTokenHash sessions tokenHash = some stored) :
    Insertion.get sessions stored.id = some stored := by
  obtain ⟨e, he, rfl⟩ := List.mem_map.mp (List.mem_reverse.mp (List.mem_of_find?_eq_some hfound))
  rw [h.id_eq e he]
  exact get_of_mem h.nodup he

@[simp] theorem SessionRecord.id_revoked (at_ : Time) (stored : SessionRecord) :
    (stored.revoked at_).id = stored.id := by
  unfold SessionRecord.revoked
  split <;> rfl

/-- A session revoked keeps its first `revokedAt`. -/
theorem SessionRecord.revoked_of_some {at_ t : Time} {stored : SessionRecord}
    (h : stored.revokedAt = some t) : stored.revoked at_ = stored := by
  rw [SessionRecord.revoked, h, if_neg (Option.some_ne_none t)]

/-! ### Every call keeps them so -/

theorem ById.insertSession (h : ById sessions) (record : SessionRecord) :
    ById (insertSession sessions record) := by
  rw [Auth.insertSession]
  split
  · exact h
  · exact h.put rfl

theorem ById.standingWrite (h : ById sessions) (id : Str) {patch : SessionRecord → SessionRecord}
    (hpatch : ∀ stored, (patch stored).id = stored.id) :
    ById (standingWrite sessions id patch).2 := by
  rw [Auth.standingWrite]
  split
  case h_1 => exact h
  case h_2 stored hstored =>
    exact h.put ((hpatch stored).trans (h.get (Option.filter_eq_some_iff.mp hstored).1))

theorem ById.revokeSession (h : ById sessions) (id : Str) (at_ : Time) :
    ById (revokeSession sessions id at_).2 := by
  rw [Auth.revokeSession]
  split
  case h_1 => exact h
  case h_2 stored hget => exact h.put ((SessionRecord.id_revoked at_ stored).trans (h.get hget))

theorem ById.revokeUserSessions (h : ById sessions) (userId : Str) (at_ : Time)
    (except : Option Str) : ById (revokeUserSessions sessions userId at_ except).2 where
  nodup := by
    rw [Auth.revokeUserSessions, List.map_map]
    exact h.nodup
  id_eq e he := by
    obtain ⟨e', he', rfl⟩ := List.mem_map.mp he
    dsimp only
    split
    · exact (SessionRecord.id_revoked at_ e'.2).trans (h.id_eq e' he')
    · exact h.id_eq e' he'

theorem ById.exec (c : Call) (w : World) (h : ById w.sessions) : ById (exec c w).2.sessions := by
  cases c with
  | insertSession record => exact h.insertSession record
  | extendSession id => exact h.standingWrite id fun _ => rfl
  | reauthenticateSession id => exact h.standingWrite id fun _ => rfl
  | revokeSession id at_ => exact h.revokeSession id at_
  | revokeUserSessions userId at_ except => exact h.revokeUserSessions userId at_ except
  | _ => exact h

theorem ById.drift (e : Drift) (w : World) (h : ById w.sessions) : ById (drift e w).sessions := by
  cases e <;> exact h

/-- A session extended is the one asked for. -/
theorem ById.extendSession (h : ById sessions) {id : Str} {expiresAt : Time}
    {extended : SessionRecord} (hextended : (extendSession sessions id expiresAt).1 = some extended) :
    extended.id = id := by
  rw [Auth.extendSession, Auth.standingWrite] at hextended
  split at hextended
  case h_1 => cases hextended
  case h_2 stored hstored =>
    cases hextended
    have hid : stored.id = id := h.get (Option.filter_eq_some_iff.mp hstored).1
    exact hid

end ById

/-! ## A session revoked keeps its `revokedAt` -/

/-- Session `id` was revoked at `t`. -/
structure Revoked (id : Str) (t : Time) (sessions : List (Str × SessionRecord)) : Prop where
  byId : ById sessions
  revokedAt : (get sessions id).map (·.revokedAt) = some (some t)

section Revoked

variable {sessions : List (Str × SessionRecord)} {id id' : Str} {t at_ : Time}

theorem Revoked.found (h : Revoked id t sessions) {stored : SessionRecord}
    (hget : get sessions id = some stored) : stored.revokedAt = some t := by
  have hrevoked := h.revokedAt
  rw [hget] at hrevoked
  exact Option.some.inj hrevoked

/-- A write on another session, or on it and of the same `revokedAt`. -/
theorem Revoked.get_put (h : Revoked id t sessions) {stored : SessionRecord}
    (hsame : id' = id → stored.revokedAt = some t) :
    (get (put sessions id' stored) id).map (·.revokedAt) = some (some t) := by
  rw [Insertion.get_put]
  split
  case isTrue heq => rw [Option.map_some, hsame heq]
  case isFalse => exact h.revokedAt

theorem Revoked.insertSession (h : Revoked id t sessions) (record : SessionRecord) :
    Revoked id t (insertSession sessions record) where
  byId := h.byId.insertSession record
  revokedAt := by
    rw [Auth.insertSession]
    split
    case isTrue => exact h.revokedAt
    case isFalse hnew =>
      refine h.get_put fun heq => absurd ?_ hnew
      obtain ⟨stored, hstored, -⟩ := Option.map_eq_some_iff.mp h.revokedAt
      rw [heq, hstored]
      rfl

/-- A session that stands is another. -/
theorem Revoked.standingWrite (h : Revoked id t sessions) {patch : SessionRecord → SessionRecord}
    (hpatch : ∀ stored, (patch stored).id = stored.id) :
    Revoked id t (standingWrite sessions id' patch).2 where
  byId := h.byId.standingWrite id' hpatch
  revokedAt := by
    rw [Auth.standingWrite]
    split
    case h_1 => exact h.revokedAt
    case h_2 stored hstored =>
      obtain ⟨hget, hstands⟩ := Option.filter_eq_some_iff.mp hstored
      refine h.get_put ?_
      rintro rfl
      rw [h.found hget] at hstands
      cases of_decide_eq_true hstands

theorem Revoked.revokeSession (h : Revoked id t sessions) :
    Revoked id t (revokeSession sessions id' at_).2 where
  byId := h.byId.revokeSession id' at_
  revokedAt := by
    rw [Auth.revokeSession]
    split
    case h_1 => exact h.revokedAt
    case h_2 stored hget =>
      refine h.get_put ?_
      rintro rfl
      rw [SessionRecord.revoked_of_some (h.found hget), h.found hget]

theorem Revoked.revokeUserSessions (h : Revoked id t sessions) (userId : Str)
    (except : Option Str) : Revoked id t (revokeUserSessions sessions userId at_ except).2 where
  byId := h.byId.revokeUserSessions userId at_ except
  revokedAt := by
    obtain ⟨stored, hget, hrevoked⟩ := Option.map_eq_some_iff.mp h.revokedAt
    rw [get_revokeUserSessions, hget, Option.map_some, SessionRecord.revoked_of_some hrevoked,
      ite_self, Option.map_some, hrevoked]

/-- **Whatever is called, a session revoked keeps its `revokedAt`.** -/
theorem Revoked.exec (c : Call) (w : World) (h : Revoked id t w.sessions) :
    Revoked id t (exec c w).2.sessions := by
  cases c with
  | insertSession record => exact h.insertSession record
  | extendSession => exact h.standingWrite fun _ => rfl
  | reauthenticateSession => exact h.standingWrite fun _ => rfl
  | revokeSession => exact h.revokeSession
  | revokeUserSessions userId _ except => exact h.revokeUserSessions userId except
  | _ => exact h

theorem Revoked.drift (e : Drift) (w : World) (h : Revoked id t w.sessions) :
    Revoked id t (drift e w).sessions := by
  cases e <;> exact h

end Revoked

/-! ## What `authenticate` answers -/

section Authenticate

variable {ctx : Context} {id : Str} {t : Time}

/-- **No session revoked stands.** -/
theorem standingSession_meets (presented : Option Str) :
    Meets exec (fun w => Revoked id t w.sessions)
      (fun r => ∀ session, r = .ok (some session) → session.id ≠ id)
      (standingSession ctx presented) := by
  cases presented with
  | none => rintro session ⟨⟩
  | some token =>
    intro w hw w' _ session hsession hid
    obtain ⟨hfound, hstands⟩ := Option.filter_eq_some_iff.mp (Except.ok.inj hsession)
    have hget := hw.byId.sessionByTokenHash hfound
    rw [hid] at hget
    have hnone := (of_decide_eq_true hstands).1
    rw [hw.found hget] at hnone
    cases hnone

/-- **A session revoked is never answered.** -/
theorem authenticate_meets (presented type : Option Str) :
    Meets exec (fun w => Revoked id t w.sessions)
      (fun r => ∀ answer, r = .ok (some answer) → answer.session.id ≠ id)
      (authenticate ctx presented type) := by
  unfold authenticate
  cases presented with
  | none => rintro answer ⟨⟩
  | some token =>
    refine Meets.bind ((standingSession_meets (some token)).mono fun r hr => ?_)
    match r with
    | .error e => rintro answer ⟨⟩
    | .ok none => rintro answer ⟨⟩
    | .ok (some session) =>
      have hne : session.id ≠ id := hr session rfl
      refine Meets.perform_bind fun w _ => Meets.perform_bind fun w' _ => ?_
      split
      · rintro answer ⟨⟩
      split
      · rintro answer ⟨⟩
        exact hne
      refine Meets.perform_bind fun w'' hw'' => ?_
      generalize hextended : (exec (.extendSession session.id _) w'').1 = extended
      cases extended with
      | none => rintro answer ⟨⟩
      | some extended =>
        rintro answer ⟨⟩
        rw [hw''.byId.extendSession hextended]
        exact hne

end Authenticate

/-- **A session revoked never comes back.**  However the flows interleave, with any other programs
of the stores' calls beside them: once a session's `revokedAt` is set it stays as it is, and no
`authenticate` that begins afterwards answers that session. -/
theorem revoked_stays {ctx : Context} {w : World} (hw : ById w.sessions)
    {before after : List (Move Drift SessionFlow)} {id : Str} {stored : SessionRecord} {t : Time}
    (hstored : get ((sessionService ctx).run w before).world.sessions id = some stored)
    (hrevoked : stored.revokedAt = some t) :
    (∃ later, get ((sessionService ctx).run w (before ++ after)).world.sessions id = some later ∧
      later.revokedAt = some t) ∧
    ∀ i presented type answer, ((sessionService ctx).run w before).threads.length ≤ i →
      ((sessionService ctx).run w (before ++ after)).threads[i]? =
        some (.authenticate presented type, .done (.ok (.authenticated (some answer)))) →
      answer.session.id ≠ id := by
  let S := sessionService ctx
  have hbyId : ById (S.run w before).world.sessions :=
    (S.meets (Q := fun _ _ => True) ById.exec ById.drift (fun _ => Meets.of_all fun _ => trivial)
      (s := ⟨w, [], []⟩) hw before).1
  have hnow : Revoked id t (S.run w before).world.sessions :=
    ⟨hbyId, by rw [hstored, Option.map_some, hrevoked]⟩
  have hcode : ∀ f : SessionFlow, Meets S.exec (fun w => Revoked id t w.sessions)
      (fun r => ∀ answer, r = .ok (.authenticated (some answer)) → answer.session.id ≠ id)
      (S.code f) := by
    have hother : ∀ {α : Type} (x : Flow α) (g : α → SessionAnswer),
        (∀ a answer, g a ≠ .authenticated answer) → Meets S.exec (fun w => Revoked id t w.sessions)
          (fun r => ∀ answer, r = .ok (.authenticated (some answer)) → answer.session.id ≠ id)
          (g <$> x) := by
      refine fun x g hg => Meets.map (Meets.of_all fun r answer hr => ?_)
      cases r with
      | error e => cases hr
      | ok a => exact absurd (Except.ok.inj hr) (hg a _)
    intro f
    cases f with
    | authenticate presented type =>
      refine Meets.map ((authenticate_meets presented type).mono fun r hr => ?_)
      match r with
      | .error e => rintro answer ⟨⟩
      | .ok none => rintro answer ⟨⟩
      | .ok (some answer) =>
        rintro _ ⟨⟩
        exact hr answer rfl
    | _ => exact hother _ _ nofun
  obtain ⟨hlater, hends⟩ := S.meets Revoked.exec Revoked.drift hcode hnow after
  rw [S.run_append]
  refine ⟨?_, fun i presented type answer hi hthread => hends i _ _ hi hthread answer rfl⟩
  obtain ⟨later, hget, hsame⟩ := Option.map_eq_some_iff.mp hlater.revokedAt
  exact ⟨later, hget, hsame⟩

/-- Ada's session, its token `token`. -/
def adaSession : SessionRecord where
  id := js "s1"
  tokenHash := hashSecret clinic (js "token")
  userId := ada.id
  authenticatedAt := 0
  expiresAt := 3600000
  revokedAt := none
  createdAt := 0

/-- A clinic with nobody but her. -/
def adaSignedIn : World := ⟨[(ada.id, ada)], [(js "s1", adaSession)], [], 0, 0, false⟩

/-- Ada signs out while a renewal of her session is under way, and comes back with its token. -/
theorem revoked_stays_ada :
    ∃ later, get ((sessionService clinic).run adaSignedIn
      ([.begin (.other ((fun _ => ()) <$> call (.extendSession (js "s1") 7200000))),
        .begin (.signOut (some (js "token"))), .step 1, .step 1, .step 1] ++
      [.step 0, .begin (.authenticate (some (js "token")) none), .step 2, .step 2])).world.sessions
        (js "s1") = some later ∧ later.revokedAt = some 0 :=
  (revoked_stays (w := adaSignedIn) ⟨List.nodup_singleton _, by simp [adaSignedIn, adaSession]⟩
    rfl rfl).1

end Janus.Auth
