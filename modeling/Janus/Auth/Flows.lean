import Janus.Auth.FirstProof
import Janus.Auth.Matching
import Janus.Auth.Redeem

/-!
# Auth/Flows — every flow on one store, and its phases

Sign-ins, the redemptions of their challenges, the writers of a password and the first proofs, any
number of each.  A phase says what a flow has read, opened or written, by the answers it was given;
everything else it calls is quiet.
-/

namespace Janus.Auth

open Js Insertion Calls

/-! ## The flows -/

inductive AuthFlow where
  | signIn (type : ResolvedType) (input : Record) (at_ : At)
  | confirm (type : ResolvedType) (challenge code : Str) (at_ : At)
  | recover (type : ResolvedType) (challenge code : Str) (at_ : At)
  | confirmReset (asked : Option ResolvedType) (secret : Str) (password : Value) (where_ : Str)
  | changePassword (type : ResolvedType) (user : UserRef) (current : Str) (next : Value)
      (ifVersion : Option ℕ) (at_ : At)
  | setPassword (type : ResolvedType) (user : UserRef) (password : Value) (ifVersion : Option ℕ)
      (at_ : At)
  | confirmLink (type : ResolvedType) (secret : Str) (at_ : At)
  | confirmCode (type : ResolvedType) (challenge code : Str) (at_ : At)
  | confirmVerify (asked : Option ResolvedType) (secret where_ : Str) (firstProof : Bool)
  | proveFirst (type : ResolvedType) (user : UserRef) (at_ : At)

inductive AuthAnswer where
  | signedIn (result : SignInResult)
  | recovered (result : RecoveredSignIn)
  | user (user : User)
  | written (record : UserRecord)
  | proved (result : ProvedFirst)

def AuthFlow.code (ctx : Context) : AuthFlow → Flow AuthAnswer
  | .signIn type input at_ => .signedIn <$> Auth.signIn ctx type input at_
  | .confirm type challenge code at_ => .signedIn <$> confirmChallenge ctx type challenge code at_
  | .recover type challenge code at_ => .recovered <$> recoverWithCode ctx type challenge code at_
  | .confirmReset asked secret password where_ =>
    .user <$> Auth.confirmReset ctx asked secret password where_
  | .changePassword type user current next ifVersion at_ =>
    .written <$> Auth.changePassword ctx type user current next ifVersion at_
  | .setPassword type user password ifVersion at_ =>
    .user <$> Auth.setPassword ctx type user password ifVersion at_
  | .confirmLink type secret at_ => .signedIn <$> Auth.confirmLink ctx type secret at_
  | .confirmCode type challenge code at_ =>
    .signedIn <$> Auth.confirmCode ctx type challenge code at_
  | .confirmVerify asked secret where_ firstProof =>
    .user <$> Auth.confirmVerify ctx asked secret where_ firstProof
  | .proveFirst type user at_ => .proved <$> Auth.proveFirst ctx type user at_

/-- Any number of them, over one store. -/
def authService (ctx : Context) : Service Call Answer World Drift AuthFlow Failure AuthAnswer where
  exec := exec
  drift := drift
  code := AuthFlow.code ctx

/-- The log of such a run. -/
abbrev AuthLog := List (Entry Call Answer AuthFlow Failure AuthAnswer)

/-- The password a sign-in is given. -/
def passwordOf (input : Record) : Str := (input.field (js "password")).toText

/-- What a flow's write leaves as the password, when it writes one: a first proof leaves none. -/
def AuthFlow.leaves : AuthFlow → Option (Option Str)
  | .confirmReset _ _ password _ | .setPassword _ _ password _ _ => some (some password.toText)
  | .changePassword _ _ _ next _ _ => some (some next.toText)
  | .confirmLink .. | .confirmCode .. | .proveFirst .. => some none
  | .confirmVerify _ _ _ firstProof => if firstProof then some none else none
  | .signIn .. | .confirm .. | .recover .. => none

/-- A flow that writes a password. -/
def AuthFlow.isWriter (f : AuthFlow) : Bool := f.leaves.any (·.isSome)

/-- A flow that may prove an e-mail for the first time. -/
def AuthFlow.isProver (f : AuthFlow) : Bool := f.leaves.any (·.isNone)

def AuthFlow.isSignIn : AuthFlow → Bool
  | .signIn .. => true
  | _ => false

/-- A flow that redeems a sign-in's challenge. -/
def AuthFlow.isRedeemer : AuthFlow → Bool
  | .confirm .. | .recover .. => true
  | _ => false

/-- A flow that signs the user out everywhere once it wrote. -/
def AuthFlow.revokes : AuthFlow → Bool
  | .confirmReset .. => true
  | f => f.isProver

/-! ## The phases -/

/-- What a sign-in opened: a session by its id, or a challenge by its hash. -/
inductive Opened where
  | session (id : Str)
  | challenge (hash : Str)
deriving DecidableEq

/-- What a flow has come to. -/
inductive Place where
  /-- Nothing opened or written; the last record read. -/
  | plain (seen : Option UserRecord)
  /-- An e-mail proved before `seen`, or no first proof asked: the verification is written again. -/
  | settled (proved seen : UserRecord)
  /-- A sign-in's session or challenge stored, for the record it verified. -/
  | opened (x : Opened) (verified : UserRecord) (password : Str)
  | kept (x : Opened) (verified now : UserRecord) (password : Str)
  | failing (x : Opened) (verified : UserRecord) (password : Str)
  | refused (x : Opened) (verified : UserRecord) (password : Str)
  /-- A redemption's session stored. -/
  | entered (session : Str)
  /-- A password written, or dropped; then the sessions revoked, and the challenges spent. -/
  | wrote (left : Option Str) (record : UserRecord) (revoked spent : Bool)
  /-- A rewrite refused for a user nobody deletes. -/
  | lost
  /-- A comparison that throws once the session is stored. -/
  | stuck

/-- What a flow has come to, and the last number it drew. -/
structure Phase where
  place : Place
  drawn : Option ℕ

/-- What it becomes by a draw. -/
def Phase.answered (p : Phase) : (c : Call) → Answer c → Phase
  | .draw, n => { p with drawn := some n }
  | _, _ => p

@[simp] theorem Phase.answered_place (p : Phase) (c : Call) (r : Answer c) :
    (p.answered c r).place = p.place := by
  cases c <;> rfl

/-- A call that opens nothing, writes no user, stores no token but a count's and tells of nothing
replaced. -/
def Quiet (ctx : Context) : Call → Prop
  | .updateUser .. | .insertSession _ | .revokeSession .. => False
  | .emit event .. => event.replaces = false
  | .insertToken record => isId record.userId = false ∧ ∃ key text,
    record.tokenHash = ctx.runtime.sha256 (ctx.runtime.toBase64url (ctx.runtime.hmacSha256 key text))
  | _ => True

/-- A failure that is no refusal of a write. -/
def Tame : Failure → Prop
  | .janus .versionConflict .. | .janus .notFound .. => False
  | _ => True

/-- The refusal of a write whose version moved. -/
def IsConflict : Failure → Prop
  | .janus .versionConflict .. => True
  | _ => False

/-- A patch hashes a password, or drops it with the factor. -/
def Patches (ctx : Context) (record : UserRecord) (patch : UserPatch) : Option Str → Prop
  | some password => ∃ stored, patch.password = some (some stored) ∧ Made ctx password stored.hash
  | none =>
    (patch.password = some none ∨ patch.password = none ∧ record.password = none) ∧
    (patch.secondFactor = some none ∨ patch.secondFactor = none ∧ record.secondFactor = none)

/-- The record read again still holds the password: it is still of the type, and its hash matches.
-/
def Held (ctx : Context) (type : ResolvedType) (password : Str) (now : UserRecord) : Prop :=
  now.type = type.name ∧ Holds ctx (some password) now

/-- A session of this user, under an id drawn. -/
def Minted (ctx : Context) (record : SessionRecord) (userId : Str) (drawn : ℕ) : Prop :=
  (∃ t, record.id = ctx.runtime.id t drawn) ∧ record.userId = userId ∧ record.revokedAt = none

/-- A challenge of this user, under a secret drawn. -/
def Issued (ctx : Context) (record : TokenRecord) (userId : Str) (drawn : ℕ) : Prop :=
  record.tokenHash = hashSecret ctx (ctx.runtime.secret drawn) ∧ record.userId = userId ∧
    record.kind = .secondFactor ∧ record.spentAt = none

inductive Step (ctx : Context) : AuthFlow → Phase → (c : Call) → Answer c → Phase → Prop
  | quiet {f p c r} (h : Quiet ctx c) : Step ctx f p c r (p.answered c r)
  | read {f seen d id} (record : UserRecord) (other : f.isSignIn = false) :
    Step ctx f ⟨.plain seen, d⟩ (.findUser id) (some record) ⟨.plain (some record), d⟩
  | readLogin {type input at_ seen d login} (record : UserRecord) :
    Step ctx (.signIn type input at_) ⟨.plain seen, d⟩ (.findUserByLogin type.name login)
      (some record) ⟨.plain (some record), d⟩
  -- a sign-in
  | rehash {type input at_ d record written patch stored}
    (holds : Holds ctx (some (passwordOf input)) record)
    (hpatch : patch.password = some (some stored))
      (made : Made ctx (passwordOf input) stored.hash) :
    Step ctx (.signIn type input at_) ⟨.plain (some record), d⟩
      (.updateUser record.id patch record.version) (.ok written) ⟨.plain (some written), d⟩
  | raced {f p id patch ifVersion} (e : Failure) (h : f.isSignIn → IsConflict e) :
    Step ctx f p (.updateUser id patch ifVersion) (.error e) p
  | lost {type input at_ d record patch ifVersion} (e : Failure)
    (h : ∃ message details, e = .janus .notFound message details) :
    Step ctx (.signIn type input at_) ⟨.plain (some record), d⟩
      (.updateUser record.id patch ifVersion) (.error e) ⟨.lost, d⟩
  | openSession {type input at_ verified drawn record}
    (holds : Holds ctx (some (passwordOf input)) verified)
    (minted : Minted ctx record verified.id drawn) :
    Step ctx (.signIn type input at_) ⟨.plain (some verified), some drawn⟩
      (.insertSession record) ()
      ⟨.opened (.session record.id) verified (passwordOf input), none⟩
  | issue {type input at_ verified drawn record}
    (holds : Holds ctx (some (passwordOf input)) verified)
    (issued : Issued ctx record verified.id drawn) :
    Step ctx (.signIn type input at_) ⟨.plain (some verified), some drawn⟩ (.insertToken record) ()
      ⟨.opened (.challenge record.tokenHash) verified (passwordOf input), none⟩
  | keep {type input at_ x verified d} (now : UserRecord)
    (held : Held ctx type (passwordOf input) now) :
    Step ctx (.signIn type input at_) ⟨.opened x verified (passwordOf input), d⟩
      (.findUser verified.id) (some now) ⟨.kept x verified now (passwordOf input), d⟩
  | overtaken {type input at_ x verified d} (now : Option UserRecord)
    (h : ∀ record, now = some record → ¬ Held ctx type (passwordOf input) record) :
    Step ctx (.signIn type input at_) ⟨.opened x verified (passwordOf input), d⟩
      (.findUser verified.id) now ⟨.failing x verified (passwordOf input), d⟩
  | stuck {type input at_ x verified d where_} (now : UserRecord) (e : Failure)
    (hash : now.password.map (·.hash) ≠ verified.password.map (·.hash))
    (h : passwordMatches ctx now (passwordOf input) where_ = .error e) :
    Step ctx (.signIn type input at_) ⟨.opened x verified (passwordOf input), d⟩
      (.findUser verified.id) (some now) ⟨.stuck, d⟩
  | unread {type input at_ x verified d} (t : Time) (h : isId verified.id = false) :
    Step ctx (.signIn type input at_) ⟨.opened x verified (passwordOf input), d⟩ .now t
      ⟨.failing x verified (passwordOf input), d⟩
  | revokeOwn {f id verified password d at_ r} :
    Step ctx f ⟨.failing (.session id) verified password, d⟩ (.revokeSession id at_) r
      ⟨.refused (.session id) verified password, d⟩
  | burnOwn {f hash verified password d at_ r} :
    Step ctx f ⟨.failing (.challenge hash) verified password, d⟩
    (.consumeToken hash .secondFactor at_)
      r ⟨.refused (.challenge hash) verified password, d⟩
  -- a redemption
  | factor {f d record written patch} (redeems : f.isRedeemer) (hpatch : patch.password = none)
    (active : isActive record.secondFactor) :
    Step ctx f ⟨.plain (some record), d⟩ (.updateUser record.id patch record.version) (.ok written)
      ⟨.plain (some written), d⟩
  | enter {f seen drawn record userId} (redeems : f.isRedeemer)
    (minted : Minted ctx record userId drawn) :
    Step ctx f ⟨.plain seen, some drawn⟩ (.insertSession record) () ⟨.entered record.id, none⟩
  -- a writer, or a first proof
  | write {f d record written patch left} (leaves : f.leaves = some left)
    (patches : Patches ctx record patch left) :
    Step ctx f ⟨.plain (some record), d⟩ (.updateUser record.id patch record.version) (.ok written)
      ⟨.wrote left written false false, d⟩
  | revokeAll {f left record revoked spent d at_ r} :
    Step ctx f ⟨.wrote left record revoked spent, d⟩ (.revokeUserSessions record.id at_ none) r
      ⟨.wrote left record true spent, d⟩
  | spendAll {f left record revoked spent d at_ r} :
    Step ctx f ⟨.wrote left record revoked spent, d⟩
    (.spendUserTokens record.id .secondFactor at_ none)
      r ⟨.wrote left record revoked true, d⟩
  | settle {f proved d id} (record : UserRecord) (h : f.isProver → proved.emailVerifiedAt.isSome)
    (writes : f.isWriter = false) :
    Step ctx f ⟨.plain (some proved), d⟩ (.findUser id) (some record) ⟨.settled proved record, d⟩
  | touch {f proved record written d patch} (hpatch : patch.password = none)
    (hfactor : patch.secondFactor = none) :
    Step ctx f ⟨.settled proved record, d⟩ (.updateUser record.id patch record.version)
      (.ok written)
      ⟨.settled proved written, d⟩
  | ownSession {f place drawn record userId} (proves : f.isProver)
    (minted : Minted ctx record userId drawn) :
    Step ctx f ⟨place, some drawn⟩ (.insertSession record) () ⟨place, none⟩
  | ownChallenge {f place drawn record userId} (proves : f.isProver)
    (issued : Issued ctx record userId drawn) :
    Step ctx f ⟨place, some drawn⟩ (.insertToken record) () ⟨place, none⟩

end Janus.Auth
