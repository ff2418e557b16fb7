import Janus.Auth.ChangeEmail
import Janus.Auth.History

/-!
# Auth/Moving — the flows that move an e-mail, step by step

    send     idle ──read──▸ read ──store the link──▸ over
    update   idle ──read──▸ read ──write──▸ owing ──spend the links──▸ over
    confirm  idle ──take──▸ took ──find──▸ found ──check──▸ checked ──write──▸ wrote

An `update` that moved the e-mail has not ended before it spends the links (`Moving.follows`).
-/

namespace Janus.Auth

open Js Insertion Calls

/-! ## Addresses -/

/-- A type of the configuration. -/
def Configured (ctx : Context) : Type :=
  { type : ResolvedType // get ctx.config.types type.name = some type }

/-- The type kept under a name is named so. -/
theorem configured {ctx : Context} {name : Str} {type : ResolvedType}
    (h : get ctx.config.types name = some type) : get ctx.config.types type.name = some type := by
  rw [ctx.config.types_named _ (mem_of_get h)]
  exact h

/-- The e-mail of these fields, normalised; no e-mail is the empty one, as in `formerHash`. -/
def addressIn (ctx : Context) (type : ResolvedType) (fields : List (Str × Value)) : Str :=
  normalizeEmail ctx ((emailIn type fields).getD [])

/-- A user's, by the type they have. -/
def addressOf (ctx : Context) (record : UserRecord) : Str :=
  ((get ctx.config.types record.type).map (addressIn ctx · record.fields)).getD []

theorem addressOf_eq {ctx : Context} {type : ResolvedType} {record : UserRecord}
    (htype : get ctx.config.types type.name = some type) (hrecord : record.type = type.name) :
    addressOf ctx record = addressIn ctx type record.fields := by
  rw [addressOf, hrecord, htype, Option.map_some, Option.getD_some]

/-- What binds a link to the normalised address it was asked from. -/
def boundTo (ctx : Context) (secret address : Str) : Str :=
  hashSecret ctx
    (js "janus/changeEmail/former" ++ (0 : CodeUnit) :: secret ++ (0 : CodeUnit) :: address)

theorem boundTo_injective (ctx : Context) (secret : Str) :
    Function.Injective (boundTo ctx secret) := by
  intro a b h
  have h := List.append_cancel_left (ctx.runtime.sha256_injective h)
  exact (List.cons.inj h).2

/-- The link of a user of the type is bound to their address. -/
theorem formerHash_eq {ctx : Context} {type : ResolvedType} {record : UserRecord}
    (htype : get ctx.config.types type.name = some type) (hrecord : record.type = type.name)
    (secret : Str) :
    formerHash ctx secret (emailOf type record) = boundTo ctx secret (addressOf ctx record) := by
  rw [addressOf_eq htype hrecord]
  rfl

/-- An e-mail that did not change is the same address. -/
theorem addressIn_of_not_emailChanged {ctx : Context} {type : ResolvedType}
    {before after : List (Str × Value)} (h : ¬ emailChanged ctx type before after) :
    addressIn ctx type after = addressIn ctx type before := by
  have hsame : (emailIn type before).map (normalizeEmail ctx) =
      (emailIn type after).map (normalizeEmail ctx) := by
    by_contra hne
    exact h (decide_eq_true hne)
  rw [addressIn, addressIn]
  cases hb : emailIn type before <;> cases ha : emailIn type after <;>
    simp_all

/-! ## The flows -/

/-- The flows on a user's e-mail: a link asked for, a link confirmed, and an `update`. -/
inductive MoveFlow (ctx : Context) where
  | send (type : Configured ctx) (user : UserRef) (email : Str) (at_ : At)
  | confirm (asked : Option (Configured ctx)) (secret where_ : Str)
  | update (type : Configured ctx) (user : UserRef) (patch : List (Str × Value))
      (ifVersion : Option ℕ) (at_ : At)

/-- What one of them answers. -/
inductive MoveAnswer where
  | sent (issued : IssuedToken)
  | user (user : User)

def MoveFlow.code {ctx : Context} : MoveFlow ctx → Flow MoveAnswer
  | .send type user email at_ => .sent <$> sendChangeEmail ctx type.1 user email at_
  | .confirm asked secret where_ => .user <$> confirmChange ctx (asked.map (·.1)) secret where_
  | .update type user patch ifVersion at_ =>
    .user <$> Auth.update ctx type.1 user patch ifVersion at_

def MoveFlow.isUpdate {ctx : Context} : MoveFlow ctx → Bool
  | .update .. => true
  | _ => false

/-- Any number of them, over one store. -/
def moveService (ctx : Context) :
    Service Call Answer World Drift (MoveFlow ctx) Failure MoveAnswer where
  exec := exec
  drift := drift
  code := MoveFlow.code

/-- An entry of a run's log. -/
abbrev MoveEntry (ctx : Context) := Entry Call Answer (MoveFlow ctx) Failure MoveAnswer

namespace Moving

/-! ## Their phases -/

inductive Phase where
  | idle
  | read (record : UserRecord)
  /-- An `update` that moved the e-mail, its links still to spend. -/
  | owing (new : UserRecord)
  /-- A link taken, of this secret. -/
  | took (secret : Str) (token : TokenRecord)
  | found (secret : Str) (token : TokenRecord) (user : UserRecord)
  /-- The record to write, whose address is the one the link was asked from. -/
  | checked (secret : Str) (token : TokenRecord) (record : UserRecord)
  | wrote (secret : Str)
  | over

/-- A call that reads and writes no user, and no `changeEmail` link. -/
def Aside : Call → Prop
  | .insertToken record => record.kind ≠ .changeEmail
  | .consumeToken _ kind _ | .spendUserTokens _ kind _ _ => kind ≠ .changeEmail
  | .findUser _ | .updateUser .. => False
  | _ => True

/-- A link's token: bound to this address, and stored under the hash of its secret. -/
structure Binds (ctx : Context) (token : TokenRecord) (secret address : Str) : Prop where
  kind : token.kind = .changeEmail
  hash : token.tokenHash = hashSecret ctx secret
  bound : token.codeHash = some (boundTo ctx secret address)

inductive Step (ctx : Context) (f : MoveFlow ctx) : Phase → (c : Call) → Answer c → Phase → Prop
  | aside {p c r} (h : Aside c) : Step ctx f p c r p
  /-- A user read, and the flow ends there. -/
  | leave {p id r} (h : ∀ new, p ≠ .owing new) : Step ctx f p (.findUser id) r .over
  | refused {p id patch v e} (h : ∀ new, p ≠ .owing new) :
    Step ctx f p (.updateUser id patch v) (.error e) .over
  | read {id record} : Step ctx f .idle (.findUser id) (some record) (.read record)
  | issue {record token secret} (binds : Binds ctx token secret (addressOf ctx record))
    (user : token.userId = record.id) : Step ctx f (.read record) (.insertToken token) () .over
  | retire {userId at_ hash r} :
    Step ctx f .over (.spendUserTokens userId .changeEmail at_ (some hash)) r .over
  | kept {type record patch new} (htype : get ctx.config.types type.name = some type)
    (hrecord : record.type = type.name)
    (h : addressIn ctx type new.fields = addressIn ctx type record.fields) :
    Step ctx f (.read record) (.updateUser record.id patch record.version) (.ok new) .over
  | moved {record patch new} (hf : f.isUpdate = true) :
    Step ctx f (.read record) (.updateUser record.id patch record.version) (.ok new) (.owing new)
  | settle {new at_ r} :
    Step ctx f (.owing new) (.spendUserTokens new.id .changeEmail at_ none) r .over
  | take {secret at_ token} (unspent : token.spentAt = none) :
    Step ctx f .idle (.consumeToken (hashSecret ctx secret) .changeEmail at_) (some token)
      (.took secret token)
  | vain {hash at_ r} : Step ctx f .idle (.consumeToken hash .changeEmail at_) r .over
  | find {secret token user} :
    Step ctx f (.took secret token) (.findUser token.userId) (some user) (.found secret token user)
  | check {secret token user record}
    (bound : token.codeHash = some (boundTo ctx secret (addressOf ctx record))) :
    Step ctx f (.found secret token user) (.findUser user.id) (some record)
      (.checked secret token record)
  | confirm {secret token record patch new} (hf : f.isUpdate = false) :
    Step ctx f (.checked secret token record) (.updateUser record.id patch record.version) (.ok new)
      (.wrote secret)

/-- A confirmation answered wrote; an `update` owes nothing any more. -/
def Final {ctx : Context} (f : MoveFlow ctx) (r : Except Failure MoveAnswer) (p : Phase) : Prop :=
  (∀ new, p ≠ .owing new) ∧
    match f, r with
    | .confirm _ secret _, .ok _ => p = .wrote secret
    | _, _ => True

/-! ### What each flow leads to -/

section Leads

variable {ctx : Context} {f : MoveFlow ctx} {α β : Type} {p : Phase} {type : ResolvedType}
  {where_ : Str} {Q : β → Phase → Prop}

/-- A flow that reads and writes no user, and no link. -/
abbrev Asides {α : Type} (x : Flow α) : Prop := Only Aside (fun _ => True) x

/-- Nothing is owed. -/
def Phase.Free (p : Phase) : Prop := ∀ new, p ≠ .owing new

theorem free_read (record : UserRecord) : (Phase.read record).Free := by
  intro new h
  cases h

/-- What a flow does, to its end or to a failure that owes nothing. -/
abbrev Goes (ctx : Context) (f : MoveFlow ctx) {α : Type} (p : Phase) (x : Flow α)
    (Q : α → Phase → Prop) : Prop :=
  Leads exec (Step ctx f) p x Q fun _ p' => p'.Free

theorem asides_call {c : Call} (h : Aside c) : Asides (call c) := Only.perform h

theorem asides_done {r : Except Failure α} : Asides (Prog.done r) := Only.done fun _ _ => trivial

theorem goes_asides {x : Flow α} (hx : Asides x) (hp : p.Free) :
    Goes ctx f p x fun _ p' => p' = p :=
  (Leads.of_only (J := (· = p)) (fun _ _ _ hp hc => ⟨_, .aside hc, hp⟩) hx rfl).mono
    (fun _ _ h => h) fun _ _ h => h.2 ▸ hp

/-- Such a flow, and another after it. -/
theorem goes_bind {x : Flow α} {k : α → Flow β} (hx : Asides x) (hp : p.Free)
    (hk : ∀ a, Goes ctx f p (k a) Q) : Goes ctx f p (x >>= k) Q :=
  Leads.bind ((goes_asides hx hp).mono (by rintro a _ rfl; exact hk a) fun _ _ h => h)

/-- An outcome, and another flow after it. -/
theorem goes_done {r : Except Failure α} {k : α → Flow β} (hp : p.Free)
    (hk : ∀ a, r = .ok a → Goes ctx f p (k a) Q) : Goes ctx f p (Prog.done r >>= k) Q :=
  Leads.bind (Leads.done hk fun _ _ => hp)

theorem asides_emit {event : UserEventType} {user : UserRecord} {occurredAt : Time} :
    Asides (emit ctx event user occurredAt) := by
  rw [emit]
  split
  · exact asides_call trivial
  · trivial

theorem asides_countMail {flow : MailFlow} {counted : MailCounted} :
    Asides (countMail ctx type flow counted where_) := by
  rw [countMail]
  split
  · trivial
  · refine Only.bind ?_ fun count => ?_
    · exact only_countInWindow trivial (fun _ _ => trivial) (fun _ _ => by nofun) trivial
    · split
      · trivial
      · exact Only.bind (asides_call trivial) fun _ => trivial

/-- A user read, where the phase then says which: of the type, when one is given. -/
theorem goes_findRecord {id : Str} {name : Option Str} {after : UserRecord → Phase} (hp : p.Free)
    (hread : ∀ record, Step ctx f p (.findUser id) (some record) (after record)) :
    Goes ctx f p (findRecord id name) fun found p' => match found with
      | some record => p' = after record ∧ ∀ n, name = some n → record.type = n
      | none => p'.Free := by
  rw [findRecord]
  split
  case isFalse => exact hp
  case isTrue =>
    refine Leads.bind (Leads.perform fun w answer _ => ?_)
    cases answer with
    | none => exact ⟨.over, .leave hp, by nofun⟩
    | some record =>
      by_cases hname : name.all fun n => record.type = n
      · refine ⟨_, hread record, ?_⟩
        rw [Option.filter_some, if_pos hname]
        refine ⟨rfl, ?_⟩
        rintro n rfl
        exact of_decide_eq_true hname
      · refine ⟨.over, .leave hp, ?_⟩
        rw [Option.filter_some, if_neg hname]
        nofun

theorem goes_getRecord {id name : Str} {after : UserRecord → Phase} (hp : p.Free)
    (hread : ∀ record, Step ctx f p (.findUser id) (some record) (after record)) :
    Goes ctx f p (getRecord id name where_) fun record p' =>
      p' = after record ∧ record.type = name := by
  refine Leads.bind ((goes_findRecord hp hread).mono ?_ fun _ _ h => h)
  intro found p' h
  cases found with
  | some record => exact ⟨h.1, h.2 _ rfl⟩
  | none => exact h

theorem goes_issueChangeEmailToken {record : UserRecord} {address : Str}
    (htype : get ctx.config.types type.name = some type) (hrecord : record.type = type.name) :
    Goes ctx f (.read record) (issueChangeEmailToken ctx type record address)
      fun _ p' => p' = .over := by
  refine goes_bind (Only.bind (asides_call trivial) fun _ => trivial) (by nofun) fun secret => ?_
  refine Leads.bind (Leads.bind (Leads.perform fun w now _ => ⟨_, .aside trivial, ?_⟩))
  have hbound := congrArg some (formerHash_eq htype hrecord secret)
  refine Leads.bind (Leads.bind (Leads.perform fun w r _ => ⟨.over, .issue ⟨rfl, rfl, hbound⟩ rfl, ?_⟩))
  refine Leads.bind (Leads.bind (Leads.perform fun w now _ => ⟨_, .aside trivial, ?_⟩))
  exact Leads.bind (Leads.perform fun w r _ => ⟨_, .retire, rfl⟩)

theorem goes_sendChangeEmail {user : UserRef} {email : Str} {at_ : At}
    (htype : get ctx.config.types type.name = some type) :
    Goes ctx f .idle (sendChangeEmail ctx type user email at_) fun _ p' => p'.Free := by
  refine Leads.bind ((goes_getRecord (by nofun) fun _ => .read).mono ?_ fun _ _ h => h)
  rintro record _ ⟨rfl, hrecord⟩
  split
  case isTrue => nofun
  case isFalse =>
    refine goes_done (by nofun) fun address _ => ?_
    refine goes_bind asides_countMail (by nofun) fun _ => ?_
    refine goes_bind asides_countMail (by nofun) fun _ => ?_
    refine (goes_issueChangeEmailToken htype hrecord).mono ?_ fun _ _ h => h
    rintro _ _ rfl
    nofun

/-- The user written, and what the patch noted. -/
theorem goes_writeUser {id : Str} {ifVersion : Option ℕ} {before : UserRecord → Phase}
    {patchOf : UserRecord → Time → Flow (Patch × α)} {Q : UserRecord × α → Phase → Prop}
    (hp : p.Free) (hread : ∀ record, Step ctx f p (.findUser id) (some record) (before record))
    (hfree : ∀ record, (before record).Free)
    (hpatch : ∀ record now, record.type = type.name → Goes ctx f (before record) (patchOf record now)
      fun a p' => Goes ctx f p' (updateUser record.id (a.1.updating now) record.version)
        fun new => Q (new, a.2)) :
    Goes ctx f p (writeUser id type ifVersion where_ patchOf) Q := by
  refine Leads.bind ((goes_getRecord hp hread).mono ?_ fun _ _ h => h)
  rintro record _ ⟨rfl, hrecord⟩
  split
  · exact hfree record
  · refine goes_bind (asides_call trivial) (hfree record) fun now => ?_
    exact Leads.bind ((hpatch record now hrecord).mono (fun _ _ h => Leads.bind h) fun _ _ h => h)

theorem goes_updateUser {record : UserRecord} {patch : UserPatch} {Q : UserRecord → Phase → Prop}
    (hp : p.Free)
    (h : ∀ new, ∃ p', Step ctx f p (.updateUser record.id patch record.version) (.ok new) p' ∧
      Q new p') : Goes ctx f p (updateUser record.id patch record.version) Q := by
  refine Leads.bind (Leads.perform fun w r _ => ?_)
  cases r with
  | ok new =>
    obtain ⟨p', hstep, hQ⟩ := h new
    exact ⟨p', hstep, hQ⟩
  | error e => exact ⟨.over, .refused hp, by nofun⟩

/-- **An `update` that moved the e-mail spends the links before it ends.** -/
theorem goes_update {user : UserRef} {patch : List (Str × Value)} {ifVersion : Option ℕ} {at_ : At}
    (htype : get ctx.config.types type.name = some type) (hf : f.isUpdate = true) :
    Goes ctx f .idle (update ctx type user patch ifVersion at_) fun _ p' => p'.Free := by
  refine Leads.bind (Leads.mono (Q := fun a p' => if emailChanged ctx type a.2.fields a.1.fields then
    p' = .owing a.1 else p' = .over) (goes_writeUser (by nofun) (fun _ => .read) free_read ?_) ?_
    fun _ _ h => h)
  · intro record now hrecord
    refine goes_done (by nofun) fun patch _ => goes_updateUser (by nofun) fun new => ?_
    dsimp only
    split
    case isTrue => exact ⟨_, .moved hf, rfl⟩
    case isFalse hsame =>
      exact ⟨_, .kept htype hrecord (addressIn_of_not_emailChanged hsame), rfl⟩
  · rintro ⟨written, replaced⟩ p' h
    dsimp only at h ⊢
    split at h
    case isTrue hmoved =>
      subst h
      rw [if_pos hmoved]
      refine Leads.bind (Leads.ensure (Leads.bind (Leads.perform fun w now _ =>
        ⟨_, .aside trivial, ?_⟩)))
      refine Leads.bind (Leads.perform fun w r _ => ⟨.over, .settle, ?_⟩)
      refine (goes_asides asides_emit (by nofun)).mono ?_ fun _ _ h => h
      rintro _ _ rfl
      exact (nofun : Phase.Free .over)
    case isFalse hsame =>
      subst h
      rw [if_neg hsame]
      exact (nofun : Phase.Free .over)

/-- A link taken unspent, and its user found. -/
theorem goes_redeemChangeEmailToken {asked : Option ResolvedType} {secret : Str}
    (hasked : ∀ type, asked = some type → get ctx.config.types type.name = some type) :
    Goes ctx f .idle (redeemChangeEmailToken ctx asked secret where_)
      fun a p' => p' = .found secret a.1 a.2.1 ∧ get ctx.config.types a.2.2.name = some a.2.2 := by
  refine Leads.bind (Leads.bind (Leads.perform fun w now _ => ⟨_, .aside trivial, ?_⟩))
  refine Leads.bind (Leads.perform fun w answer _ => ?_)
  cases husable : refuseUnusable answer now where_ .token with
  | error e => exact ⟨.over, .vain, by nofun⟩
  | ok token =>
    obtain ⟨rfl, hunspent⟩ := unspent_of_refuseUnusable husable
    refine ⟨_, .take hunspent, ?_⟩
    refine Leads.bind (Leads.mono (Q := fun (a : UserRecord × ResolvedType) p' =>
      p' = .found secret token a.1 ∧ get ctx.config.types a.2.name = some a.2) ?_ ?_ fun _ _ h => h)
    · refine Leads.bind ((goes_findRecord (by nofun) fun _ => .find).mono ?_ fun _ _ h => h)
      intro found p' h
      cases found with
      | none => exact h
      | some user =>
        obtain ⟨rfl, -⟩ := h
        dsimp only
        cases howner : asked.or (get ctx.config.types user.type) with
        | none => exact (nofun : Phase.Free (.found secret token user))
        | some owner =>
          refine ⟨rfl, ?_⟩
          obtain h | ⟨-, h⟩ := Option.or_eq_some_iff.mp howner
          · exact hasked owner h
          · exact configured h
    · rintro ⟨user, owner⟩ _ ⟨rfl, howner⟩
      dsimp only
      split
      · exact (nofun : Phase.Free (.found secret token user))
      · exact goes_done (by nofun) fun _ _ => ⟨rfl, howner⟩

/-- Where a confirmation stands on the record read for its write. -/
def Phase.checking (ctx : Context) (secret : Str) (token : TokenRecord) (record : UserRecord) :
    Phase :=
  if token.codeHash = some (boundTo ctx secret (addressOf ctx record)) then
    .checked secret token record else .over

theorem free_checking {secret : Str} {token : TokenRecord} {record : UserRecord} :
    (Phase.checking ctx secret token record).Free := by
  rw [Phase.checking]
  split <;> nofun

theorem step_checking {secret : Str} {token : TokenRecord} {user record : UserRecord} :
    Step ctx f (.found secret token user) (.findUser user.id) (some record)
      (.checking ctx secret token record) := by
  rw [Phase.checking]
  split
  case isTrue h => exact .check h
  case isFalse => exact .leave (by nofun)

/-- What the link writes, it writes on a record at the address it was asked from. -/
theorem bound_of_movedBy {token : TokenRecord} {secret : Str} {record : UserRecord} {now : Time}
    {patch : Patch} (h : movedBy ctx type token secret where_ record now = .ok patch) :
    token.codeHash = some (formerHash ctx secret (emailOf type record)) := by
  by_contra hne
  rw [movedBy] at h
  split at h
  · cases h
  · rw [refuseMoved, if_neg hne] at h
    cases h

theorem goes_confirmChange {asked : Option ResolvedType} {secret : Str}
    (hasked : ∀ type, asked = some type → get ctx.config.types type.name = some type)
    (hf : f.isUpdate = false) :
    Goes ctx f .idle (confirmChange ctx asked secret where_) fun _ p' => p' = .wrote secret := by
  refine Leads.bind ((goes_redeemChangeEmailToken hasked).mono ?_ fun _ _ h => h)
  rintro ⟨token, user, type⟩ _ ⟨rfl, htype⟩
  dsimp only
  split
  case isTrue => exact (nofun : Phase.Free (.found secret token user))
  case isFalse =>
    refine Leads.bind (Leads.mono (Q := fun _ p' => p' = .wrote secret)
      (goes_writeUser (by nofun) (fun _ => step_checking) (fun _ => free_checking) ?_) ?_
      fun _ _ h => h)
    · intro record now hrecord
      refine goes_done free_checking fun patch hpatch => ?_
      have hbound := bound_of_movedBy hpatch
      rw [formerHash_eq htype hrecord] at hbound
      rw [Phase.checking, if_pos hbound]
      exact goes_updateUser (by nofun) fun new => ⟨_, .confirm hf, rfl⟩
    · rintro ⟨written, replaced⟩ _ rfl
      have hwrote : (Phase.wrote secret).Free := nofun
      refine goes_bind ?_ hwrote fun _ => goes_bind ?_ hwrote fun _ => rfl
      · split
        · exact asides_emit
        · trivial
      · split
        · exact asides_emit
        · trivial

/-- **What each flow does**, step by step. -/
theorem follows (ctx : Context) (f : MoveFlow ctx) :
    Leads exec (Step ctx f) .idle f.code (fun a => Final f (.ok a)) fun e =>
    Final f (.error e) := by
  have hfailed : ∀ (e : Failure) (p' : Phase), p'.Free → Final f (.error e) p' := by
    intro e p' h
    refine ⟨h, ?_⟩
    split <;> trivial
  cases f with
  | send type user email at_ =>
    exact Leads.map ((goes_sendChangeEmail type.2).mono (fun _ _ h => ⟨h, trivial⟩) hfailed)
  | update type user patch ifVersion at_ =>
    exact Leads.map ((goes_update type.2 rfl).mono (fun _ _ h => ⟨h, trivial⟩) hfailed)
  | confirm asked secret where_ =>
    refine Leads.map ((goes_confirmChange ?_ rfl).mono ?_ hfailed)
    · intro type htype
      obtain ⟨configured, -, rfl⟩ := Option.map_eq_some_iff.mp htype
      exact configured.2
    · rintro user _ rfl
      exact ⟨nofun, rfl⟩

end Leads

/-- The phases of any number of them. -/
def protocol (ctx : Context) : Protocol (moveService ctx) where
  Phase := Phase
  start _ := .idle
  Step := Step ctx
  Final := Final
  follows := follows ctx

end Moving

end Janus.Auth
