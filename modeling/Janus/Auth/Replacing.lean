import Janus.Auth.Avatar
import Janus.Auth.FactorWrites
import Janus.Auth.Moving
import Janus.Auth.Protocol

/-!
# Auth/Replacing — who changes a user's fields, avatar, password or factor, and what that replaces

    seen ──write, of the record seen──▸ owed ──event──▸ told

Whoever writes reads the record first, computes the patch from it, and has told of the e-mail or the
avatar it replaced before it ends (`Replacing.follows`).  A proof of an e-mail, which replaces
neither, is not among them.
-/

namespace Janus.Auth

open Js Insertion Calls

/-! ## What a write replaced -/

/-- An event, as a listener is handed it. -/
structure UserEvent where
  type : UserEventType
  userId : Str
  userType : Str
  occurredAt : Time
deriving DecidableEq

/-- The id of a user's avatar. -/
def UserRecord.avatarId (record : UserRecord) : Option Str := record.avatar.map (·.id)

/-- What a write of the normalised e-mail is told by. -/
def emailChanges (ctx : Context) (former new : UserRecord) : List UserEventType :=
  match get ctx.config.types former.type with
  | some type =>
    if emailChanged ctx type former.fields new.fields then
      [.emailChanged (emailOf type former)] else []
  | none => []

/-- What a write of the avatar is told by. -/
def avatarChanges (former new : UserRecord) : List UserEventType :=
  if new.avatarId = former.avatarId then []
  else if new.avatar.isSome then [.avatarChanged former.avatarId]
  else [.avatarRemoved former.avatarId]

/-- What a write is told by: the e-mail replaced, and the avatar. -/
def changes (ctx : Context) (former new : UserRecord) : List UserEventType :=
  emailChanges ctx former new ++ avatarChanges former new

/-- The events of a write, where a listener is wired. -/
def announced (ctx : Context) (changes : List UserEventType) (written : UserRecord) :
    List UserEvent :=
  if ctx.events then changes.map (⟨·, written.id, written.type, written.updatedAt⟩) else []

@[simp] theorem announced_nil (ctx : Context) (written : UserRecord) :
    announced ctx [] written = [] := by
  rw [announced]
  split <;> rfl

/-! ## The flows -/

/-- The flows that write a user. -/
inductive WriterFlow (ctx : Context) where
  | update (type : Configured ctx) (user : UserRef) (patch : List (Str × Value))
      (ifVersion : Option ℕ) (at_ : At)
  | confirmChange (asked : Option (Configured ctx)) (secret where_ : Str)
  | setAvatar (asked : Option ResolvedType) (user : UserRef) (avatar : Arg) (ifVersion : Option ℕ)
      (at_ : At)
  | removeAvatar (asked : Option ResolvedType) (user : UserRef) (ifVersion : Option ℕ) (at_ : At)
  | setPassword (type : ResolvedType) (user : UserRef) (password : Value) (ifVersion : Option ℕ)
      (at_ : At)
  | changePassword (type : ResolvedType) (user : UserRef) (current : Str) (next : Value)
      (ifVersion : Option ℕ) (at_ : At)
  | confirmReset (asked : Option ResolvedType) (secret : Str) (password : Value) (where_ : Str)
  | signIn (type : ResolvedType) (input : Record) (at_ : At)
  | factor (f : FactorFlow)

/-- What one of them answers. -/
inductive WriterAnswer where
  | user (user : User)
  | written (record : UserRecord)
  | signedIn (result : SignInResult)
  | factor (answer : FactorAnswer)

def WriterFlow.code {ctx : Context} : WriterFlow ctx → Flow WriterAnswer
  | .update type user patch ifVersion at_ =>
    .user <$> Auth.update ctx type.1 user patch ifVersion at_
  | .confirmChange asked secret where_ =>
    .user <$> Auth.confirmChange ctx (asked.map (·.1)) secret where_
  | .setAvatar asked user avatar ifVersion at_ =>
    .user <$> avatarSet ctx asked user avatar ifVersion at_
  | .removeAvatar asked user ifVersion at_ => .user <$> avatarRemove ctx asked user ifVersion at_
  | .setPassword type user password ifVersion at_ =>
    .user <$> Auth.setPassword ctx type user password ifVersion at_
  | .changePassword type user current next ifVersion at_ =>
    .written <$> Auth.changePassword ctx type user current next ifVersion at_
  | .confirmReset asked secret password where_ =>
    .user <$> Auth.confirmReset ctx asked secret password where_
  | .signIn type input at_ => .signedIn <$> Auth.signIn ctx type input at_
  | .factor f => .factor <$> f.code ctx

/-- A flow that is refused before its write only. -/
def WriterFlow.isWhole {ctx : Context} : WriterFlow ctx → Bool
  | .changePassword .. | .signIn .. | .factor _ => false
  | _ => true

/-- Any number of them, over one store. -/
def writerService (ctx : Context) :
    Service Call Answer World Drift (WriterFlow ctx) Failure WriterAnswer where
  exec := exec
  drift := drift
  code := WriterFlow.code

/-- An entry of a run's log. -/
abbrev WriterEntry (ctx : Context) := Entry Call Answer (WriterFlow ctx) Failure WriterAnswer

namespace Replacing

/-! ## What each writes of a record -/

/-- A password hashed. -/
def Hashed (ctx : Context) (plain hash : Str) : Prop :=
  ∃ hasher salt, ctx.hasher = some hasher ∧ hash = hasher.hash plain salt

/-- The patch a flow computes from a record. -/
def Computes (ctx : Context) : WriterFlow ctx → UserRecord → UserPatch → Prop
  | .update type _ patch _ at_, record, written => ∃ computed now,
    fieldsPatch ctx type.1 record patch (at_ (js "update")) = .ok computed ∧
      record.type = type.1.name ∧ written = computed.updating now
  | .confirmChange _ secret where_, record, written => ∃ type token computed now,
    movedBy ctx type token secret where_ record now = .ok computed ∧
      get ctx.config.types type.name = some type ∧ record.type = type.name ∧
      written = computed.updating now
  | .setAvatar _ _ avatar _ _, record, written => ∃ id now where_,
    avatarIdOf avatar where_ = .ok id ∧ record.avatarId ≠ some id ∧
      written = { avatar := some (some ⟨id, now⟩), updatedAt := now }
  | .removeAvatar .., record, written => record.avatar ≠ none ∧
    ∃ now, written = { avatar := some none, updatedAt := now }
  | .setPassword _ _ password _ _, _, written => ∃ hash now, Hashed ctx password.toText hash ∧
    written = { password := some (some ⟨hash, now⟩), updatedAt := now }
  | .changePassword _ _ current next _ at_, record, written =>
    passwordMatches ctx record current (at_ (js "changePassword")) = .ok true ∧
      ∃ hash now, Hashed ctx next.toText hash ∧
        written = { password := some (some ⟨hash, now⟩), updatedAt := now }
  | .confirmReset _ _ password where_, record, written => ∃ type token hash now,
    refuseStale ctx type record token where_ .token = .ok () ∧ Hashed ctx password.toText hash ∧
      written =
        { password := some (some ⟨hash, now⟩)
          emailVerifiedAt := if record.emailVerifiedAt.isNone then some (some now) else none
          updatedAt := now }
  | .signIn _ input at_, record, written =>
    passwordMatches ctx record (passwordOf input) (at_ (js "signIn")) = .ok true ∧
      ∃ stored hash now, record.password = some stored ∧ Hashed ctx (passwordOf input) hash ∧
        written = { password := some (some ⟨hash, stored.updatedAt⟩), updatedAt := now }
  | .factor f, record, written => ∃ drawn, FactorWrites.Writes ctx f drawn record written

/-! ## The phases -/

/-- The last record read, while nothing is written; and what is still to be told of what was. -/
structure Phase where
  seen : Option UserRecord := none
  wrote : Bool := false
  owed : List UserEvent := []

/-- The phase after a write. -/
def Phase.after (ctx : Context) (record : UserRecord) (patch : UserPatch) (new : UserRecord) :
    Phase :=
  { wrote := true, owed := announced ctx (changes ctx record (applyPatch record patch)) new }

/-- A call that writes no user, and tells of nothing replaced. -/
def Aside : Call → Prop
  | .updateUser .. => False
  | .emit event .. => event.replaces = false
  | _ => True

inductive Step (ctx : Context) (f : WriterFlow ctx) : Phase → (c : Call) → Answer c → Phase → Prop
  | aside {p c r} (h : Aside c) : Step ctx f p c r p
  | read {p id record} : Step ctx f p (.findUser id) (some record) { p with seen := some record }
  | readLogin {p type login record} :
    Step ctx f p (.findUserByLogin type login) (some record) { p with seen := some record }
  | refused {p id patch v e} : Step ctx f p (.updateUser id patch v) (.error e) p
  | write {record patch new} (h : Computes ctx f record patch) :
    Step ctx f { seen := some record } (.updateUser record.id patch record.version) (.ok new)
      (.after ctx record patch new)
  | tell {seen wrote event owed} (h : event.type.replaces = true) :
    Step ctx f ⟨seen, wrote, event :: owed⟩
      (.emit event.type event.userId event.userType event.occurredAt) () ⟨seen, wrote, owed⟩

/-- Nothing is left to tell; a flow refused, but for some, wrote nothing. -/
def Final {ctx : Context} (f : WriterFlow ctx) (r : Except Failure WriterAnswer) (p : Phase) :
    Prop :=
  p.owed = [] ∧ ((∃ e, r = .error e) → f.isWhole = true → p.wrote = false)

/-! ### What each flow leads to -/

section Leads

variable {ctx : Context} {f : WriterFlow ctx} {α β : Type} {p : Phase} {type : ResolvedType}
  {where_ : Str} {Q : β → Phase → Prop}

/-- A flow that writes no user, and tells of nothing replaced. -/
abbrev Asides {α : Type} (x : Flow α) : Prop := Only Aside (fun _ => True) x

/-- Where a flow may be refused. -/
def Refusable (f : WriterFlow ctx) (p : Phase) : Prop :=
  p.owed = [] ∧ (f.isWhole = true → p.wrote = false)

/-- What a flow does, to its end or to a refusal. -/
abbrev Goes (ctx : Context) (f : WriterFlow ctx) {α : Type} (p : Phase) (x : Flow α)
    (Q : α → Phase → Prop) : Prop :=
  Leads exec (Step ctx f) p x Q fun _ => Refusable f

theorem asides_call {c : Call} (h : Aside c) : Asides (call c) := Only.perform h

theorem asides_done {r : Except Failure α} : Asides (Prog.done r) := Only.done fun _ _ => trivial

/-- Every quiet flow is one. -/
theorem asides_of_calm {x : Flow α} (h : Calm ctx x) : Asides x :=
  h.imp (fun c hc => by cases c <;> trivial) fun _ _ => trivial

theorem goes_asides {x : Flow α} (hx : Asides x) (hp : Refusable f p) :
    Goes ctx f p x fun _ p' => p' = p :=
  (Leads.of_only (J := (· = p)) (fun _ _ _ hp hc => ⟨_, .aside hc, hp⟩) hx rfl).mono
    (fun _ _ h => h) fun _ _ h => h.2 ▸ hp

/-- Such a flow, and another after it. -/
theorem goes_bind {x : Flow α} {k : α → Flow β} (hx : Asides x) (hp : Refusable f p)
    (hk : ∀ a, Goes ctx f p (k a) Q) : Goes ctx f p (x >>= k) Q :=
  Leads.bind ((goes_asides hx hp).mono (fun a _ h => h ▸ hk a) fun _ _ h => h)

/-- An outcome, and another flow after it. -/
theorem goes_done {r : Except Failure α} {k : α → Flow β} (hp : Refusable f p)
    (hk : ∀ a, r = .ok a → Goes ctx f p (k a) Q) : Goes ctx f p (Prog.done r >>= k) Q :=
  Leads.bind (Leads.done hk fun _ _ => hp)

/-- A flow that cannot be refused, and another after it. -/
theorem goes_sure {x : Flow α} {k : α → Flow β} (hx : Only Aside (fun _ => False) x)
    (hk : ∀ a, Goes ctx f p (k a) Q) : Goes ctx f p (x >>= k) Q :=
  Leads.bind ((Leads.of_only (J := (· = p)) (fun _ _ _ hp hc => ⟨_, .aside hc, hp⟩) hx rfl).mono
    (fun a _ h => h ▸ hk a) fun _ _ h => h.1.elim)

theorem refusable_seen {seen : Option UserRecord} :
    Refusable f { seen := seen } := ⟨rfl, fun _ => rfl⟩

theorem sure_emit {event : UserEventType} {user : UserRecord} {occurredAt : Time}
    (h : event.replaces = false) :
    Only Aside (fun _ => False) (emit ctx event user occurredAt) := by
  rw [emit]
  split
  · exact Only.perform h
  · trivial

/-- The event owed, told. -/
theorem goes_emit {event : UserEventType} {written : UserRecord} {seen : Option UserRecord}
    {wrote : Bool} (h : event.replaces = true) :
    Leads exec (Step ctx f) ⟨seen, wrote, announced ctx [event] written⟩
      (emit ctx event written written.updatedAt) (fun _ p' => p' = ⟨seen, wrote, []⟩)
      fun _ _ => False := by
  rw [emit, announced]
  split
  · exact Leads.perform fun w r _ => ⟨_, @Step.tell ctx f seen wrote ⟨event, _, _, _⟩ [] h, rfl⟩
  · exact rfl

theorem goes_findRecord {id : Str} {name : Option Str} {seen : Option UserRecord} :
    Goes ctx f { seen := seen } (findRecord id name) fun found p' => match found with
      | some record => p' = { seen := some record } ∧ ∀ n, name = some n → record.type = n
      | none => ∃ seen', p' = { seen := seen' } := by
  rw [findRecord]
  split
  case isFalse => exact ⟨seen, rfl⟩
  case isTrue =>
    refine Leads.bind (Leads.perform fun w answer _ => ?_)
    cases answer with
    | none => exact ⟨_, .aside trivial, seen, rfl⟩
    | some record =>
      refine ⟨_, .read, ?_⟩
      rw [Option.filter_some]
      split
      case isTrue hname =>
        refine ⟨rfl, ?_⟩
        rintro n rfl
        exact of_decide_eq_true hname
      case isFalse => exact ⟨_, rfl⟩

theorem goes_getRecord {id : Str} {name : Option Str} {seen : Option UserRecord} :
    Goes ctx f { seen := seen } (getRecord id name where_) fun record p' =>
      p' = { seen := some record } ∧ ∀ n, name = some n → record.type = n := by
  refine Leads.bind (goes_findRecord.mono ?_ fun _ _ h => h)
  intro found p' h
  cases found with
  | some record => exact h
  | none =>
    obtain ⟨seen', rfl⟩ := h
    exact refusable_seen

/-- The user written, on whatever record the store then held. -/
theorem goes_updateUser {record : UserRecord} {patch : UserPatch} {Q : UserRecord → Phase → Prop}
    (hpatch : Computes ctx f record patch)
    (h : ∀ stored, Q (applyPatch stored patch) (.after ctx record patch (applyPatch stored patch))) :
    Goes ctx f { seen := some record } (updateUser record.id patch record.version) Q := by
  refine Leads.bind (Leads.perform fun w r hr => ?_)
  cases r with
  | ok new =>
    obtain ⟨stored, _, _, rfl, _⟩ := exec_updateUser hr
    exact ⟨_, .write hpatch, h stored⟩
  | error e => exact ⟨_, .refused, refusable_seen⟩

/-- **A write that follows a read**, or none. -/
theorem goes_writeUserIf {id : Str} {ifVersion : Option ℕ} {seen : Option UserRecord}
    {patchOf : UserRecord → Time → Flow (Option Patch × α)} {Q : UserRecord × α → Phase → Prop}
    (hpatch : ∀ record now, record.type = type.name → Goes ctx f { seen := some record }
      (patchOf record now) fun a p' => p' = { seen := some record } ∧ match a.1 with
        | none => Q (record, a.2) p'
        | some patch => Computes ctx f record (patch.updating now) ∧
          ∀ stored, Q (applyPatch stored (patch.updating now), a.2)
            (.after ctx record (patch.updating now) (applyPatch stored (patch.updating now)))) :
    Goes ctx f { seen := seen } (writeUserIf id type ifVersion where_ patchOf) Q := by
  refine Leads.bind (goes_getRecord.mono ?_ fun _ _ h => h)
  rintro record _ ⟨rfl, hrecord⟩
  split
  · exact refusable_seen
  · refine goes_bind (asides_call trivial) refusable_seen fun now => ?_
    refine Leads.bind ((hpatch record now (hrecord _ rfl)).mono ?_ fun _ _ h => h)
    rintro ⟨patch, noted⟩ _ ⟨rfl, h⟩
    cases patch with
    | none => exact h
    | some patch => exact Leads.bind (goes_updateUser h.1 h.2)

/-- A write that follows a read. -/
theorem goes_writeUser {id : Str} {ifVersion : Option ℕ} {seen : Option UserRecord}
    {patchOf : UserRecord → Time → Flow (Patch × α)} {Q : UserRecord × α → Phase → Prop}
    (hpatch : ∀ record now, record.type = type.name → Goes ctx f { seen := some record }
      (patchOf record now) fun a p' => p' = { seen := some record } ∧
        Computes ctx f record (a.1.updating now) ∧
          ∀ stored, Q (applyPatch stored (a.1.updating now), a.2)
            (.after ctx record (a.1.updating now) (applyPatch stored (a.1.updating now)))) :
    Goes ctx f { seen := seen } (writeUser id type ifVersion where_ patchOf) Q := by
  rw [writeUser_eq]
  exact goes_writeUserIf fun record now hrecord => Leads.map (hpatch record now hrecord)

/-! ### By the e-mail -/

theorem emailChanged_self (fields : List (Str × Value)) :
    emailChanged ctx type fields fields = false :=
  decide_eq_false (not_not.mpr rfl)

/-- A patch of neither the fields nor the avatar is told by nothing. -/
theorem changes_untouched {record : UserRecord} {patch : UserPatch} (hfields : patch.fields = none)
    (havatar : patch.avatar = none) : changes ctx record (applyPatch record patch) = [] := by
  have hsame : (applyPatch record patch).fields = record.fields := by
    rw [applyPatch, hfields, Option.getD_none]
  have hid : (applyPatch record patch).avatarId = record.avatarId := by
    rw [UserRecord.avatarId, applyPatch, havatar, Option.getD_none, UserRecord.avatarId]
  rw [changes, emailChanges, avatarChanges, hsame, hid, if_pos rfl, List.append_nil]
  simp only [emailChanged_self, Bool.false_eq_true, if_false]
  split <;> rfl

/-- A patch of the fields, by the e-mail. -/
theorem changes_fields {record : UserRecord} {patch : UserPatch} {fields : List (Str × Value)}
    (htype : get ctx.config.types type.name = some type) (hrecord : record.type = type.name)
    (hfields : patch.fields = some fields) (havatar : patch.avatar = none) :
    changes ctx record (applyPatch record patch) =
      if emailChanged ctx type record.fields fields then [.emailChanged (emailOf type record)]
      else [] := by
  have hid : (applyPatch record patch).avatarId = record.avatarId := by
    rw [UserRecord.avatarId, applyPatch, havatar, Option.getD_none, UserRecord.avatarId]
  have hnew : (applyPatch record patch).fields = fields := by
    rw [applyPatch, hfields, Option.getD_some]
  rw [changes, emailChanges, avatarChanges, hid, if_pos rfl, List.append_nil, hrecord, htype, hnew]

theorem fields_of_fieldsPatch {record : UserRecord} {patch : List (Str × Value)} {computed : Patch}
    (h : fieldsPatch ctx type record patch where_ = .ok computed) :
    computed.avatar = none ∧ ∃ fields, computed.fields = some fields := by
  obtain ⟨fields, -, h⟩ := Except.bind_ok.mp h
  obtain ⟨logins, -, h⟩ := Except.bind_ok.mp h
  cases h
  exact ⟨rfl, fields, rfl⟩

theorem fields_of_movedBy {record : UserRecord} {token : TokenRecord} {secret : Str} {now : Time}
    {computed : Patch} (h : movedBy ctx type token secret where_ record now = .ok computed) :
    computed.avatar = none ∧ ∃ fields, computed.fields = some fields := by
  rw [movedBy] at h
  split at h
  · cases h
  · obtain ⟨_, -, h⟩ := Except.bind_ok.mp h
    obtain ⟨patch, hpatch, h⟩ := Except.bind_ok.mp h
    obtain ⟨havatar, hfields⟩ := fields_of_fieldsPatch hpatch
    dsimp only at h
    split at h <;> cases h <;> exact ⟨havatar, hfields⟩

/-- Where a flow that moved an e-mail stands. -/
def Phase.moved (ctx : Context) (type : ResolvedType) (written replaced : UserRecord) : Phase where
  wrote := true
  owed := announced ctx
    (if emailChanged ctx type replaced.fields written.fields then
    [.emailChanged (emailOf type replaced)]
    else []) written

/-- What a patch of the fields leads to, whatever record the store held. -/
theorem after_fields {record stored : UserRecord} {patch : Patch} {now : Time}
    (htype : get ctx.config.types type.name = some type) (hrecord : record.type = type.name)
    (h : patch.avatar = none ∧ ∃ fields, patch.fields = some fields) :
    Phase.after ctx record (patch.updating now) (applyPatch stored (patch.updating now)) =
      .moved ctx type (applyPatch stored (patch.updating now)) record := by
  obtain ⟨havatar, fields, hfields⟩ := h
  have hnew : (applyPatch stored (patch.updating now)).fields = fields :=
    (congrArg (Option.getD · stored.fields) hfields).trans (Option.getD_some ..)
  rw [Phase.after, changes_fields htype hrecord hfields havatar, Phase.moved, hnew]

/-- What cannot be refused, then the event owed. -/
theorem goes_ensure_emit {event : UserEventType} {written : UserRecord} {seen : Option UserRecord}
    {wrote : Bool} {x : Flow Unit} (h : event.replaces = true)
    (hx : Only Aside (fun _ => False) x) :
    Leads exec (Step ctx f) ⟨seen, wrote, announced ctx [event] written⟩
      (x.ensure (emit ctx event written written.updatedAt)) (fun _ p' => p' = ⟨seen, wrote, []⟩)
      fun _ _ => False := by
  refine Leads.ensure ((Leads.of_only (J := (· = _)) (fun _ _ _ hp hc => ⟨_, .aside hc, hp⟩) hx
    rfl).mono
    ?_ fun _ _ h => h.1.elim)
  rintro _ _ rfl
  exact goes_emit h

theorem goes_update {type : Configured ctx} {user : UserRef} {patch : List (Str × Value)}
    {ifVersion : Option ℕ} {at_ : At} :
    Goes ctx (.update type user patch ifVersion at_) {}
      (Auth.update ctx type.1 user patch ifVersion at_)
      fun _ p' => p'.owed = [] := by
  refine Leads.bind ((goes_writeUser (Q := fun a p' => p' = .moved ctx type.1 a.1 a.2) ?_).mono ?_
    fun _ _ h => h)
  · intro record now hrecord
    refine goes_done refusable_seen fun computed hcomputed =>
      ⟨rfl, ⟨_, now, hcomputed, hrecord, rfl⟩, ?_⟩
    exact fun stored => after_fields type.2 hrecord (fields_of_fieldsPatch hcomputed)
  · rintro ⟨written, replaced⟩ _ rfl
    rw [Phase.moved]
    dsimp only
    split
    case isTrue =>
      refine Leads.bind ((goes_ensure_emit rfl ?_).mono ?_ fun _ _ h => h.elim)
      · exact Only.bind (Only.perform trivial) fun _ =>
          Only.bind (Only.perform trivial) fun _ => trivial
      · rintro _ _ rfl
        exact rfl
    case isFalse => exact announced_nil ctx written

/-- The user a token was issued to. -/
theorem goes_ownerOf {asked : Option ResolvedType} {token : TokenRecord}
    {seen : Option UserRecord} :
    Goes ctx f { seen := seen } (ownerOf ctx asked token where_) fun a p' =>
      p' = { seen := some a.1 } ∧
      (asked = some a.2 ∨ asked = none ∧ get ctx.config.types a.1.type = some a.2) := by
  refine Leads.bind (goes_findRecord.mono ?_ fun _ _ h => h)
  intro found p' h
  cases found with
  | none =>
    obtain ⟨seen', rfl⟩ := h
    exact refusable_seen
  | some user =>
    obtain ⟨rfl, -⟩ := h
    dsimp only
    cases howner : asked.or (get ctx.config.types user.type) with
    | none => exact refusable_seen
    | some owner => exact ⟨rfl, Option.or_eq_some_iff.mp howner⟩

theorem goes_redeemChangeEmailToken {asked : Option (Configured ctx)} {secret : Str}
    {seen : Option UserRecord} :
    Goes ctx f { seen := seen } (redeemChangeEmailToken ctx (asked.map (·.1)) secret where_)
      fun a p' => p' = { seen := some a.2.1 } ∧ get ctx.config.types a.2.2.name = some a.2.2 := by
  refine goes_bind (asides_of_calm calm_spendOneTime) refusable_seen fun token => ?_
  refine Leads.bind (goes_ownerOf.mono ?_ fun _ _ h => h)
  rintro ⟨user, owner⟩ _ ⟨rfl, howner⟩
  dsimp only
  split
  case isTrue => exact refusable_seen
  case isFalse =>
    refine goes_done refusable_seen fun _ _ => ⟨rfl, ?_⟩
    obtain h | ⟨-, h⟩ := howner
    · obtain ⟨type, -, rfl⟩ := Option.map_eq_some_iff.mp h
      exact type.2
    · exact configured h

theorem goes_confirmChange {asked : Option (Configured ctx)} {secret : Str} :
    Goes ctx (.confirmChange asked secret where_) {}
      (Auth.confirmChange ctx (asked.map (·.1)) secret where_) fun _ p' => p'.owed = [] := by
  refine Leads.bind (goes_redeemChangeEmailToken.mono ?_ fun _ _ h => h)
  rintro ⟨token, user, type⟩ _ ⟨rfl, htype⟩
  dsimp only
  split
  case isTrue => exact refusable_seen
  case isFalse =>
    refine Leads.bind ((goes_writeUser (Q := fun a p' => p' = .moved ctx type a.1 a.2) ?_).mono ?_
      fun _ _ h => h)
    · intro record now hrecord
      refine goes_done refusable_seen fun computed hcomputed =>
        ⟨rfl, ⟨type, token, computed, now, hcomputed, htype, hrecord, rfl⟩, fun stored => ?_⟩
      exact after_fields htype hrecord (fields_of_movedBy hcomputed)
    · rintro ⟨written, replaced⟩ _ rfl
      have hverified : ∀ {b : Bool}, Goes ctx (.confirmChange asked secret where_)
        ⟨none, true, []⟩ (do
          let _ ← (if b then emit ctx .emailVerified written written.updatedAt else pure ())
          pure (toUser written)) fun _ p' => p'.owed = [] := by
        intro b
        refine goes_sure ?_ fun _ => rfl
        split
        · exact sure_emit rfl
        · trivial
      rw [Phase.moved]
      dsimp only
      split
      case isTrue =>
        refine Leads.bind ((goes_emit rfl).mono ?_ fun _ _ h => h.elim)
        rintro _ _ rfl
        exact hverified
      case isFalse =>
        rw [announced_nil]
        exact hverified

/-! ### By the avatar -/

/-- A patch of the avatar alone. -/
theorem changes_avatar {record : UserRecord} {avatar : Option AvatarRecord} {now : Time}
    (h : avatar.map (·.id) ≠ record.avatarId) :
    changes ctx record (applyPatch record { avatar := some avatar, updatedAt := now }) =
      if avatar.isSome then [.avatarChanged record.avatarId] else
      [.avatarRemoved record.avatarId] := by
  have hid : (applyPatch record { avatar := some avatar, updatedAt := now }).avatarId =
      avatar.map (·.id) := rfl
  have hfields : (applyPatch record { avatar := some avatar, updatedAt := now }).fields =
      record.fields := rfl
  have havatar : (applyPatch record { avatar := some avatar, updatedAt := now }).avatar =
    avatar := rfl
  rw [changes, emailChanges, avatarChanges, hid, hfields, havatar, if_neg h]
  simp only [emailChanged_self, Bool.false_eq_true, if_false]
  split <;> rfl

theorem goes_setAvatar {asked : Option ResolvedType} {user : UserRef} {avatar : Arg}
    {ifVersion : Option ℕ} {at_ : At} {seen : Option UserRecord} :
    Goes ctx (.setAvatar asked user avatar ifVersion at_) { seen := seen }
      (setAvatar ctx type user avatar ifVersion where_) fun _ p' => p'.owed = [] := by
  refine goes_done refusable_seen fun id hid => ?_
  refine Leads.bind ((goes_writeUserIf (Q := fun a p' => a.2.elim (p'.owed = []) fun former =>
    p' = ⟨none, true, announced ctx [.avatarChanged former] a.1⟩) ?_).mono ?_ fun _ _ h => h)
  · intro record now hrecord
    by_cases hsame : record.avatar.map (·.id) = some id
    · rw [if_pos hsame]
      exact ⟨rfl, rfl⟩
    · rw [if_neg hsame]
      refine ⟨rfl, ⟨id, now, where_, hid, hsame, rfl⟩, fun stored => ?_⟩
      have hchanges := @changes_avatar ctx record (some ⟨id, now⟩) now fun h => hsame h.symm
      exact congrArg (Phase.mk none true) (congrArg (announced ctx · _) hchanges)
  · rintro ⟨written, changed⟩ p' h
    cases changed with
    | none => exact h
    | some former =>
      obtain rfl : p' = _ := h
      refine Leads.bind ((goes_emit rfl).mono ?_ fun _ _ h => h.elim)
      rintro _ _ rfl
      exact rfl

theorem goes_removeAvatar {asked : Option ResolvedType} {user : UserRef} {ifVersion : Option ℕ}
    {at_ : At} {seen : Option UserRecord} :
    Goes ctx (.removeAvatar asked user ifVersion at_) { seen := seen }
      (removeAvatar ctx type user ifVersion where_) fun _ p' => p'.owed = [] := by
  refine Leads.bind ((goes_writeUserIf (Q := fun a p' => a.2.elim (p'.owed = []) fun former =>
    p' = ⟨none, true, announced ctx [.avatarRemoved (some former)] a.1⟩) ?_).mono ?_ fun _ _ h => h)
  · intro record now hrecord
    cases hformer : record.avatar.map (·.id) with
    | none => exact ⟨rfl, rfl⟩
    | some former =>
      have havatar : record.avatar ≠ none := by
        rintro hnone
        rw [hnone] at hformer
        cases hformer
      refine ⟨rfl, ⟨havatar, now, rfl⟩, fun stored => ?_⟩
      have hchanges := @changes_avatar ctx record none now fun h =>
        (Option.some_ne_none _ (h.trans hformer).symm).elim
      rw [UserRecord.avatarId, hformer] at hchanges
      exact congrArg (Phase.mk none true) (congrArg (announced ctx · _) hchanges)
  · rintro ⟨written, former⟩ p' h
    cases former with
    | none => exact h
    | some former =>
      obtain rfl : p' = _ := h
      refine Leads.bind ((goes_emit rfl).mono ?_ fun _ _ h => h.elim)
      rintro _ _ rfl
      exact rfl

theorem goes_typeOf {user : UserRef} {seen : Option UserRecord} :
    Goes ctx f { seen := seen } (typeOf ctx user where_) fun _ p' =>
    ∃ seen', p' = { seen := seen' } := by
  refine Leads.bind (goes_getRecord.mono ?_ fun _ _ h => h)
  rintro record _ ⟨rfl, -⟩
  split
  · exact ⟨_, rfl⟩
  · exact refusable_seen

theorem goes_avatarSet {asked : Option ResolvedType} {user : UserRef} {avatar : Arg}
    {ifVersion : Option ℕ} {at_ : At} :
    Goes ctx (.setAvatar asked user avatar ifVersion at_) {}
      (avatarSet ctx asked user avatar ifVersion at_)
      fun _ p' => p'.owed = [] := by
  unfold avatarSet
  split
  · exact goes_setAvatar
  · refine goes_done refusable_seen fun _ _ => Leads.bind (goes_typeOf.mono ?_ fun _ _ h => h)
    rintro type _ ⟨seen, rfl⟩
    exact goes_setAvatar

theorem goes_avatarRemove {asked : Option ResolvedType} {user : UserRef} {ifVersion : Option ℕ}
    {at_ : At} :
    Goes ctx (.removeAvatar asked user ifVersion at_) {} (avatarRemove ctx asked user ifVersion at_)
      fun _ p' => p'.owed = [] := by
  unfold avatarRemove
  split
  · exact goes_removeAvatar
  · refine Leads.bind (goes_typeOf.mono ?_ fun _ _ h => h)
    rintro type _ ⟨seen, rfl⟩
    exact goes_removeAvatar

/-! ### By nothing -/

/-- What a patch of neither leads to. -/
theorem after_untouched {record new : UserRecord} {patch : UserPatch}
    (hfields : patch.fields = none)
    (havatar : patch.avatar = none) : Phase.after ctx record patch new = { wrote := true } := by
  rw [Phase.after, changes_untouched hfields havatar, announced_nil]

theorem goes_hashing {hasher : PasswordHasher} {plain : Str} (hhasher : ctx.hasher = some hasher)
    (hp : Refusable f p) :
    Goes ctx f p (hasher.hashing plain) fun hash p' => p' = p ∧ Hashed ctx plain hash :=
  goes_bind (asides_call trivial) hp fun salt => ⟨rfl, hasher, salt, hhasher, rfl⟩

theorem sure_endWhatThePasswordOpened {userId : Str} :
    Only Aside (fun _ => False) (endWhatThePasswordOpened userId) := by
  refine Only.bind (Only.perform trivial) fun now =>
    Only.bind (Only.perform trivial) fun inOrder => ?_
  cases inOrder <;>
    exact Only.bind (Only.perform trivial) fun _ =>
      Only.bind (Only.perform trivial) fun _ => trivial

theorem sure_passwordChanged {written : UserRecord} {first : Bool} :
    Only Aside (fun _ => False) (passwordChanged ctx written first) :=
  Only.ensure sure_endWhatThePasswordOpened (sure_emit rfl)

theorem goes_setPassword {user : UserRef} {password : Value} {ifVersion : Option ℕ} {at_ : At} :
    Goes ctx (.setPassword type user password ifVersion at_) {}
      (Auth.setPassword ctx type user password ifVersion at_) fun _ p' => p'.owed = [] := by
  refine goes_done refusable_seen fun _ _ => goes_done refusable_seen fun _ _ => ?_
  refine goes_done refusable_seen fun hasher hhasher => ?_
  refine Leads.bind ((goes_hashing (hasher_of_requireHasher hhasher) refusable_seen).mono ?_
    fun _ _ h => h)
  rintro hash _ ⟨rfl, hashed⟩
  refine Leads.bind ((goes_writeUser (Q := fun _ p' => p' = { wrote := true }) ?_).mono ?_
    fun _ _ h => h)
  · exact fun record now _ =>
      ⟨rfl, ⟨hash, now, hashed, rfl⟩, fun stored => after_untouched rfl rfl⟩
  · rintro ⟨written, first⟩ _ rfl
    exact goes_sure sure_passwordChanged fun _ => rfl

theorem asides_checkCurrent {record : UserRecord} {current : Str} :
    Goes ctx f { seen := some record } (checkCurrent ctx type record current where_)
      fun _ p' => p' = { seen := some record } ∧ passwordMatches ctx record current where_ =
      .ok true := by
  refine goes_bind ?_ refusable_seen fun _ => goes_done refusable_seen fun matched hmatched => ?_
  · split
    · exact asides_of_calm calm_countSignInAttempt
    · trivial
  · cases matched with
    | true => exact ⟨rfl, hmatched⟩
    | false => exact refusable_seen

theorem goes_changePassword {user : UserRef} {current : Str} {next : Value} {ifVersion : Option ℕ}
    {at_ : At} :
    Goes ctx (.changePassword type user current next ifVersion at_) {}
      (Auth.changePassword ctx type user current next ifVersion at_) fun _ p' => p'.owed = [] := by
  refine goes_done refusable_seen fun _ _ => goes_done refusable_seen fun _ _ => ?_
  refine goes_done refusable_seen fun hasher hhasher => ?_
  refine Leads.bind ((goes_writeUser (Q := fun _ p' => p' = { wrote := true }) ?_).mono ?_
    fun _ _ h => h)
  · intro record now _
    refine Leads.bind (asides_checkCurrent.mono ?_ fun _ _ h => h)
    rintro _ _ ⟨rfl, hmatched⟩
    refine Leads.bind ((goes_hashing (hasher_of_requireHasher hhasher) refusable_seen).mono ?_
      fun _ _ h => h)
    rintro hash _ ⟨rfl, hashed⟩
    exact ⟨rfl, ⟨hmatched, hash, now, hashed, rfl⟩, fun stored => after_untouched rfl rfl⟩
  · rintro ⟨written, _⟩ _ rfl
    refine goes_sure sure_passwordChanged fun _ => ?_
    exact goes_bind (asides_of_calm calm_restartSignInCount) ⟨rfl, nofun⟩ fun _ => rfl

/-- The hash of a reset: of a password, unless no type has one. -/
theorem goes_hashToReset {asked : Option ResolvedType} {password : Value}
    {seen : Option UserRecord} :
    Goes ctx f { seen := seen } (hashToReset ctx asked password where_) fun hash p' =>
      p' = { seen := seen } ∧
        (asked.or (strictestType ctx) = none ∨ Hashed ctx password.toText hash) := by
  refine goes_done refusable_seen fun _ _ => ?_
  split
  case h_1 h => exact ⟨rfl, Or.inl h⟩
  case h_2 gate _ =>
    refine goes_done refusable_seen fun _ _ => goes_done refusable_seen fun hasher hhasher => ?_
    exact (goes_hashing (hasher_of_requireHasher hhasher) refusable_seen).mono
      (fun _ _ h => ⟨h.1, Or.inr h.2⟩) fun _ _ h => h

theorem goes_redeemEmailToken {asked : Option ResolvedType} {kind : TokenKind} {secret : Str}
    {seen : Option UserRecord} :
    Goes ctx f { seen := seen } (redeemEmailToken ctx asked kind secret where_) fun a p' =>
      p' = { seen := some a.2.1 } ∧
        (asked = some a.2.2 ∨ asked = none ∧ get ctx.config.types a.2.1.type = some a.2.2) := by
  refine goes_bind (asides_of_calm calm_spendOneTime) refusable_seen fun token => ?_
  refine Leads.bind (goes_ownerOf.mono ?_ fun _ _ h => h)
  rintro ⟨user, owner⟩ _ ⟨rfl, howner⟩
  dsimp only
  split
  · exact refusable_seen
  · exact goes_done refusable_seen fun _ _ => ⟨rfl, howner⟩

/-- A reset redeemed has hashed the password. -/
theorem hashed_of_checkOwner {asked : Option ResolvedType} {user : UserRecord} {password : Value}
    {hash : Str} (howner : asked = some type ∨
    asked = none ∧ get ctx.config.types user.type = some type)
    (hhash : asked.or (strictestType ctx) = none ∨ Hashed ctx password.toText hash)
    (h : checkOwner asked type password where_ = .ok ()) : Hashed ctx password.toText hash := by
  obtain hnone | hhash := hhash
  · obtain ⟨rfl, hstrictest⟩ := Option.or_eq_none_iff.mp hnone
    obtain heq | ⟨-, hget⟩ := howner
    · cases heq
    · have hpassword := password_of_strictestType hstrictest _ (mem_of_get hget)
      rw [checkOwner, hpassword] at h
      cases h
  · exact hhash

theorem goes_confirmReset {asked : Option ResolvedType} {secret : Str} {password : Value} :
    Goes ctx (.confirmReset asked secret password where_) {}
      (Auth.confirmReset ctx asked secret password where_) fun _ p' => p'.owed = [] := by
  refine Leads.bind (goes_hashToReset.mono ?_ fun _ _ h => h)
  rintro hash _ ⟨rfl, hhash⟩
  refine Leads.bind (goes_redeemEmailToken.mono ?_ fun _ _ h => h)
  rintro ⟨token, user, type⟩ _ ⟨rfl, howner⟩
  refine goes_done refusable_seen fun _ hcheck => ?_
  have hashed := hashed_of_checkOwner howner hhash hcheck
  refine Leads.bind ((goes_writeUser (Q := fun _ p' => p' = { wrote := true }) ?_).mono ?_
    fun _ _ h => h)
  · intro record now _
    exact goes_done refusable_seen fun _ hstale =>
      ⟨rfl, ⟨type, token, hash, now, hstale, hashed, rfl⟩, fun stored => after_untouched rfl rfl⟩
  · rintro ⟨written, newlyVerified⟩ _ rfl
    refine goes_sure (Only.ensure ?_ ?_) fun _ => rfl
    · exact Only.bind (Only.perform trivial) fun _ => Only.bind (Only.perform trivial) fun _ =>
        sure_endWhatThePasswordOpened
    · refine Only.bind (sure_emit rfl) fun _ => ?_
      split
      · exact sure_emit rfl
      · trivial

/-! ### By a sign-in -/

theorem asides_openSession {user : UserRecord} : Asides (openSession ctx type user) :=
  Only.bind (asides_call trivial) fun _ => Only.bind
  (Only.bind (asides_call trivial) fun _ => trivial)
    fun _ => Only.bind (Only.bind (asides_call trivial) fun _ => trivial) fun _ =>
      Only.bind (asides_call trivial) fun _ => trivial

theorem asides_issueChallenge {user : UserRecord} : Asides (issueChallenge ctx user where_) :=
  Only.bind asides_done fun _ => Only.bind (Only.bind (asides_call trivial) fun _ =>
    Only.bind (Only.bind (asides_call trivial) fun _ => trivial) fun _ =>
      Only.bind (asides_call trivial) fun _ => trivial) fun _ => trivial

theorem asides_finish {user : UserRecord} : Asides (finish ctx type user where_) := by
  rw [finish]
  split
  · exact asides_issueChallenge
  · exact asides_openSession

theorem asides_heldByPassword {verified : UserRecord} {password : Str} {result : SignInResult} :
    Asides (heldByPassword ctx type verified password result where_) := by
  refine Only.bind ?_ fun now => Only.bind asides_done fun held => ?_
  · rw [findRecord]
    split
    · exact Only.bind (asides_call trivial) fun _ => trivial
    · trivial
  · split
    · trivial
    · refine Only.bind ?_ fun _ => trivial
      cases result with
      | signedIn =>
        exact Only.bind (asides_call trivial) fun _ => Only.bind (asides_call trivial) fun _ => trivial
      | secondFactor => exact asides_of_calm calm_burnOneTime

/-- The hash rewritten, or not. -/
theorem goes_rehashed {input : Record} {at_ : At} {record : UserRecord}
    (hmatched : passwordMatches ctx record (passwordOf input) (at_ (js "signIn")) = .ok true) :
    Goes ctx (.signIn type input at_) { seen := some record }
      (rehashed ctx record (passwordOf input))
      fun _ p' => p'.owed = [] := by
  unfold rehashed
  split
  case h_2 => exact rfl
  case h_1 hasher stored hhasher hstored =>
    split
    case isFalse => exact rfl
    case isTrue =>
      refine goes_bind (asides_call trivial) refusable_seen fun now => ?_
      refine Leads.bind ((goes_hashing hhasher refusable_seen).mono ?_ fun _ _ h => h)
      rintro hash _ ⟨rfl, hashed⟩
      refine Leads.bind (Leads.bind (Leads.attempt ((goes_updateUser
        (Q := fun _ p' => p' = { wrote := true }) ?_ ?_).mono ?_ ?_)))
      · exact ⟨hmatched, stored, hash, now, hstored, hashed, rfl⟩
      · exact fun _ => after_untouched rfl rfl
      · rintro written _ rfl
        exact rfl
      · rintro e p' h
        split
        · exact h.1
        · exact h.1
        · exact h

theorem goes_signIn {input : Record} {at_ : At} :
    Goes ctx (.signIn type input at_) {} (Auth.signIn ctx type input at_) fun _ p' =>
    p'.owed = [] := by
  have hverified : ∀ {record : UserRecord}, Goes ctx (.signIn type input at_)
    { seen := some record }
      (signInAs ctx type (some record) (passwordOf input) (at_ (js "signIn"))) fun _ p' =>
      p'.owed = [] := by
    intro record
    rw [signInAs]
    split
    · exact refusable_seen
    · refine goes_done refusable_seen fun matched hmatched => ?_
      cases matched with
      | false => exact refusable_seen
      | true =>
        refine goes_done refusable_seen fun _ _ => goes_bind ?_ refusable_seen fun _ => ?_
        · split
          · trivial
          · exact asides_of_calm calm_restartSignInCount
        refine Leads.bind ((goes_rehashed hmatched).mono ?_ fun _ _ h => h)
        intro verified p' hp'
        have hlast : Refusable (.signIn type input at_ : WriterFlow ctx) p' := ⟨hp', nofun⟩
        refine goes_bind asides_finish hlast fun result =>
          goes_bind asides_heldByPassword hlast fun held => ?_
        split
        · exact hp'
        · exact hlast
  refine goes_done refusable_seen fun rule _ => goes_done refusable_seen fun _ _ => ?_
  dsimp only
  split
  case h_1 => exact refusable_seen
  case h_2 normalized _ =>
    refine goes_bind (asides_of_calm calm_countSignInAttempt) refusable_seen fun _ => ?_
    rw [byLogin]
    split
    case isFalse => exact refusable_seen
    case isTrue =>
      refine Leads.bind (Leads.perform fun w record _ => ?_)
      cases record with
      | none => exact ⟨_, .aside trivial, refusable_seen⟩
      | some record => exact ⟨_, .readLogin, hverified⟩

/-! ### By a second factor -/

/-- Where a flow on a factor stands: the record it writes is the one seen, and nothing is owed. -/
def Mirrors : FactorWrites.Phase → Phase → Prop
  | .before seen _, q => q = { seen := seen }
  | _, q => q.owed = []

theorem mirrors_step {g : FactorFlow} {p p' : FactorWrites.Phase} {q : Phase} {c : Call}
    {r : Answer c}
    (h : Mirrors p q) (hstep : FactorWrites.Step ctx g p c r p') :
    ∃ q', Step ctx (.factor g) q c r q' ∧ Mirrors p' q' := by
  cases hstep with
  | idle hidle => exact ⟨q, .aside (by cases c <;> first | exact hidle | trivial), h⟩
  | drew n => exact ⟨q, .aside trivial, h⟩
  | read record =>
    obtain rfl : q = _ := h
    exact ⟨_, .read, rfl⟩
  | refused e => exact ⟨q, .refused, h⟩
  | write hw =>
    obtain rfl : q = _ := h
    exact ⟨_, .write ⟨_, hw⟩, congrArg Phase.owed (after_untouched hw.1.2.1 hw.1.2.2.2)⟩
  | enter => exact ⟨q, .aside trivial, h⟩
  | emailed =>
    obtain rfl : q = _ := h
    exact ⟨_, .aside trivial, rfl⟩

theorem owed_of_mirrors {p : FactorWrites.Phase} {q : Phase} (h : Mirrors p q) : q.owed = [] := by
  cases p with
  | before seen drawn =>
    obtain rfl : q = _ := h
    rfl
  | emailed | wrote | opened => exact h

theorem goes_factor {g : FactorFlow} :
    Goes ctx (.factor g) {} (g.code ctx) fun _ p' => p'.owed = [] := by
  have hstart : Mirrors (.before none []) {} := rfl
  exact (Leads.simulate mirrors_step hstart (FactorWrites.follows ctx g)).mono
    (fun _ _ ⟨_, h, _⟩ => owed_of_mirrors h) fun _ _ ⟨_, h, _⟩ => ⟨owed_of_mirrors h, nofun⟩

/-- **Each flow writes the record it read, and tells what it replaced before it ends.** -/
theorem follows (ctx : Context) (f : WriterFlow ctx) :
    Leads exec (Step ctx f) {} f.code (fun a => Final f (.ok a)) fun e => Final f (.error e) := by
  have hends : ∀ {x : Flow WriterAnswer}, (Goes ctx f {} x fun _ p' => p'.owed = []) →
      Leads exec (Step ctx f) {} x (fun a => Final f (.ok a)) fun e => Final f (.error e) :=
    fun h => h.mono (fun _ _ h => ⟨h, by rintro ⟨_, ⟨⟩⟩⟩) fun _ _ h => ⟨h.1, fun _ => h.2⟩
  cases f with
  | update => exact hends (Leads.map goes_update)
  | confirmChange => exact hends (Leads.map goes_confirmChange)
  | setAvatar => exact hends (Leads.map goes_avatarSet)
  | removeAvatar => exact hends (Leads.map goes_avatarRemove)
  | setPassword => exact hends (Leads.map goes_setPassword)
  | changePassword => exact hends (Leads.map goes_changePassword)
  | confirmReset => exact hends (Leads.map goes_confirmReset)
  | signIn => exact hends (Leads.map goes_signIn)
  | factor => exact hends (Leads.map goes_factor)

end Leads

/-- The phases of any number of them. -/
def protocol (ctx : Context) : Protocol (writerService ctx) where
  Phase := Phase
  start _ := {}
  Step := Step ctx
  Final := Final
  follows := follows ctx

end Replacing

end Janus.Auth
