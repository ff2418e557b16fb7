import Janus.Auth.Phases

/-!
# Auth/Protocol — the writers, the first proofs and the redemptions follow theirs

A writer reads, writes under the version read, and ends what the old password opened; a first proof
writes no password, and ends it before as well.  `authProtocol` puts every flow together.
-/

namespace Janus.Auth

open Js Insertion Calls

variable {ctx : Context} {f : AuthFlow} {p : Phase} {where_ : Str}

/-- Nothing opened, nothing written. -/
def Plain (p : Phase) : Prop := ∃ seen, p.place = .plain seen

/-- The password written, and what the old one opened ended. -/
def Settles (f : AuthFlow) (left : Option Str) (record : UserRecord) (p : Phase) : Prop :=
  ∃ revoked, p.place = .wrote left record revoked true ∧ (f.revokes → revoked = true)

/-! ## Reading -/

section Read

variable {place : Place} {mid : UserRecord → Place} {Z : Failure → Phase → Prop}

/-- A user read by id, wherever reading leads. -/
theorem leads_findRecord {id : Str} {type : Option Str} (hp : p.place = place)
    (hread : ∀ d record, Step ctx f ⟨place, d⟩ (.findUser id) (some record) ⟨mid record, d⟩) :
    Leads exec (Step ctx f) p (findRecord id type)
      (fun record p' => match record with
        | some record => p'.place = mid record
        | none => p'.place = place ∨ ∃ record, p'.place = mid record) Z := by
  obtain ⟨_, d⟩ := p
  obtain rfl : _ = place := hp
  rw [findRecord]
  split
  case isFalse => exact Or.inl rfl
  case isTrue =>
    refine Leads.bind (Leads.perform fun w record _ => ?_)
    cases record with
    | none => exact ⟨_, .quiet trivial, Or.inl rfl⟩
    | some record =>
      refine ⟨_, hread d record, ?_⟩
      rw [Option.filter_some]
      split
      · exact rfl
      · exact Or.inr ⟨record, rfl⟩

theorem leads_getRecord {id : Str} {type : Option Str} (hp : p.place = place)
    (hread : ∀ d record, Step ctx f ⟨place, d⟩ (.findUser id) (some record) ⟨mid record, d⟩) :
    Leads exec (Step ctx f) p (getRecord id type where_) (fun record p' => p'.place = mid record)
      (fun _ p' => p'.place = place ∨ ∃ record, p'.place = mid record) := by
  refine Leads.bind ((leads_findRecord hp hread).mono ?_ fun _ _ h => h)
  intro record p' h
  cases record with
  | some record => exact h
  | none => exact h

/-- Read where nothing is opened: the record read is the last one seen. -/
theorem leads_getRecord_plain {id : Str} {type : Option Str} (hf : f.isSignIn = false)
    (hp : Plain p) :
    Leads exec (Step ctx f) p (getRecord id type where_)
      (fun record p' => p'.place = .plain (some record)) (fun _ p' => Plain p') := by
  obtain ⟨seen, hp⟩ := hp
  refine (leads_getRecord hp fun d record => .read record hf).mono (fun _ _ h => h) ?_
  rintro _ p' (h | ⟨_, h⟩)
  · exact ⟨_, h⟩
  · exact ⟨_, h⟩

theorem leads_findRecord_plain {id : Str} {type : Option Str} (hf : f.isSignIn = false)
    (hp : Plain p) :
    Leads exec (Step ctx f) p (findRecord id type)
      (fun record p' => match record with
        | some record => p'.place = .plain (some record)
        | none => Plain p') Z := by
  obtain ⟨seen, hp⟩ := hp
  refine (leads_findRecord hp fun d record => .read record hf).mono ?_ fun _ _ h => h
  intro record p' h
  cases record with
  | some record => exact h
  | none =>
    rcases h with h | ⟨_, h⟩
    · exact ⟨_, h⟩
    · exact ⟨_, h⟩

/-! ## Writing -/

/-- One write that follows a read, wherever reading and writing lead. -/
theorem leads_writeUser {α : Type} (last : UserRecord → Place) (Ok : UserRecord → UserPatch → Prop)
    {id : Str} {type : ResolvedType} {ifVersion : Option ℕ}
    {patchOf : UserRecord → Time → Flow (Patch × α)} (hf : f.isSignIn = false)
      (hp : p.place = place)
    (hread : ∀ d id record, Step ctx f ⟨place, d⟩ (.findUser id) (some record) ⟨mid record, d⟩)
    (hpatch : ∀ record now p', p'.place = mid record →
      Leads exec (Step ctx f) p' (patchOf record now)
        (fun a p'' => p''.place = mid record ∧ Ok record (a.1.updating now))
        (fun _ p'' => p''.place = mid record))
    (hwrite : ∀ d record patch written, Ok record patch →
      Step ctx f ⟨mid record, d⟩ (.updateUser record.id patch record.version) (.ok written)
        ⟨last written, d⟩) :
    Leads exec (Step ctx f) p (writeUser id type ifVersion where_ patchOf)
      (fun a p' => p'.place = last a.1)
      (fun _ p' => p'.place = place ∨ ∃ record, p'.place = mid record) := by
  refine Leads.bind ((leads_getRecord hp fun d => hread d id).mono ?_ fun _ _ h => h)
  intro record p' hp'
  dsimp only
  split
  case h_1 => exact Or.inr ⟨record, hp'⟩
  case h_2 =>
    refine leads_call_bind trivial fun now => ?_
    refine Leads.bind ((hpatch record now _ hp').mono ?_ fun _ _ h => Or.inr ⟨record, h⟩)
    rintro ⟨patch, noted⟩ ⟨_, d⟩ ⟨rfl, hok⟩
    refine Leads.bind (Leads.bind (Leads.perform fun w r _ => ?_))
    cases r with
    | ok written => exact ⟨_, hwrite d record _ written hok, rfl⟩
    | error e => exact ⟨_, .raced e (fun h => nomatch hf.symm.trans h), Or.inr ⟨record, rfl⟩⟩

/-- The write of a password, or of none. -/
theorem leads_writeUser_plain {α : Type} {left : Option Str} {id : Str} {type : ResolvedType}
    {ifVersion : Option ℕ} {patchOf : UserRecord → Time → Flow (Patch × α)}
    (hf : f.isSignIn = false) (leaves : f.leaves = some left) (hp : Plain p)
    (hpatch : ∀ record now p', p'.place = .plain (some record) →
      Leads exec (Step ctx f) p' (patchOf record now)
        (fun a p'' => p''.place = .plain (some record) ∧ Patches ctx record (a.1.updating now) left)
        (fun _ p'' => p''.place = .plain (some record))) :
    Leads exec (Step ctx f) p (writeUser id type ifVersion where_ patchOf)
      (fun a p' => p'.place = .wrote left a.1 false false) (fun _ p' => Plain p') := by
  obtain ⟨seen, hp⟩ := hp
  refine (leads_writeUser _ _ hf hp (fun d id record => .read record hf) hpatch
    fun d record patch written patches => .write leaves patches).mono (fun _ _ h => h) ?_
  rintro _ p' (h | ⟨_, h⟩)
  · exact ⟨_, h⟩
  · exact ⟨_, h⟩

end Read

/-! ## Ending what the old password opened -/

section End

variable {left : Option Str} {record : UserRecord} {revoked spent : Bool}
  {Z : Failure → Phase → Prop}

theorem leads_endWhatThePasswordOpened (hp : p.place = .wrote left record revoked spent) :
    Leads exec (Step ctx f) p (endWhatThePasswordOpened record.id)
      (fun _ p' => p'.place = .wrote left record revoked true) Z := by
  obtain ⟨_, d⟩ := p
  obtain rfl : _ = Place.wrote left record revoked spent := hp
  refine leads_call_bind trivial fun now => ?_
  refine leads_call_bind trivial fun inOrder => ?_
  cases inOrder
  · refine Leads.bind (Leads.perform fun w r _ => ⟨_, .spendAll, ?_⟩)
    exact Leads.bind (Leads.perform fun w r _ => ⟨_, .quiet trivial, rfl⟩)
  · refine Leads.bind (Leads.perform fun w r _ => ⟨_, .quiet trivial, ?_⟩)
    exact Leads.bind (Leads.perform fun w r _ => ⟨_, .spendAll, rfl⟩)

/-- …and the sessions with it. -/
theorem leads_endWhatTheSquatterOpened (hp : p.place = .wrote left record revoked spent) :
    Leads exec (Step ctx f) p (endWhatTheSquatterOpened record.id)
      (fun _ p' => p'.place = .wrote left record true true) Z := by
  obtain ⟨_, d⟩ := p
  obtain rfl : _ = Place.wrote left record revoked spent := hp
  refine leads_call_bind trivial fun now => ?_
  refine Leads.bind (Leads.perform fun w r _ => ⟨_, .revokeAll, ?_⟩)
  exact leads_endWhatThePasswordOpened rfl

/-- What cannot fail, and quiet events after it: the place stays. -/
theorem leads_ensure_calm {place : Place} {x y : Flow Unit}
    (hx : Leads exec (Step ctx f) p x (fun _ p' => p'.place = place) (fun _ _ => False))
    (hy : Calm ctx y) :
    Leads exec (Step ctx f) p (x.ensure y) (fun _ p' => p'.place = place)
      (fun e p' => Tame e ∧ p'.place = place) := by
  refine Leads.ensure (hx.mono (fun _ p' hp' => ?_) fun _ _ h => h.elim)
  exact (leads_quiet hy).mono (fun _ _ h => h.trans hp') fun _ _ h => ⟨h.1, h.2.trans hp'⟩

end End

/-! ## A change, a set and a reset -/

section Writers

variable {type : ResolvedType} {left : Option Str} {Z : Failure → Phase → Prop}

/-- How a writer ends: it wrote and ended what was open, or failed before it wrote. -/
def WriterEnds (f : AuthFlow) (left : Option Str) (failed : Bool) (p : Phase) : Prop :=
  (failed ∧ Plain p) ∨ ∃ record, Settles f left record p

theorem leads_hashing {hasher : PasswordHasher} {plain : Str} {place : Place}
    (hhasher : ctx.hasher = some hasher) (hp : p.place = place) :
    Leads exec (Step ctx f) p (hasher.hashing plain)
      (fun hash p' => p'.place = place ∧ Made ctx plain hash) Z :=
  leads_call_bind trivial fun salt =>
    ⟨(Phase.answered_place ..).trans hp, hasher, salt, hhasher, rfl⟩

theorem hasher_of_requireHasher {hasher : PasswordHasher}
    (h : requireHasher ctx where_ = .ok hasher) : ctx.hasher = some hasher := by
  unfold requireHasher at h
  split at h
  case h_1 hasher' hhasher =>
    cases h
    exact hhasher
  case h_2 => cases h

theorem leads_passwordChanged {written : UserRecord} {first revoked spent : Bool}
    (hp : p.place = .wrote left written revoked spent) :
    Leads exec (Step ctx f) p (passwordChanged ctx written first)
      (fun _ p' => p'.place = .wrote left written revoked true)
      (fun e p' => Tame e ∧ p'.place = .wrote left written revoked true) :=
  leads_ensure_calm (leads_endWhatThePasswordOpened hp) (calm_emit rfl)

/-- A patch that hashes a password. -/
theorem patches_hash {record : UserRecord} {patch : Patch} {plain hash : Str} {now at_ : Time}
    (made : Made ctx plain hash) (h : patch.password = some (some ⟨hash, now⟩)) :
    Patches ctx record (patch.updating at_) (some plain) := ⟨_, h, made⟩

theorem calm_checkCurrent {record : UserRecord} {current : Str} :
    Calm ctx (checkCurrent ctx type record current where_) := by
  refine Only.bind ?_ fun _ => ?_
  · split
    · exact calm_countSignInAttempt
    · trivial
  · refine Only.bind (Only.done fun _ h => tame_of_passwordMatches h) fun matched => ?_
    cases matched <;> trivial

theorem leads_changePassword {user : UserRef} {current : Str} {next : Value}
    {ifVersion : Option ℕ} {at_ : At} (hf : f.isSignIn = false) (hrevokes : f.revokes = false)
    (leaves : f.leaves = some (some next.toText)) (hp : Plain p) :
    Leads exec (Step ctx f) p (changePassword ctx type user current next ifVersion at_)
      (fun _ => WriterEnds f (some next.toText) false)
      (fun _ => WriterEnds f (some next.toText) true) := by
  have hplain : ∀ {p'}, Plain p' → WriterEnds f (some next.toText) true p' := fun h =>
    Or.inl ⟨rfl, h⟩
  have hwrote : ∀ {failed record revoked p'}, p'.place =
    .wrote (some next.toText) record revoked true →
      WriterEnds f (some next.toText) failed p' :=
    fun h => Or.inr ⟨_, _, h, fun h => nomatch hrevokes.symm.trans h⟩
  refine leads_done_bind (fun _ _ => ?_) fun _ _ => hplain hp
  refine leads_done_bind (fun _ _ => ?_) fun _ _ => hplain hp
  refine leads_done_bind (fun hasher hhasher => ?_) fun _ _ => hplain hp
  refine Leads.bind ((leads_writeUser_plain hf leaves hp fun record now p' hp' => ?_).mono ?_
    fun _ _ => hplain)
  · refine leads_quiet_bind calm_checkCurrent hp' (fun _ p' hp' => ?_) fun _ _ _ h => h
    refine Leads.bind ((leads_hashing (hasher_of_requireHasher hhasher) hp').mono ?_ fun _ _ h => h)
    exact fun hash p' h => ⟨h.1, patches_hash h.2 rfl⟩
  · rintro ⟨written, _⟩ p' hp'
    refine Leads.bind ((leads_passwordChanged hp').mono ?_ fun _ _ h => hwrote h.2)
    intro _ p' hp'
    exact leads_quiet_bind calm_restartSignInCount hp' (fun _ _ h => hwrote h) fun _ _ _ => hwrote

theorem leads_setPassword {user : UserRef} {password : Value} {ifVersion : Option ℕ} {at_ : At}
    (hf : f.isSignIn = false) (hrevokes : f.revokes = false)
    (leaves : f.leaves = some (some password.toText)) (hp : Plain p) :
    Leads exec (Step ctx f) p (setPassword ctx type user password ifVersion at_)
      (fun _ => WriterEnds f (some password.toText) false)
      (fun _ => WriterEnds f (some password.toText) true) := by
  have hplain : ∀ {p'}, Plain p' → WriterEnds f (some password.toText) true p' :=
    fun h => Or.inl ⟨rfl, h⟩
  have hwrote : ∀ {failed record revoked p'},
      p'.place = .wrote (some password.toText) record revoked true →
      WriterEnds f (some password.toText) failed p' :=
    fun h => Or.inr ⟨_, _, h, fun h => nomatch hrevokes.symm.trans h⟩
  refine leads_done_bind (fun _ _ => ?_) fun _ _ => hplain hp
  refine leads_done_bind (fun _ _ => ?_) fun _ _ => hplain hp
  refine leads_done_bind (fun hasher hhasher => ?_) fun _ _ => hplain hp
  obtain ⟨seen, hp⟩ := hp
  refine Leads.bind ((leads_hashing (hasher_of_requireHasher hhasher) hp).mono ?_ fun _ _ h => h)
  rintro hash p' ⟨hp', made⟩
  refine Leads.bind ((leads_writeUser_plain hf leaves ⟨seen, hp'⟩ fun record now p' hp' => ?_).mono ?_
    fun _ _ => hplain)
  · exact ⟨hp', patches_hash made rfl⟩
  · rintro ⟨written, first⟩ p' hp'
    exact Leads.bind ((leads_passwordChanged hp').mono (fun _ _ h => hwrote h) fun _ _ h => hwrote h.2)

/-! ### A reset -/

theorem password_of_foldl {types : List (Str × ResolvedType)}
    {strictest : Option (ResolvedType × ℕ)}
    (h : types.foldl (fun strictest (_, type) =>
      match type.password, strictest with
      | none, _ => strictest
      | some rule, none => some (type, rule.minLength)
      | some rule, some (_, longest) =>
        if longest < rule.minLength then some (type, rule.minLength) else strictest)
      strictest = none) :
    strictest = none ∧ ∀ e ∈ types, e.2.password = none := by
  induction types generalizing strictest with
  | nil => exact ⟨h, fun _ he => absurd he List.not_mem_nil⟩
  | cons e types ih =>
    obtain ⟨name, type⟩ := e
    obtain ⟨hstep, htypes⟩ := ih h
    dsimp only at hstep
    cases hpassword : type.password with
    | none =>
      rw [hpassword] at hstep
      exact ⟨hstep, List.forall_mem_cons.mpr ⟨hpassword, htypes⟩⟩
    | some rule =>
      rw [hpassword] at hstep
      cases strictest with
      | none => cases hstep
      | some longest =>
        dsimp only at hstep
        split at hstep <;> cases hstep

/-- No strictest type, no type with a password. -/
theorem password_of_strictestType (h : strictestType ctx = none) :
    ∀ e ∈ ctx.config.types, e.2.password = none := by
  rw [strictestType, Option.map_eq_none_iff] at h
  exact (password_of_foldl h).2

/-- The hash of a reset is of the password, unless no type has one. -/
theorem leads_hashToReset {asked : Option ResolvedType} {password : Value} (hp : Plain p) :
    Leads exec (Step ctx f) p (hashToReset ctx asked password where_)
      (fun hash p' => Plain p' ∧
        (asked.or (strictestType ctx) = none ∨ Made ctx password.toText hash))
      (fun _ => Plain) := by
  refine leads_done_bind (fun _ _ => ?_) fun _ _ => hp
  split
  case h_1 hgate => exact ⟨hp, Or.inl hgate⟩
  case h_2 gate _ =>
    refine leads_done_bind (fun _ _ => ?_) fun _ _ => hp
    refine leads_done_bind (fun hasher hhasher => ?_) fun _ _ => hp
    obtain ⟨seen, hp⟩ := hp
    exact (leads_hashing (hasher_of_requireHasher hhasher) hp).mono
      (fun _ _ h => ⟨⟨seen, h.1⟩, Or.inr h.2⟩) fun _ _ h => h

/-- The user a token names, and the type that owns them: the one asked, or the user's own. -/
def Owns (ctx : Context) (asked : Option ResolvedType) (user : UserRecord) (owner : ResolvedType) :
    Prop :=
  asked = some owner ∨ asked = none ∧ get ctx.config.types user.type = some owner

theorem leads_ownerOf {asked : Option ResolvedType} {token : TokenRecord} (hf : f.isSignIn = false)
    (hp : Plain p) :
    Leads exec (Step ctx f) p (ownerOf ctx asked token where_)
      (fun a p' => p'.place = .plain (some a.1) ∧ Owns ctx asked a.1 a.2) (fun _ => Plain) := by
  refine Leads.bind ((leads_findRecord_plain hf hp).mono ?_ fun _ _ h => h)
  intro user p' hp'
  cases user with
  | none => exact hp'
  | some user =>
    dsimp only
    split
    case h_1 => exact ⟨_, hp'⟩
    case h_2 owner howner =>
      refine ⟨hp', ?_⟩
      cases asked with
      | some asked => exact Or.inl howner
      | none => exact Or.inr ⟨rfl, howner⟩

theorem leads_redeemEmailToken {asked : Option ResolvedType} {kind : TokenKind} {secret : Str}
    (hf : f.isSignIn = false) (hp : Plain p) :
    Leads exec (Step ctx f) p (redeemEmailToken ctx asked kind secret where_)
      (fun a p' => p'.place = .plain (some a.2.1) ∧ Owns ctx asked a.2.1 a.2.2)
      (fun _ => Plain) := by
  obtain ⟨seen, hp⟩ := hp
  refine leads_quiet_bind calm_spendOneTime hp (fun token p' hp' => ?_) fun _ _ _ h => ⟨seen, h⟩
  refine Leads.bind ((leads_ownerOf hf ⟨seen, hp'⟩).mono ?_ fun _ _ h => h)
  rintro ⟨user, owner⟩ p' ⟨hp', howner⟩
  dsimp only
  split
  · exact ⟨_, hp'⟩
  · exact leads_done_bind (fun _ _ => ⟨hp', howner⟩) fun _ _ => ⟨_, hp'⟩

/-- A reset whose owner passed has hashed the password. -/
theorem made_of_checkOwner {asked : Option ResolvedType} {user : UserRecord} {password : Value}
    {hash : Str} (howner : Owns ctx asked user type)
    (hhash : asked.or (strictestType ctx) = none ∨ Made ctx password.toText hash)
    (h : checkOwner asked type password where_ = .ok ()) : Made ctx password.toText hash := by
  rcases hhash with hgate | made
  · obtain ⟨rfl, hstrictest⟩ := Option.or_eq_none_iff.mp hgate
    rcases howner with howner | ⟨-, hget⟩
    · cases howner
    · have hpassword := password_of_strictestType hstrictest _ (mem_of_get hget)
      rw [checkOwner, hpassword] at h
      cases h
  · exact made

theorem leads_confirmReset {asked : Option ResolvedType} {secret : Str} {password : Value}
    (hf : f.isSignIn = false) (leaves : f.leaves = some (some password.toText)) (hp : Plain p) :
    Leads exec (Step ctx f) p (confirmReset ctx asked secret password where_)
      (fun _ => WriterEnds f (some password.toText) false)
      (fun _ => WriterEnds f (some password.toText) true) := by
  have hplain : ∀ {p'}, Plain p' → WriterEnds f (some password.toText) true p' :=
    fun h => Or.inl ⟨rfl, h⟩
  refine Leads.bind ((leads_hashToReset hp).mono ?_ fun _ _ => hplain)
  rintro hash p' ⟨hp', hhash⟩
  refine Leads.bind ((leads_redeemEmailToken hf hp').mono ?_ fun _ _ => hplain)
  rintro ⟨token, user, type⟩ p' ⟨hp', howner⟩
  refine leads_done_bind (fun _ hcheck => ?_) fun _ _ => hplain ⟨_, hp'⟩
  have made := made_of_checkOwner howner hhash hcheck
  refine Leads.bind ((leads_writeUser_plain hf leaves ⟨_, hp'⟩ fun record now p' hp' => ?_).mono ?_
    fun _ _ => hplain)
  · exact leads_done_bind (fun _ _ => ⟨hp', patches_hash made rfl⟩) fun _ _ => hp'
  · rintro ⟨written, newlyVerified⟩ p' hp'
    have hended : ∀ {failed p'}, p'.place = .wrote (some password.toText) written true true →
        WriterEnds f (some password.toText) failed p' := fun h => Or.inr ⟨_, _, h, fun _ => rfl⟩
    refine Leads.bind ((leads_ensure_calm (leads_endWhatTheSquatterOpened hp') ?_).mono
      (fun _ _ h => hended h) fun _ _ h => hended h.2)
    refine Only.bind (calm_emit rfl) fun _ => ?_
    split
    · exact calm_emit rfl
    · trivial

end Writers

/-! ## A first proof -/

section Proofs

variable {type : ResolvedType} {place : Place}

/-- How a flow that signs nobody in ends: whatever it wrote, it ended what was open. -/
def Rests (f : AuthFlow) (p : Phase) : Prop := ∀ left record revoked spent,
  p.place = .wrote left record revoked spent → spent = true ∧ (f.revokes → revoked = true)

theorem Plain.rests (h : Plain p) : Rests f p := by
  obtain ⟨seen, hp⟩ := h
  intro left record revoked spent hwrote
  cases hp.symm.trans hwrote

theorem WriterEnds.rests {left : Option Str} {failed : Bool} (h : WriterEnds f left failed p) :
    Rests f p := by
  rcases h with ⟨-, hp⟩ | ⟨record, revoked, hp, hrevoked⟩
  · exact hp.rests
  · intro left' record' revoked' spent' hwrote
    cases hp.symm.trans hwrote
    exact ⟨rfl, hrevoked⟩

/-- The password and the factor dropped, and everything ended. -/
def Proved (p : Phase) : Prop := ∃ record, p.place = .wrote none record true true

theorem Proved.rests (h : Proved p) : Rests f p := by
  obtain ⟨record, hp⟩ := h
  intro left' record' revoked spent hwrote
  cases hp.symm.trans hwrote
  exact ⟨rfl, fun _ => rfl⟩

theorem calm_emitProof {proved : UserRecord} {dropped : Dropped} :
    Calm ctx (emitProof ctx proved dropped) := by
  refine Only.bind (calm_emit rfl) fun _ => Only.bind ?_ fun _ => ?_
  · split
    · exact calm_emit rfl
    · trivial
  · split
    · exact calm_emit rfl
    · trivial

theorem leads_proveFirstEmail {user : UserRecord} (hf : f.isSignIn = false)
    (leaves : f.leaves = some none) (hp : Plain p) :
    Leads exec (Step ctx f) p (proveFirstEmail ctx type user where_) (fun _ => Proved)
      (fun e p' => Plain p' ∨ Tame e ∧ Proved p') := by
  obtain ⟨seen, hp⟩ := hp
  refine leads_quiet_bind calm_endWhatTheSquatterOpened hp (fun _ p' hp' => ?_)
    fun _ _ _ h => Or.inl ⟨seen, h⟩
  refine Leads.bind ((leads_writeUser_plain hf leaves ⟨seen, hp'⟩ fun record now p' hp' => ?_).mono
    ?_ fun _ _ h => Or.inl h)
  · refine ⟨hp', ?_, ?_⟩
    · cases record.password <;> simp [Patch.updating]
    · cases record.secondFactor <;> simp [Patch.updating]
  · rintro ⟨proved, dropped⟩ p' hp'
    refine Leads.bind ((leads_ensure_calm (leads_endWhatTheSquatterOpened hp')
      calm_emitProof).mono ?_ fun _ _ h => Or.inr ⟨h.1, _, h.2⟩)
    exact fun _ _ h => ⟨_, h⟩

/-- What a first proof opens for the owner is its own. -/
theorem leads_finish_own {record : UserRecord} (proves : f.isProver) (hp : p.place = place) :
    Leads exec (Step ctx f) p (finish ctx type record where_) (fun _ p' => p'.place = place)
      (fun _ p' => p'.place = place) := by
  rw [finish]
  split
  · refine (leads_issueChallenge hp (fun _ _ issued => .ownChallenge proves issued)
      fun _ _ _ h => h).mono ?_ fun _ _ h => h
    rintro _ _ ⟨secret, expiresAt, record, -, -, rfl⟩
    rfl
  · refine (leads_openSession hp fun _ _ minted => .ownSession proves minted).mono ?_
      fun _ _ h => h
    rintro _ _ ⟨u, session, token, -, -, rfl⟩
    rfl

theorem leads_finishEmailSignIn {user : UserRecord} {token : TokenRecord} {noun : OneTimeNoun}
    (hf : f.isSignIn = false) (leaves : f.leaves = some none) (hp : p.place = .plain (some user)) :
    Leads exec (Step ctx f) p (finishEmailSignIn ctx type user token where_ noun)
      (fun _ => Rests f) (fun _ => Rests f) := by
  have proves : f.isProver = true := by rw [AuthFlow.isProver, leaves]; rfl
  have hplain : ∀ {p' : Phase}, p'.place = .plain (some user) → Rests f p' :=
    fun h => Plain.rests ⟨_, h⟩
  refine leads_done_bind (fun _ _ => ?_) fun _ _ => hplain hp
  split
  · exact hplain hp
  · split
    · exact Leads.bind (Leads.pure ((leads_finish_own proves hp).mono (fun _ _ => hplain)
        fun _ _ => hplain))
    · refine Leads.bind ((leads_proveFirstEmail hf leaves ⟨_, hp⟩).mono ?_
        fun _ _ h => h.elim Plain.rests fun h => h.2.rests)
      rintro proved p' ⟨record, hp'⟩
      exact (leads_finish_own proves hp').mono (fun _ _ h => Proved.rests ⟨record, h⟩)
        fun _ _ h => Proved.rests ⟨record, h⟩

theorem leads_confirmLink {secret : Str} {at_ : At} (hf : f.isSignIn = false)
    (leaves : f.leaves = some none) (hp : Plain p) :
    Leads exec (Step ctx f) p (confirmLink ctx type secret at_) (fun _ => Rests f)
      (fun _ => Rests f) := by
  refine Leads.bind ((leads_redeemEmailToken hf hp).mono ?_ fun _ _ h => h.rests)
  rintro ⟨token, user, _⟩ p' ⟨hp', -⟩
  exact leads_finishEmailSignIn hf leaves hp'

theorem leads_confirmCode {challenge code : Str} {at_ : At} (hf : f.isSignIn = false)
    (leaves : f.leaves = some none) (hp : Plain p) :
    Leads exec (Step ctx f) p (confirmCode ctx type challenge code at_) (fun _ => Rests f)
      (fun _ => Rests f) := by
  have hplain : ∀ {seen} {p' : Phase}, p'.place = .plain seen → Rests f p' :=
    fun h => Plain.rests ⟨_, h⟩
  obtain ⟨seen, hp⟩ := hp
  refine leads_quiet_bind calm_countCodeAttempt hp (fun a p' hp' => ?_) fun _ _ _ => hplain
  refine Leads.bind ((leads_findRecord_plain hf ⟨seen, hp'⟩).mono ?_ fun _ _ h => h)
  intro user p' hp'
  cases user with
  | none =>
    obtain ⟨seen, hp'⟩ := hp'
    exact leads_quiet_bind calm_unknownChallenge hp' (fun _ _ => hplain) fun _ _ _ => hplain
  | some user =>
    dsimp only
    split
    · exact leads_quiet_bind calm_spendOneTime hp'
        (fun _ _ hp' => leads_finishEmailSignIn hf leaves hp') fun _ _ _ => hplain
    · refine leads_quiet_bind ?_ hp' (fun _ _ => hplain) fun _ _ _ => hplain
      split
      · exact calm_burnOneTime
      · trivial

/-- A verification that proves nothing new writes no password. -/
theorem leads_confirmVerify {asked : Option ResolvedType} {secret : Str} {firstProof : Bool}
    (hf : f = .confirmVerify asked secret where_ firstProof) (hp : Plain p) :
    Leads exec (Step ctx f) p (confirmVerify ctx asked secret where_ firstProof) (fun _ => Rests f)
      (fun _ => Rests f) := by
  have hsignIn : f.isSignIn = false := by rw [hf]; rfl
  refine Leads.bind ((leads_redeemEmailToken hsignIn hp).mono ?_ fun _ _ h => h.rests)
  rintro ⟨token, user, type⟩ p' ⟨hp', -⟩
  dsimp only
  split
  case isTrue hfirst =>
    have leaves : f.leaves = some none := by
      rw [hf, AuthFlow.leaves, if_pos (Bool.and_eq_true_iff.mp hfirst).1]
    exact Leads.map ((leads_proveFirstEmail hsignIn leaves ⟨_, hp'⟩).mono (fun _ _ => Proved.rests)
      fun _ _ h => h.elim Plain.rests fun h => h.2.rests)
  case isFalse hlate =>
    have hproved : f.isProver → user.emailVerifiedAt.isSome := by
      intro hprover
      rw [hf] at hprover
      cases firstProof with
      | false => simp [AuthFlow.isProver, AuthFlow.leaves] at hprover
      | true => simpa [Option.isSome_iff_ne_none] using hlate
    have hwriter : f.isWriter = false := by
      rw [hf]
      cases firstProof <;> rfl
    have hsettled : ∀ {proved seen : UserRecord} {p' : Phase}, p'.place = .settled proved seen →
        Rests f p' := fun h _ _ _ _ hwrote => nomatch h.symm.trans hwrote
    refine Leads.bind ((leads_writeUser (Place.settled user)
      (fun _ patch => patch.password = none ∧ patch.secondFactor = none) hsignIn hp'
      (fun d id record => .settle record hproved hwriter) (fun record now p' hp' => ?_)
      fun d record patch written hok => .touch hok.1 hok.2).mono ?_ ?_)
    · exact leads_done_bind (fun _ _ => ⟨hp', rfl, rfl⟩) fun _ _ => hp'
    · rintro ⟨written, newly⟩ p' hp'
      refine leads_quiet_bind ?_ hp' (fun _ _ => hsettled) fun _ _ _ => hsettled
      split
      · exact calm_emit rfl
      · trivial
    · rintro _ p' (h | ⟨record, h⟩)
      · exact Plain.rests ⟨_, h⟩
      · exact hsettled h

/-! ### By the application -/

theorem leads_readActive {id : Str} (hf : f.isSignIn = false) (hp : Plain p) :
    Leads exec (Step ctx f) p (readActive type id where_)
      (fun record p' => p'.place = .plain (some record)) (fun _ => Plain) := by
  refine Leads.bind ((leads_getRecord_plain hf hp).mono ?_ fun _ _ h => h)
  intro record p' hp'
  split
  · exact ⟨_, hp'⟩
  · exact hp'

theorem leads_proveOrAnswer {record : UserRecord} (hf : f.isSignIn = false)
    (leaves : f.leaves = some none) (hp : Plain p) :
    Leads exec (Step ctx f) p (proveOrAnswer ctx type record where_) (fun _ => Rests f)
      (fun e p' => Plain p' ∨ Tame e ∧ Proved p') := by
  rw [proveOrAnswer]
  split
  · exact hp.rests
  · exact Leads.map ((leads_proveFirstEmail hf leaves hp).mono (fun _ _ => Proved.rests)
      fun _ _ h => h)

theorem leads_proveAgain {user : UserRef} {first : UserRecord} (hf : f.isSignIn = false)
    (leaves : f.leaves = some none) (hp : Plain p) :
    Leads exec (Step ctx f) p (proveAgain ctx type user first where_) (fun _ => Rests f)
      (fun _ => Rests f) := by
  refine Leads.bind ((leads_readActive hf hp).mono ?_ fun _ _ h => h.rests)
  intro again p' hp'
  have hplain : Plain p' := ⟨_, hp'⟩
  refine leads_done_bind (fun _ _ => ?_) fun _ _ => hplain.rests
  split
  · exact (leads_proveOrAnswer hf leaves hplain).mono (fun _ _ h => h)
      fun _ _ h => h.elim Plain.rests fun h => h.2.rests
  · exact hplain.rests

/-- Only a version that moved is tried again, and nothing was written then. -/
theorem leads_proveFirst {user : UserRef} {at_ : At} (hf : f.isSignIn = false)
    (leaves : f.leaves = some none) (hp : Plain p) :
    Leads exec (Step ctx f) p (proveFirst ctx type user at_) (fun _ => Rests f)
      (fun _ => Rests f) := by
  refine Leads.bind ((leads_readActive hf hp).mono ?_ fun _ _ h => h.rests)
  intro first p' hp'
  have hplain : Plain p' := ⟨_, hp'⟩
  refine leads_done_bind (fun _ _ => ?_) fun _ _ => hplain.rests
  refine Leads.bind (Leads.bind (Leads.attempt
    ((leads_proveOrAnswer hf leaves hplain).mono (fun _ _ h => h) fun e p' h => ?_)))
  have hrests : Rests f p' := h.elim Plain.rests fun h => h.2.rests
  split
  case h_1 => exact hrests
  case h_2 hconflict =>
    cases hconflict
    refine leads_proveAgain hf leaves (h.resolve_right fun h => ?_)
    exact h.1
  case h_3 => exact hrests

end Proofs

/-! ## A redemption -/

section Redemptions

variable {type : ResolvedType} {challenge : Str}

theorem leads_acceptCode {configured : SecondFactorSettings} {record : UserRecord}
    {factor : SecondFactorRecord} {code : Str} {now : Time} :
    Leads exec (Step ctx f) p (acceptCode ctx configured record factor code now where_)
      (fun _ p' => p'.place = p.place) (fun _ p' => p'.place = p.place) := by
  refine leads_done_bind (fun a _ => ?_) fun _ _ => rfl
  refine leads_done_bind (fun secret _ => ?_) fun _ _ => rfl
  refine leads_done_bind (fun step _ => ?_) fun _ _ => rfl
  cases step with
  | none => exact rfl
  | some step =>
    have hsealed : Calm ctx (if a.2 = configured.sealer.sealWith then pure factor.secret
        else seal_ ctx configured.sealer a.1 record.id) := by
      split
      · trivial
      · exact Only.bind (Only.map (calm_call trivial)) fun _ => trivial
    exact leads_quiet_bind hsealed rfl (fun _ _ h => h) fun _ _ _ h => h

/-- A challenge opened waits for a user whose factor is active. -/
theorem leads_openChallenge (hf : f.isSignIn = false) (hp : Plain p) :
    Leads exec (Step ctx f) p (openChallenge ctx type challenge where_)
      (fun opened p' => p'.place = .plain (some opened.record) ∧
        isActive opened.record.secondFactor) (fun _ => Plain) := by
  refine leads_done_bind (fun configured _ => ?_) fun _ _ => hp
  obtain ⟨seen, hp⟩ := hp
  refine leads_quiet_bind calm_countCodeAttempt hp (fun a p' hp' => ?_) fun _ _ _ h => ⟨seen, h⟩
  refine Leads.bind ((leads_findRecord_plain hf ⟨seen, hp'⟩).mono ?_ fun _ _ h => h)
  intro record p' hp'
  cases record with
  | none =>
    obtain ⟨seen, hp'⟩ := hp'
    exact leads_quiet_bind calm_unknownChallenge hp' (fun _ _ h => ⟨seen, h⟩)
      fun _ _ _ h => ⟨seen, h⟩
  | some record =>
    have hactive : Leads exec (Step ctx f) p' (activeFactor ctx type record challenge where_)
        (fun _ p' => p'.place = .plain (some record) ∧ isActive record.secondFactor)
        (fun _ => Plain) := by
      have hspends : ∀ {e : Failure}, Leads exec (Step ctx f) p'
          (do let _ ← spendChallenge ctx challenge where_; Prog.fail e)
          (fun (_ : SecondFactorRecord) p' =>
            p'.place = .plain (some record) ∧ isActive record.secondFactor) (fun _ => Plain) :=
        leads_quiet_bind calm_spendOneTime hp' (fun _ _ h => ⟨_, h⟩) fun _ _ _ h => ⟨_, h⟩
      rw [activeFactor]
      split
      · exact hspends
      · split
        case h_1 factor hfactor =>
          obtain ⟨hfactor, hconfirmed⟩ := Option.filter_eq_some_iff.mp hfactor
          refine ⟨hp', ?_⟩
          rw [isActive, hfactor]
          exact hconfirmed
        case h_2 => exact hspends
    exact Leads.bind (hactive.mono (fun _ _ h => h) fun _ _ h => h)

theorem leads_refuseCode {α : Type} {opened : OpenedChallenge} {Q : α → Phase → Prop}
    (hp : Plain p) :
    Leads exec (Step ctx f) p (refuseCode ctx type opened where_) Q (fun _ => Plain) := by
  obtain ⟨seen, hp⟩ := hp
  refine leads_quiet_bind ?_ hp (fun _ _ h => ⟨seen, h⟩) fun _ _ _ h => ⟨seen, h⟩
  split
  · exact calm_burnOneTime
  · trivial

/-- A session entered, or nothing. -/
def Entered (p : Phase) : Prop := Plain p ∨ ∃ session, p.place = .entered session

theorem Entered.rests (h : Entered p) : Rests f p := by
  rcases h with hp | ⟨session, hp⟩
  · exact hp.rests
  · intro left record revoked spent hwrote
    cases hp.symm.trans hwrote

theorem leads_completeSignIn {written : UserRecord} (redeems : f.isRedeemer) (hp : Plain p) :
    Leads exec (Step ctx f) p (completeSignIn ctx type challenge written where_)
      (fun _ => Entered) (fun _ => Entered) := by
  obtain ⟨seen, hp⟩ := hp
  refine leads_quiet_bind calm_spendOneTime hp (fun _ p' hp' => ?_) fun _ _ _ h => Or.inl ⟨_, h⟩
  refine leads_quiet_bind calm_restartSignInCount hp' (fun _ p' hp' => ?_)
    fun _ _ _ h => Or.inl ⟨_, h⟩
  have hentered : ∀ record drawn, Minted ctx record written.id drawn →
      Step ctx f ⟨.plain seen, some drawn⟩ (.insertSession record) () ⟨.entered record.id, none⟩ :=
    fun _ _ minted => .enter redeems minted
  refine (leads_openSession hp' hentered).mono ?_ fun _ _ h => h
  rintro _ _ ⟨u, session, token, -, -, rfl⟩
  exact Or.inr ⟨_, rfl⟩

/-- The factor written under the version read. -/
theorem leads_writeFactor {record : UserRecord} {factor : Option SecondFactorRecord} {now : Time}
    (hf : f.isSignIn = false) (redeems : f.isRedeemer) (active : isActive record.secondFactor)
    (hp : p.place = .plain (some record)) :
    Leads exec (Step ctx f) p
      (updateUser record.id { secondFactor := some factor, updatedAt := now } record.version)
      (fun _ => Plain) (fun _ => Plain) := by
  obtain ⟨_, d⟩ := p
  obtain rfl : _ = Place.plain (some record) := hp
  refine Leads.bind (Leads.perform fun w r _ => ?_)
  cases r with
  | ok written => exact ⟨_, .factor redeems rfl active, _, rfl⟩
  | error e => exact ⟨_, .raced e (fun h => nomatch hf.symm.trans h), _, rfl⟩

theorem leads_confirmChallenge {code : Str} {at_ : At} (hf : f.isSignIn = false)
    (redeems : f.isRedeemer) (hp : Plain p) :
    Leads exec (Step ctx f) p (confirmChallenge ctx type challenge code at_) (fun _ => Rests f)
      (fun _ => Rests f) := by
  refine Leads.bind ((leads_openChallenge hf hp).mono ?_ fun _ _ h => h.rests)
  rintro opened p' ⟨hp', active⟩
  refine leads_call_bind trivial fun now => ?_
  have hnow := (Phase.answered_place p' .now now).trans hp'
  refine Leads.bind (leads_acceptCode.mono ?_ fun _ _ h => Plain.rests ⟨_, h.trans hnow⟩)
  intro accepted p'' hp''
  cases accepted with
  | none => exact (leads_refuseCode ⟨_, hp''.trans hnow⟩).mono (fun _ _ h => h) fun _ _ h => h.rests
  | some accepted =>
    refine Leads.bind ((leads_writeFactor hf redeems active (hp''.trans hnow)).mono ?_
      fun _ _ h => h.rests)
    exact fun written p' hp' => (leads_completeSignIn redeems hp').mono (fun _ _ => Entered.rests)
      fun _ _ => Entered.rests

theorem leads_recoverWithCode {code : Str} {at_ : At} (hf : f.isSignIn = false)
    (redeems : f.isRedeemer) (hp : Plain p) :
    Leads exec (Step ctx f) p (recoverWithCode ctx type challenge code at_) (fun _ => Rests f)
      (fun _ => Rests f) := by
  refine Leads.bind ((leads_openChallenge hf hp).mono ?_ fun _ _ h => h.rests)
  rintro opened p' ⟨hp', active⟩
  refine leads_done_bind (fun found _ => ?_) fun _ _ => Plain.rests ⟨_, hp'⟩
  cases found with
  | none => exact (leads_refuseCode ⟨_, hp'⟩).mono (fun _ _ h => h) fun _ _ h => h.rests
  | some found =>
    refine leads_call_bind trivial fun now => ?_
    have hnow := (Phase.answered_place p' .now now).trans hp'
    refine Leads.bind ((leads_writeFactor hf redeems active hnow).mono ?_ fun _ _ h => h.rests)
    intro written p' hp'
    have hemit : ∀ {p' : Phase}, Entered p' → Leads exec (Step ctx f) p'
        (emit ctx .recoveryCodeUsed written written.updatedAt) (fun _ => Entered)
        (fun _ => Entered) := by
      intro p' h
      refine (leads_quiet (calm_emit rfl)).mono (fun _ _ hp => ?_) fun _ _ hp => ?_
      · exact h.imp (fun ⟨s, h⟩ => ⟨s, hp.trans h⟩) fun ⟨s, h⟩ => ⟨s, hp.trans h⟩
      · exact h.imp (fun ⟨s, h⟩ => ⟨s, hp.2.trans h⟩) fun ⟨s, h⟩ => ⟨s, hp.2.trans h⟩
    refine Leads.bind ((Leads.ensure ((leads_completeSignIn redeems hp').mono (fun _ _ => hemit)
      fun _ _ => hemit)).mono (fun _ _ => Entered.rests) fun _ _ => Entered.rests)

end Redemptions

/-! ## Together -/

/-- How a flow ends. -/
def Final (ctx : Context) : AuthFlow → Except Failure AuthAnswer → Phase → Prop
  | .signIn _ input _, .ok a, p => ∃ result, a = .signedIn result ∧
    SignedIn ctx (passwordOf input) result p
  | .signIn _ input _, .error e, p => SignInFails (passwordOf input) e p
  | f, _, p => Rests f p

theorem follows (ctx : Context) (f : AuthFlow) :
    Leads exec (Step ctx f) ⟨.plain none, none⟩ (f.code ctx) (fun a => Final ctx f (.ok a))
      (fun e => Final ctx f (.error e)) := by
  have hplain : Plain ⟨.plain none, none⟩ := ⟨none, rfl⟩
  have hwriter : ∀ {left failed p}, WriterEnds f left failed p → Rests f p := WriterEnds.rests
  cases f with
  | signIn type input at_ =>
    exact Leads.map ((leads_signIn rfl).mono (fun a _ h => ⟨a, rfl, h⟩) fun _ _ h => h)
  | confirm => exact Leads.map (leads_confirmChallenge rfl rfl hplain)
  | recover => exact Leads.map (leads_recoverWithCode rfl rfl hplain)
  | confirmReset =>
    exact Leads.map ((leads_confirmReset rfl rfl hplain).mono (fun _ _ => hwriter)
      fun _ _ => hwriter)
  | changePassword =>
    exact Leads.map ((leads_changePassword rfl rfl rfl hplain).mono (fun _ _ => hwriter)
      fun _ _ => hwriter)
  | setPassword =>
    exact Leads.map ((leads_setPassword rfl rfl rfl hplain).mono (fun _ _ => hwriter)
      fun _ _ => hwriter)
  | confirmLink => exact Leads.map (leads_confirmLink rfl rfl hplain)
  | confirmCode => exact Leads.map (leads_confirmCode rfl rfl hplain)
  | confirmVerify => exact Leads.map (leads_confirmVerify rfl hplain)
  | proveFirst => exact Leads.map (leads_proveFirst rfl rfl hplain)

def authProtocol (ctx : Context) : Protocol (authService ctx) where
  Phase := Phase
  start _ := ⟨.plain none, none⟩
  Step := Step ctx
  Final := Final ctx
  follows := follows ctx

end Janus.Auth
