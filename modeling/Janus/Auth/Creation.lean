import Janus.Auth.ChangeEmail
import Janus.Auth.UserIndex
import Mathlib.Data.List.DropRight

/-!
# Auth/Creation — a user found by a key, or created

    looking ──somebody──▸ found
       └──nobody──▸ free ──the clock, the draws──▸ free ──insert──▸ made ──▸ told
                                                     └──login taken──▸ lost ──read again──▸ found

The insert is the only write, and the store refuses it when another user of the type holds one of
the logins.  Of all its refusals that one alone is handed back: the key is read again, and its
holder is the answer.
-/

namespace Janus.Auth.Creation

open Js Insertion Calls

/-! ## The calls -/

/-- Those of the other flows, the insert, and the event of a creation. -/
inductive Call where
  | of (c : Auth.Call)
  | insertUser (record : UserRecord)
  | created (userId userType : Str)

@[reducible] def Answer : Call → Type
  | .of c => Auth.Answer c
  | .insertUser _ => Except Failure UserRecord
  | .created _ _ => Unit

/-- `insertUser` in memory: an id that is held is answered as it is held. -/
def insertUser (users : List (Str × UserRecord)) (record : UserRecord) :
    Except Failure UserRecord × List (Str × UserRecord) :=
  match get users record.id with
  | some stored => (.ok stored, users)
  | none =>
    match takenBy users record.type record.logins record.id with
    | some collision => (.error (taken (js "insertUser") record.type collision), users)
    | none => (.ok record, put users record.id record)

/-- **An insert into the index is one into the records.** -/
theorem insertUser_eq {index : UserIndex} (h : index.Sound) (hplain : index.Plain)
    {record : UserRecord}
    (htype : (0 : CodeUnit) ∉ record.type) :
    ((index.insertUser record).1, (index.insertUser record).2.byId) =
      insertUser index.byId record := by
  unfold UserIndex.insertUser insertUser
  cases hget : get index.byId record.id with
  | some stored => rfl
  | none =>
    simp only [h.takenBy_eq hplain htype]
    cases takenBy index.byId record.type record.logins record.id <;> rfl

/-- One call answered. -/
def exec : (c : Call) → World → Answer c × World
  | .of c, w => Auth.exec c w
  | .insertUser record, w =>
    let (answer, users) := insertUser w.users record
    (answer, { w with users })
  | .created _ _, w => ((), w)

abbrev Flow := Prog Call Answer Failure

def call (c : Call) : Flow (Answer c) := Prog.perform c

/-- A flow of the others, among these calls. -/
def lift {α : Type} : Auth.Flow α → Flow α
  | .done r => .done r
  | .call c k => .call (.of c) fun r => lift (k r)

/-! ## The key -/

/-- The field a type's users are found by. -/
def keyField (type : ResolvedType) : Str :=
  match type.password with
  | none => type.email
  | some rule => rule.login

/-- The key, as the type's own lookup reads it. -/
def normalizeKey (ctx : Context) (type : ResolvedType) (key : Str) : Str :=
  match type.password with
  | none => normalizeEmail ctx key
  | some rule => rule.normalize key

/-- The user holding the key. -/
def holder (ctx : Context) (type : ResolvedType) (key : Str) : Auth.Flow (Option UserRecord) :=
  match type.password with
  | some rule => byLogin type (rule.normalize key)
  | none => if trim key = [] then pure none else holderOfEmail ctx type key

/-- The refusal, before any write, of an input that names another key. -/
def refusal (type : ResolvedType) (where_ field : Str) : Failure :=
  .janus .userInvalid
    (where_ ++ js ": the fields do not match the " ++ type.name ++
    js " schema (1 issue, at " ++ field ++
      js ")")
    { issues := [⟨[field], js "is not the key findOrCreate was given"⟩], userType := type.name }

/-- Throws unless the validated fields name `key`, normalised as the lookup does. -/
def mustNameKey (ctx : Context) (type : ResolvedType) (key where_ : Str)
    (fields : List (Str × Value)) : Except Failure Unit :=
  let named := ((fields.lookup (keyField type)).getD .undefined).asString.map
    (normalizeKey ctx type)
  if named = some (normalizeKey ctx type key) then pure () else
    throw (refusal type where_ (keyField type))

/-! ## The flow -/

/-- `{ password, active, ...rest }`, `active` being whether it is `true`. -/
structure Input where
  rest : List (Str × Value)
  password : Value := .undefined
  active : Option Bool := none

/-- What `findOrCreate` is called with, and what its callback answers. -/
structure Request where
  key : Value
  input : Input

structure FoundOrCreated where
  user : User
  created : Bool

/-- The password an input gives, checked and hashed. -/
def hashOf (ctx : Context) (type : ResolvedType) (password : Value) (now : Time) (where_ : Str) :
    Flow (Option PasswordRecord) :=
  if password = .undefined then pure none
  else do
    Prog.done (checkPassword type password where_)
    let hasher ← Prog.done (requireHasher ctx where_)
    let hash ← lift (hasher.hashing password.toText)
    pure (some ⟨hash, now⟩)

/-- Validates, hashes, writes once. -/
def insert (ctx : Context) (type : ResolvedType) (input : Input) (where_ : Str)
    (accept : List (Str × Value) → Except Failure Unit) : Flow UserRecord := do
  let now ← call (.of .now)
  let fields ← Prog.done (validateFields type input.rest where_)
  Prog.done (accept fields)
  let password ← hashOf ctx type input.password now where_
  let id ← lift (mintId ctx now)
  let logins ← Prog.done (loginsOf ctx type fields where_)
  let answer ← call (.insertUser
    { id := id
      type := type.name
      active := input.active.getD true
      fields := fields
      logins := logins
      password := password
      secondFactor := none
      emailVerifiedAt := none
      version := 0
      updatedAt := now })
  let inserted ← Prog.done answer
  let _ ← (if ctx.events then call (.created inserted.id inserted.type) else pure ())
  pure inserted

/-- A write that may lose a race on a login: its answer, or the conflict, as a value. -/
def unlessLoginTaken {α : Type} (write : Flow α) : Flow (Except Failure α) := do
  match ← write.attempt with
  | .ok a => pure (.ok a)
  | .error (.janus .loginTaken message details) =>
    pure (.error (.janus .loginTaken message details))
  | .error e => Prog.fail e

def notAString (type : ResolvedType) (where_ : Str) : Failure :=
  .janus .userInvalid (where_ ++ js ": the key must be a string")
    { issues := [⟨[], js "is not a string"⟩], userType := type.name }

/-- The user holding the key, or one created for it. -/
def findOrCreate (ctx : Context) (type : ResolvedType) (at_ : At) (request : Request) :
    Flow FoundOrCreated :=
  let where_ := at_ (js "findOrCreate")
  match request.key.asString with
  | none => Prog.fail (notAString type where_)
  | some key => do
    match ← lift (holder ctx type key) with
    | some found => pure ⟨toUser found, false⟩
    | none => do
      match ← unlessLoginTaken
          (insert ctx type request.input where_ (mustNameKey ctx type key where_)) with
      | .ok written => pure ⟨toUser written, true⟩
      | .error conflict => do
        -- A race lost, or another of the new user's logins taken: the key is read again.
        match ← lift (holder ctx type key) with
        | none => Prog.fail conflict
        | some winner => pure ⟨toUser winner, false⟩

/-- Any number of them, on the same store. -/
def service (ctx : Context) (type : ResolvedType) (at_ : At) :
    Service Call Answer World Drift Request Failure FoundOrCreated :=
  ⟨exec, drift, findOrCreate ctx type at_⟩

/-! ## How many calls it makes -/

section Ends

variable {ctx : Context} {type : ResolvedType} {n : ℕ}

theorem EndsIn.lift {α : Type} {x : Auth.Flow α} (hx : EndsIn n x) : EndsIn n (lift x) := by
  induction x generalizing n with
  | done r => exact EndsIn.done
  | call c k ih =>
    obtain _ | n := n
    · exact hx.elim
    · exact fun r => ih r (hx r)

theorem endsIn_holder (key : Str) : EndsIn 1 (lift (holder ctx type key)) := by
  refine EndsIn.lift ?_
  unfold holder byLogin holderOfEmail
  split
  · split
    · exact EndsIn.perform
    · trivial
  · split
    · trivial
    · change EndsIn 1 (if isStorable (normalizeEmail ctx key) then _ else _)
      split
      · exact fun _ => trivial
      · trivial

theorem endsIn_insert (input : Input) (where_ : Str)
    (accept : List (Str × Value) → Except Failure Unit) :
    EndsIn 5 (insert ctx type input where_ accept) := by
  have hhash : ∀ now, EndsIn 1 (hashOf ctx type input.password now where_) := by
    intro now
    rw [hashOf]
    split
    · trivial
    · exact EndsIn.done_bind fun _ => EndsIn.done_bind fun _ _ => EndsIn.done
  refine EndsIn.bind (n := 1) (k := 4) EndsIn.perform fun now => ?_
  refine EndsIn.done_bind fun fields => EndsIn.done_bind fun _ => ?_
  refine EndsIn.bind (n := 1) (k := 3) (hhash now) fun password => ?_
  refine EndsIn.bind (n := 1) (k := 2) (EndsIn.lift (x := mintId ctx now) fun _ => trivial) fun id => ?_
  refine EndsIn.done_bind fun logins => ?_
  refine EndsIn.bind (n := 1) (k := 1) EndsIn.perform fun answer => ?_
  refine EndsIn.done_bind fun inserted => EndsIn.bind (n := 1) (k := 0) ?_ fun _ => EndsIn.done
  split
  · exact EndsIn.perform
  · trivial

/-- **It ends within seven calls.** -/
theorem endsIn_findOrCreate (at_ : At) (request : Request) :
    EndsIn 7 (findOrCreate ctx type at_ request) := by
  unfold findOrCreate
  split
  case h_1 => trivial
  case h_2 key _ =>
    refine EndsIn.bind (n := 1) (k := 6) (endsIn_holder key) fun found => ?_
    cases found with
    | some found => trivial
    | none =>
      refine EndsIn.bind (n := 5) (k := 1)
        (EndsIn.bind (n := 5) (k := 0) (EndsIn.attempt (endsIn_insert _ _ _)) fun r => ?_)
        fun written => ?_
      · split <;> trivial
      · cases written with
        | ok written => trivial
        | error conflict =>
          refine EndsIn.bind (n := 1) (k := 0) (endsIn_holder key) fun winner => ?_
          cases winner <;> trivial

end Ends

/-! ## Valid calls -/

/-- What a validated string holds, a store keeps. -/
theorem isStorable_of_unstorableIn {fields : List (Str × Value)} (h : unstorableIn fields = [])
    {key text : Str} (hmem : (key, .str text) ∈ fields) : isStorable text = true := by
  induction fields with
  | nil => cases hmem
  | cons e fields ih =>
    obtain ⟨k, v⟩ := e
    obtain ⟨hhead, htail⟩ := List.append_eq_nil_iff.mp h
    obtain hmem | hmem := List.mem_cons.mp hmem
    · cases hmem
      split at hhead
      · cases hhead
      · by_contra hnot
        dsimp only at hhead
        rw [if_neg hnot] at hhead
        cases hhead
    · exact ih htail hmem

theorem isStorable_of_validateFields {type : ResolvedType} {input fields : List (Str × Value)}
    {where_ : Str} (h : validateFields type input where_ = .ok fields) {key text : Str}
    (hmem : (key, .str text) ∈ fields) : isStorable text = true := by
  unfold validateFields at h
  split at h
  · split at h
    · cases h
      cases hmem
    · cases h
  · dsimp only at h
    split at h
    case isTrue hissues =>
      cases h
      exact isStorable_of_unstorableIn (List.append_eq_nil_iff.mp hissues).2
        (List.mem_filter.mp hmem).1
    case isFalse => cases h

/-- White space is no surrogate. -/
theorem not_surrogate_of_isSpace {u : CodeUnit} (h : isSpace u = true) :
    isHigh u = false ∧ isLow u = false ∧ u ≠ 0 := by
  simp only [isSpace, Bool.or_eq_true, Bool.and_eq_true, decide_eq_true_eq, Fin.ext_iff] at h
  simp only [isHigh, isLow, Bool.and_eq_false_iff, decide_eq_false_iff_not, ne_eq, Fin.ext_iff]
  simp at h ⊢
  omega

theorem isWellFormed_cons_space {u : CodeUnit} (h : isSpace u = true) (text : Str) :
    isWellFormed (u :: text) = isWellFormed text := by
  obtain ⟨hhigh, hlow, -⟩ := not_surrogate_of_isSpace h
  cases text <;> simp [isWellFormed, hhigh, hlow]

theorem isWellFormed_of_concat_space {u : CodeUnit} (h : isSpace u = true) {text : Str}
    (htext : isWellFormed (text ++ [u]) = true) : isWellFormed text = true := by
  obtain ⟨hhigh, hlow, -⟩ := not_surrogate_of_isSpace h
  induction text using isWellFormed.induct with
  | case1 => rfl
  | case2 v =>
    simp only [List.cons_append, List.nil_append, isWellFormed] at htext ⊢
    grind
  | case3 v w rest hv ih =>
    simp only [List.cons_append, isWellFormed] at htext ⊢
    grind
  | case4 v w rest hv ih =>
    simp only [List.cons_append, isWellFormed] at htext ⊢
    grind

/-- **Trimming keeps a string storable**: it cuts no surrogate pair in half. -/
theorem isStorable_trim {text : Str} (h : isStorable text = true) :
    isStorable (trim text) = true := by
  have hfront : ∀ text, isStorable text = true → isStorable (text.dropWhile isSpace) = true := by
    intro text h
    induction text with
    | nil => exact h
    | cons u text ih =>
      by_cases hu : isSpace u = true
      · rw [List.dropWhile_cons_of_pos hu]
        refine ih ?_
        rw [isStorable, isWellFormed_cons_space hu] at h
        simp [isStorable] at h ⊢
        exact ⟨h.1.2, h.2⟩
      · rwa [List.dropWhile_cons_of_neg hu]
  have hback : ∀ text, isStorable text = true → isStorable (text.rdropWhile isSpace) = true := by
    intro text h
    induction text using List.reverseRecOn with
    | nil => exact h
    | append_singleton text u ih =>
      by_cases hu : isSpace u = true
      · rw [List.rdropWhile_concat_pos _ _ _ hu]
        refine ih ?_
        simp only [isStorable, Bool.and_eq_true] at h ⊢
        exact ⟨by simp at h ⊢; exact h.1.1, isWellFormed_of_concat_space hu h.2⟩
      · rwa [List.rdropWhile_concat_neg _ _ _ hu]
  exact hback _ (hfront _ h)

/-- A string read off fields is among them. -/
theorem mem_of_asString {fields : List (Str × Value)} {key text : Str}
    (h : ((fields.lookup key).getD .undefined).asString = some text) :
    (key, .str text) ∈ fields := by
  cases hlookup : fields.lookup key with
  | none =>
    rw [hlookup] at h
    cases h
  | some value =>
    rw [hlookup] at h
    obtain ⟨l₁, l₂, rfl, -⟩ := List.lookup_eq_some_iff.mp hlookup
    cases value with
    | str text' =>
      cases h
      simp
    | undefined | null | other => cases h

section Valid

variable (ctx : Context) (type : ResolvedType) (where_ wanted : Str)
  (users : List (Str × UserRecord))

/-- **What a call the code refuses nothing of comes to**: fields that name its key, and their
logins. -/
structure Comes (request : Request) (key : Str) (fields : List (Str × Value)) (logins : List Str) :
    Prop where
  key_eq : request.key = .str key
  fields_eq : validateFields type request.input.rest where_ = .ok fields
  named : mustNameKey ctx type key where_ fields = .ok ()
  password : request.input.password ≠ .undefined →
    checkPassword type request.input.password where_ = .ok () ∧ ctx.hasher.isSome = true
  logins_eq : loginsOf ctx type fields where_ = .ok logins

/-- **A valid call** for a key of this normal form, among users of whom none of the type holds a
login it names; on a type with no password a blank key is nobody's. -/
def Valid (request : Request) : Prop :=
  ∃ key fields logins, Comes ctx type where_ request key fields logins ∧
    normalizeKey ctx type key = wanted ∧ (type.password = none → trim key ≠ []) ∧
    ∀ login ∈ logins, userByLogin users type.name login = none

/-- Whether the user a login finds is the one the key names. -/
def named (record : UserRecord) : Bool :=
  type.password.isSome || decide ((emailOf type record).map (normalizeEmail ctx) = some wanted)

variable {ctx type where_ wanted users}

/-- **The logins of a valid call hold its key**, as a store keeps it. -/
theorem Comes.wanted_mem (hlower : ∀ text, isStorable text = true →
      isStorable (ctx.runtime.toLowerCase text) = true) {request : Request} {key : Str}
    {fields : List (Str × Value)} {logins : List Str}
      (h : Comes ctx type where_ request key fields logins) :
    normalizeKey ctx type key ∈ logins ∧ isStorable (normalizeKey ctx type key) = true ∧
      (type.password = none →
        (emailIn type fields).map (normalizeEmail ctx) = some (normalizeKey ctx type key)) := by
  have hnamed := h.named
  have hlogins := h.logins_eq
  unfold mustNameKey at hnamed
  dsimp only at hnamed
  split at hnamed
  case isFalse => cases hnamed
  case isTrue hname =>
    unfold loginsOf loginIn at hlogins
    cases hpassword : type.password with
    | none =>
      simp only [keyField, hpassword] at hname hlogins
      cases hlogins
      have hemail : (emailIn type fields).map (normalizeKey ctx type) =
          some (normalizeKey ctx type key) := hname
      obtain ⟨email, hin, heq⟩ := Option.map_eq_some_iff.mp hemail
      have hnorm : normalizeKey ctx type = normalizeEmail ctx := by
        funext text
        rw [normalizeKey, hpassword]
      rw [hnorm] at hemail heq ⊢
      refine ⟨by simp [hin, heq], ?_, fun _ => hemail⟩
      have hmem : (type.email, .str email) ∈ fields := mem_of_asString hin
      rw [← heq]
      exact isStorable_trim (hlower _ (isStorable_of_validateFields h.fields_eq hmem))
    | some rule =>
      simp only [keyField, hpassword] at hname hlogins
      obtain ⟨login, hin, heq⟩ := Option.map_eq_some_iff.mp hname
      rw [hin] at hlogins
      have hnorm : normalizeKey ctx type login =
        rule.normalize login := by rw [normalizeKey, hpassword]
      rw [← heq, hnorm]
      dsimp only at hlogins
      split at hlogins
      case isFalse => cases hlogins
      case isTrue hstorable =>
        cases hlogins
        exact ⟨List.mem_append_left _ (List.mem_singleton_self _), hstorable, nofun⟩

/-- **Reading a key is one call**, of a login a store keeps. -/
theorem holder_eq {key : Str} (hstorable : isStorable (normalizeKey ctx type key) = true)
    (hblank : type.password = none → trim key ≠ []) :
    holder ctx type key = .call (.findUserByLogin type.name (normalizeKey ctx type key))
      fun record =>
      .done (.ok (record.filter (named ctx type (normalizeKey ctx type key)))) := by
  unfold holder
  unfold normalizeKey at hstorable ⊢
  unfold named
  cases hpassword : type.password with
  | none =>
    simp only [hpassword] at hstorable ⊢
    rw [if_neg (hblank hpassword), holderOfEmail]
    simp only [hstorable, Option.isSome_none, Bool.false_or, if_true]
    rfl
  | some rule =>
    simp only [hpassword] at hstorable ⊢
    simp only [byLogin, hstorable, Option.isSome_some, Bool.true_or, if_true]
    exact congrArg (Prog.call _) (funext fun record => by cases record <;> rfl)

variable (ctx type wanted users)

/-- What a valid call inserts, under the id of its draw. -/
structure Makes (record : UserRecord) (drawn : ℕ) : Prop where
  type_eq : record.type = type.name
  wanted_mem : wanted ∈ record.logins
  named_eq : named ctx type wanted record = true
  free : ∀ login ∈ record.logins, userByLogin users type.name login = none
  minted : ∃ t, record.id = ctx.runtime.id t drawn

end Valid

/-! ## Its phases -/

/-- Where a call stands; `loose` is one that is not valid. -/
inductive Phase where
  | looking
  | free (drawn : Option ℕ)
  | made (record : UserRecord) (told : Bool)
  | lost
  | found (record : UserRecord)
  | failed
  | loose

section Follows

variable (ctx : Context) (type : ResolvedType) (wanted : Str) (users : List (Str × UserRecord))

/-- One answered call, from a phase to the next. -/
inductive Step : Phase → (c : Call) → Answer c → Phase → Prop
  | found {record : UserRecord} (h : named ctx type wanted record = true) :
      Step .looking (.of (.findUserByLogin type.name wanted)) (some record) (.found record)
  | nobody {record : Option UserRecord} (h : record.filter (named ctx type wanted) = none) :
      Step .looking (.of (.findUserByLogin type.name wanted)) record (.free none)
  | now {drawn : Option ℕ} {t : Time} : Step (.free drawn) (.of .now) t (.free drawn)
  | drew {drawn : Option ℕ} {n : ℕ} : Step (.free drawn) (.of .draw) n (.free (some n))
  | made {n : ℕ} {record written : UserRecord} (h : Makes ctx type wanted users record n) :
      Step (.free (some n)) (.insertUser record) (.ok written) (.made written false)
  | taken {n : ℕ} {record : UserRecord} {e : Failure} (h : Makes ctx type wanted users record n) :
      Step (.free (some n)) (.insertUser record) (.error e) .lost
  | tell {record : UserRecord} :
      Step (.made record false) (.created record.id record.type) () (.made record true)
  | won {record : UserRecord} (h : named ctx type wanted record = true) :
      Step .lost (.of (.findUserByLogin type.name wanted)) (some record) (.found record)
  | gone {record : Option UserRecord} (h : record.filter (named ctx type wanted) = none) :
      Step .lost (.of (.findUserByLogin type.name wanted)) record .failed
  | loose {c : Call} {r : Answer c} : Step .loose c r .loose

/-- Where a call may end, and with what. -/
def Final (r : Except Failure FoundOrCreated) : Phase → Prop
  | .made record told => told = ctx.events ∧ r = .ok ⟨toUser record, true⟩
  | .found record => r = .ok ⟨toUser record, false⟩
  | .failed => ∃ e, r = .error e
  | .loose => True
  | _ => False

variable {ctx type wanted users} {at_ : At} {request : Request}

/-- An insert refused is refused for a login. -/
theorem taken_of_insertUser {record : UserRecord} {e : Failure}
    (h : (insertUser users record).1 = .error e) :
    ∃ login, e = Auth.taken (js "insertUser") record.type login := by
  unfold insertUser at h
  split at h
  · cases h
  · split at h <;> cases h
    exact ⟨_, rfl⟩

/-- **A user who is nobody's is inserted**: refused for a login alone. -/
theorem insert_leads {key : Str} {fields : List (Str × Value)} {logins : List Str}
    (hcomes : Comes ctx type (at_ (js "findOrCreate")) request key fields logins)
    (hmakes : ∀ record t n, record.id = ctx.runtime.id t n → record.type = type.name →
      record.logins = logins → record.fields = fields → Makes ctx type wanted users record n) :
    Leads exec (Step ctx type wanted users) (.free none)
      (insert ctx type request.input (at_ (js "findOrCreate"))
        (mustNameKey ctx type key (at_ (js "findOrCreate"))))
      (fun record p => p = .made record ctx.events)
      fun e p => p = .lost ∧ ∃ message details, e = .janus .loginTaken message details := by
  refine Leads.bind fun _ now _ => ⟨.free none, .now, ?_⟩
  refine Leads.ok_bind hcomes.fields_eq (Leads.ok_bind hcomes.named ?_)
  have hmint : ∀ (password : Option PasswordRecord) (drawn : Option ℕ),
      Leads exec (Step ctx type wanted users) (.free drawn) (do
        let id ← lift (mintId ctx now)
        let logins ← Prog.done (loginsOf ctx type fields (at_ (js "findOrCreate")))
        let answer ← call (.insertUser
          { id := id
            type := type.name
            active := request.input.active.getD true
            fields := fields
            logins := logins
            password := password
            secondFactor := none
            emailVerifiedAt := none
            version := 0
            updatedAt := now })
        let inserted ← Prog.done answer
        let _ ← (if ctx.events then call (.created inserted.id inserted.type) else pure ())
        pure inserted)
        (fun record p => p = .made record ctx.events)
        fun e p => p = .lost ∧ ∃ message details, e = .janus .loginTaken message details := by
    intro password drawn
    refine Leads.bind fun _ n _ => ⟨.free (some n), .drew, ?_⟩
    refine Leads.ok_bind hcomes.logins_eq (Leads.bind fun w r hr => ?_)
    cases r with
    | error e =>
      obtain ⟨login, rfl⟩ := taken_of_insertUser hr
      exact ⟨.lost, .taken (hmakes _ now n rfl rfl rfl rfl), rfl, _, _, rfl⟩
    | ok written =>
      refine ⟨.made written false, .made (hmakes _ now n rfl rfl rfl rfl), ?_⟩
      cases hevents : ctx.events with
      | false => exact rfl
      | true => exact fun _ _ _ => ⟨_, .tell, rfl⟩
  refine Leads.bind ?_
  rw [hashOf]
  split
  · exact hmint none none
  case isFalse hpassword =>
    obtain ⟨hcheck, hhasher⟩ := hcomes.password hpassword
    obtain ⟨hasher, hhasher⟩ := Option.isSome_iff_exists.mp hhasher
    refine Leads.ok_bind hcheck (Leads.ok_bind (a := hasher) (by rw [requireHasher, hhasher]; rfl) ?_)
    exact fun _ salt _ => ⟨.free (some salt), .drew, hmint _ _⟩

/-- A key read: its user, or nobody. -/
theorem holder_leads {key : Str} {p : Phase} {Q : Option UserRecord → Phase → Prop}
    {Z : Failure → Phase → Prop} (hstorable : isStorable (normalizeKey ctx type key) = true)
    (hblank : type.password = none → trim key ≠ [])
    (hfound : ∀ record, named ctx type (normalizeKey ctx type key) record = true →
      ∃ p', Step ctx type (normalizeKey ctx type key) users p
        (.of (.findUserByLogin type.name (normalizeKey ctx type key))) (some record) p' ∧
          Q (some record) p')
    (hnobody : ∀ record : Option UserRecord,
      record.filter (named ctx type (normalizeKey ctx type key)) = none →
      ∃ p', Step ctx type (normalizeKey ctx type key) users p
        (.of (.findUserByLogin type.name (normalizeKey ctx type key))) record p' ∧ Q none p') :
    Leads exec (Step ctx type (normalizeKey ctx type key) users) p
      (lift (holder ctx type key)) Q Z := by
  rw [holder_eq hstorable hblank]
  intro _ r _
  cases hr : r.filter (named ctx type (normalizeKey ctx type key)) with
  | some record =>
    obtain ⟨rfl, hnamed⟩ := Option.filter_eq_some_iff.mp hr
    obtain ⟨p', hstep, hQ⟩ := hfound record hnamed
    refine ⟨p', hstep, ?_⟩
    change Q (Option.filter _ _) p'
    rwa [hr]
  | none =>
    obtain ⟨p', hstep, hQ⟩ := hnobody r hr
    refine ⟨p', hstep, ?_⟩
    change Q (Option.filter _ _) p'
    rwa [hr]

/-- **A valid call follows its phases.** -/
theorem follows (hlower : ∀ text, isStorable text = true →
      isStorable (ctx.runtime.toLowerCase text) = true)
    (h : Valid ctx type (at_ (js "findOrCreate")) wanted users request) :
    Leads exec (Step ctx type wanted users) .looking (findOrCreate ctx type at_ request)
      (fun a => Final ctx (.ok a)) fun e => Final ctx (.error e) := by
  obtain ⟨key, fields, logins, hcomes, rfl, hblank, hfree⟩ := h
  obtain ⟨hmem, hstorable, hemail⟩ := hcomes.wanted_mem hlower
  have hmakes : ∀ record t n, record.id = ctx.runtime.id t n → record.type = type.name →
      record.logins = logins → record.fields = fields →
      Makes ctx type (normalizeKey ctx type key) users record n := by
    rintro record t n hid htype rfl rfl
    refine ⟨htype, hmem, ?_, hfree, t, hid⟩
    cases hpassword : type.password with
    | none =>
      rw [named, hpassword]
      exact decide_eq_true (hemail hpassword)
    | some rule => simp [named, hpassword]
  rw [findOrCreate, hcomes.key_eq]
  refine Leads.bind (holder_leads hstorable hblank (fun record hnamed => ⟨_, .found hnamed, rfl⟩)
    fun record hnobody => ⟨_, .nobody hnobody, Leads.bind (Leads.bind ?_)⟩)
  refine Leads.attempt ((insert_leads hcomes hmakes).mono ?_ ?_)
  · rintro record _ rfl
    exact ⟨rfl, rfl⟩
  · rintro _ _ ⟨rfl, message, details, rfl⟩
    exact Leads.bind (holder_leads hstorable hblank (fun record hnamed => ⟨_, .won hnamed, rfl⟩)
      fun record hgone => ⟨_, .gone hgone, _, rfl⟩)

/-- One that is not valid makes what calls it makes. -/
theorem follows_loose (x : Flow FoundOrCreated) :
    Leads exec (Step ctx type wanted users) .loose x (fun a => Final ctx (.ok a))
      fun e => Final ctx (.error e) := by
  induction x with
  | done r => cases r <;> trivial
  | call c k ih => exact fun _ r _ => ⟨.loose, .loose, ih r⟩

end Follows

open Classical in
/-- The calls, by their phases. -/
noncomputable def protocol (ctx : Context) (type : ResolvedType) (at_ : At) (wanted : Str)
    (users : List (Str × UserRecord)) (hlower : ∀ text, isStorable text = true →
      isStorable (ctx.runtime.toLowerCase text) = true) : Protocol (service ctx type at_) where
  Phase := Phase
  start request :=
    if Valid ctx type (at_ (js "findOrCreate")) wanted users request then .looking else .loose
  Step _ := Step ctx type wanted users
  Final _ := Final ctx
  follows request := by
    split
    · exact follows hlower ‹_›
    · exact follows_loose _

end Janus.Auth.Creation
