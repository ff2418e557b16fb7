import Janus.Auth.Store

/-!
# Auth/UserIndex — the users in memory: the records by id, and the unique index on their logins

`Auth/Store` reads who holds a login off the records.  What is kept is an index, written beside them
on every insert, update and delete: `Sound` is that the two tell the same, and `takenBy_eq` that the
index may then be read for the records.
-/

namespace Janus.Auth

open Js Insertion

/-- What the in-memory user store holds. -/
structure UserIndex where
  byId : List (Str × UserRecord)
  /-- The unique index: (type, login) key → the id holding it. -/
  byLogin : List (Str × Str)
deriving DecidableEq

/-- The unique key of one login. -/
def keyOf (type login : Str) : Str := type ++ 0 :: login

/-- The keys a record is indexed under. -/
def UserRecord.keys (record : UserRecord) : List Str := record.logins.map (keyOf record.type)

namespace UserIndex

variable (index : UserIndex)

/-- The first of `logins` held by a user of `type` other than `id`. -/
def takenBy (type : Str) (logins : List Str) (id : Str) : Option Str :=
  logins.find? fun login => (get index.byLogin (keyOf type login)).any (· ≠ id)

/-- Points every login of `record` at its id. -/
def indexLogins (record : UserRecord) : UserIndex :=
  { index with
    byLogin := record.logins.foldl (fun m login => put m (keyOf record.type login) record.id)
      index.byLogin }

/-- Frees every login of `record`. -/
def dropLogins (record : UserRecord) : UserIndex :=
  { index with
    byLogin := record.logins.foldl (fun m login => delete m (keyOf record.type login))
      index.byLogin }

def insertUser (record : UserRecord) : Except Failure UserRecord × UserIndex :=
  match get index.byId record.id with
  | some stored => (.ok stored, index)
  | none =>
    match index.takenBy record.type record.logins record.id with
    | some collision => (.error (taken (js "insertUser") record.type collision), index)
    | none => (.ok record, { index with byId := put index.byId record.id record }.indexLogins record)

def findUserByLogin (type login : Str) : Option UserRecord :=
  (get index.byLogin (keyOf type login)).bind (get index.byId)

/-- Refused for an unknown id, a version that moved or a login held by another user — checked, then
written, in one step. -/
def updateUser (id : Str) (patch : UserPatch) (ifVersion : ℕ) :
    Except Failure UserRecord × UserIndex :=
  match get index.byId id with
  | none =>
    (.error (.janus .notFound (js "updateUser: no user has this id")
      { userId := id, operation := js "updateUser" }), index)
  | some stored =>
    if stored.version ≠ ifVersion then
      (.error (.janus .versionConflict
        (js "updateUser: expected version " ++ decimal ifVersion ++ js ", found " ++
          decimal stored.version)
        { userId := id, expectedVersion := ifVersion, actualVersion := stored.version,
          operation := js "updateUser" }), index)
    else
      match patch.logins.bind fun logins => index.takenBy stored.type logins id with
      | some collision => (.error (taken (js "updateUser") stored.type collision), index)
      | none =>
        let written := applyPatch stored patch
        let index : UserIndex := { index with byId := put index.byId id written }
        (.ok written,
          if patch.logins.isSome then (index.dropLogins stored).indexLogins written else index)

def deleteUser (id : Str) : Bool × UserIndex :=
  match get index.byId id with
  | none => (false, index)
  | some stored => (true, { index with byId := delete index.byId id }.dropLogins stored)

/-! ## Calls -/

/-- One write of the store. -/
inductive Write where
  | insertUser (record : UserRecord)
  | updateUser (id : Str) (patch : UserPatch) (ifVersion : ℕ)
  | deleteUser (id : Str)

def exec (index : UserIndex) : Write → UserIndex
  | .insertUser record => (index.insertUser record).2
  | .updateUser id patch ifVersion => (index.updateUser id patch ifVersion).2
  | .deleteUser id => (index.deleteUser id).2

/-- What a store that was empty holds after these writes. -/
def after (writes : List Write) : UserIndex := writes.foldl exec ⟨[], []⟩

/-! ## What a write leaves -/

@[simp] theorem indexLogins_byId (record : UserRecord) :
    (index.indexLogins record).byId = index.byId := rfl

@[simp] theorem dropLogins_byId (record : UserRecord) :
    (index.dropLogins record).byId = index.byId := rfl

@[simp] theorem get_indexLogins (record : UserRecord) (key : Str) :
    get (index.indexLogins record).byLogin key =
      if key ∈ record.keys then some record.id else get index.byLogin key := by
  rw [indexLogins, UserRecord.keys]
  convert get_foldl_put record.logins (keyOf record.type) record.id index.byLogin key

@[simp] theorem get_dropLogins (record : UserRecord) (key : Str) :
    get (index.dropLogins record).byLogin key =
      if key ∈ record.keys then none else get index.byLogin key := by
  rw [dropLogins, UserRecord.keys]
  convert get_foldl_delete record.logins (keyOf record.type) index.byLogin key

variable {index}

/-- Nobody else holds a login that is not taken. -/
theorem takenBy_eq_none {type id : Str} {logins : List Str} :
    index.takenBy type logins id = none ↔
      ∀ key ∈ logins.map (keyOf type), ∀ holder, get index.byLogin key = some holder →
        holder = id := by
  simp [takenBy, List.find?_eq_none, Option.any_eq_false]

/-- **What an accepted update does**: the version is the one asked for, no new login is another's,
and the record alone is written, with its logins. -/
theorem updateUser_ok {id : Str} {patch : UserPatch} {ifVersion : ℕ} {written : UserRecord}
    (h : (index.updateUser id patch ifVersion).1 = .ok written) :
    ∃ stored, get index.byId id = some stored ∧ stored.version = ifVersion ∧
      written = applyPatch stored patch ∧
      (∀ logins, patch.logins = some logins → index.takenBy stored.type logins id = none) ∧
      (index.updateUser id patch ifVersion).2 =
        if patch.logins.isSome then
          (({ index with byId := put index.byId id written } : UserIndex).dropLogins
            stored).indexLogins written
        else { index with byId := put index.byId id written } := by
  unfold updateUser at h ⊢
  cases hget : get index.byId id with
  | none => simp [hget] at h
  | some stored =>
    simp only [hget] at h ⊢
    by_cases hversion : stored.version ≠ ifVersion
    · simp [if_pos hversion] at h
    · rw [if_neg hversion] at h ⊢
      split at h
      case h_1 => simp at h
      case h_2 hfree =>
        obtain rfl : applyPatch stored patch = written := Except.ok.inj h
        refine ⟨stored, rfl, not_not.mp hversion, rfl, fun logins hlogins => ?_, ?_⟩
        · simpa [hlogins] using hfree
        · rfl

/-- **A refused update leaves everything as it was.** -/
theorem updateUser_error {id : Str} {patch : UserPatch} {ifVersion : ℕ} {failure : Failure}
    (h : (index.updateUser id patch ifVersion).1 = .error failure) :
    (index.updateUser id patch ifVersion).2 = index := by
  unfold updateUser at h ⊢
  cases hget : get index.byId id with
  | none => rfl
  | some stored =>
    simp only [hget] at h ⊢
    split at h
    · rw [if_pos ‹_›]
    · rw [if_neg ‹_›]
      split at h
      · rfl
      · simp at h

/-- **A refused insert leaves everything as it was.** -/
theorem insertUser_error {record : UserRecord} {failure : Failure}
    (h : (index.insertUser record).1 = .error failure) : (index.insertUser record).2 = index := by
  unfold insertUser at h ⊢
  cases hget : get index.byId record.id with
  | some stored => simp [hget] at h
  | none =>
    simp only [hget] at h ⊢
    split at h
    · rfl
    · simp at h

/-- **An id that is held is answered as it is held**, and nothing is written. -/
theorem insertUser_held {record stored : UserRecord} (h : get index.byId record.id = some stored) :
    index.insertUser record = (.ok stored, index) := by
  rw [insertUser, h]

/-- **Nothing is deleted for an id nobody has.** -/
theorem deleteUser_false {id : Str} (h : (index.deleteUser id).1 = false) :
    (index.deleteUser id).2 = index := by
  unfold deleteUser at h ⊢
  cases hget : get index.byId id with
  | none => rfl
  | some stored => simp [hget] at h

/-! ## The index tells what the records do -/

/-- **The index is that of the records**: each is kept under its own id, and a key is held by
exactly the record with a login of that key. -/
structure Sound (index : UserIndex) : Prop where
  id_eq : ∀ {id record}, get index.byId id = some record → record.id = id
  indexed : ∀ {key id}, get index.byLogin key = some id ↔
    ∃ record, get index.byId id = some record ∧ key ∈ record.keys

/-- A record written over what its id held, its keys nobody else's. -/
theorem Sound.stored (h : index.Sound) {index' : UserIndex} {id : Str} {record : UserRecord}
    (hid : record.id = id) (hbyId : index'.byId = put index.byId id record)
    (hfree : ∀ key ∈ record.keys, ∀ holder, get index.byLogin key = some holder → holder = id)
    (hbyLogin : ∀ key, get index'.byLogin key =
      if key ∈ record.keys then some id else (get index.byLogin key).filter (· ≠ id)) :
    index'.Sound where
  id_eq {id' record'} hget := by
    rw [hbyId, get_put] at hget
    split at hget
    · obtain rfl := Option.some.inj hget
      rw [hid, ‹id = id'›]
    · exact h.id_eq hget
  indexed {key id'} := by
    rw [hbyLogin, hbyId, get_put]
    by_cases hkey : key ∈ record.keys <;> by_cases heq : id = id'
    · simp [hkey, heq]
    · rw [if_pos hkey, if_neg heq, ← h.indexed]
      exact ⟨fun e => absurd (Option.some.inj e) heq,
        fun hheld => absurd (hfree key hkey id' hheld).symm heq⟩
    · simp [hkey, heq, Option.filter_eq_some_iff]
    · rw [if_neg hkey, if_neg heq, ← h.indexed, Option.filter_eq_some_iff]
      simp [Ne.symm heq]

/-- A record taken out, with its keys. -/
theorem Sound.deleted (h : index.Sound) {index' : UserIndex} {id : Str}
    (hbyId : index'.byId = delete index.byId id)
    (hbyLogin : ∀ key, get index'.byLogin key = (get index.byLogin key).filter (· ≠ id)) :
    index'.Sound where
  id_eq {id' record'} hget := by
    rw [hbyId, get_delete] at hget
    split at hget
    · simp at hget
    · exact h.id_eq hget
  indexed {key id'} := by
    rw [hbyLogin, hbyId, get_delete, Option.filter_eq_some_iff]
    by_cases heq : id = id'
    · simp [heq]
    · simp [heq, Ne.symm heq, ← h.indexed]

/-- The keys a record is indexed under are those it alone holds. -/
theorem Sound.mem_keys_iff (h : index.Sound) {id : Str} {stored : UserRecord}
    (hget : get index.byId id = some stored) {key : Str} :
    key ∈ stored.keys ↔ get index.byLogin key = some id := by
  rw [h.indexed, hget]
  simp

/-- Freeing the keys of a record is freeing the keys it holds. -/
theorem Sound.filter_eq (h : index.Sound) {id : Str} {stored : UserRecord}
    (hget : get index.byId id = some stored) (key : Str) :
    (if key ∈ stored.keys then none else get index.byLogin key) =
      (get index.byLogin key).filter (· ≠ id) := by
  simp only [h.mem_keys_iff hget]
  split
  · simp [‹_ = some id›, Option.filter_some]
  · cases hheld : get index.byLogin key with
    | none => rfl
    | some holder =>
      have : holder ≠ id := by
        rintro rfl
        exact ‹¬_› hheld
      simp [Option.filter_some, this]

theorem Sound.insertUser (h : index.Sound) (record : UserRecord) :
    (index.insertUser record).2.Sound := by
  unfold UserIndex.insertUser
  split
  case h_1 => exact h
  case h_2 hget =>
    split
    case h_1 => exact h
    case h_2 hfree =>
      refine h.stored rfl rfl (takenBy_eq_none.mp hfree) fun key => ?_
      -- nobody is indexed under an id that is not held
      have hnone : ∀ holder, get index.byLogin key = some holder → holder ≠ record.id := by
        rintro _ hheld rfl
        obtain ⟨_, hheld, -⟩ := h.indexed.mp hheld
        simp [hget] at hheld
      rw [get_indexLogins]
      split
      · rfl
      · cases hheld : get index.byLogin key with
        | none => rfl
        | some holder => simp [Option.filter_some, hnone holder hheld]

theorem Sound.updateUser (h : index.Sound) (id : Str) (patch : UserPatch) (ifVersion : ℕ) :
    (index.updateUser id patch ifVersion).2.Sound := by
  cases hanswer : (index.updateUser id patch ifVersion).1 with
  | error failure => rwa [updateUser_error hanswer]
  | ok written =>
    obtain ⟨stored, hget, -, rfl, hfree, hafter⟩ := updateUser_ok hanswer
    have hid : (applyPatch stored patch).id = id := show stored.id = id from h.id_eq hget
    cases hlogins : patch.logins with
    | none =>
      rw [hafter, hlogins, if_neg (by simp)]
      -- the logins are the ones indexed already
      have hkeys : (applyPatch stored patch).keys = stored.keys := by
        simp [UserRecord.keys, applyPatch, hlogins]
      refine h.stored hid rfl (fun key hkey holder hheld => ?_) fun key => ?_
      · rw [hkeys, h.mem_keys_iff hget, hheld] at hkey
        exact Option.some.inj hkey
      · rw [hkeys, ← h.filter_eq hget]
        by_cases hkey : key ∈ stored.keys
        · rw [if_pos hkey]
          exact (h.mem_keys_iff hget).mp hkey
        · rw [if_neg hkey, if_neg hkey]
    | some logins =>
      rw [hafter, hlogins, if_pos Option.isSome_some]
      have hkeys : (applyPatch stored patch).keys = logins.map (keyOf stored.type) := by
        simp [UserRecord.keys, applyPatch, hlogins]
      refine h.stored hid rfl (by rw [hkeys]; exact takenBy_eq_none.mp (hfree logins hlogins))
        fun key => ?_
      rw [get_indexLogins, get_dropLogins, ← h.filter_eq hget]
      simp only [hid]

theorem Sound.deleteUser (h : index.Sound) (id : Str) : (index.deleteUser id).2.Sound := by
  unfold UserIndex.deleteUser
  split
  case h_1 => exact h
  case h_2 stored hget =>
    exact h.deleted rfl fun key => (get_dropLogins ..).trans (h.filter_eq hget key)

/-- **Every write keeps the index the one of the records.** -/
theorem Sound.exec (h : index.Sound) : ∀ write : Write, (index.exec write).Sound
  | .insertUser record => h.insertUser record
  | .updateUser id patch ifVersion => h.updateUser id patch ifVersion
  | .deleteUser id => h.deleteUser id

/-- …and so does every run of them. -/
theorem sound_after (writes : List Write) : (after writes).Sound := by
  suffices ∀ index : UserIndex, index.Sound → (writes.foldl UserIndex.exec index).Sound from
    this _ ⟨by simp, by simp⟩
  induction writes with
  | nil => exact fun _ h => h
  | cons write writes ih => exact fun _ h => ih _ (h.exec write)

/-! ## Types and logins told apart -/

/-- **A key tells its type and its login apart**, of types without the separator. -/
theorem keyOf_inj {type type' login login' : Str} (h : (0 : CodeUnit) ∉ type)
    (h' : (0 : CodeUnit) ∉ type') :
    keyOf type login = keyOf type' login' ↔ type = type' ∧ login = login' := by
  refine ⟨append_cons_inj h h', ?_⟩
  rintro ⟨rfl, rfl⟩
  rfl

theorem keyOf_mem_keys {record : UserRecord} {type login : Str} (h : (0 : CodeUnit) ∉ type)
    (hrecord : (0 : CodeUnit) ∉ record.type) :
    keyOf type login ∈ record.keys ↔ record.type = type ∧ login ∈ record.logins := by
  rw [UserRecord.keys, List.mem_map]
  constructor
  · rintro ⟨login', hlogin, hkey⟩
    obtain ⟨rfl, rfl⟩ := (keyOf_inj hrecord h).mp hkey
    exact ⟨rfl, hlogin⟩
  · rintro ⟨rfl, hlogin⟩
    exact ⟨login, hlogin, rfl⟩

/-- Every record is of a type without the separator. -/
def Plain (index : UserIndex) : Prop :=
  ∀ id record, get index.byId id = some record → (0 : CodeUnit) ∉ record.type

/-- A write inserts no record of a type with the separator. -/
def Write.Plain : Write → Prop
  | .insertUser record => (0 : CodeUnit) ∉ record.type
  | _ => True

instance : DecidablePred Write.Plain
  | .insertUser record => inferInstanceAs (Decidable ((0 : CodeUnit) ∉ record.type))
  | .updateUser .. | .deleteUser _ => isTrue trivial

theorem Plain.put (h : index.Plain) {index' : UserIndex} {id : Str} {record : UserRecord}
    (hbyId : index'.byId = Insertion.put index.byId id record)
    (hrecord : (0 : CodeUnit) ∉ record.type) : index'.Plain := by
  intro id' record' hget
  rw [hbyId, get_put] at hget
  split at hget
  · exact Option.some.inj hget ▸ hrecord
  · exact h _ _ hget

/-- No write changes a type. -/
theorem Plain.exec (h : index.Plain) {write : Write} (hwrite : write.Plain) :
    (index.exec write).Plain := by
  cases write with
  | insertUser record =>
    rw [UserIndex.exec, UserIndex.insertUser]
    split
    · exact h
    · split
      · exact h
      · exact h.put rfl hwrite
  | updateUser id patch ifVersion =>
    rw [UserIndex.exec]
    cases hanswer : (index.updateUser id patch ifVersion).1 with
    | error failure => rwa [updateUser_error hanswer]
    | ok written =>
      obtain ⟨stored, hget, -, rfl, -, hafter⟩ := updateUser_ok hanswer
      have hbyId : (index.updateUser id patch ifVersion).2.byId =
          Insertion.put index.byId id (applyPatch stored patch) := by
        rw [hafter]
        split <;> rfl
      exact h.put hbyId (h id stored hget :)
  | deleteUser id =>
    rw [UserIndex.exec, UserIndex.deleteUser]
    split
    · exact h
    · intro id' record hget
      rw [dropLogins_byId, get_delete] at hget
      split at hget
      · simp at hget
      · exact h _ _ hget

theorem plain_after {writes : List Write} (h : ∀ write ∈ writes, write.Plain) :
    (after writes).Plain := by
  suffices ∀ index : UserIndex, index.Plain → (writes.foldl UserIndex.exec index).Plain from
    this _ (by simp [UserIndex.Plain])
  induction writes with
  | nil => exact fun _ hindex => hindex
  | cons write writes ih =>
    obtain ⟨hwrite, hwrites⟩ := List.forall_mem_cons.mp h
    exact fun _ hindex => ih hwrites _ (hindex.exec hwrite)

/-- **The index maps a type and a login to the record of that type listing it.** -/
theorem Sound.get_keyOf (h : index.Sound) (hplain : index.Plain) {type login id : Str}
    (htype : (0 : CodeUnit) ∉ type) :
    get index.byLogin (keyOf type login) = some id ↔
      ∃ record, get index.byId id = some record ∧ record.type = type ∧ login ∈ record.logins := by
  rw [h.indexed]
  refine exists_congr fun record => and_congr_right fun hget => ?_
  exact keyOf_mem_keys htype (hplain _ _ hget)

/-- **No two records of a type share a login.** -/
theorem Sound.eq_of_login (h : index.Sound) {id id' login : Str} {record record' : UserRecord}
    (hget : get index.byId id = some record) (hget' : get index.byId id' = some record')
    (htype : record.type = record'.type) (hlogin : login ∈ record.logins)
    (hlogin' : login ∈ record'.logins) : id = id' := by
  have hkey := h.indexed.mpr ⟨record, hget, List.mem_map_of_mem hlogin⟩
  have hkey' := h.indexed.mpr ⟨record', hget', List.mem_map_of_mem hlogin'⟩
  rw [htype, hkey'] at hkey
  exact (Option.some.inj hkey).symm

/-! ## The index read for the records -/

theorem Sound.userByLogin_eq (h : index.Sound) (hplain : index.Plain) {type login : Str}
    (htype : (0 : CodeUnit) ∉ type) :
    userByLogin index.byId type login = index.findUserByLogin type login := by
  rw [findUserByLogin]
  cases hkey : get index.byLogin (keyOf type login) with
  | none =>
    rw [Option.bind_none, userByLogin, List.findSome?_eq_none_iff]
    rintro id -
    rw [Option.filter_eq_none_iff]
    intro record hget hholds
    have hheld := (h.get_keyOf hplain htype).mpr ⟨record, hget, of_decide_eq_true hholds⟩
    simp [hkey] at hheld
  | some id =>
    obtain ⟨record, hget, hrtype, hlogin⟩ := (h.get_keyOf hplain htype).mp hkey
    rw [Option.bind_some, hget]
    cases hfound : userByLogin index.byId type login with
    | none =>
      rw [userByLogin, List.findSome?_eq_none_iff] at hfound
      have := hfound id (List.mem_map_of_mem (mem_of_get hget))
      simp [hget, hrtype, hlogin] at this
    | some record' =>
      obtain ⟨id', -, hid'⟩ := List.exists_of_findSome?_eq_some hfound
      obtain ⟨hget', hholds⟩ := Option.filter_eq_some_iff.mp hid'
      obtain ⟨htype', hlogin'⟩ := of_decide_eq_true hholds
      obtain rfl := h.eq_of_login hget hget' (hrtype.trans htype'.symm) hlogin hlogin'
      rw [hget] at hget'
      exact hget'.symm

/-- **The index tells who holds a login as the records do.** -/
theorem Sound.takenBy_eq (h : index.Sound) (hplain : index.Plain) {type : Str}
    (htype : (0 : CodeUnit) ∉ type) (logins : List Str) (id : Str) :
    index.takenBy type logins id = Auth.takenBy index.byId type logins id := by
  rw [takenBy, Auth.takenBy]
  refine congrArg (List.find? · logins) (funext fun login => ?_)
  rw [h.userByLogin_eq hplain htype, findUserByLogin]
  cases hkey : get index.byLogin (keyOf type login) with
  | none => rfl
  | some holder =>
    obtain ⟨record, hget, -⟩ := h.indexed.mp hkey
    simp [hget, h.id_eq hget]

/-- **An update of the index is one of the records**: what `Auth/Store` answers, and the records it
leaves. -/
theorem Sound.updateUser_eq (h : index.Sound) (hplain : index.Plain) (id : Str) (patch : UserPatch)
    (ifVersion : ℕ) :
    ((index.updateUser id patch ifVersion).1, (index.updateUser id patch ifVersion).2.byId) =
      updateStored index.byId id patch ifVersion := by
  unfold UserIndex.updateUser updateStored
  cases hget : get index.byId id with
  | none => rfl
  | some stored =>
    simp only
    split
    · rfl
    · have htaken : (patch.logins.bind fun logins => index.takenBy stored.type logins id) =
          Auth.takenBy index.byId stored.type (patch.logins.getD []) id := by
        cases patch.logins with
        | none => rfl
        | some logins => exact h.takenBy_eq hplain (hplain _ _ hget) logins id
      rw [htaken]
      cases Auth.takenBy index.byId stored.type (patch.logins.getD []) id with
      | some collision => rfl
      | none =>
        simp only [Prod.mk.injEq, true_and]
        split <;> rfl

/-! ## Over every run -/

/-- **The index of every run is that of its records**, and no call that is refused leaves anything
half done. -/
theorem index_of_run (writes : List Write) :
    ((∀ write ∈ writes, write.Plain) → ∀ type login id, (0 : CodeUnit) ∉ type →
      (get (after writes).byLogin (keyOf type login) = some id ↔
        ∃ record, get (after writes).byId id = some record ∧ record.type = type ∧
          login ∈ record.logins)) ∧
    (∀ id id' record record' login, get (after writes).byId id = some record →
      get (after writes).byId id' = some record' → record.type = record'.type →
      login ∈ record.logins → login ∈ record'.logins → id = id') ∧
    (∀ id patch ifVersion written, ((after writes).updateUser id patch ifVersion).1 = .ok written →
      ∃ stored, get (after writes).byId id = some stored ∧
        get ((after writes).updateUser id patch ifVersion).2.byId id = some written ∧
        written.version = stored.version + 1) ∧
    (∀ id patch ifVersion failure,
      ((after writes).updateUser id patch ifVersion).1 = .error failure →
        ((after writes).updateUser id patch ifVersion).2 = after writes) ∧
    (∀ record failure, ((after writes).insertUser record).1 = .error failure →
      ((after writes).insertUser record).2 = after writes) ∧
    (∀ id, ((after writes).deleteUser id).1 = false →
      ((after writes).deleteUser id).2 = after writes) ∧
    ∀ record stored, get (after writes).byId record.id = some stored →
      (after writes).insertUser record = (.ok stored, after writes) := by
  have hsound := sound_after writes
  refine ⟨fun hplain type login id htype => hsound.get_keyOf (plain_after hplain) htype,
    fun id id' record record' login => hsound.eq_of_login, fun id patch ifVersion written hok => ?_,
    fun id patch ifVersion failure => updateUser_error, fun record failure => insertUser_error,
    fun id => deleteUser_false, fun record stored => insertUser_held⟩
  obtain ⟨stored, hget, -, rfl, -, hafter⟩ := updateUser_ok hok
  refine ⟨stored, hget, ?_, rfl⟩
  rw [hafter]
  split <;> exact get_put_self ..

/-- A record of this id and type, listing these logins. -/
def listing (id type : Str) (logins : List Str) : UserRecord where
  id := id
  type := type
  active := true
  fields := []
  logins := logins
  password := none
  secondFactor := none
  emailVerifiedAt := none
  version := 1
  updatedAt := 0

theorem index_of_run_moved :
    get (after [.insertUser (listing (js "u1") (js "patient") [js "a", js "b"]),
        .updateUser (js "u1")
          { updatedAt := 1, logins := some [js "b", js "c", js "b"] } 1]).byLogin
      (keyOf (js "patient") (js "b")) = some (js "u1") :=
  ((index_of_run _).1 (by decide) _ _ _ (by decide)).mpr
    ⟨_, rfl, by decide, by decide⟩

/-- A type with the separator lends its users the logins of another type: `a‹0›b` with `c` is
indexed as `a` with `b‹0›c`, which a user of type `a` is then refused. -/
theorem index_of_separator :
    let writes := [.insertUser (listing (js "u1") (js "a" ++ 0 :: js "b") [js "c"])]
    get (after writes).byLogin (keyOf (js "a") (js "b" ++ 0 :: js "c")) = some (js "u1") ∧
      (¬ ∃ record, get (after writes).byId (js "u1") = some record ∧ record.type = js "a") ∧
      (after writes).insertUser (listing (js "u2") (js "a") [js "b" ++ 0 :: js "c"]) =
        (.error (taken (js "insertUser") (js "a") (js "b" ++ 0 :: js "c")), after writes) := by
  refine ⟨by decide, ?_, by decide⟩
  rintro ⟨record, hget, htype⟩
  obtain rfl : listing (js "u1") (js "a" ++ 0 :: js "b") [js "c"] = record := Option.some.inj hget
  exact absurd htype (by decide)

end UserIndex

end Janus.Auth
