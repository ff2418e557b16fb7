import Janus.Auth.Context
import Janus.Machinery.Slices

/-!
# Auth/FindMany — several users of one type, by id

A store that has `findUsers` is asked for a hundred ids at a time and answers in any order; one
without it for ten at once, by `findUser`.  What is found is read back through the ids asked for, so
the list is the same.
-/

namespace Janus.Auth

open Js Insertion Slices

/-- The most ids one `findUsers` call is given. -/
def findManyBatch : ℕ := 100

/-- How many `findUser` calls run at once. -/
def findManyConcurrency : ℕ := 10

/-- The users' store, as far as these reads ask it: `findUsers` is optional, and may answer no list.
-/
structure UserReads where
  findUser : Str → Except Failure (Option UserRecord)
  findUsers : Option (List Str → Except Failure (Option (List UserRecord)))

/-- A few `findUser` calls at a time. -/
def readOneByOne (users : UserReads) (ids : List Str) : Except Failure (List UserRecord) :=
  (slices findManyConcurrency ids).foldlM (fun records slice => do
    let answers ← slice.mapM users.findUser
    pure (records ++ answers.filterMap id)) []

/-- One batch: one `findUsers` call, or bounded `findUser` calls. -/
def readBatch (users : UserReads) (capable : Bool) (ids : List Str) :
    Except Failure (List UserRecord) :=
  match users.findUsers with
  | some findUsers =>
    if capable then do
      match ← findUsers ids with
      | some answer => pure answer
      | none =>
        throw <| .janus .storeFailed
          (js "users.findUsers answered no list: an absence is a shorter list, so this store " ++
            js "forgot to answer")
          { slot := js "users", operation := js "findUsers" }
    else readOneByOne users ids
  | none => readOneByOne users ids

/-- The well-formed ids of a list, each at its first occurrence. -/
def wantedIds (ids : List Value) : List Str :=
  addAll [] (ids.filterMap fun id => id.asString.filter isId)

/-- A record of this type, kept under its id. -/
def keepRecord (type : Str) (found : List (Str × UserRecord)) (record : UserRecord) :
    List (Str × UserRecord) :=
  if record.type = type then put found record.id record else found

/-- The users of this type holding these ids, in the order of the ids; `none` is no array. -/
def findManyRecords (users : UserReads) (capable : Bool) (ids : Option (List Value))
    (type where_ : Str) : Except Failure (List UserRecord) := do
  match ids with
  | none => throw (.typeError (where_ ++ js ": ids must be an array of user ids"))
  | some ids =>
    let wanted := wantedIds ids
    let found ← (slices findManyBatch wanted).foldlM (fun found batch => do
      let records ← readBatch users capable batch
      pure (records.foldl (keepRecord type) found)) []
    pure (wanted.filterMap (get found))

/-! ## What a store answers -/

/-- The store holds these users.  `findUsers` is asked for distinct, well-formed ids, a hundred at
most, and answers each record once, in any order. -/
structure Serves (users : UserReads) (stored : List (Str × UserRecord)) : Prop where
  findUser : ∀ id, isId id = true → users.findUser id = .ok (get stored id)
  findUsers : ∀ findUsers ∈ users.findUsers, ∀ ids, ids ≠ [] → ids.length ≤ findManyBatch →
    ids.Nodup → (∀ id ∈ ids, isId id = true) →
    ∃ answer, findUsers ids = .ok (some answer) ∧ answer.Perm (ids.filterMap (get stored))

section Serves

variable {users : UserReads} {stored : List (Str × UserRecord)} {ids : List Str} {type : Str}

theorem mapM_findUser (h : Serves users stored) (hids : ∀ id ∈ ids, isId id = true) :
    ids.mapM users.findUser = .ok (ids.map (get stored)) :=
  List.mapM_eq_ok fun id hid => h.findUser id (hids id hid)

/-- One by one, the records come in the order of the ids. -/
theorem readOneByOne_eq (h : Serves users stored) (hids : ∀ id ∈ ids, isId id = true) :
    readOneByOne users ids = .ok (ids.filterMap (get stored)) := by
  have hloop : ∀ (done : List UserRecord) (chunks : List (List Str)),
      (∀ chunk ∈ chunks, ∀ id ∈ chunk, isId id = true) →
      chunks.foldlM (fun records slice => do
        let answers ← slice.mapM users.findUser
        pure (records ++ answers.filterMap id)) done =
        .ok (done ++ chunks.flatten.filterMap (get stored)) := by
    intro done chunks hchunks
    induction chunks generalizing done with
    | nil => simp
    | cons chunk chunks ih =>
      rw [List.foldlM_cons, mapM_findUser h (hchunks chunk List.mem_cons_self)]
      refine (ih _ fun chunk' h' => hchunks chunk' (List.mem_cons_of_mem _ h')).trans ?_
      rw [List.flatten_cons, List.filterMap_append, List.filterMap_map, List.append_assoc]
      rfl
  rw [readOneByOne, hloop, flatten_slices (by decide)]
  · rfl
  · exact fun chunk hchunk id hid => hids id ((sublist_of_mem hchunk).mem hid)

/-- **One batch**, whichever way it is read: the records of its ids, in some order. -/
theorem readBatch_perm (h : Serves users stored) (capable : Bool) (hne : ids ≠ [])
    (hlength : ids.length ≤ findManyBatch) (hnodup : ids.Nodup)
    (hids : ∀ id ∈ ids, isId id = true) :
    ∃ answer, readBatch users capable ids = .ok answer ∧
      answer.Perm (ids.filterMap (get stored)) := by
  have hone := readOneByOne_eq h hids
  rw [readBatch]
  split
  case h_1 findUsers hfind =>
    split
    · obtain ⟨answer, hanswer, hperm⟩ := h.findUsers findUsers hfind ids hne hlength hnodup hids
      exact ⟨answer, by rw [hanswer]; rfl, hperm⟩
    · exact ⟨_, hone, .refl _⟩
  case h_2 => exact ⟨_, hone, .refl _⟩

/-! ## What is found -/

/-- Found is only what is stored, of this type; and all of it, for the ids done. -/
structure Found (stored : List (Str × UserRecord)) (type : Str) (done : List Str)
    (found : List (Str × UserRecord)) : Prop where
  sound : ∀ {id record}, get found id = some record → get stored id = some record ∧
    record.type = type
  complete : ∀ {id record}, id ∈ done → get stored id = some record → record.type = type →
    get found id = some record

variable {done : List Str} {found : List (Str × UserRecord)}

theorem Found.start : Found stored type [] [] where
  sound h := nomatch h
  complete h := absurd h List.not_mem_nil

/-- A record answered is kept, if it is of this type. -/
theorem Found.keepRecord (h : Found stored type done found) {record : UserRecord}
    (hrecord : get stored record.id = some record) :
    Found stored type (record.id :: done) (keepRecord type found record) := by
  rw [Auth.keepRecord]
  constructor
  · intro id record' hget
    split at hget
    case isTrue htype =>
      rw [get_put] at hget
      split at hget
      case isTrue hid =>
        cases hget
        exact ⟨hid ▸ hrecord, htype⟩
      case isFalse => exact h.sound hget
    case isFalse => exact h.sound hget
  · intro id record' hid hget htype
    by_cases heq : record.id = id
    · subst heq
      cases hrecord.symm.trans hget
      rw [if_pos htype, get_put_self]
    · have hdone := (List.mem_cons.mp hid).resolve_left (Ne.symm heq)
      split
      · rw [get_put_ne _ _ heq]
        exact h.complete hdone hget htype
      · exact h.complete hdone hget htype

/-- …one after another. -/
theorem Found.foldl (h : Found stored type done found) {records : List UserRecord}
    (hrecords : ∀ record ∈ records, get stored record.id = some record) :
    Found stored type (records.map (·.id) ++ done)
      (records.foldl (Auth.keepRecord type) found) := by
  induction records generalizing done found with
  | nil => exact h
  | cons record records ih =>
    have hrest := ih (h.keepRecord (hrecords record List.mem_cons_self))
      fun record' h' => hrecords record' (List.mem_cons_of_mem _ h')
    refine ⟨hrest.sound, fun {id record'} hid => hrest.complete ?_⟩
    simpa [or_left_comm, or_assoc] using hid

/-- A batch answered, in whatever order, is done. -/
theorem Found.batch (h : Found stored type done found) {answer : List UserRecord}
    (hkeys : ∀ id record, get stored id = some record → record.id = id)
    (hperm : answer.Perm (ids.filterMap (get stored))) :
    Found stored type (done ++ ids) (answer.foldl (Auth.keepRecord type) found) := by
  have hanswer : ∀ record, record ∈ answer ↔ ∃ id ∈ ids, get stored id = some record :=
    fun record =>
    hperm.mem_iff.trans List.mem_filterMap
  have hrecords : ∀ record ∈ answer, get stored record.id = some record := fun record hrecord => by
    obtain ⟨id, -, hget⟩ := (hanswer record).mp hrecord
    rwa [hkeys id record hget]
  have hfold := h.foldl hrecords
  refine ⟨hfold.sound, fun {id record} hid hget => hfold.complete ?_ hget⟩
  rcases List.mem_append.mp hid with hid | hid
  · exact List.mem_append_right _ hid
  · exact List.mem_append_left _ (List.mem_map.mpr
      ⟨record, (hanswer record).mpr ⟨id, hid, hget⟩, hkeys id record hget⟩)

/-- Every batch is done, after the last. -/
theorem Found.batches (h : Found stored type done found) (hserves : Serves users stored)
    (hkeys : ∀ id record, get stored id = some record → record.id = id) (capable : Bool)
    {batches : List (List Str)} (hbatches : ∀ batch ∈ batches, batch ≠ [] ∧
      batch.length ≤ findManyBatch ∧ batch.Nodup ∧ ∀ id ∈ batch, isId id = true) :
    ∃ found', batches.foldlM (fun found batch => do
        let records ← readBatch users capable batch
        pure (records.foldl (Auth.keepRecord type) found)) found = .ok found' ∧
      Found stored type (done ++ batches.flatten) found' := by
  induction batches generalizing done found with
  | nil => exact ⟨found, rfl, by simpa using h⟩
  | cons batch batches ih =>
    obtain ⟨hne, hlength, hnodup, hids⟩ := hbatches batch List.mem_cons_self
    obtain ⟨answer, hanswer, hperm⟩ := readBatch_perm hserves capable hne hlength hnodup hids
    obtain ⟨found', hloop, hfound⟩ := ih (h.batch hkeys hperm)
      fun batch' h' => hbatches batch' (List.mem_cons_of_mem _ h')
    refine ⟨found', ?_, by rwa [List.flatten_cons, ← List.append_assoc]⟩
    rw [List.foldlM_cons, hanswer]
    exact hloop

end Serves

/-! ## The ids asked for -/

section Wanted

variable {ids : List Value}

theorem mem_wantedIds {id : Str} : id ∈ wantedIds ids ↔ .str id ∈ ids ∧ isId id = true := by
  rw [wantedIds, mem_addAll, List.mem_filterMap]
  constructor
  · rintro (h | ⟨value, hvalue, hid⟩)
    · cases h
    · obtain ⟨hstring, hisId⟩ := Option.filter_eq_some_iff.mp hid
      cases value <;> cases hstring
      exact ⟨hvalue, hisId⟩
  · rintro ⟨hmem, hisId⟩
    exact Or.inr ⟨_, hmem, Option.filter_eq_some_iff.mpr ⟨rfl, hisId⟩⟩

theorem nodup_wantedIds (ids : List Value) : (wantedIds ids).Nodup := nodup_addAll List.nodup_nil

/-- Wanted in the order of their first occurrences. -/
theorem pairwise_wantedIds (ids : List Value) :
    (wantedIds ids).Pairwise fun a b => ids.idxOf (.str a) < ids.idxOf (.str b) := by
  induction ids using List.reverseRecOn with
  | nil => exact .nil
  | append_singleton ids value ih =>
    -- What stood before keeps its place.
    have hold : (wantedIds ids).Pairwise fun a b =>
        (ids ++ [value]).idxOf (.str a) < (ids ++ [value]).idxOf (.str b) := by
      refine ih.imp_of_mem fun {a b} ha hb hlt => ?_
      rwa [List.idxOf_append_of_mem (mem_wantedIds.mp ha).1,
        List.idxOf_append_of_mem (mem_wantedIds.mp hb).1]
    rw [wantedIds, List.filterMap_append, addAll_append, ← wantedIds]
    cases hid : value.asString.filter isId with
    | none => simpa [hid] using hold
    | some id =>
      have hlast : [value].filterMap (fun id => id.asString.filter isId) = [id] := by simp [hid]
      rw [hlast, addAll_cons, addAll_nil, add]
      split
      case isTrue => exact hold
      case isFalse hnew =>
        obtain ⟨hstring, hisId⟩ := Option.filter_eq_some_iff.mp hid
        obtain rfl : value = .str id := by cases value <;> cases hstring; rfl
        refine List.pairwise_append.mpr ⟨hold, List.pairwise_singleton .., fun a ha b hb => ?_⟩
        obtain rfl := List.mem_singleton.mp hb
        have hnot : (.str b) ∉ ids := fun h => hnew (mem_wantedIds.mpr ⟨h, hisId⟩)
        rw [List.idxOf_append_of_mem (mem_wantedIds.mp ha).1, List.idxOf_append_of_notMem hnot]
        exact Nat.lt_add_right _ (List.idxOf_lt_length_iff.mpr (mem_wantedIds.mp ha).1)

end Wanted

/-- **Finding many users is one law on both paths.**  On any store that holds these users — asked in
batches, answering each in whatever order, or one id at a time — the list is the records of this
type held under the distinct, well-formed ids of the list, in the order of their first occurrences.
-/
theorem findManyRecords_serves {stored : List (Str × UserRecord)}
    (hkeys : ∀ id record, get stored id = some record → record.id = id) (ids : List Value)
    (type where_ : Str) :
    (∀ users capable, Serves users stored →
      findManyRecords users capable (some ids) type where_ =
        .ok ((wantedIds ids).filterMap fun id => (get stored id).filter (·.type = type))) ∧
    (∀ id, id ∈ wantedIds ids ↔ .str id ∈ ids ∧ isId id = true) ∧ (wantedIds ids).Nodup ∧
    (wantedIds ids).Pairwise fun a b => ids.idxOf (.str a) < ids.idxOf (.str b) := by
  refine ⟨fun users capable hserves => ?_, fun _ => mem_wantedIds, nodup_wantedIds ids,
    pairwise_wantedIds ids⟩
  have hbatches : ∀ batch ∈ slices findManyBatch (wantedIds ids), batch ≠ [] ∧
      batch.length ≤ findManyBatch ∧ batch.Nodup ∧ ∀ id ∈ batch, isId id = true :=
      fun batch hbatch =>
    ⟨ne_nil_of_mem (by decide) hbatch, length_le_of_mem hbatch,
      (nodup_wantedIds ids).sublist (sublist_of_mem hbatch),
      fun id hid => (mem_wantedIds.mp ((sublist_of_mem hbatch).mem hid)).2⟩
  obtain ⟨found, hloop, hfound⟩ :=
    (Found.start : Found stored type [] []).batches hserves hkeys capable hbatches
  rw [List.nil_append, flatten_slices (by decide)] at hfound
  rw [findManyRecords, hloop]
  refine congrArg Except.ok (List.filterMap_congr fun id hid => Option.ext fun record => ?_)
  rw [Option.filter_eq_some_iff]
  exact ⟨fun h => (hfound.sound h).imp_right decide_eq_true,
    fun ⟨hget, htype⟩ => hfound.complete hid hget (of_decide_eq_true htype)⟩

/-- Ada and Bob, patients, and a doctor. -/
def clinicUsers : List (Str × UserRecord) :=
  [ada, { ada with id := js "00000000-0000-7000-8000-000000000002" },
    { ada with id := js "00000000-0000-7000-8000-000000000003", type := js "doctor" }].map
    fun record => (record.id, record)

/-- They are found alike, answered in batches backwards or one by one. -/
theorem findManyRecords_backwards :
    let ids : List Value := [.str (js "00000000-0000-7000-8000-000000000003"),
      .str (js "00000000-0000-7000-8000-000000000002"), .null, .str (js "nobody"), .str ada.id,
      .str (js "00000000-0000-7000-8000-000000000002")]
    let reads : UserReads := ⟨fun id => .ok (get clinicUsers id), none⟩
    let backwards : UserReads :=
      { reads with findUsers := some fun ids => .ok (some (ids.filterMap (get clinicUsers)).reverse) }
    let found := .ok [{ ada with id := js "00000000-0000-7000-8000-000000000002" }, ada]
    findManyRecords backwards true (some ids) (js "patient") [] = found ∧
      findManyRecords reads false (some ids) (js "patient") [] = found := by
  intro ids reads backwards found
  have hkeys : ∀ id record, get clinicUsers id = some record → record.id = id := by
    intro id record h
    obtain ⟨entry, -, hentry⟩ := List.mem_map.mp (mem_of_get h)
    cases hentry
    rfl
  have hfound : Except.ok ((wantedIds ids).filterMap fun id =>
      (get clinicUsers id).filter (·.type = js "patient")) = found := by decide +kernel
  have hlaw := (findManyRecords_serves hkeys ids (js "patient") []).1
  refine ⟨(hlaw backwards true ⟨fun _ _ => rfl, ?_⟩).trans hfound,
    (hlaw reads false ⟨fun _ _ => rfl, nofun⟩).trans hfound⟩
  rintro findUsers hfind batch - - - -
  cases hfind
  exact ⟨_, rfl, List.reverse_perm _⟩

end Janus.Auth
