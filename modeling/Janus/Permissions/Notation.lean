import Janus.Permissions.Input

/-!
# Permissions/Notation — tuples and cursors as text

A type holds no `:`, a relation no `@`, and an id none of `@`, `#` and parentheses: so a tuple is
read back from its notation (`formatTuple_inj`), whatever colons its ids hold.  A holder is read
back from the cursor that follows it, as long as its type's length is written in nine digits.
-/

namespace Janus.Permissions

open Js

/-! ## Tuples -/

/-- One subject: `staff:u1`, or `team:t1#member`. -/
def formatSubject : Subject → Str
  | .entity e => formatEntity e
  | .set s => formatEntity s.toEntity ++ (35 : CodeUnit) :: s.relation

/-- One relation tuple: `record:r1#viewer@staff:u1`. -/
def formatTuple (tuple : RelationTuple) : Str :=
  formatEntity tuple.object ++ (35 : CodeUnit) :: (tuple.relation ++
    (64 : CodeUnit) :: formatSubject tuple.subject)

theorem isId_notMem {id : Str} (h : isId id = true) :
    (35 : CodeUnit) ∉ id ∧ (64 : CodeUnit) ∉ id := by
  simp only [isId, Bool.and_eq_true, Bool.not_eq_true', List.any_eq_false] at h
  exact ⟨fun hm => h.2 _ hm (by decide), fun hm => h.2 _ hm (by decide)⟩

/-- A type and an id, told apart at the first colon. -/
theorem formatEntity_inj {a b : Entity} (ha : isName a.type = true) (hb : isName b.type = true) :
    formatEntity a = formatEntity b ↔ a = b := by
  refine ⟨fun h => ?_, congrArg _⟩
  obtain ⟨htype, hid⟩ := append_cons_inj (isName_notMem ha).1 (isName_notMem hb).1 h
  cases a
  cases b
  simp_all

theorem hash_notMem_formatEntity {e : Entity} (htype : isName e.type = true)
    (hid : isId e.id = true) :
    (35 : CodeUnit) ∉ formatEntity e := by
  rw [formatEntity, List.mem_append, List.mem_cons]
  rintro (h | h | h)
  · exact (isName_notMem htype).2.1 h
  · exact absurd h (by decide)
  · exact (isId_notMem hid).1 h

/-- A subject whose notation is read one way. -/
structure Subject.WellFormed (subject : Subject) : Prop where
  type : isName subject.type = true
  id : isId subject.id = true
  relation : ∀ s, subject = .set s → isName s.relation = true

theorem RelationTuple.WellFormed.subject {t : RelationTuple} (h : t.WellFormed) :
    t.subject.WellFormed := ⟨h.subjectType, h.subjectId, h.subjectRelation⟩

/-- After the id, a `#` can only begin the relation of a set. -/
theorem formatSubject_inj {a b : Subject} (ha : a.WellFormed) (hb : b.WellFormed)
    (h : formatSubject a = formatSubject b) : a = b := by
  cases a with
  | entity e =>
    have hnot := hash_notMem_formatEntity ha.type ha.id
    cases b with
    | entity f => rw [(formatEntity_inj ha.type hb.type).mp h]
    | set t =>
      rw [show formatEntity e = _ from h] at hnot
      exact absurd (List.mem_append_right _ List.mem_cons_self) hnot
  | set s =>
    cases b with
    | entity f =>
      have hnot := hash_notMem_formatEntity hb.type hb.id
      rw [show formatEntity f = _ from h.symm] at hnot
      exact absurd (List.mem_append_right _ List.mem_cons_self) hnot
    | set t =>
      obtain ⟨hentity, hrelation⟩ := append_cons_inj (hash_notMem_formatEntity ha.type ha.id)
        (hash_notMem_formatEntity hb.type hb.id) h
      have hentity := (formatEntity_inj ha.type hb.type).mp hentity
      cases s
      cases t
      simp_all

/-- **A tuple is read back from its notation.** -/
theorem formatTuple_inj {a b : RelationTuple} (ha : a.WellFormed) (hb : b.WellFormed)
    (h : formatTuple a = formatTuple b) : a = b := by
  obtain ⟨hobject, hrest⟩ := append_cons_inj (hash_notMem_formatEntity ha.objectType ha.objectId)
    (hash_notMem_formatEntity hb.objectType hb.objectId) h
  obtain ⟨hrelation, hsubject⟩ := append_cons_inj (isName_notMem ha.relation).2.2
    (isName_notMem hb.relation).2.2 hrest
  have hobject := (formatEntity_inj ha.objectType hb.objectType).mp hobject
  have hsubject := formatSubject_inj ha.subject hb.subject hsubject
  cases a
  cases b
  simp_all

/-! ## Cursors -/

/-- The cursor that follows `holder`: the type's length comes first, so any id round-trips. -/
def holderCursor (holder : Entity) : Str :=
  decimal holder.type.length ++ (58 : CodeUnit) :: (holder.type ++ holder.id)

def isDigit (u : CodeUnit) : Bool := 48 ≤ u.val && u.val ≤ 57

/-- What `/^(0|[1-9]\d{0,8}):/` matches, and what follows it. -/
def cursorHead (cursor : Str) : Option (Str × Str) :=
  let digits := cursor.takeWhile isDigit
  match cursor.dropWhile isDigit with
  | u :: rest =>
    if u = 58 ∧ (digits = [48] ∨ digits ≠ [] ∧ digits.head? ≠ some 48 ∧ digits.length ≤ 9) then
      some (digits, rest)
    else none
  | [] => none

/-- Refuses a cursor this store did not mint. -/
def invalidCursor (where_ cursor : Str) : Failure :=
  .invalidCursor <| where_ ++ js ": this cursor was not minted by this store, or was minted for " ++
    js "another ordering (" ++ decimal cursor.length ++ js " characters)"

/-- The holder a cursor follows. -/
def readHolderCursor (where_ cursor : Str) : Except Failure Entity :=
  match cursorHead cursor with
  | none => throw (invalidCursor where_ cursor)
  | some (digits, rest) =>
    let length := toNumber digits
    if rest.length < length then throw (invalidCursor where_ cursor)
    else pure ⟨rest.take length, rest.drop length⟩

/-- A cursor is cut at the end of its number. -/
theorem cursorHead_holderCursor (holder : Entity) :
    cursorHead (holderCursor holder) =
      if holder.type.length < 10 ^ 9 then
        some (decimal holder.type.length, holder.type ++ holder.id)
      else none := by
  have hdigits : ∀ u ∈ decimal holder.type.length, isDigit u = true := fun u hu => by
    simpa [isDigit] using mem_decimal hu
  have htake : (holderCursor holder).takeWhile isDigit = decimal holder.type.length := by
    rw [holderCursor, List.takeWhile_append_of_pos hdigits, List.takeWhile_cons_of_neg (by decide),
      List.append_nil]
  have hdrop : (holderCursor holder).dropWhile isDigit =
      (58 : CodeUnit) :: (holder.type ++ holder.id) := by
    rw [holderCursor, List.dropWhile_append_of_pos hdigits, List.dropWhile_cons_of_neg (by decide)]
  have hlength : (decimal holder.type.length).length ≤ 9 ↔ holder.type.length < 10 ^ 9 := by
    rw [decimal, List.length_map]
    exact Nat.length_toDigits_le_iff (by decide) (by decide)
  rw [cursorHead, htake, hdrop]
  simp only [true_and]
  refine if_congr ?_ rfl rfl
  rw [hlength]
  by_cases hzero : holder.type.length = 0
  · rw [hzero]
    exact iff_of_true (Or.inl (by decide)) (by decide)
  · have hhead : (decimal holder.type.length).head? ≠ some 48 := fun h => by
      obtain ⟨rest, hrest⟩ := List.head?_eq_some_iff.mp h
      exact head_decimal hzero hrest
    have hne : decimal holder.type.length ≠ [48] := head_decimal hzero
    simp [hhead, hne, decimal_ne_nil]

/-- **A holder is read back from its cursor**, unless its type is too long for the number. -/
theorem readHolderCursor_holderCursor (where_ : Str) (holder : Entity) :
    readHolderCursor where_ (holderCursor holder) =
      if holder.type.length < 10 ^ 9 then .ok holder
      else .error (invalidCursor where_ (holderCursor holder)) := by
  rw [readHolderCursor, cursorHead_holderCursor]
  by_cases h : holder.type.length < 10 ^ 9
  · rw [if_pos h, if_pos h]
    simp only [toNumber_decimal, List.length_append]
    rw [if_neg (by omega), List.take_left, List.drop_left]
    rfl
  · rw [if_neg h, if_neg h]
    rfl

/-! ### What is read as a cursor -/

theorem toNumber_concat (digits : Str) (u : CodeUnit) :
    toNumber (digits ++ [u]) = 10 * toNumber digits + (u.val - 48) := by
  rw [toNumber, toNumber, List.foldl_append]
  rfl

/-- A digit is written as it is read. -/
theorem decimal_digit {u : CodeUnit} (hu : isDigit u = true) : decimal (u.val - 48) = [u] := by
  obtain ⟨hlow, hhigh⟩ : 48 ≤ u.val ∧ u.val ≤ 57 := by simpa [isDigit] using hu
  obtain ⟨d, hd⟩ := Nat.exists_eq_add_of_le hlow
  have hdigits : ∀ d < 10, decimal d = [Fin.ofNat 65536 (48 + d)] := by decide
  rw [show u.val - 48 = d by omega, hdigits d (by omega), ← hd]
  exact congrArg (fun u => [u]) (Fin.ext (Nat.mod_eq_of_lt u.isLt))

theorem decimal_of_ge {n : ℕ} (hn : 10 ≤ n) : decimal n = decimal (n / 10) ++ decimal (n % 10) := by
  rw [decimal, Nat.toDigits_of_base_le (by decide) hn, List.map_append, decimal, decimal,
    Nat.toDigits_of_lt_base (Nat.mod_lt n (by decide))]

/-- A number with no zero before it is not zero. -/
theorem toNumber_pos {digits : Str} (hdigits : digits.all isDigit = true) (hne : digits ≠ [])
    (hhead : digits.head? ≠ some 48) : 0 < toNumber digits := by
  induction digits using List.reverseRecOn with
  | nil => exact absurd rfl hne
  | append_singleton init u ih =>
    rw [toNumber_concat]
    rw [List.all_append, Bool.and_eq_true] at hdigits
    cases init with
    | nil =>
      have hu : u ≠ 48 := fun h => hhead (congrArg some h)
      have hval : u.val ≠ 48 := fun h => hu (Fin.ext h)
      have hlow : 48 ≤ u.val := by
        have := hdigits.2
        simp only [List.all_cons, isDigit, Bool.and_eq_true, decide_eq_true_eq] at this
        exact this.1.1
      omega
    | cons v init =>
      have := ih hdigits.1 (List.cons_ne_nil _ _) hhead
      omega

/-- **Digits with no zero before them are those of the number they are read as.** -/
theorem decimal_toNumber {digits : Str} (hdigits : digits.all isDigit = true) (hne : digits ≠ [])
    (hhead : digits = [48] ∨ digits.head? ≠ some 48) : decimal (toNumber digits) = digits := by
  obtain rfl | hhead := hhead
  · decide
  induction digits using List.reverseRecOn with
  | nil => exact absurd rfl hne
  | append_singleton init u ih =>
    have hall := hdigits
    rw [List.all_append, Bool.and_eq_true] at hall
    have hu : isDigit u = true := by simpa using hall.2
    have hval : 48 ≤ u.val ∧ u.val ≤ 57 := by simpa [isDigit] using hu
    rw [toNumber_concat]
    cases init with
    | nil => exact (congrArg decimal (Nat.zero_add _)).trans (decimal_digit hu)
    | cons v init =>
      have hpos := toNumber_pos hall.1 (List.cons_ne_nil _ _) hhead
      rw [decimal_of_ge (by omega), show (10 * toNumber (v :: init) + (u.val - 48)) / 10 =
        toNumber (v :: init) by omega, show (10 * toNumber (v :: init) + (u.val - 48)) % 10 =
        u.val - 48 by omega, ih hall.1 (List.cons_ne_nil _ _) hhead, decimal_digit hu]

theorem cursorHead_eq_some {cursor digits rest : Str}
    (h : cursorHead cursor = some (digits, rest)) :
    cursor = decimal (toNumber digits) ++ (58 : CodeUnit) :: rest ∧
      decimal (toNumber digits) = digits ∧ digits.length ≤ 9 := by
  have hcursor := List.takeWhile_append_dropWhile (p := isDigit) (l := cursor)
  rw [cursorHead] at h
  split at h
  case h_1 u rest' hdrop =>
    split at h
    case isTrue hdigits =>
      obtain ⟨rfl, rfl⟩ : cursor.takeWhile isDigit = digits ∧ rest' = rest := by simpa using h
      obtain ⟨rfl, hdigits⟩ := hdigits
      have hwritten : decimal (toNumber (cursor.takeWhile isDigit)) = cursor.takeWhile isDigit := by
        refine decimal_toNumber List.all_takeWhile ?_ ?_
        · obtain h48 | ⟨hne, -⟩ := hdigits
          · rw [h48]
            exact List.cons_ne_nil _ _
          · exact hne
        · exact hdigits.imp_right fun h => h.2.1
      refine ⟨?_, hwritten, ?_⟩
      · rw [hwritten, ← hdrop, hcursor]
      · obtain h48 | ⟨-, -, hlength⟩ := hdigits
        · rw [h48]
          decide
        · exact hlength
    case isFalse => cases h
  case h_2 => cases h

/-- **A cursor is read as the one holder it follows, and any other string is refused.** -/
theorem readHolderCursor_iff (where_ cursor : Str) (holder : Entity) :
    (readHolderCursor where_ cursor = .ok holder ↔
      cursor = holderCursor holder ∧ holder.type.length < 10 ^ 9) ∧
    ((∀ holder, holder.type.length < 10 ^ 9 → cursor ≠ holderCursor holder) →
      readHolderCursor where_ cursor = .error (invalidCursor where_ cursor)) := by
  have hread : ∀ holder, readHolderCursor where_ cursor = .ok holder →
      cursor = holderCursor holder ∧ holder.type.length < 10 ^ 9 := by
    intro holder h
    rw [readHolderCursor] at h
    split at h
    case h_1 => cases h
    case h_2 digits rest hhead =>
      obtain ⟨hcursor, hwritten, hlength⟩ := cursorHead_eq_some hhead
      dsimp only at h
      split at h
      case isTrue => cases h
      case isFalse hlong =>
        obtain rfl := Except.pure_ok.mp h
        have htype : (rest.take (toNumber digits)).length = toNumber digits :=
          List.length_take_of_le (by omega)
        refine ⟨?_, ?_⟩
        · rw [holderCursor, htype, List.take_append_drop, hcursor]
        · rw [← hwritten, decimal, List.length_map] at hlength
          rw [htype]
          exact (Nat.length_toDigits_le_iff (by decide) (by decide)).mp hlength
  refine ⟨⟨hread holder, ?_⟩, fun hother => ?_⟩
  · rintro ⟨rfl, hlength⟩
    rw [readHolderCursor_holderCursor, if_pos hlength]
  · cases hresult : readHolderCursor where_ cursor with
    | ok holder => exact absurd (hread holder hresult).1 (hother holder (hread holder hresult).2)
    | error e =>
      rw [readHolderCursor] at hresult
      split at hresult
      case h_1 => exact hresult.symm
      case h_2 =>
        dsimp only at hresult
        split at hresult
        case isTrue => exact hresult.symm
        case isFalse => cases hresult

end Janus.Permissions
