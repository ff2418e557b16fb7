import Janus.Auth.Context
import Janus.Js.Base64

/-!
# Auth/Sealing — the keys an application gives

The first of them seals and signs; every one opens and checks.  A key is told by its id, which holds
no separator, so what names its key is split in one way.
-/

namespace Janus.Auth

open Js Insertion

/-- `KEY_ID`. -/
def isKeyId (id : Str) : Bool := 1 ≤ id.length && id.length ≤ 64 && id.all isBase64urlUnit

/-- `KEY`: 32 bytes, in either base64. -/
def isKeyText (key : Str) : Bool :=
  let isUnit u := isBase64urlUnit u || u = 43 || u = 47
  key.length = 43 && key.all isUnit ||
    key.length = 44 && (key.take 43).all isUnit && key.drop 43 = js "="

/-- One entry of `keys`: what its `id` and its `key` read. -/
structure SealingKey where
  id : Value
  key : Value

/-- One key, decoded and checked. -/
def decodeKey (where_ : Str) (decoded : List (Str × List Byte)) (entry : SealingKey) :
    Except Failure (List (Str × List Byte)) :=
  match entry.id.asString.filter isKeyId with
  | none =>
    throw <| .typeError <|
      where_ ++ js ": every key needs an id of letters, digits, _ and -, at most 64 of them"
  | some id =>
    if (get decoded id).isSome then
      throw <| .typeError <| where_ ++ js ": two keys have the id \"" ++ id ++ js "\""
    else
      match entry.key.asString.filter isKeyText with
      | none =>
        throw <| .typeError <| where_ ++ js ": the key \"" ++ id ++
          js "\" is not 32 bytes in base64 — make one with openssl rand -base64 32"
      | some key => pure (put decoded id (fromBase64url key))

section DecodeKey

variable {where_ : Str} {decoded decoded' : List (Str × List Byte)} {entry : SealingKey}
  {entries : List SealingKey}

/-- A key decoded is put under its id. -/
theorem decodeKey_ok (h : decodeKey where_ decoded entry = .ok decoded') :
    ∃ id key, entry.id = .str id ∧ isKeyId id = true ∧ decoded' = put decoded id key := by
  rw [decodeKey] at h
  split at h
  case h_1 => cases h
  case h_2 id hid =>
    obtain ⟨hstring, hkeyId⟩ := Option.filter_eq_some_iff.mp hid
    have hentry : entry.id = .str id := by
      cases hvalue : entry.id <;> rw [hvalue] at hstring <;> cases hstring
      rfl
    split at h
    case isTrue => cases h
    case isFalse =>
      split at h
      case h_1 => cases h
      case h_2 key _ => exact ⟨id, _, hentry, hkeyId, (Except.pure_ok.mp h).symm⟩

/-- Keys decoded are told by ids, and one decoded before still is. -/
theorem foldlM_decodeKey (h : entries.foldlM (decodeKey where_) decoded = .ok decoded')
    (hids : ∀ id, (get decoded id).isSome → isKeyId id = true) :
    (∀ id, (get decoded' id).isSome → isKeyId id = true) ∧
      ∀ id, (get decoded id).isSome → (get decoded' id).isSome := by
  induction entries generalizing decoded with
  | nil =>
    cases h
    exact ⟨hids, fun _ h => h⟩
  | cons entry entries ih =>
    rw [List.foldlM_cons] at h
    obtain ⟨decoded₁, hentry, hrest⟩ := Except.bind_ok.mp h
    obtain ⟨id, key, -, hkeyId, rfl⟩ := decodeKey_ok hentry
    have hput : ∀ id', (get (put decoded id key) id').isSome ↔
      id = id' ∨ (get decoded id').isSome := by
      intro id'
      rw [get_put]
      split
      case isTrue heq => simp [heq]
      case isFalse hne => simp [hne]
    obtain ⟨hids', hkept⟩ := ih hrest fun id' h' => (hput id').mp h' |>.elim (· ▸ hkeyId) (hids id')
    exact ⟨hids', fun id' h' => hkept id' ((hput id').mpr (Or.inr h'))⟩

/-- The first key decoded is held. -/
theorem isSome_get_first (h : (entry :: entries).foldlM (decodeKey where_) [] = .ok decoded) :
    (get decoded entry.id.toText).isSome := by
  rw [List.foldlM_cons] at h
  obtain ⟨decoded₁, hentry, hrest⟩ := Except.bind_ok.mp h
  obtain ⟨id, key, hid, hkeyId, rfl⟩ := decodeKey_ok hentry
  have hsingle : ∀ id', (get (put [] id key) id').isSome → isKeyId id' = true := by
    intro id' h'
    rw [get_put] at h'
    split at h'
    case isTrue heq => exact heq ▸ hkeyId
    case isFalse => cases h'
  refine (foldlM_decodeKey hrest hsingle).2 _ ?_
  rw [hid, Value.toText, get_put_self]
  rfl

end DecodeKey

/-- Decodes the keys and refuses what cannot seal: `none` is no array. -/
def resolveSealer (keys : Option (List SealingKey)) (where_ : Str) : Except Failure Sealer :=
  match keys.getD [] with
  | [] =>
    throw <| .typeError <|
      where_ ++ js ": expected at least one key — [{ id, key }], the first seals"
  | first :: rest =>
    match h : (first :: rest).foldlM (decodeKey where_) [] with
    | .error e => throw e
    | .ok decoded => pure ⟨first.id.toText, decoded, isSome_get_first h⟩

/-- The keys of a sealer are told by ids of letters, digits, `_` and `-`. -/
def Sealer.Named (sealer : Sealer) : Prop := ∀ id, (get sealer.keys id).isSome → isKeyId id = true

/-- **The keys an application gave are named.** -/
theorem named_resolveSealer {keys : Option (List SealingKey)} {where_ : Str} {sealer : Sealer}
    (h : resolveSealer keys where_ = .ok sealer) : sealer.Named := by
  rw [resolveSealer] at h
  split at h
  case h_1 => cases h
  case h_2 first rest _ =>
    split at h
    case h_1 => cases h
    case h_2 decoded hdecoded =>
      obtain rfl := Except.pure_ok.mp h
      exact (foldlM_decodeKey hdecoded nofun).1

/-- A key's id holds no dot. -/
theorem isKeyId_notMem {id : Str} (h : isKeyId id = true) : (46 : CodeUnit) ∉ id := by
  intro hmem
  rw [isKeyId, Bool.and_eq_true, List.all_eq_true] at h
  exact absurd (h.2 46 hmem) (by decide)

/-- Later keys that still hold the first of these. -/
def StillHolds (later sealer : Sealer) : Prop :=
  get later.keys sealer.sealWith = get sealer.keys sealer.sealWith

/-- The keys of an application before a rotation, and after. -/
def formerKeys : Sealer := ⟨js "k1", [(js "k1", [1])], rfl⟩

def rotatedKeys : Sealer := ⟨js "k2", [(js "k2", [2]), (js "k1", [1])], rfl⟩

end Janus.Auth
