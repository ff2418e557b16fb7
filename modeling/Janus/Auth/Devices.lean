import Janus.Auth.Sealing

/-!
# Auth/Devices — a device told by the token it presents

A token is `d1.<key id>.<device id>.<mac>`, and its own proof: nothing is stored.  What is presented
comes from a request, and is read in one way (`parseToken_eq_some`).
-/

namespace Janus.Auth.Devices

open Js Insertion

/-- What the runtime lends: a MAC of 32 bytes, and the derivation of its keys. -/
structure Macs where
  hmacSha256 : List Byte → Str → List Byte
  hkdfSha256 : List Byte → Str → List Byte
  length_hmacSha256 : ∀ key text, (hmacSha256 key text).length = 32

/-- What the key is derived for. -/
def purpose : Str := js "janus/devices/v1"

/-- The key `keyId` lends it, when the sealer holds that key. -/
def derivedKey (macs : Macs) (sealer : Sealer) (keyId : Str) : Option (List Byte) :=
  (get sealer.keys keyId).map fun secret => macs.hkdfSha256 secret purpose

/-- …and the first key does: it is always held. -/
def firstKey (macs : Macs) (sealer : Sealer) : List Byte :=
  macs.hkdfSha256 ((get sealer.keys sealer.sealWith).get sealer.sealWith_held) purpose

/-- What is signed: the user and the device, joined by a NUL. -/
def signedText (userId deviceId : Str) : Str := [(0 : CodeUnit)].intercalate [userId, deviceId]

def macOf (macs : Macs) (key : List Byte) (userId deviceId : Str) : List Byte :=
  macs.hmacSha256 key (signedText userId deviceId)

def signed (macs : Macs) (sealer : Sealer) (userId deviceId : Str) : Str :=
  js "d1." ++ sealer.sealWith ++ js "." ++ deviceId ++ js "." ++
    toBase64url (macOf macs (firstKey macs sealer) userId deviceId)

/-- Sixteen random bytes. -/
abbrev Drawn := Fin 16 → Byte

/-- A token for a device never seen: a fresh device id, signed with the first key. -/
def mintDeviceToken (macs : Macs) (sealer : Sealer) (userId : Str) (drawn : Drawn) : Str :=
  signed macs sealer userId (toBase64url (List.ofFn drawn))

/-- What a token names. -/
structure Parts where
  keyId : Str
  deviceId : Str
  mac : Str

/-- So many characters of base64url. -/
def isField (n : ℕ) (text : Str) : Bool := text.length = n && text.all isBase64urlUnit

/-- `TOKEN`. -/
def Parts.isToken (parts : Parts) : Bool :=
  isKeyId parts.keyId && isField 22 parts.deviceId && isField 43 parts.mac

def parseToken (presented : Str) : Option Parts :=
  match presented.splitOn 46 with
  | [version, keyId, deviceId, mac] =>
    if version = js "d1" then some ⟨keyId, deviceId, mac⟩ |>.filter Parts.isToken else none
  | _ => none

/-- What `presented` names, when it proves this user signed in on this device before. -/
def provenParts (macs : Macs) (sealer : Sealer) (userId presented : Str) : Option Parts :=
  match parseToken presented with
  | none => none
  | some parts =>
    match derivedKey macs sealer parts.keyId with
    | none => none
    | some key =>
      if fromBase64url parts.mac = macOf macs key userId parts.deviceId then some parts else none

/-- The token to hand back for a device known: itself, or the same device signed again with the
first key. -/
def knownDeviceToken (macs : Macs) (sealer : Sealer) (userId presented : Str) : Option Str :=
  (provenParts macs sealer userId presented).map fun parts =>
    if parts.keyId = sealer.sealWith then presented else signed macs sealer userId parts.deviceId

/-- What a sign-in was told of the device: nothing, that it holds no token yet, or the one it
presented. -/
inductive DeviceHint where
  | untold
  | noToken
  | token (presented : Str)
deriving DecidableEq

/-- The device a sign-in's options name. -/
def deviceHint (devices : Option Sealer) (options : Arg) (where_ : Str) :
    Except Failure DeviceHint :=
  let given (hint : DeviceHint) : Except Failure DeviceHint :=
    if devices.isSome then pure hint
    else throw <| .typeError <| where_ ++
      js ": a device was given, but janus() has no devices — pass devices: \x7b keys \x7d"
  match options with
  | .undefined => pure .untold
  | .null | .other => throw <| .typeError <| where_ ++
    js ": options must be \x7b device \x7d, or left out — the token goes under device"
  | .record r =>
    match r.field (js "device") with
    | .undefined => pure .untold
    | .null => given .noToken
    | .str presented => given (.token presented)
    | .other _ => throw <| .typeError <| where_ ++
      js ": options.device must be the device token the client holds, or null when it holds none"

/-- What a session-opening answer says of the device. -/
structure DeviceOutcome where
  newDevice : Bool
  deviceToken : Option Str

/-- Whether a session opening for `userId` comes from a new device, and the token the client keeps
from now on.  A sign-up is never new. -/
def deviceOutcome (macs : Macs) (devices : Option Sealer) (userId : Str) (hint : DeviceHint)
    (signUp : Bool) (drawn : Drawn) : DeviceOutcome :=
  match devices with
  | none => ⟨false, none⟩
  | some sealer =>
    let unknown : DeviceOutcome := ⟨!signUp, some (mintDeviceToken macs sealer userId drawn)⟩
    match hint with
    | .untold => ⟨false, none⟩
    | .noToken => unknown
    | .token presented =>
      if signUp then unknown
      else
        match knownDeviceToken macs sealer userId presented with
        | some known => ⟨false, some known⟩
        | none => unknown

/-! ## A token read -/

section Token

variable {macs : Macs} {sealer : Sealer} {userId deviceId presented : Str} {parts : Parts}

theorem isField_notMem {n : ℕ} {text : Str} (h : isField n text = true) :
    (46 : CodeUnit) ∉ text ∧ (0 : CodeUnit) ∉ text := by
  rw [isField, Bool.and_eq_true, List.all_eq_true] at h
  exact ⟨fun hmem => absurd (h.2 _ hmem) (by decide), fun hmem => absurd (h.2 _ hmem) (by decide)⟩

theorem isField_toBase64url {bytes : List Byte} {n : ℕ} (h : (4 * bytes.length + 2) / 3 = n) :
    isField n (toBase64url bytes) = true := by
  rw [isField, length_toBase64url, h, Bool.and_eq_true, List.all_eq_true]
  exact ⟨decide_eq_true rfl, fun u hu => isBase64urlUnit_of_mem hu⟩

/-- A token written. -/
def Parts.text (parts : Parts) : Str :=
  [(46 : CodeUnit)].intercalate [js "d1", parts.keyId, parts.deviceId, parts.mac]

/-- **A token is read in one way.** -/
theorem parseToken_eq_some :
    parseToken presented = some parts ↔ parts.isToken = true ∧ presented = parts.text := by
  constructor
  · intro h
    rw [parseToken] at h
    split at h
    case h_2 => cases h
    case h_1 version keyId deviceId mac hsplit =>
      split at h
      case isFalse => cases h
      case isTrue hversion =>
        obtain ⟨heq, htoken⟩ := Option.filter_eq_some_iff.mp h
        cases heq
        refine ⟨htoken, ?_⟩
        rw [Parts.text, ← hversion, ← hsplit]
        exact (List.intercalate_splitOn _).symm
  · rintro ⟨htoken, rfl⟩
    have hsplit : parts.text.splitOn 46 = [js "d1", parts.keyId, parts.deviceId, parts.mac] := by
      rw [Parts.isToken, Bool.and_eq_true, Bool.and_eq_true] at htoken
      refine List.splitOn_intercalate 46 (fun part hpart => ?_) (by simp)
      simp only [List.mem_cons, List.not_mem_nil, or_false] at hpart
      rcases hpart with rfl | rfl | rfl | rfl
      · decide
      · exact isKeyId_notMem htoken.1.1
      · exact (isField_notMem htoken.1.2).1
      · exact (isField_notMem htoken.2).1
    rw [parseToken, hsplit]
    dsimp only
    rw [if_pos rfl, Option.filter_some_pos htoken]

/-- What is proven was read, and its MAC made again. -/
theorem provenParts_eq_some : provenParts macs sealer userId presented = some parts ↔
    parseToken presented = some parts ∧ ∃ key, derivedKey macs sealer parts.keyId = some key ∧
      fromBase64url parts.mac = macOf macs key userId parts.deviceId := by
  rw [provenParts]
  cases hparse : parseToken presented with
  | none => simp
  | some parts' =>
    dsimp only
    cases hkey : derivedKey macs sealer parts'.keyId with
    | none =>
      refine iff_of_false nofun ?_
      rintro ⟨heq, key, hkey', -⟩
      cases heq
      cases hkey.symm.trans hkey'
    | some key =>
      dsimp only
      constructor
      · intro h
        split at h
        case isTrue hmac =>
          cases h
          exact ⟨rfl, key, hkey, hmac⟩
        case isFalse => cases h
      · rintro ⟨heq, key', hkey', hmac⟩
        cases heq
        cases hkey.symm.trans hkey'
        exact if_pos hmac

theorem derivedKey_sealWith (macs : Macs) (sealer : Sealer) :
    derivedKey macs sealer sealer.sealWith = some (firstKey macs sealer) := by
  rw [derivedKey, ← Option.some_get sealer.sealWith_held, Option.map_some]
  rfl

/-- A token of this user on this device, under the first key. -/
def IsTokenOf (macs : Macs) (sealer : Sealer) (userId deviceId token : Str) : Prop :=
  ∃ mac, parseToken token = some ⟨sealer.sealWith, deviceId, mac⟩ ∧
    fromBase64url mac = macOf macs (firstKey macs sealer) userId deviceId

/-- **A token signed is read as signed.** -/
theorem isTokenOf_signed (hnamed : sealer.Named) (hdevice : isField 22 deviceId = true) :
    IsTokenOf macs sealer userId deviceId (signed macs sealer userId deviceId) := by
  refine ⟨toBase64url (macOf macs (firstKey macs sealer) userId deviceId), ?_,
    fromBase64url_toBase64url _⟩
  refine parseToken_eq_some.mpr ⟨?_, ?_⟩
  · rw [Parts.isToken, hnamed _ sealer.sealWith_held, hdevice, Bool.and_self, Bool.true_and]
    exact isField_toBase64url (by rw [macOf, macs.length_hmacSha256])
  · rw [signed, Parts.text, show js "d1." = js "d1" ++ [46] from rfl, show js "." = [46] from rfl]
    simp [List.intercalate]

/-- A token minted is of the device drawn. -/
theorem isTokenOf_mintDeviceToken (hnamed : sealer.Named) (drawn : Drawn) :
    IsTokenOf macs sealer userId (toBase64url (List.ofFn drawn))
      (mintDeviceToken macs sealer userId drawn) :=
  isTokenOf_signed hnamed (isField_toBase64url (by rw [List.length_ofFn]))

/-- **The token handed back for a device known** is of the same device, under the first key. -/
theorem isTokenOf_known (hnamed : sealer.Named) {token : Str}
    (h : knownDeviceToken macs sealer userId presented = some token) :
    ∃ parts, provenParts macs sealer userId presented = some parts ∧
      IsTokenOf macs sealer userId parts.deviceId token := by
  obtain ⟨parts, hproven, rfl⟩ := Option.map_eq_some_iff.mp h
  refine ⟨parts, hproven, ?_⟩
  obtain ⟨hparse, key, hkey, hmac⟩ := provenParts_eq_some.mp hproven
  split
  case isTrue hfirst =>
    obtain rfl : firstKey macs sealer = key :=
      Option.some.inj ((derivedKey_sealWith macs sealer).symm.trans (hfirst ▸ hkey))
    exact ⟨parts.mac, by rw [hparse, ← hfirst], hmac⟩
  case isFalse =>
    obtain ⟨htoken, -⟩ := parseToken_eq_some.mp hparse
    rw [Parts.isToken, Bool.and_eq_true, Bool.and_eq_true] at htoken
    exact isTokenOf_signed hnamed htoken.1.2

/-- **Under later keys that still hold its key, a token is known.** -/
theorem IsTokenOf.proven {later : Sealer} {token : Str}
    (h : IsTokenOf macs sealer userId deviceId token) (hheld : StillHolds later sealer) :
    ∃ parts, provenParts macs later userId token = some parts ∧ parts.deviceId = deviceId := by
  obtain ⟨mac, hparse, hmac⟩ := h
  refine ⟨_, provenParts_eq_some.mpr ⟨hparse, firstKey macs sealer, ?_, hmac⟩, rfl⟩
  rw [← derivedKey_sealWith, derivedKey, derivedKey, hheld]

end Token

end Janus.Auth.Devices
