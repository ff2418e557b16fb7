import Janus.Auth.Devices

/-!
# Auth/KnownDevices — a device stays known through key rotations

A history is the sessions opened, each under the key list of its moment, by whoever presents
whatever. The MAC is ideal over a history (`Ideal`): what it was made or checked of is told by it,
and one accepted was made before.  What is known was then signed for this very user, as the text
signed is read in one way; and a token handed back is known as long as its key is held.
-/

namespace Janus.Auth.Devices

open Js Insertion

/-- A session opened: under which keys, for whom, and what was told of the device. -/
structure Opening where
  sealer : Sealer
  userId : Str
  hint : DeviceHint
  signUp : Bool
  drawn : Drawn

/-- What a MAC is made of. -/
structure Signing where
  key : List Byte
  userId : Str
  deviceId : Str

variable {macs : Macs}

def Signing.mac (macs : Macs) (s : Signing) : List Byte := macOf macs s.key s.userId s.deviceId

def Opening.outcome (macs : Macs) (o : Opening) : DeviceOutcome :=
  deviceOutcome macs (some o.sealer) o.userId o.hint o.signUp o.drawn

/-- The token an opening checks: none of a sign-up. -/
def Opening.presented (o : Opening) : Option Str :=
  match o.hint with
  | .token presented => if o.signUp then none else some presented
  | _ => none

/-- What it names, when it proves the user signed in on the device before. -/
def Opening.proven (macs : Macs) (o : Opening) : Option Parts :=
  o.presented.bind (provenParts macs o.sealer o.userId)

/-- What an opening signs: a device never seen, or one known under an older key. -/
def Opening.signing (macs : Macs) (o : Opening) : Option Signing :=
  if o.hint = .untold then none
  else
    match o.proven macs with
    | none => some ⟨firstKey macs o.sealer, o.userId, toBase64url (List.ofFn o.drawn)⟩
    | some parts =>
      if parts.keyId = o.sealer.sealWith then none
      else some ⟨firstKey macs o.sealer, o.userId, parts.deviceId⟩

/-- What it compares a token presented with. -/
def Opening.checking (macs : Macs) (o : Opening) : Option Signing := do
  let presented ← o.presented
  let parts ← parseToken presented
  let key ← derivedKey macs o.sealer parts.keyId
  pure ⟨key, o.userId, parts.deviceId⟩

/-- What a history signed. -/
def made (macs : Macs) (history : List Opening) : List Signing := history.filterMap (·.signing macs)

/-- Every MAC of a history. -/
def maced (macs : Macs) (history : List Opening) : List Signing :=
  history.flatMap fun o => (o.signing macs).toList ++ (o.checking macs).toList

/-- **An ideal MAC**, over a history: no two keys and texts share one, and nobody computes one. -/
structure Ideal (macs : Macs) (history : List Opening) : Prop where
  injective : ∀ s ∈ maced macs history, ∀ s' ∈ maced macs history, s.mac macs = s'.mac macs →
    s.key = s'.key ∧ signedText s.userId s.deviceId = signedText s'.userId s'.deviceId
  unforged : ∀ before o after parts, history = before ++ o :: after → o.proven macs = some parts →
    ∃ s ∈ made macs before, s.mac macs = fromBase64url parts.mac

/-! ## One opening -/

section Opening

variable {o : Opening} {s : Signing} {parts : Parts} {presented : Str}

theorem Opening.proven_eq_some : o.proven macs = some parts ↔ ∃ presented key,
    o.presented = some presented ∧ parseToken presented = some parts ∧
      derivedKey macs o.sealer parts.keyId = some key ∧
      fromBase64url parts.mac = macOf macs key o.userId parts.deviceId := by
  simp only [Opening.proven, Option.bind_eq_some_iff, provenParts_eq_some]
  exact ⟨fun ⟨p, hp, hparse, key, h⟩ => ⟨p, key, hp, hparse, h⟩,
    fun ⟨p, key, hp, hparse, h⟩ => ⟨p, hp, hparse, key, h⟩⟩

/-- Told of the device, an opening knows it when it is proven, and mints a token otherwise. -/
theorem Opening.outcome_eq (htold : o.hint ≠ .untold) :
    o.outcome macs = match o.presented.bind (knownDeviceToken macs o.sealer o.userId) with
      | some known => ⟨false, some known⟩
      | none => ⟨!o.signUp, some (mintDeviceToken macs o.sealer o.userId o.drawn)⟩ := by
  rw [Opening.outcome, Opening.presented]
  cases hhint : o.hint with
  | untold => exact absurd hhint htold
  | noToken => rfl
  | token presented => cases o.signUp <;> rfl

theorem Opening.told (h : o.presented = some presented) : o.hint ≠ .untold := fun hhint => by
  rw [Opening.presented, hhint] at h
  cases h

/-- **A presentation is of a known device when it is proven.** -/
theorem Opening.newDevice_eq_false (h : o.presented = some presented) :
    (o.outcome macs).newDevice = false ↔ ∃ parts, o.proven macs = some parts := by
  have hsignIn : o.signUp = false := by
    cases hsignUp : o.signUp with
    | false => rfl
    | true =>
      rw [Opening.presented, hsignUp] at h
      split at h <;> cases h
  rw [Opening.outcome_eq (Opening.told h), Opening.proven, h, Option.bind_some, Option.bind_some,
    knownDeviceToken, hsignIn]
  cases provenParts macs o.sealer o.userId presented <;> simp

/-- **The token handed back** is of one device under the first key, and its MAC was made or checked;
a device known is the one presented, and any other is signed. -/
theorem Opening.exists_token (hnamed : o.sealer.Named) (htold : o.hint ≠ .untold) :
    ∃ deviceId token, (o.outcome macs).deviceToken = some token ∧
      IsTokenOf macs o.sealer o.userId deviceId token ∧
      ⟨firstKey macs o.sealer, o.userId, deviceId⟩ ∈
        (o.signing macs).toList ++ (o.checking macs).toList ∧
      (∀ parts, o.proven macs = some parts → parts.deviceId = deviceId) ∧
      ∀ s, o.signing macs = some s → s = ⟨firstKey macs o.sealer, o.userId, deviceId⟩ := by
  rw [Opening.outcome_eq htold, Opening.signing, if_neg htold]
  cases hpresented : o.presented with
  | none =>
    have hproven : o.proven macs = none := by rw [Opening.proven, hpresented, Option.bind_none]
    rw [hproven]
    refine ⟨_, _, rfl, isTokenOf_mintDeviceToken hnamed o.drawn, ?_, nofun, ?_⟩
    · exact List.mem_append_left _ (List.mem_singleton_self _)
    · rintro s ⟨⟩
      rfl
  | some presented =>
    have hproven : o.proven macs = provenParts macs o.sealer o.userId presented := by
      rw [Opening.proven, hpresented, Option.bind_some]
    rw [Option.bind_some]
    cases hknown : knownDeviceToken macs o.sealer o.userId presented with
    | none =>
      rw [hproven, Option.map_eq_none_iff.mp hknown]
      refine ⟨_, _, rfl, isTokenOf_mintDeviceToken hnamed o.drawn, ?_, nofun, ?_⟩
      · exact List.mem_append_left _ (List.mem_singleton_self _)
      · rintro s ⟨⟩
        rfl
    | some token =>
      obtain ⟨parts, hparts, htoken⟩ := isTokenOf_known hnamed hknown
      rw [hproven, hparts]
      refine ⟨parts.deviceId, token, rfl, htoken, ?_, ?_, ?_⟩
      · -- A token already under the first key is checked with it, and any other is signed.
        dsimp only
        split
        case isTrue hfirst =>
          obtain ⟨hparse, key, hkey, -⟩ := provenParts_eq_some.mp hparts
          have hchecking : o.checking macs = some ⟨key, o.userId, parts.deviceId⟩ := by
            simp [Opening.checking, hpresented, hparse, hkey]
          rw [hfirst, derivedKey_sealWith] at hkey
          cases hkey
          rw [hchecking]
          exact List.mem_append_right _ (List.mem_singleton_self _)
        case isFalse => exact List.mem_append_left _ (List.mem_singleton_self _)
      · rintro parts' ⟨⟩
        rfl
      · intro s hs
        dsimp only at hs
        split at hs <;> cases hs
        rfl

/-- What is signed is handed back. -/
theorem Opening.token_of_signing (h : o.signing macs = some s) :
    s.key = firstKey macs o.sealer ∧ s.userId = o.userId ∧
      (o.outcome macs).deviceToken = some (signed macs o.sealer s.userId s.deviceId) := by
  rw [Opening.signing] at h
  split at h
  case isTrue => cases h
  case isFalse htold =>
    rw [Opening.outcome_eq htold]
    rw [Opening.proven] at h
    cases hpresented : o.presented with
    | none =>
      rw [hpresented] at h
      cases h
      exact ⟨rfl, rfl, rfl⟩
    | some presented =>
      rw [hpresented, Option.bind_some] at h
      rw [Option.bind_some, knownDeviceToken]
      cases hproven : provenParts macs o.sealer o.userId presented with
      | none =>
        rw [hproven] at h
        cases h
        exact ⟨rfl, rfl, rfl⟩
      | some parts =>
        rw [hproven] at h
        dsimp only at h
        split at h
        case isTrue => cases h
        case isFalse hfirst =>
          cases h
          rw [Option.map_some, if_neg hfirst]
          exact ⟨rfl, rfl, rfl⟩

/-- What a token is compared with, once proven. -/
theorem Opening.checking_of_proven (h : o.proven macs = some parts) :
    ∃ key, o.checking macs = some ⟨key, o.userId, parts.deviceId⟩ ∧
      derivedKey macs o.sealer parts.keyId = some key ∧
      fromBase64url parts.mac = macOf macs key o.userId parts.deviceId := by
  obtain ⟨presented, key, hpresented, hparse, hkey, hmac⟩ := Opening.proven_eq_some.mp h
  exact ⟨key, by simp [Opening.checking, hpresented, hparse, hkey], hkey, hmac⟩

end Opening

/-! ## A history -/

section History

variable {history before after : List Opening} {o : Opening} {s : Signing} {parts : Parts}
  {presented : Str}

/-- The text signed is read in one way: a device id holds no NUL. -/
theorem signedText_inj {userId userId' deviceId deviceId' : Str} (h : isField 22 deviceId = true)
    (h' : isField 22 deviceId' = true)
    (heq : signedText userId deviceId = signedText userId' deviceId') :
    userId = userId' ∧ deviceId = deviceId' := by
  refine append_cons_inj' (isField_notMem h).2 (isField_notMem h').2 ?_
  simpa [signedText, List.intercalate] using heq

theorem IsTokenOf.isField {sealer : Sealer} {userId deviceId token : Str}
    (h : IsTokenOf macs sealer userId deviceId token) : isField 22 deviceId = true := by
  obtain ⟨mac, hparse, -⟩ := h
  obtain ⟨htoken, -⟩ := parseToken_eq_some.mp hparse
  rw [Parts.isToken, Bool.and_eq_true, Bool.and_eq_true] at htoken
  exact htoken.1.2

theorem mem_maced (ho : o ∈ history)
    (h : s ∈ (o.signing macs).toList ++ (o.checking macs).toList) : s ∈ maced macs history :=
  List.mem_flatMap.mpr ⟨o, ho, h⟩

/-- What was made is of a device told by a field of the token. -/
theorem isField_of_mem_made (hnamed : ∀ o ∈ history, o.sealer.Named) (hsub : before ⊆ history)
    (h : s ∈ made macs before) : s ∈ maced macs history ∧ isField 22 s.deviceId = true := by
  obtain ⟨o, ho, hs⟩ := List.mem_filterMap.mp h
  have ho := hsub ho
  have htold : o.hint ≠ .untold := fun htold => by
    rw [Opening.signing, if_pos htold] at hs
    cases hs
  obtain ⟨deviceId, token, -, htoken, -, -, hsigning⟩ := Opening.exists_token (hnamed o ho) htold
  exact ⟨mem_maced ho (List.mem_append_left _ (Option.mem_toList.mpr hs)),
    hsigning s hs ▸ htoken.isField⟩

/-- **Known is made for this very user**, under the key named, and that key is held. -/
theorem Ideal.newDevice_eq_false (hideal : Ideal macs history)
    (hnamed : ∀ o ∈ history, o.sealer.Named) (hhistory : history = before ++ o :: after)
    (hpresented : o.presented = some presented) :
    (o.outcome macs).newDevice = false ↔
      ∃ parts key, parseToken presented = some parts ∧
        derivedKey macs o.sealer parts.keyId = some key ∧
        ⟨key, o.userId, parts.deviceId⟩ ∈ made macs before ∧
        fromBase64url parts.mac = macOf macs key o.userId parts.deviceId := by
  rw [Opening.newDevice_eq_false hpresented]
  constructor
  · rintro ⟨parts, hproven⟩
    obtain ⟨key, hchecking, hkey, hmac⟩ := Opening.checking_of_proven hproven
    obtain ⟨presented', -, hpresented', hparse, -⟩ := Opening.proven_eq_some.mp hproven
    cases hpresented.symm.trans hpresented'
    obtain ⟨s, hs, hsmac⟩ := hideal.unforged before o after parts hhistory hproven
    obtain ⟨hmaced, hfield⟩ := isField_of_mem_made hnamed (hhistory ▸ List.subset_append_left ..) hs
    have ho : o ∈ history := hhistory ▸ List.mem_append_right _ List.mem_cons_self
    obtain ⟨hkeys, htexts⟩ := hideal.injective s hmaced _
      (mem_maced ho (List.mem_append_right _ (Option.mem_toList.mpr hchecking))) (hsmac.trans hmac)
    obtain ⟨htoken, -⟩ := parseToken_eq_some.mp hparse
    rw [Parts.isToken, Bool.and_eq_true, Bool.and_eq_true] at htoken
    obtain ⟨huser, hdevice⟩ := signedText_inj hfield htoken.1.2 htexts
    have heq : s = ⟨key, o.userId, parts.deviceId⟩ := by
      cases s
      cases hkeys
      cases huser
      cases hdevice
      rfl
    exact ⟨parts, key, hparse, hkey, heq ▸ hs, hmac⟩
  · rintro ⟨parts, key, hparse, hkey, -, hmac⟩
    exact ⟨parts, Opening.proven_eq_some.mpr ⟨presented, key, hpresented, hparse, hkey, hmac⟩⟩

/-- A token handed back to another user is unknown. -/
theorem Ideal.newDevice_of_other (hideal : Ideal macs history)
    (hnamed : ∀ o ∈ history, o.sealer.Named) (ho : o ∈ history)
    (hpresented : o.presented = some presented) {e : Opening} (he : e ∈ history)
    (hother : e.userId ≠ o.userId) (htoken : (e.outcome macs).deviceToken = some presented) :
    (o.outcome macs).newDevice = true := by
  refine Bool.eq_true_of_not_eq_false fun hknown => ?_
  obtain ⟨parts, hproven⟩ := (Opening.newDevice_eq_false hpresented).mp hknown
  obtain ⟨key, hchecking, -, hmac⟩ := Opening.checking_of_proven hproven
  obtain ⟨presented', -, hpresented', hparse, -⟩ := Opening.proven_eq_some.mp hproven
  cases hpresented.symm.trans hpresented'
  have htold : e.hint ≠ .untold := fun htold => by
    rw [Opening.outcome, htold] at htoken
    cases htoken
  obtain ⟨deviceId, token, htoken', htokenOf, hmaced, -⟩ := Opening.exists_token (hnamed e he) htold
  cases htoken.symm.trans htoken'
  have hfield := htokenOf.isField
  obtain ⟨mac, hparse', hmac'⟩ := htokenOf
  cases hparse.symm.trans hparse'
  obtain ⟨-, htexts⟩ := hideal.injective _ (mem_maced he hmaced) _
    (mem_maced ho (List.mem_append_right _ (Option.mem_toList.mpr hchecking)))
    (hmac'.symm.trans hmac)
  exact hother (signedText_inj hfield hfield htexts).1

/-- A client presents the token it was given last, signing in under keys that still hold its key. -/
structure Continues (macs : Macs) (o o' : Opening) : Prop where
  user : o'.userId = o.userId
  presented : o'.presented = (o.outcome macs).deviceToken
  held : StillHolds o'.sealer o.sealer

/-- What is handed back is of the same device, and the device is known. -/
theorem Continues.known {o' : Opening} (h : Continues macs o o') (hnamed : o'.sealer.Named)
    {deviceId token : Str} (htoken : (o.outcome macs).deviceToken = some token)
    (htokenOf : IsTokenOf macs o.sealer o.userId deviceId token) :
    (o'.outcome macs).newDevice = false ∧ ∃ token', (o'.outcome macs).deviceToken = some token' ∧
      IsTokenOf macs o'.sealer o'.userId deviceId token' := by
  have hpresented := h.presented.trans htoken
  obtain ⟨parts, hparts, rfl⟩ := htokenOf.proven h.held
  have hproven : o'.proven macs = some parts := by
    rw [Opening.proven, hpresented, Option.bind_some, h.user, hparts]
  obtain ⟨deviceId, token', htoken', htokenOf', -, hdevice, -⟩ :=
    Opening.exists_token hnamed (Opening.told hpresented)
  obtain rfl := hdevice parts hproven
  exact ⟨(Opening.newDevice_eq_false hpresented).mpr ⟨parts, hproven⟩, token', htoken', htokenOf'⟩

/-- **Along the chain**, by induction on it: every later opening is of the known device. -/
theorem known_of_continues {first : Opening} {rest : List Opening}
    (hchain : (first :: rest).IsChain (Continues macs))
    (hnamed : ∀ o ∈ rest, o.sealer.Named) {deviceId token : Str}
    (htoken : (first.outcome macs).deviceToken = some token)
    (htokenOf : IsTokenOf macs first.sealer first.userId deviceId token) :
    ∀ o ∈ rest, (o.outcome macs).newDevice = false ∧
      ∃ token', (o.outcome macs).deviceToken = some token' ∧
        IsTokenOf macs o.sealer o.userId deviceId token' := by
  induction rest generalizing first token with
  | nil => exact nofun
  | cons o rest ih =>
    obtain ⟨hcontinues, hchain⟩ := List.isChain_cons_cons.mp hchain
    obtain ⟨hknown, token', htoken', htokenOf'⟩ :=
      hcontinues.known (hnamed o List.mem_cons_self) htoken htokenOf
    rintro o' ho'
    rcases List.mem_cons.mp ho' with rfl | ho'
    · exact ⟨hknown, token', htoken', htokenOf'⟩
    · exact ih hchain (fun o ho => hnamed o (List.mem_cons_of_mem _ ho)) htoken' htokenOf' o' ho'

end History

/-- **A device stays known through key rotations.**  Over every history of key lists and of sessions
opened, whoever presents whatever: a presentation is of a known device if and only if it has a
token's form, its device was signed for that very user under the key it names, which is still held,
and its MAC is the one made then; what is signed is handed back; the token handed back for a device
known is of that device; a client that presents the last token it was given, under keys that still
hold the token's, is known at every later sign-in, by one device id; a malformed string, and a token
of another user, is unknown; and no string given for a device is refused. -/
theorem device_stays_known {history : List Opening} (hideal : Ideal macs history)
    (hnamed : ∀ o ∈ history, o.sealer.Named) :
    (∀ before o after presented, history = before ++ o :: after → o.presented = some presented →
      ((o.outcome macs).newDevice = false ↔
        ∃ parts key, parseToken presented = some parts ∧
          derivedKey macs o.sealer parts.keyId = some key ∧
          ⟨key, o.userId, parts.deviceId⟩ ∈ made macs before ∧
          fromBase64url parts.mac = macOf macs key o.userId parts.deviceId)) ∧
    (∀ o ∈ history, ∀ s, o.signing macs = some s →
      s.key = firstKey macs o.sealer ∧ s.userId = o.userId ∧
        (o.outcome macs).deviceToken = some (signed macs o.sealer s.userId s.deviceId)) ∧
    (∀ o ∈ history, ∀ presented, o.presented = some presented → (o.outcome macs).newDevice = false →
      ∃ parts token, parseToken presented = some parts ∧ (o.outcome macs).deviceToken = some token ∧
        IsTokenOf macs o.sealer o.userId parts.deviceId token) ∧
    (∀ first rest, (first :: rest).Sublist history → first.hint ≠ .untold →
      (first :: rest).IsChain (Continues macs) →
      (∀ o ∈ rest, (o.outcome macs).newDevice = false) ∧
      ∃ deviceId, ∀ o ∈ first :: rest, ∃ token, (o.outcome macs).deviceToken = some token ∧
        IsTokenOf macs o.sealer o.userId deviceId token) ∧
    (∀ o ∈ history, ∀ presented, o.presented = some presented →
      (parseToken presented = none → (o.outcome macs).newDevice = true) ∧
      ∀ e ∈ history, e.userId ≠ o.userId → (e.outcome macs).deviceToken = some presented →
        (o.outcome macs).newDevice = true) ∧
    ∀ sealer r presented where_, r.field (js "device") = .str presented →
      deviceHint (some sealer) (.record r) where_ = .ok (.token presented) := by
  refine ⟨fun before o after presented hhistory hpresented =>
      hideal.newDevice_eq_false hnamed hhistory hpresented,
    fun o _ s hs => Opening.token_of_signing hs, ?_, ?_, ?_, ?_⟩
  · intro o ho presented hpresented hknown
    obtain ⟨parts, hproven⟩ := (Opening.newDevice_eq_false hpresented).mp hknown
    obtain ⟨presented', -, hpresented', hparse, -⟩ := Opening.proven_eq_some.mp hproven
    cases hpresented.symm.trans hpresented'
    obtain ⟨deviceId, token, htoken, htokenOf, -, hdevice, -⟩ :=
      Opening.exists_token (hnamed o ho) (Opening.told hpresented)
    obtain rfl := hdevice parts hproven
    exact ⟨parts, token, hparse, htoken, htokenOf⟩
  · intro first rest hsub htold hchain
    have hclient : ∀ o ∈ first :: rest, o.sealer.Named := fun o ho => hnamed o (hsub.mem ho)
    obtain ⟨deviceId, token, htoken, htokenOf, -⟩ :=
      Opening.exists_token (hclient first List.mem_cons_self) htold
    have hrest := known_of_continues hchain (fun o ho => hclient o (List.mem_cons_of_mem _ ho))
      htoken htokenOf
    refine ⟨fun o ho => (hrest o ho).1, deviceId, fun o ho => ?_⟩
    rcases List.mem_cons.mp ho with rfl | ho
    · exact ⟨token, htoken, htokenOf⟩
    · exact (hrest o ho).2
  · intro o ho presented hpresented
    refine ⟨fun hmalformed => Bool.eq_true_of_not_eq_false fun hknown => ?_,
      fun e he hother htoken =>
      hideal.newDevice_of_other hnamed ho hpresented he hother htoken⟩
    obtain ⟨parts, hproven⟩ := (Opening.newDevice_eq_false hpresented).mp hknown
    obtain ⟨presented', -, hpresented', hparse, -⟩ := Opening.proven_eq_some.mp hproven
    cases hpresented.symm.trans hpresented'
    cases hmalformed.symm.trans hparse
  · intro sealer r presented where_ hdevice
    rw [deviceHint]
    dsimp only
    rw [hdevice]
    rfl

/-! ## Ada's device, through a rotation -/

/-- A MAC that is its key and its text, as far as 32 bytes hold them. -/
def plainMacs : Macs where
  hmacSha256 key text := (key ++ bytesOf text ++ List.replicate 32 0).take 32
  hkdfSha256 secret _ := secret
  length_hmacSha256 key text := by
    simp only [List.length_take, List.length_append, List.length_replicate]
    omega

/-- Ada signs in, and again after the rotation, with the token she was given; Bob presents hers. -/
def firstSignIn : Opening := ⟨formerKeys, js "ada", .noToken, false, fun i => Fin.ofNat 256 i.val⟩

def secondSignIn : Opening :=
  ⟨rotatedKeys, js "ada", .token ((firstSignIn.outcome plainMacs).deviceToken.getD []), false,
    fun _ => 7⟩

def bobsSignIn : Opening :=
  ⟨rotatedKeys, js "bob", .token ((secondSignIn.outcome plainMacs).deviceToken.getD []), false,
    fun _ => 9⟩

/-- Hers is known, and his is not. -/
theorem device_stays_known_to_ada :
    (secondSignIn.outcome plainMacs).newDevice = false ∧
      (bobsSignIn.outcome plainMacs).newDevice = true := by
  have hnamed : formerKeys.Named ∧ rotatedKeys.Named := by
    constructor
    all_goals
      intro id hid
      obtain ⟨secret, hget⟩ := Option.isSome_iff_exists.mp hid
      have hmem := mem_of_get hget
      simp only [formerKeys, rotatedKeys, List.mem_cons, Prod.mk.injEq, List.not_mem_nil,
        or_false] at hmem
    · rw [hmem.1]
      rfl
    · rcases hmem with ⟨rfl, -⟩ | ⟨rfl, -⟩ <;> rfl
  have hfirst : firstSignIn.proven plainMacs = none := rfl
  have hsecond : (secondSignIn.proven plainMacs).map (fun parts => fromBase64url parts.mac) =
      (firstSignIn.signing plainMacs).map (Signing.mac plainMacs) := by decide +kernel
  have hbobs : (bobsSignIn.proven plainMacs).isNone = true := by decide +kernel
  have hideal : Ideal plainMacs [firstSignIn, secondSignIn, bobsSignIn] := by
    refine ⟨by decide +kernel, fun before o after parts hhistory hproven => ?_⟩
    rcases before with _ | ⟨o₁, _ | ⟨o₂, _ | ⟨o₃, before⟩⟩⟩
    · obtain ⟨rfl, -⟩ := List.cons.inj hhistory
      cases hfirst.symm.trans hproven
    · obtain ⟨heq, hhistory⟩ := List.cons.inj hhistory
      obtain ⟨rfl, -⟩ := List.cons.inj hhistory
      rw [hproven, Option.map_some] at hsecond
      obtain ⟨s, hs, hmac⟩ := Option.map_eq_some_iff.mp hsecond.symm
      exact ⟨s, List.mem_filterMap.mpr ⟨_, List.mem_singleton_self _, heq ▸ hs⟩, hmac⟩
    · obtain ⟨-, hhistory⟩ := List.cons.inj hhistory
      obtain ⟨-, hhistory⟩ := List.cons.inj hhistory
      obtain ⟨rfl, -⟩ := List.cons.inj hhistory
      rw [hproven] at hbobs
      cases hbobs
    · simp at hhistory
  have hhistory : ∀ o ∈ [firstSignIn, secondSignIn, bobsSignIn], o.sealer.Named := by
    intro o ho
    simp only [List.mem_cons, List.not_mem_nil, or_false] at ho
    rcases ho with rfl | rfl | rfl
    · exact hnamed.1
    · exact hnamed.2
    · exact hnamed.2
  obtain ⟨-, -, -, hchain, hother, -⟩ := device_stays_known hideal hhistory
  have hcontinues : Continues plainMacs firstSignIn secondSignIn := ⟨rfl, rfl, rfl⟩
  refine ⟨(hchain firstSignIn [secondSignIn] ?_ (by simp [firstSignIn]) ?_).1 _
    (List.mem_singleton_self _), ?_⟩
  · exact List.sublist_append_left [firstSignIn, secondSignIn] [bobsSignIn]
  · exact List.isChain_cons_cons.mpr ⟨hcontinues, List.IsChain.singleton _⟩
  · exact (hother bobsSignIn (by simp) _ rfl).2 secondSignIn (by simp) (by decide) rfl

end Janus.Auth.Devices
