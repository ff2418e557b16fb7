import Janus.Js.Date
import Janus.Js.Json
import Janus.Js.Utf8
import Janus.Js.Value
import Janus.Webhooks.Queue
import Mathlib.Algebra.Order.Group.Unbundled.Abs
import Mathlib.Algebra.Order.Ring.Rat

/-!
# Webhooks/Signature — an event written, signed, posted; a request verified

The signature covers `id.timestamp.body`, joined as they are: what keeps the three apart is not the
join but the body, which only an event's is (`Webhooks/Verified`).
-/

namespace Janus.Webhooks

open Js

/-- A unit of a header's lower-case name. -/
def isLowerUnit (u : CodeUnit) : Bool := 97 ≤ u.val && u.val ≤ 122 || u = 45

/-- What the runtime lends: its MAC, which no two keys and messages share, `Buffer`'s base64, and
what it reads beyond the standard. -/
structure Runtime where
  hmacSha256 : List UInt8 → List UInt8 → List UInt8
  toBase64 : List UInt8 → Str
  fromBase64 : Str → List UInt8
  toLowerCase : Str → Str
  otherDate : Str → Option ℤ
  hmac_injective {key key' message message' : List UInt8}
    (h : hmacSha256 key message = hmacSha256 key' message') : key = key' ∧ message = message'
  space_notMem_toBase64 (bytes : List UInt8) : (32 : CodeUnit) ∉ toBase64 bytes
  toLowerCase_lower {name : Str} (h : name.all isLowerUnit) : toLowerCase name = name

/-- What was thrown: a `TypeError`, by its message. -/
abbrev Thrown := Str

/-! ## The event types -/

/-- `USER_EVENT_TYPES`. -/
def userEventTypes : List Str :=
  [js "user.created", js "user.emailVerified", js "user.passwordReset", js "user.passwordChanged",
    js "user.emailChanged", js "user.secondFactorEnabled", js "user.secondFactorDisabled",
    js "user.recoveryCodesRegenerated", js "user.recoveryCodeUsed", js "user.newDeviceSignedIn",
    js "user.avatarChanged", js "user.avatarRemoved", js "user.deleted"]

def isUserEventType (value : Str) : Bool := value ∈ userEventTypes

/-! ## The secrets -/

/-- `text.replace(/=+$/, '')`. -/
def dropPads (text : Str) : Str := (text.reverse.dropWhile (· = 61)).reverse

/-- The key a secret holds, or a wiring refusal. -/
def keyOf (rt : Runtime) (secret : Value) (where_ : Str) : Except Thrown (List UInt8) :=
  match secret.asString.filter fun text => (js "whsec_").isPrefixOf text with
  | none => throw <|
    where_ ++ js ": a secret is written whsec_<base64> — make one with mintWebhookSecret()"
  | some text =>
    let encoded := text.drop 6
    let key := rt.fromBase64 encoded
    if key.length < 24 ∨ dropPads (rt.toBase64 key) ≠ dropPads encoded then throw <|
      where_ ++ js ": a secret holds at least 24 bytes of base64 after whsec_ — " ++
        js "make one with mintWebhookSecret()"
    else if 64 < key.length then throw <|
      where_ ++ js ": a secret holds at most 64 bytes of base64 after whsec_ — " ++
        js "make one with mintWebhookSecret()"
    else pure key

/-! ## The signature -/

/-- `String(n)`, of an integer. -/
def numberText (n : ℤ) : Str := if n < 0 then 45 :: decimal n.natAbs else decimal n.toNat

/-- What a signature covers. -/
def signedText (webhookId : Str) (timestamp : ℤ) (body : Str) : Str :=
  webhookId ++ 46 :: (numberText timestamp ++ 46 :: body)

/-- A signature, as it is sent. -/
def signature (rt : Runtime) (mac : List UInt8) : Str := js "v1," ++ rt.toBase64 mac

/-- One `v1,<base64>` signature of a message, by one key. -/
def sign (rt : Runtime) (key : List UInt8) (webhookId : Str) (timestamp : ℤ) (body : Str) : Str :=
  signature rt (rt.hmacSha256 key (utf8 (signedText webhookId timestamp body)))

/-- Whether the header holds a `v1` signature of the message by one of the keys. -/
def signedBy (rt : Runtime) (keys : List (List UInt8)) (header webhookId : Str) (timestamp : ℤ)
    (body : Str) : Bool :=
  let given := ((header.splitOn 32).filter fun one => (js "v1,").isPrefixOf one).map utf8
  keys.any fun key =>
    let expected := utf8 (sign rt key webhookId timestamp body)
    given.any fun signature => signature.length = expected.length ∧ signature = expected

/-! ## What is sent -/

/-- `JSON.stringify`, of an object whose fields are written. -/
def writeObject (fields : List (Str × Str)) : Str :=
  123 :: ([44].intercalate (fields.map fun field => Json.quote field.1 ++ 58 :: field.2) ++ [125])

/-- The body of a webhook. -/
def bodyOf (event : UserEvent) : Str :=
  writeObject
    [(js "type", Json.quote event.type),
      (js "timestamp", Json.quote (Date.toISOString event.occurredAt)),
      (js "data", writeObject
        [(js "userId", Json.quote event.userId), (js "userType", Json.quote event.userType)])]

/-- What the listener is given: `occurredAt`, when it is a valid date. -/
structure Given where
  id : Value
  type : Value
  occurredAt : Option { t : ℤ // Date.IsMoment t }
  userId : Value
  userType : Value

/-- The five fields of an event the listener takes: what `bodyFor` checks, and `deliverable` keeps.
-/
def deliverable (given : Given) (where_ : Str) : Except Thrown UserEvent :=
  match given.type.asString.filter isUserEventType, given.id.asString, given.userId.asString,
    given.userType.asString with
  | some type, some id, some userId, some userType =>
    match given.occurredAt with
    | some at_ => pure ⟨id, type, at_, userId, userType⟩
    | none => throw (where_ ++ js ": an event's occurredAt is a valid Date")
  | _, _, _, _ => throw <|
    where_ ++ js ": the listener takes a user event — an id, one of " ++
      (js ", ").intercalate userEventTypes ++ js ", a userId and a userType"

def bodyFor (given : Given) (where_ : Str) : Except Thrown Str :=
  bodyOf <$> deliverable given where_

/-- A header of a record: its value, or the values it was repeated with. -/
inductive HeaderValue where
  | one (value : Str)
  | many (values : List Str)
  | absent

/-- The headers of a request: a fetch `Headers`, by what it answers, or a record. -/
inductive HeadersLike where
  | headers (get : Str → Option Str)
  | record (entries : List (Str × HeaderValue))

/-- The headers `post` sends, at a moment in milliseconds. -/
def postHeaders (rt : Runtime) (keys : List (List UInt8)) (event : UserEvent)
    (body : Str) (now : ℤ) :
    HeadersLike :=
  let timestamp := now / 1000
  let signatures := [32].intercalate (keys.map fun key => sign rt key event.id timestamp body)
  .record
    [(js "content-type", .one (js "application/json")),
      (js "webhook-id", .one event.id),
      (js "webhook-timestamp", .one (numberText timestamp)),
      (js "webhook-signature", .one signatures)]

/-! ## What is verified -/

/-- One header by its lower-case name, whatever the case of the record's keys. -/
def header (rt : Runtime) (name : Str) : HeadersLike → Option Str
  | .headers get => get name
  | .record entries =>
    match entries.find? fun entry => rt.toLowerCase entry.1 = name with
    | some (_, .one value) => some value
    | some (_, .many values) => some ([32].intercalate values)
    | _ => none

/-- `Number(stamp)`, of one to twelve digits. -/
def stampOf (stamp : Str) : Option ℕ :=
  if 1 ≤ stamp.length ∧ stamp.length ≤ 12 ∧ stamp.all Json.isDecimal then
    some (stamp.foldl (fun n u => 10 * n + (u.val - 48)) 0)
  else none

/-- The event a signed body holds, read field by field; nothing for anything else. -/
def eventOf (rt : Runtime) (id body : Str) : Option UserEvent := do
  let parsed ← Json.parse body
  let .str type ← parsed.field (js "type") | none
  if !isUserEventType type then none
  let .str timestamp ← parsed.field (js "timestamp") | none
  let occurredAt ← Date.parse rt.otherDate timestamp
  let data ← parsed.field (js "data")
  let .str userId ← data.field (js "userId") | none
  let .str userType ← data.field (js "userType") | none
  pure { id, type, occurredAt, userId, userType }

/-- What `verifyWebhook` is passed: `secrets` when it is an array, `toleranceSeconds` when it is
passed, a finite number or not, and `now`, a valid date or not. -/
structure VerifyOptions where
  secrets : Option (List Value)
  headers : HeadersLike
  body : Str
  toleranceSeconds : Option (Option ℚ) := none
  now : Option (Option ℤ) := none

/-- Nothing, but for a request signed with one of the keys, within the tolerance of a second. -/
def verified (rt : Runtime) (keys : List (List UInt8)) (tolerance : ℚ) (now : ℤ)
    (headers : HeadersLike)
    (body : Str) : Option UserEvent := do
  let id ← header rt (js "webhook-id") headers
  let stamp ← header rt (js "webhook-timestamp") headers
  let signature ← header rt (js "webhook-signature") headers
  let timestamp ← stampOf stamp
  if tolerance < |now - timestamp| then none
  else if signedBy rt keys signature id timestamp body then eventOf rt id body
  else none

/-- What was passed, or a wiring refusal. -/
def required {α : Type} (passed : Option α) (message : Str) : Except Thrown α :=
  match passed with
  | some a => pure a
  | none => throw (js "verifyWebhook: " ++ message)

/-- The user event a webhook carries, or nothing when it is not one these secrets signed; `clock` is
what `new Date()` reads. -/
def verifyWebhook (rt : Runtime) (options : VerifyOptions) (clock : ℤ) :
    Except Thrown (Option UserEvent) := do
  let secrets ← required (options.secrets.filter (· ≠ []))
    (js "pass the endpoint's secrets — at least one")
  let keys ← secrets.mapM fun secret => keyOf rt secret (js "verifyWebhook")
  let tolerance ← required ((options.toleranceSeconds.getD (some 300)).filter (0 ≤ ·))
    (js "toleranceSeconds is a finite number of seconds, 0 or more")
  let at_ ← required (options.now.getD (some clock)) (js "now is a valid Date")
  pure (verified rt keys tolerance (at_ / 1000) options.headers options.body)

end Janus.Webhooks
