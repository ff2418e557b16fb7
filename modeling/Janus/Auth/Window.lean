import Janus.Auth.Store

/-!
# Auth/Window — attempts counted by the store in fixed windows of the clock

A count is a chain of tokens of kind `secondFactor`, each the **link** of one hash.  A spent link
counts nothing more: `carry`, and the next one carries on from its attempts; `restart`, and the next
one starts from zero.
-/

namespace Janus.Auth

open Js Calls

/-- Past this link, the count of a `carry` window is past any limit. -/
def maxLinks : ℕ := 32

/-- Probes enough for `restart`. -/
def maxProbes : ℕ := 64

/-- What a spent link means. -/
inductive Spent where
  | carry
  | restart
deriving DecidableEq

/-- What is counted, and how.  A link's hash names it in its window. -/
structure AttemptWindow where
  windowMs : ℕ
  spent : Spent
  userId : Str
  linkHash : ℕ → ℕ → Str
  vanished : Failure
  linkHash_injective : ∀ window, Function.Injective (linkHash window)

/-- One attempt, counted: how many it makes — `none` is `Infinity` — and the link it was counted
on. -/
structure Counted where
  attempts : Option ℕ
  link : Option Str

/-- …and when its window ends. -/
structure CountedAttempt extends Counted where
  endsAt : Time

structure Links where
  counting : AttemptWindow
  window : ℕ
  now : Time
  expiresAt : Time

/-- The hash of a link of the window. -/
def Links.hash (links : Links) (link : ℕ) : Str := links.counting.linkHash links.window link

/-- A link, before it is counted on. -/
def Links.record (links : Links) (tokenHash : Str) : TokenRecord where
  tokenHash := tokenHash
  kind := .secondFactor
  userId := links.counting.userId
  address := []
  codeHash := none
  attempts := 0
  expiresAt := links.expiresAt
  spentAt := none
  createdAt := links.now

/-- A link stored, and counted. -/
def insertLink (links : Links) (tokenHash : Str) : Flow TokenRecord := do
  call (.insertToken (links.record tokenHash))
  match ← call (.countAttempt tokenHash .secondFactor) with
  | some inserted => pure inserted
  | none => Prog.fail links.counting.vanished

/-- One attempt on one link. -/
def countLink (links : Links) (tokenHash : Str) : Flow TokenRecord := do
  match ← call (.countAttempt tokenHash .secondFactor) with
  | some counted => pure counted
  | none => insertLink links tokenHash

/-- The links from `link`, `left` of them, each spent one's attempts carried on. -/
def carryFrom (links : Links) : (left link carried : ℕ) → Flow Counted
  | 0, _, _ => pure ⟨none, none⟩
  | left + 1, link, carried => do
    let counted ← countLink links (links.hash link)
    match counted.spentAt with
    | none => pure ⟨some (carried + counted.attempts), some (links.hash link)⟩
    | some _ => carryFrom links left (link + 1) (carried + counted.attempts)

/-- Every link from the first. -/
def countCarrying (links : Links) : Flow Counted := carryFrom links maxLinks 0 0

/-- The link probed next, from the highest known spent (`-1` for none) and one found absent. -/
def nextLink (spent : ℤ) (absent : Option ℤ) : ℤ :=
  match absent with
  | none => 2 * spent + 2
  | some absent => if absent = spent + 1 then absent else (spent + absent) / 2

/-- A link inserted, right after the one known spent, or only probed. -/
def probe (links : Links) (spent : ℤ) (absent : Option ℤ) (tokenHash : Str) :
    Flow (Option TokenRecord) :=
  if absent = some (spent + 1) then some <$> insertLink links tokenHash
  else call (.countAttempt tokenHash .secondFactor)

/-- What is known absent once `link` is found spent: a link above it. -/
def stillAbsent (link : ℤ) (absent : Option ℤ) : Option ℤ := absent.filter fun a => link < a

/-- The one unspent link, `probes` probes left. -/
def restartFrom (links : Links) : (probes : ℕ) → (spent : ℤ) → (absent : Option ℤ) → Flow Counted
  | 0, _, _ => Prog.fail links.counting.vanished
  | probes + 1, spent, absent => do
    let link := nextLink spent absent
    let hash := links.hash link.toNat
    match ← probe links spent absent hash with
    | none => restartFrom links probes spent (some link)
    | some counted =>
      match counted.spentAt with
      | none => pure ⟨some counted.attempts, some hash⟩
      | some _ => restartFrom links probes link (stillAbsent link absent)

/-- The one unspent link, found by probing. -/
def countRestarting (links : Links) : Flow Counted := restartFrom links maxProbes (-1) none

/-- The window a moment falls in, and its links. -/
def linksAt (counting : AttemptWindow) (now : Time) : Links :=
  let window := now / counting.windowMs
  { counting, window, now, expiresAt := (window + 2) * counting.windowMs }

/-- Counts one attempt in the current window. -/
def countInWindow (counting : AttemptWindow) : Flow CountedAttempt := do
  let now ← call .now
  let links := linksAt counting now
  let counted ← match counting.spent with
    | .carry => countCarrying links
    | .restart => countRestarting links
  pure { counted with endsAt := (links.window + 1) * counting.windowMs }

/-! ## What counting calls -/

section Only

variable {Ok : Call → Prop} {Z : Failure → Prop} {counting : AttemptWindow}

theorem only_insertLink {links : Links} {tokenHash : Str}
    (hcount : Ok (.countAttempt tokenHash .secondFactor))
    (hinsert : Ok (.insertToken (links.record tokenHash))) (hZ : Z links.counting.vanished) :
    Only Ok Z (insertLink links tokenHash) := by
  refine Only.bind (Only.perform hinsert) fun _ => Only.bind (Only.perform hcount) fun counted => ?_
  cases counted with
  | some t => exact Only.pure
  | none => exact Only.fail hZ

theorem only_carryFrom {links : Links}
    (hcount : ∀ link, Ok (.countAttempt (links.hash link) .secondFactor))
    (hinsert : ∀ link, Ok (.insertToken (links.record (links.hash link))))
    (hZ : Z links.counting.vanished) (left link carried : ℕ) :
    Only Ok Z (carryFrom links left link carried) := by
  induction left generalizing link carried with
  | zero => exact Only.pure
  | succ left ih =>
    refine Only.bind (Only.bind (Only.perform (hcount link)) fun counted => ?_) fun counted => ?_
    · cases counted with
      | some t => exact Only.pure
      | none => exact only_insertLink (hcount link) (hinsert link) hZ
    · split
      · exact Only.pure
      · exact ih ..

theorem only_restartFrom {links : Links}
    (hcount : ∀ link, Ok (.countAttempt (links.hash link) .secondFactor))
    (hinsert : ∀ link, Ok (.insertToken (links.record (links.hash link))))
    (hZ : Z links.counting.vanished) (probes : ℕ) (spent : ℤ) (absent : Option ℤ) :
    Only Ok Z (restartFrom links probes spent absent) := by
  induction probes generalizing spent absent with
  | zero => exact Only.fail hZ
  | succ probes ih =>
    refine Only.bind ?_ fun counted => ?_
    · rw [probe]
      split
      case isTrue => exact Only.map (only_insertLink (hcount _) (hinsert _) hZ)
      case isFalse => exact Only.perform (hcount _)
    · cases counted with
      | none => exact ih ..
      | some t =>
        dsimp only
        split
        · exact Only.pure
        · exact ih ..

/-- **What a count calls**: the clock, and its own links. -/
theorem only_countInWindow (hnow : Ok .now)
    (hcount : ∀ now link, Ok (.countAttempt ((linksAt counting now).hash link) .secondFactor))
    (hinsert : ∀ now link,
      Ok (.insertToken ((linksAt counting now).record ((linksAt counting now).hash link))))
    (hZ : Z counting.vanished) : Only Ok Z (countInWindow counting) := by
  refine Only.bind (Only.perform hnow) fun now => ?_
  dsimp only
  split
  · exact Only.bind (only_carryFrom (hcount now) (hinsert now) hZ ..) fun _ => Only.pure
  · exact Only.bind (only_restartFrom (hcount now) (hinsert now) hZ ..) fun _ => Only.pure

end Only

end Janus.Auth
