import Janus.Webhooks.Queue
import Mathlib.Data.List.Induction

/-!
# Webhooks/Pump — one pump at a time, woken from anywhere

A run of the pump passes over the queue, and passes again while it filled every slot or was woken
meanwhile.  Its end is two steps: the loop stops, and a later callback forgets the run; a wake
between the two starts nothing, and is read by nobody.
-/

namespace Janus.Webhooks

open Js

/-! ## The pump -/

structure PumpSettings where
  concurrency : ℕ
  endpoints : ℕ
  leaseMs : ℕ
  pollMs : ℕ
  /-- Whether the queue is the caller's, shared with other processes. -/
  durable : Bool

/-- The longest wait after a queue failure. -/
def backoffMax : ℕ := 30000

/-- What a pass asks of the queue. -/
structure ClaimAsked where
  first : ℕ
  now : Time
  leaseUntil : Time
  free : ℕ
deriving DecidableEq

/-- Where a run stands. -/
inductive RunStage where
  /-- A pass asked the queue for deliveries. -/
  | claiming (asked : ClaimAsked)
  /-- The pass ended: it was full, or not. -/
  | passed (full : Bool)
  /-- The loop ended, and the run is still the one under way. -/
  | ended
deriving DecidableEq

/-- What one pump remembers; `passes` counts the passes begun. -/
structure PumpState where
  pumping : Option RunStage := none
  again : Bool := false
  dueAtLeast : Time := 0
  saturated : Bool := false
  rotation : ℕ := 0
  backoff : ℕ := 0
  tick : Bool := false
  quiet : Bool := false
  stopped : Bool := false
  heldAt : Option Time := none
  claimedNothing : Bool := true
  passes : ℕ := 0
deriving DecidableEq

section Pump

variable (settings : PumpSettings)

/-- The next wake with no event to cause one: set, or not. -/
def arm (s : PumpState) : PumpState :=
  { s with tick := !(s.quiet || (!settings.durable && s.backoff = 0)) }

/-- A new pump. -/
def pumpOf : PumpState := arm settings {}

/-- A pass, to what it asks of the queue: nothing, with no slot free. -/
def pumpOnce (s : PumpState) (inFlight : ℕ) (clock : Time) : PumpState :=
  let s := { s with again := false, passes := s.passes + 1 }
  if settings.concurrency ≤ inFlight then
    { s with saturated := true, pumping := some (.passed false) }
  else
    let now := s.heldAt.getD (max clock s.dueAtLeast)
    { s with
      dueAtLeast := 0
      rotation := s.rotation + 1
      pumping := some <| .claiming
        { first := s.rotation % settings.endpoints
          now := now
          leaseUntil := now + settings.leaseMs
          free := settings.concurrency - inFlight } }

/-- The queue answers a pass: how many deliveries it claimed, or its failure. -/
def pumpAnswered (s : PumpState) (asked : ClaimAsked) : Option ℕ → PumpState
  | none =>
    { s with
      claimedNothing := true
      backoff := min (max (s.backoff * 2) settings.pollMs) backoffMax
      pumping := some (.passed false) }
  | some claimed =>
    { s with
      claimedNothing := claimed = 0
      backoff := 0
      saturated := asked.free ≤ claimed
      pumping := some (.passed (asked.free ≤ claimed)) }

/-- The loop, once a pass ended: it passes again, or ends. -/
def loopNext (s : PumpState) (full : Bool) (inFlight : ℕ) (clock : Time) : PumpState :=
  if s.stopped || !(full || s.again) then { arm settings s with pumping := some .ended }
  else pumpOnce settings s inFlight clock

def wake (s : PumpState) (at_ : Time) (inFlight : ℕ) (clock : Time) : PumpState :=
  if s.stopped then s
  else
    let s := { s with dueAtLeast := max s.dueAtLeast at_ }
    match s.pumping with
    | some _ => { s with again := true }
    | none => pumpOnce settings s inFlight clock

/-- A request ended. -/
def freed (s : PumpState) (inFlight : ℕ) (clock : Time) : PumpState :=
  if s.saturated then wake settings s 0 inFlight clock else s

/-- No timer is set any more. -/
def silence (s : PumpState) : PumpState := { s with quiet := true, tick := false }

/-- Everything that happens to a pump, each at once: what is called, and its own steps. -/
inductive PumpMove where
  | wake (at_ : Time) (inFlight : ℕ) (clock : Time)
  | freed (inFlight : ℕ) (clock : Time)
  | hold (at_ : Time)
  | quiet
  | stop
  /-- The timer goes off. -/
  | tick (inFlight : ℕ) (clock : Time)
  | answer (claimed : Option ℕ)
  | loop (inFlight : ℕ) (clock : Time)
  /-- The callback that forgets the run. -/
  | clear

def PumpMove.run (s : PumpState) : PumpMove → PumpState
  | .wake at_ inFlight clock => Webhooks.wake settings s at_ inFlight clock
  | .freed inFlight clock => Webhooks.freed settings s inFlight clock
  | .hold at_ => silence { s with heldAt := some at_ }
  | .quiet => silence s
  | .stop => { s with stopped := true }
  | .tick inFlight clock =>
    if s.tick then Webhooks.wake settings { s with tick := false } 0 inFlight clock else s
  | .answer claimed =>
    match s.pumping with
    | some (.claiming asked) => pumpAnswered settings s asked claimed
    | _ => s
  | .loop inFlight clock =>
    match s.pumping with
    | some (.passed full) => loopNext settings s full inFlight clock
    | _ => s
  | .clear => if s.pumping = some .ended then { s with pumping := none } else s

/-- A pump, after these. -/
def runPump (s : PumpState) (moves : List PumpMove) :
    PumpState := moves.foldl (PumpMove.run settings) s

/-- A call that wakes the pump: `wake`, or `freed` while it is saturated. -/
def Wakes (s : PumpState) : PumpMove → Prop
  | .wake .. => True
  | .freed .. => s.saturated = true
  | _ => False

/-! ## What a step does to a pass -/

section Pass

variable {settings} {s : PumpState}

/-- A pass begins: none asked the queue yet, and the pump is not stopped. -/
structure Begins (s s' : PumpState) : Prop where
  passes : s'.passes = s.passes + 1
  going : s.stopped = false
  asks : ∀ asked, s.pumping ≠ some (.claiming asked)

/-- …or none does: what the pass under way asked is left as it is. -/
structure Continues (s s' : PumpState) : Prop where
  passes : s'.passes = s.passes
  asks : ∀ asked, s'.pumping = some (.claiming asked) ↔ s.pumping = some (.claiming asked)

theorem passes_pumpOnce (s : PumpState) (inFlight : ℕ) (clock : Time) :
    (pumpOnce settings s inFlight clock).passes = s.passes + 1 := by
  rw [pumpOnce]
  split <;> rfl

theorem begins_or_continues_wake (s : PumpState) (at_ : Time) (inFlight : ℕ) (clock : Time) :
    Begins s (wake settings s at_ inFlight clock) ∨
    Continues s (wake settings s at_ inFlight clock) := by
  rw [Webhooks.wake]
  split
  case isTrue => exact Or.inr ⟨rfl, fun _ => Iff.rfl⟩
  case isFalse hgoing =>
    dsimp only
    split
    case h_1 => exact Or.inr ⟨rfl, fun _ => Iff.rfl⟩
    case h_2 hpumping =>
      exact Or.inl ⟨passes_pumpOnce .., Bool.eq_false_of_not_eq_true hgoing, fun asked h => by
        cases hpumping.symm.trans h⟩

theorem begins_or_continues (settings : PumpSettings) (move : PumpMove)
    (hmove : ∀ claimed, move ≠ .answer claimed) (s : PumpState) :
    Begins s (move.run settings s) ∨ Continues s (move.run settings s) := by
  cases move with
  | wake at_ inFlight clock => exact begins_or_continues_wake s at_ inFlight clock
  | freed inFlight clock =>
    rw [PumpMove.run, Webhooks.freed]
    split
    · exact begins_or_continues_wake s 0 inFlight clock
    · exact Or.inr ⟨rfl, fun _ => Iff.rfl⟩
  | hold | quiet | stop => exact Or.inr ⟨rfl, fun _ => Iff.rfl⟩
  | tick inFlight clock =>
    rw [PumpMove.run]
    split
    · rcases begins_or_continues_wake { s with tick := false } 0 inFlight clock with h | h
      · exact Or.inl ⟨h.passes, h.going, h.asks⟩
      · exact Or.inr ⟨h.passes, h.asks⟩
    · exact Or.inr ⟨rfl, fun _ => Iff.rfl⟩
  | answer claimed => exact absurd rfl (hmove claimed)
  | loop inFlight clock =>
    rw [PumpMove.run]
    split
    case h_1 full hpumping =>
      have hasks : ∀ asked, s.pumping ≠ some (.claiming asked) := fun asked h => by
        cases hpumping.symm.trans h
      rw [loopNext]
      split
      case isTrue => exact Or.inr ⟨rfl, fun asked => ⟨nofun, fun h => absurd h (hasks asked)⟩⟩
      case isFalse hgoing =>
        rw [Bool.or_eq_true, not_or] at hgoing
        exact Or.inl ⟨passes_pumpOnce .., Bool.eq_false_of_not_eq_true hgoing.1, hasks⟩
    case h_2 => exact Or.inr ⟨rfl, fun _ => Iff.rfl⟩
  | clear =>
    rw [PumpMove.run]
    split
    case isTrue hended =>
      refine Or.inr ⟨rfl, fun asked => ⟨nofun, fun h => ?_⟩⟩
      cases hended.symm.trans h
    case isFalse => exact Or.inr ⟨rfl, fun _ => Iff.rfl⟩

/-- The instants a call brings. -/
def PumpMove.instants : PumpMove → List Time
  | .wake at_ _ clock => [at_, clock]
  | .freed _ clock | .tick _ clock | .loop _ clock => [0, clock]
  | .hold at_ => [at_]
  | .quiet | .stop | .answer _ | .clear => []

/-- Everything a pump remembers is due by `soon`, and so is what it asks for. -/
structure DueBy (settings : PumpSettings) (soon : Time) (s : PumpState) : Prop where
  dueAtLeast : s.dueAtLeast ≤ soon
  heldAt : ∀ at_ ∈ s.heldAt, at_ ≤ soon
  asked : ∀ asked, s.pumping = some (.claiming asked) → asked.leaseUntil ≤ soon + settings.leaseMs

theorem DueBy.pumpOnce {soon : Time} (h : DueBy settings soon s) (inFlight : ℕ) {clock : Time}
    (hclock : clock ≤ soon) (hsoon : 0 ≤ soon) :
    DueBy settings soon (pumpOnce settings s inFlight clock) := by
  rw [Webhooks.pumpOnce]
  dsimp only
  split
  case isTrue => exact ⟨h.dueAtLeast, h.heldAt, nofun⟩
  case isFalse =>
    refine ⟨hsoon, h.heldAt, fun asked hasked => ?_⟩
    cases hasked
    refine Int.add_le_add_right ?_ _
    cases hheld : s.heldAt with
    | none => exact max_le hclock h.dueAtLeast
    | some at_ => exact h.heldAt at_ hheld

theorem DueBy.wake {soon : Time} (h : DueBy settings soon s) {at_ : Time} (inFlight : ℕ)
    {clock : Time}
    (hat : at_ ≤ soon) (hclock : clock ≤ soon) (hsoon : 0 ≤ soon) :
    DueBy settings soon (wake settings s at_ inFlight clock) := by
  rw [Webhooks.wake]
  split
  case isTrue => exact h
  case isFalse =>
    have hlater : DueBy settings soon { s with dueAtLeast := max s.dueAtLeast at_ } :=
      ⟨max_le h.dueAtLeast hat, h.heldAt, h.asked⟩
    dsimp only
    split
    case h_1 => exact ⟨hlater.dueAtLeast, h.heldAt, h.asked⟩
    case h_2 => exact hlater.pumpOnce inFlight hclock hsoon

/-- A step keeps it, when what it brings is due by then. -/
theorem DueBy.run {soon : Time} (h : DueBy settings soon s) (move : PumpMove)
    (hmove : ∀ t ∈ move.instants, t ≤ soon) (hsoon : 0 ≤ soon) :
    DueBy settings soon (move.run settings s) := by
  cases move with
  | wake at_ inFlight clock =>
    exact h.wake inFlight (hmove at_ (by simp [PumpMove.instants]))
      (hmove clock (by simp [PumpMove.instants]))
      hsoon
  | freed inFlight clock =>
    rw [PumpMove.run, Webhooks.freed]
    split
    · exact h.wake inFlight hsoon (hmove clock (by simp [PumpMove.instants])) hsoon
    · exact h
  | hold at_ =>
    refine ⟨h.dueAtLeast, fun t ht => ?_, h.asked⟩
    obtain rfl : at_ = t := by simpa [PumpMove.run, silence] using ht
    exact hmove at_ (by simp [PumpMove.instants])
  | quiet | stop => exact ⟨h.dueAtLeast, h.heldAt, h.asked⟩
  | tick inFlight clock =>
    rw [PumpMove.run]
    split
    · have h' : DueBy settings soon { s with tick := false } := ⟨h.dueAtLeast, h.heldAt, h.asked⟩
      exact h'.wake inFlight hsoon (hmove clock (by simp [PumpMove.instants])) hsoon
    · exact h
  | answer claimed =>
    rw [PumpMove.run]
    split
    · cases claimed <;> exact ⟨h.dueAtLeast, h.heldAt, nofun⟩
    · exact h
  | loop inFlight clock =>
    rw [PumpMove.run]
    split
    · rw [loopNext]
      split
      · exact ⟨h.dueAtLeast, h.heldAt, nofun⟩
      · exact h.pumpOnce inFlight (hmove clock (by simp [PumpMove.instants])) hsoon
    · exact h
  | clear =>
    rw [PumpMove.run]
    split
    · exact ⟨h.dueAtLeast, h.heldAt, nofun⟩
    · exact h

end Pass

/-! ## No wake is lost, but in the gap -/

section Wake

variable {settings} {s t : PumpState}

/-- A pass began since `n` of them had, or one is promised: the run under way reads `again` once
more. -/
def Promised (n : ℕ) (s : PumpState) : Prop :=
  n < s.passes ∨ n = s.passes ∧ s.again = true ∧
    ((∃ asked, s.pumping = some (.claiming asked)) ∨ ∃ full, s.pumping = some (.passed full))

theorem Promised.pumpOnce {n : ℕ} (h : n ≤ s.passes) (inFlight : ℕ) (clock : Time) :
    Promised n (pumpOnce settings s inFlight clock) :=
  Or.inl (passes_pumpOnce s inFlight clock ▸ Nat.lt_succ_of_le h)

theorem Promised.le {n : ℕ} (h : Promised n s) : n ≤ s.passes :=
  h.elim Nat.le_of_lt fun h => Nat.le_of_eq h.1

theorem Promised.wake {n : ℕ} (h : Promised n s) (at_ : Time) (inFlight : ℕ) (clock : Time) :
    Promised n (wake settings s at_ inFlight clock) := by
  rw [Webhooks.wake]
  split
  case isTrue => exact h
  case isFalse =>
    dsimp only
    split
    case h_1 hpumping =>
      rcases h with h | ⟨hn, -, hstage⟩
      · exact Or.inl h
      · exact Or.inr ⟨hn, rfl, hstage⟩
    case h_2 => exact Or.inl (passes_pumpOnce .. ▸ Nat.lt_succ_of_le h.le)

/-- Stopping is for good. -/
theorem stopped_run (move : PumpMove) (h : s.stopped = true) :
    (move.run settings s).stopped = true := by
  have hwake : ∀ {s : PumpState} at_ inFlight clock, s.stopped = true →
      (wake settings s at_ inFlight clock).stopped = true := by
    intro s at_ inFlight clock h
    rw [Webhooks.wake, if_pos h]
    exact h
  cases move with
  | wake at_ inFlight clock => exact hwake at_ inFlight clock h
  | freed inFlight clock =>
    rw [PumpMove.run, Webhooks.freed]
    split
    · exact hwake 0 inFlight clock h
    · exact h
  | hold | quiet => exact h
  | stop => rfl
  | tick inFlight clock =>
    rw [PumpMove.run]
    split
    · exact hwake 0 inFlight clock h
    · exact h
  | answer claimed =>
    rw [PumpMove.run]
    split
    · cases claimed <;> exact h
    · exact h
  | loop inFlight clock =>
    rw [PumpMove.run]
    split
    · rw [loopNext, if_pos (by rw [h, Bool.true_or])]
      exact h
    · exact h
  | clear =>
    rw [PumpMove.run]
    split <;> exact h

/-- **A promise is kept**: no step of a pump that is not stopped forgets it. -/
theorem Promised.run {n : ℕ} (h : Promised n s) (move : PumpMove)
    (hstopped : (move.run settings s).stopped = false) : Promised n (move.run settings s) := by
  have hgoing : s.stopped = false := by
    by_contra hs
    cases hstopped.symm.trans (stopped_run move (Bool.eq_true_of_not_eq_false hs))
  cases move with
  | wake at_ inFlight clock => exact h.wake at_ inFlight clock
  | freed inFlight clock =>
    rw [PumpMove.run, Webhooks.freed]
    split
    · exact h.wake 0 inFlight clock
    · exact h
  | hold | quiet => exact h
  | stop => cases hstopped
  | tick inFlight clock =>
    rw [PumpMove.run]
    split
    case isTrue =>
      have h' : Promised n { s with tick := false } := h
      exact h'.wake 0 inFlight clock
    case isFalse => exact h
  | answer claimed =>
    rw [PumpMove.run]
    split
    case h_1 asked hpumping =>
      rcases h with h | ⟨hn, hagain, -⟩
      · cases claimed <;> exact Or.inl h
      · cases claimed <;> exact Or.inr ⟨hn, hagain, Or.inr ⟨_, rfl⟩⟩
    case h_2 => exact h
  | loop inFlight clock =>
    rw [PumpMove.run]
    split
    case h_1 full hpumping =>
      rw [loopNext]
      split
      case isTrue hends =>
        rcases h with h | ⟨-, hagain, -⟩
        · exact Or.inl h
        · rw [hgoing, hagain, Bool.or_true] at hends
          cases hends
      case isFalse => exact Promised.pumpOnce h.le inFlight clock
    case h_2 => exact h
  | clear =>
    rw [PumpMove.run]
    split
    case isTrue hended =>
      rcases h with h | ⟨-, -, ⟨asked, hpumping⟩ | ⟨full, hpumping⟩⟩
      · exact Or.inl h
      · cases hended.symm.trans hpumping
      · cases hended.symm.trans hpumping
    case isFalse => exact h

theorem Promised.runPump (settings : PumpSettings) {n : ℕ} (h : Promised n s)
    (moves : List PumpMove)
    (hstopped : (runPump settings s moves).stopped = false) :
      Promised n (runPump settings s moves) := by
  induction moves using List.reverseRecOn with
  | nil => exact h
  | append_singleton moves move ih =>
    rw [Webhooks.runPump, List.foldl_append] at hstopped ⊢
    refine (ih ?_).run move hstopped
    by_contra hs
    cases hstopped.symm.trans (stopped_run move (Bool.eq_true_of_not_eq_false hs))

/-- A call that wakes the pump promises a pass, outside the gap. -/
theorem promised_of_wakes {call : PumpMove} (hcall : Wakes s call) (hgoing : s.stopped = false)
    (hgap : s.pumping ≠ some .ended) : Promised s.passes (call.run settings s) := by
  have hwake : ∀ at_ inFlight clock, Promised s.passes (wake settings s at_ inFlight clock) := by
    intro at_ inFlight clock
    rw [Webhooks.wake, if_neg (by rw [hgoing]; nofun)]
    dsimp only
    split
    case h_1 stage hpumping =>
      refine Or.inr ⟨rfl, rfl, ?_⟩
      cases stage with
      | claiming asked => exact Or.inl ⟨asked, hpumping⟩
      | passed full => exact Or.inr ⟨full, hpumping⟩
      | ended => exact absurd hpumping hgap
    case h_2 => exact Or.inl (passes_pumpOnce .. ▸ Nat.lt_succ_self _)
  cases call with
  | wake at_ inFlight clock => exact hwake at_ inFlight clock
  | freed inFlight clock =>
    rw [PumpMove.run, Webhooks.freed, if_pos (show s.saturated = true from hcall)]
    exact hwake 0 inFlight clock
  | _ => exact absurd hcall id

/-- In the gap, a wake is only written down. -/
theorem run_in_gap (settings : PumpSettings) {call : PumpMove} (hcall : Wakes s call)
    (hgoing : s.stopped = false)
    (hgap : s.pumping = some .ended) :
    (call.run settings s).pumping = some .ended ∧ (call.run settings s).passes = s.passes ∧
      (call.run settings s).stopped = false := by
  have hwake : ∀ at_ inFlight clock, (wake settings s at_ inFlight clock).pumping = some .ended ∧
      (wake settings s at_ inFlight clock).passes = s.passes ∧
      (wake settings s at_ inFlight clock).stopped = false := by
    intro at_ inFlight clock
    simp only [Webhooks.wake, hgoing, hgap, Bool.false_eq_true, if_false, and_self]
  cases call with
  | wake at_ inFlight clock => exact hwake at_ inFlight clock
  | freed inFlight clock =>
    rw [PumpMove.run, Webhooks.freed, if_pos (show s.saturated = true from hcall)]
    exact hwake 0 inFlight clock
  | _ => exact absurd hcall id

end Wake

/-- A pass begins after this call before the pump, not stopped meanwhile, is next idle. -/
def KeepsWake (s : PumpState) (call : PumpMove) : Prop :=
  ∀ after, (runPump settings s (call :: after)).stopped = false →
    (runPump settings s (call :: after)).pumping = none →
    s.passes < (runPump settings s (call :: after)).passes

end Pump

/-- **A wake is kept if and only if it comes outside the gap**: whatever happened before, whatever
happens next. -/
theorem keepsWake_iff (settings : PumpSettings) (before : List PumpMove) (call : PumpMove)
    (hcall : Wakes (runPump settings (pumpOf settings) before) call)
    (hgoing : (runPump settings (pumpOf settings) before).stopped = false) :
    KeepsWake settings (runPump settings (pumpOf settings) before) call ↔
      (runPump settings (pumpOf settings) before).pumping ≠ some .ended := by
  generalize runPump settings (pumpOf settings) before = s at hcall hgoing ⊢
  constructor
  · intro hkeeps hgap
    -- the callback forgets the run, and the wake with it
    obtain ⟨hpumping, hpasses, hstopped⟩ := run_in_gap settings hcall hgoing hgap
    have hclear : runPump settings s [call, .clear] =
      { call.run settings s with pumping := none } := by
      change PumpMove.run settings (call.run settings s) .clear = _
      rw [PumpMove.run, if_pos hpumping]
    have hlt := hkeeps [.clear] (by rw [hclear]; exact hstopped) (by rw [hclear])
    rw [hclear] at hlt
    exact absurd hpasses (Nat.ne_of_gt hlt)
  · intro hgap after hstopped hidle
    have hpromised := Promised.runPump settings (promised_of_wakes hcall hgoing hgap) after hstopped
    rcases hpromised with hlt | ⟨-, -, ⟨asked, hpumping⟩ | ⟨full, hpumping⟩⟩
    · exact hlt
    · cases hidle.symm.trans hpumping
    · cases hidle.symm.trans hpumping

/-- One endpoint, in memory: an insert wakes the pump, whose queue answers nothing more. -/
def inMemory : PumpSettings := ⟨64, 1, 40000, 1000, false⟩

/-- Woken once, the run ends; a second insert wakes the pump before the run is forgotten. -/
def insertedTwice : List PumpMove := [.wake 0 0 0, .answer (some 1), .loop 1 0]

/-- **A wake in the gap is lost**: its delivery waits, with no timer set. -/
theorem wake_lost : ¬ ∀ (settings : PumpSettings) (before : List PumpMove) (call : PumpMove),
    Wakes (runPump settings (pumpOf settings) before) call →
    (runPump settings (pumpOf settings) before).stopped = false →
    KeepsWake settings (runPump settings (pumpOf settings) before) call :=
  fun h => absurd (h inMemory insertedTwice (.wake 0 1 0) trivial (by decide) [.clear] (by decide)
    (by decide)) (by decide)

/-- Outside it, none is: woken while the queue is asked, the pump passes again. -/
theorem wake_kept : KeepsWake inMemory (runPump inMemory (pumpOf inMemory) [.wake 0 0 0])
    (.wake 0 1 0) :=
  (keepsWake_iff inMemory [.wake 0 0 0] (.wake 0 1 0) trivial (by decide)).mpr (by decide)

end Janus.Webhooks
