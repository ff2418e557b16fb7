import Janus.Js.Text
import Janus.Machinery.Insertion
import Mathlib.Data.List.Perm.Subperm

/-!
# Webhooks/Queue — the deliveries waiting to be sent, in memory

A delivery is held under its id until it is deleted.  A claim hides it until its lease runs out,
counts one attempt and gives it a lease of its own; every write after the claim names that lease.
-/

namespace Janus.Webhooks

open Js Insertion

/-- Milliseconds since the epoch. -/
abbrev Time := ℤ

/-! ## What a queue holds -/

structure UserEvent where
  id : Str
  type : Str
  occurredAt : Time
  userId : Str
  userType : Str
deriving DecidableEq

/-- What an attempt that failed got: a status, or the failure's name. -/
structure Failure where
  status : Option ℤ
  error : Option Str
deriving DecidableEq

/-- One delivery as the map holds it: `due` is the lease's end while claimed. -/
structure Held where
  event : UserEvent
  endpoint : Str
  attempts : ℕ
  failed : Option Failure
  lease : Option Str
  due : Time
deriving DecidableEq

/-- One delivery as a claim answers it. -/
structure QueuedDelivery where
  id : Str
  event : UserEvent
  endpoint : Str
  attempts : ℕ
  failed : Option Failure
  lease : Str
deriving DecidableEq

/-- The map, each id put once, and how many lease tokens were drawn. -/
structure Queue where
  held : List (Str × Held)
  drawn : ℕ
  nodup : (held.map Prod.fst).Nodup

namespace Queue

/-- `createMemoryWebhookQueue()`. -/
def empty : Queue := ⟨[], 0, List.nodup_nil⟩

def put (q : Queue) (id : Str) (one : Held) : Queue :=
  { q with held := Insertion.put q.held id one, nodup := nodup_put q.nodup id one }

def remove (q : Queue) (id : Str) : Queue :=
  { q with held := delete q.held id, nodup := nodup_delete q.nodup id }

/-- What an id holds. -/
def find (q : Queue) (id : Str) : Option Held := get q.held id

@[simp] theorem find_empty (id : Str) : empty.find id = none := rfl

theorem find_put (q : Queue) (id : Str) (one : Held) (id' : Str) :
    (q.put id one).find id' = if id = id' then some one else q.find id' := get_put ..

theorem find_remove (q : Queue) (id id' : Str) :
    (q.remove id).find id' = if id = id' then none else q.find id' := get_delete ..

end Queue

/-- `${event.id}:${event.type}:${endpoint}`. -/
def deliveryId (event : UserEvent) (endpoint : Str) : Str :=
  event.id ++ js ":" ++ event.type ++ js ":" ++ endpoint

/-! ## The operations -/

/-- One delivery per endpoint, due at `dueAt`: an id already held is kept as it is. -/
def insertEach (event : UserEvent) (dueAt : Time) : List Str → ℕ × Queue → ℕ × Queue
  | [], r => r
  | endpoint :: endpoints, (inserted, q) =>
    let id := deliveryId event endpoint
    if (q.find id).isSome then insertEach event dueAt endpoints (inserted, q)
    else insertEach event dueAt endpoints
      (inserted + 1, q.put id
        { event := event, endpoint := endpoint, attempts := 0, failed := none, lease := none,
          due := dueAt })

def insertDeliveries (q : Queue) (event : UserEvent) (endpoints : List Str) (dueAt : Time) :
    ℕ × Queue :=
  insertEach event dueAt (addAll [] endpoints) (0, q)

/-- The deliveries of one endpoint due at `at_`, earliest first. -/
def dueOf (held : List (Str × Held)) (endpoint : Str) (at_ : Time) : List (Str × Held) :=
  (held.filter fun e => e.2.endpoint = endpoint ∧ e.2.due ≤ at_).mergeSort fun a b =>
    a.2.due ≤ b.2.due

def queuedOf (id : Str) (one : Held) (lease : Str) : QueuedDelivery :=
  { id := id, event := one.event, endpoint := one.endpoint, attempts := one.attempts,
    failed := one.failed, lease := lease }

section Claims

variable (uuid : ℕ → Str)

/-- A delivery as its claim leaves it. -/
def Held.claimed (one : Held) (lease : Str) (leaseUntil : Time) : Held :=
  { one with attempts := one.attempts + 1, lease := some lease, due := leaseUntil }

/-- Each of these claimed, while there is room: it counts an attempt, and gets a lease of its own.
-/
def claimEach (leaseUntil : Time) (limit : ℤ) :
    List (Str × Held) → List QueuedDelivery × Queue → List QueuedDelivery × Queue
  | [], r => r
  | (id, one) :: due, (claimed, q) =>
    if limit ≤ claimed.length then (claimed, q)
    else
      let lease := uuid q.drawn
      let one := one.claimed lease leaseUntil
      claimEach leaseUntil limit due
        (claimed ++ [queuedOf id one lease], { q.put id one with drawn := q.drawn + 1 })

/-- Endpoint by endpoint, in the order given: once full, those left claim nothing. -/
def claimFrom (at_ leaseUntil : Time) (limit : ℤ) :
    List Str → List QueuedDelivery × Queue → List QueuedDelivery × Queue
  | [], r => r
  | endpoint :: endpoints, r =>
    claimFrom at_ leaseUntil limit endpoints
      (claimEach uuid leaseUntil limit (dueOf r.2.held endpoint at_) r)

/-- Up to `limit` deliveries due at `at_`. -/
def claim (q : Queue) (endpoints : List Str) (at_ leaseUntil : Time) (limit : ℤ) :
    List QueuedDelivery × Queue :=
  claimFrom uuid at_ leaseUntil limit (addAll [] endpoints) ([], q)

def claimDeliveries (q : Queue) (endpoints : List Str) (now leaseUntil : Time) (limit : ℤ) :
    List QueuedDelivery × Queue := claim uuid q endpoints now leaseUntil limit

/-- As `claimDeliveries`, for the endpoints not in `known`. -/
def claimOrphanedDeliveries (q : Queue) (known : List Str) (dueBefore leaseUntil : Time)
    (limit : ℤ) :
    List QueuedDelivery × Queue :=
  let orphaned := (q.held.map fun e => e.2.endpoint).filter fun endpoint => endpoint ∉ known
  claim uuid q orphaned dueBefore leaseUntil limit

end Claims

/-- The delivery, when `lease` is the one it holds. -/
def leased (q : Queue) (id lease : Str) : Option Held :=
  (q.find id).filter fun one => one.lease = some lease

/-- A delivery whose lease ends later. -/
def Held.extended (one : Held) (until_ : Time) : Held := { one with due := until_ }

/-- A delivery waiting for its next attempt, its lease released. -/
def Held.released (one : Held) (dueAt : Time) (failed : Failure) : Held :=
  { one with failed := some failed, lease := none, due := dueAt }

def extendLease (q : Queue) (id lease : Str) (until_ : Time) : Bool × Queue :=
  match leased q id lease with
  | none => (false, q)
  | some one => (true, q.put id (one.extended until_))

def scheduleRetry (q : Queue) (id lease : Str) (dueAt : Time) (failed : Failure) : Bool × Queue :=
  match leased q id lease with
  | none => (false, q)
  | some one => (true, q.put id (one.released dueAt failed))

def deleteDelivery (q : Queue) (id lease : Str) : Bool × Queue :=
  match leased q id lease with
  | none => (false, q)
  | some _ => (true, q.remove id)

/-! ## What an insert does -/

/-- A held delivery stays as it is, and a new one was never claimed. -/
theorem find_insertEach {event : UserEvent} {dueAt : Time} {endpoints : List Str} {r : ℕ × Queue}
    {id : Str} {one : Held} (h : (insertEach event dueAt endpoints r).2.find id = some one) :
    r.2.find id = some one ∨
      r.2.find id = none ∧ one.attempts = 0 ∧ one.lease = none := by
  induction endpoints generalizing r with
  | nil => exact Or.inl h
  | cons endpoint endpoints ih =>
    obtain ⟨inserted, q⟩ := r
    rw [insertEach] at h
    split at h
    case isTrue => exact ih h
    case isFalse hnew =>
      rcases ih h with h | ⟨hnone, hone⟩
      · rw [Queue.find_put] at h
        split at h
        case isTrue hid =>
          cases h
          exact Or.inr ⟨hid ▸ Option.not_isSome_iff_eq_none.mp hnew, rfl, rfl⟩
        case isFalse => exact Or.inl h
      · rw [Queue.find_put] at hnone
        split at hnone
        case isTrue => cases hnone
        case isFalse => exact Or.inr ⟨hnone, hone⟩

theorem find_insertEach_of_some {event : UserEvent} {dueAt : Time} {endpoints : List Str}
    {r : ℕ × Queue} {id : Str} {one : Held} (h : r.2.find id = some one) :
    (insertEach event dueAt endpoints r).2.find id = some one := by
  induction endpoints generalizing r with
  | nil => exact h
  | cons endpoint endpoints ih =>
    obtain ⟨inserted, q⟩ := r
    rw [insertEach]
    split
    case isTrue => exact ih h
    case isFalse hnew =>
      refine ih ?_
      rw [Queue.find_put, if_neg]
      · exact h
      · rintro rfl
        exact hnew (Option.isSome_of_eq_some h)

@[simp] theorem deliveryId_inj {event : UserEvent} {endpoint endpoint' : Str} :
    deliveryId event endpoint = deliveryId event endpoint' ↔ endpoint = endpoint' :=
  List.append_right_inj _

/-- A delivery that was not held is held as it is inserted. -/
theorem find_insertEach_of_none {event : UserEvent} {dueAt : Time} {endpoints : List Str}
    {r : ℕ × Queue} {endpoint : Str} (hmem : endpoint ∈ endpoints)
    (hnone : r.2.find (deliveryId event endpoint) = none) :
    (insertEach event dueAt endpoints r).2.find (deliveryId event endpoint) =
      some { event := event, endpoint := endpoint, attempts := 0, failed := none, lease := none,
             due := dueAt } := by
  induction endpoints generalizing r with
  | nil => exact absurd hmem List.not_mem_nil
  | cons first endpoints ih =>
    obtain ⟨inserted, q⟩ := r
    rw [insertEach]
    by_cases hfirst : first = endpoint
    · subst hfirst
      rw [if_neg (by simp [hnone])]
      exact find_insertEach_of_some ((Queue.find_put ..).trans (if_pos rfl))
    · have hmem' := (List.mem_cons.mp hmem).resolve_left (Ne.symm hfirst)
      split
      case isTrue => exact ih hmem' hnone
      case isFalse =>
        refine ih hmem' ?_
        rw [Queue.find_put, if_neg (mt deliveryId_inj.mp hfirst)]
        exact hnone

/-- An insert touches its own deliveries alone. -/
theorem find_insertEach_of_ne {event : UserEvent} {dueAt : Time} {endpoints : List Str}
    {r : ℕ × Queue} {id : Str} (h : ∀ endpoint ∈ endpoints, deliveryId event endpoint ≠ id) :
    (insertEach event dueAt endpoints r).2.find id = r.2.find id := by
  induction endpoints generalizing r with
  | nil => rfl
  | cons endpoint endpoints ih =>
    obtain ⟨inserted, q⟩ := r
    have hrest := fun e he => h e (List.mem_cons_of_mem _ he)
    rw [insertEach]
    split
    case isTrue => exact ih hrest
    case isFalse =>
      exact (ih hrest).trans ((Queue.find_put ..).trans (if_neg (h _ List.mem_cons_self)))

theorem drawn_insertEach {event : UserEvent} {dueAt : Time} {endpoints : List Str} {r : ℕ × Queue} :
    (insertEach event dueAt endpoints r).2.drawn = r.2.drawn := by
  induction endpoints generalizing r with
  | nil => rfl
  | cons endpoint endpoints ih =>
    obtain ⟨inserted, q⟩ := r
    rw [insertEach]
    split <;> exact ih

/-! ## What a claim does -/

section Claims

variable {uuid : ℕ → Str} {at_ leaseUntil : Time} {limit : ℤ}

theorem mem_dueOf {held : List (Str × Held)} {endpoint : Str} {e : Str × Held} :
    e ∈ dueOf held endpoint at_ ↔ e ∈ held ∧ e.2.endpoint = endpoint ∧ e.2.due ≤ at_ := by
  rw [dueOf, List.mem_mergeSort, List.mem_filter, decide_eq_true_iff]

theorem nodup_dueOf {held : List (Str × Held)} (h : (held.map Prod.fst).Nodup) (endpoint : Str) :
    ((dueOf held endpoint at_).map Prod.fst).Nodup :=
  ((List.mergeSort_perm _ _).map Prod.fst).nodup_iff.mpr (h.sublist (List.filter_sublist.map _))

/-- **What a claim does**: each delivery answered was due, and is held as its claim leaves it, under
a lease drawn for it; every other is held as before. -/
structure Claims (uuid : ℕ → Str) (at_ leaseUntil : Time) (q : Queue)
    (answered : List QueuedDelivery)
    (q' : Queue) : Prop where
  nodup : (answered.map (·.id)).Nodup
  taken : ∀ d ∈ answered, ∃ one, q.find d.id = some one ∧ one.due ≤ at_ ∧
    q'.find d.id = some (one.claimed d.lease leaseUntil) ∧
    d = queuedOf d.id (one.claimed d.lease leaseUntil) d.lease
  kept : ∀ id, (∀ d ∈ answered, d.id ≠ id) → q'.find id = q.find id
  leases : answered.map (·.lease) = (List.range' q.drawn answered.length).map uuid
  drawn : q'.drawn = q.drawn + answered.length

theorem Claims.refl (q : Queue) : Claims uuid at_ leaseUntil q [] q where
  nodup := List.nodup_nil
  taken _ h := absurd h List.not_mem_nil
  kept _ _ := rfl
  leases := rfl
  drawn := rfl

/-- One delivery more. -/
theorem Claims.concat {q q' : Queue} {answered : List QueuedDelivery} {id : Str} {one : Held}
    (h : Claims uuid at_ leaseUntil q answered q') (hnew : ∀ d ∈ answered, d.id ≠ id)
    (hfind : q'.find id = some one) (hdue : one.due ≤ at_) :
    Claims uuid at_ leaseUntil q
      (answered ++ [queuedOf id (one.claimed (uuid q'.drawn) leaseUntil) (uuid q'.drawn)])
      { q'.put id (one.claimed (uuid q'.drawn) leaseUntil) with drawn := q'.drawn + 1 } where
  nodup := by
    rw [List.map_append, List.nodup_append]
    refine ⟨h.nodup, List.nodup_singleton _, fun a ha b hb => ?_⟩
    obtain ⟨d, hd, rfl⟩ := List.mem_map.mp ha
    rw [List.mem_singleton.mp hb]
    exact hnew d hd
  taken d hd := by
    change ∃ one', _ ∧ _ ∧ (q'.put id _).find d.id = _ ∧ _
    rw [Queue.find_put]
    rcases List.mem_append.mp hd with hd | hd
    · rw [if_neg (Ne.symm (hnew d hd))]
      exact h.taken d hd
    · obtain rfl := List.mem_singleton.mp hd
      exact ⟨one, (h.kept id hnew).symm.trans hfind, hdue, if_pos rfl, rfl⟩
  kept id' hid' := by
    change (q'.put id _).find id' = _
    have hne : id ≠ id' := hid' _ (List.mem_append_right _ (List.mem_singleton.mpr rfl))
    rw [Queue.find_put, if_neg hne]
    exact h.kept id' fun d hd => hid' d (List.mem_append_left _ hd)
  leases := by
    rw [List.map_append, h.leases, List.length_append, List.length_singleton, List.range'_concat,
      List.map_append, h.drawn]
    simp [queuedOf]
  drawn := by
    rw [List.length_append, List.length_singleton, ← Nat.add_assoc, ← h.drawn]

theorem claimEach_spec (limit : ℤ) {q₀ : Queue} {due : List (Str × Held)}
    {claimed : List QueuedDelivery}
    {q : Queue} (h : Claims uuid at_ leaseUntil q₀ claimed q) (hnodup : (due.map Prod.fst).Nodup)
    (hdue : ∀ e ∈ due, q.find e.1 = some e.2 ∧ e.2.due ≤ at_ ∧ ∀ d ∈ claimed, d.id ≠ e.1) :
    Claims uuid at_ leaseUntil q₀ (claimEach uuid leaseUntil limit due (claimed, q)).1
        (claimEach uuid leaseUntil limit due (claimed, q)).2 ∧
      ∀ d ∈ (claimEach uuid leaseUntil limit due (claimed, q)).1, d ∈ claimed ∨
        ∃ e ∈ due, d.endpoint = e.2.endpoint := by
  induction due generalizing claimed q with
  | nil => exact ⟨h, fun d hd => Or.inl hd⟩
  | cons e due ih =>
    obtain ⟨id, one⟩ := e
    rw [List.map_cons, List.nodup_cons] at hnodup
    obtain ⟨hfind, hone, hnew⟩ := hdue _ List.mem_cons_self
    rw [claimEach]
    split
    case isTrue => exact ⟨h, fun d hd => Or.inl hd⟩
    case isFalse =>
      dsimp only
      obtain ⟨hclaims, hends⟩ := ih (h.concat hnew hfind hone) hnodup.2 fun e he => by
        obtain ⟨hfind', hdue', hnew'⟩ := hdue e (List.mem_cons_of_mem _ he)
        have hne : id ≠ e.1 := fun heq => hnodup.1 (List.mem_map.mpr ⟨e, he, heq.symm⟩)
        refine ⟨(Queue.find_put ..).trans ((if_neg hne).trans hfind'), hdue', fun d hd => ?_⟩
        rcases List.mem_append.mp hd with hd | hd
        · exact hnew' d hd
        · rw [List.mem_singleton.mp hd]
          exact hne
      refine ⟨hclaims, fun d hd => ?_⟩
      rcases hends d hd with hd | ⟨e, he, heq⟩
      · rcases List.mem_append.mp hd with hd | hd
        · exact Or.inl hd
        · rw [List.mem_singleton.mp hd]
          exact Or.inr ⟨_, List.mem_cons_self, rfl⟩
      · exact Or.inr ⟨e, List.mem_cons_of_mem _ he, heq⟩

/-- What is walked next was not claimed yet: a delivery keeps its endpoint. -/
theorem due_dueOf {q₀ : Queue} {endpoint : Str} {endpoints : List Str}
    {claimed : List QueuedDelivery}
    {q : Queue} (h : Claims uuid at_ leaseUntil q₀ claimed q)
    (hnew : ∀ d ∈ claimed, d.endpoint ∉ endpoint :: endpoints) :
    ∀ e ∈ dueOf q.held endpoint at_, q.find e.1 = some e.2 ∧ e.2.due ≤ at_ ∧
      ∀ d ∈ claimed, d.id ≠ e.1 := by
  intro e he
  obtain ⟨hmem, hendpoint, hdue⟩ := mem_dueOf.mp he
  have hfind : q.find e.1 = some e.2 := get_of_mem q.nodup hmem
  refine ⟨hfind, hdue, fun d hd heq => ?_⟩
  obtain ⟨one, _, _, hfind', hd'⟩ := h.taken d hd
  rw [heq, hfind] at hfind'
  have hd'' : d.endpoint = one.endpoint := congrArg QueuedDelivery.endpoint hd'
  have he'' : e.2.endpoint = one.endpoint := by rw [Option.some.inj hfind', Held.claimed]
  exact hnew d hd (by rw [hd'', ← he'', hendpoint]; exact List.mem_cons_self)

theorem notMem_of_ends {endpoint : Str} {endpoints : List Str}
    {claimed claimed' : List QueuedDelivery}
    {held : List (Str × Held)} (hendpoint : endpoint ∉ endpoints)
    (hnew : ∀ d ∈ claimed, d.endpoint ∉ endpoints)
    (hends : ∀ d ∈ claimed', d ∈ claimed ∨ ∃ e ∈ dueOf held endpoint at_,
      d.endpoint = e.2.endpoint) :
    ∀ d ∈ claimed', d.endpoint ∉ endpoints := by
  intro d hd hmem
  rcases hends d hd with hd | ⟨e, he, heq⟩
  · exact hnew d hd hmem
  · rw [heq, (mem_dueOf.mp he).2.1] at hmem
    exact hendpoint hmem

theorem claimFrom_spec {q₀ : Queue} {endpoints : List Str} {claimed : List QueuedDelivery}
    {q : Queue} (h : Claims uuid at_ leaseUntil q₀ claimed q) (hnodup : endpoints.Nodup)
    (hnew : ∀ d ∈ claimed, d.endpoint ∉ endpoints) :
    Claims uuid at_ leaseUntil q₀ (claimFrom uuid at_ leaseUntil limit endpoints (claimed, q)).1
      (claimFrom uuid at_ leaseUntil limit endpoints (claimed, q)).2 := by
  induction endpoints generalizing claimed q with
  | nil => exact h
  | cons endpoint endpoints ih =>
    rw [List.nodup_cons] at hnodup
    obtain ⟨hclaims, hends⟩ := claimEach_spec limit h (nodup_dueOf q.nodup endpoint)
      (due_dueOf h hnew)
    exact ih hclaims hnodup.2
      (notMem_of_ends hnodup.1 (fun d hd hmem => hnew d hd (List.mem_cons_of_mem _ hmem)) hends)

theorem claim_spec (q : Queue) (endpoints : List Str) :
    Claims uuid at_ leaseUntil q (claim uuid q endpoints at_ leaseUntil limit).1
      (claim uuid q endpoints at_ leaseUntil limit).2 :=
  claimFrom_spec (Claims.refl q) (nodup_addAll List.nodup_nil) fun _ h =>
    absurd h List.not_mem_nil

/-- A claim adds to what it answers, and while there is room leaves nothing it walks. -/
theorem claimEach_takes (uuid : ℕ → Str) (leaseUntil : Time) (limit : ℤ) (due : List (Str × Held))
    (claimed : List QueuedDelivery) (q : Queue) :
    claimed <+: (claimEach uuid leaseUntil limit due (claimed, q)).1 ∧
      ((claimEach uuid leaseUntil limit due (claimed, q)).1.length < limit →
        ∀ e ∈ due, ∃ d ∈ (claimEach uuid leaseUntil limit due (claimed, q)).1, d.id = e.1) := by
  induction due generalizing claimed q with
  | nil => exact ⟨List.prefix_rfl, fun _ e he => absurd he List.not_mem_nil⟩
  | cons e due ih =>
    obtain ⟨id, one⟩ := e
    rw [claimEach]
    split
    case isTrue hfull => exact ⟨List.prefix_rfl, fun hroom => absurd hroom (not_lt.mpr hfull)⟩
    case isFalse =>
      obtain ⟨hgrows, htakes⟩ := ih (claimed ++ [queuedOf id (one.claimed (uuid q.drawn) leaseUntil)
        (uuid q.drawn)])
        { q.put id (one.claimed (uuid q.drawn) leaseUntil) with drawn := q.drawn + 1 }
      refine ⟨(List.prefix_append _ _).trans hgrows, fun hroom e he => ?_⟩
      rcases List.mem_cons.mp he with rfl | he
      · exact ⟨_, hgrows.subset (List.mem_append_right _ List.mem_cons_self), rfl⟩
      · exact htakes hroom e he

theorem claimFrom_takes {q₀ : Queue} {endpoints : List Str}
    {claimed : List QueuedDelivery} {q : Queue}
    (h : Claims uuid at_ leaseUntil q₀ claimed q) (hnodup : endpoints.Nodup)
    (hnew : ∀ d ∈ claimed, d.endpoint ∉ endpoints) :
    claimed <+: (claimFrom uuid at_ leaseUntil limit endpoints (claimed, q)).1 ∧
      ((claimFrom uuid at_ leaseUntil limit endpoints (claimed, q)).1.length < limit →
        ∀ id one, q₀.find id = some one → one.endpoint ∈ endpoints → one.due ≤ at_ →
          ∃ d ∈ (claimFrom uuid at_ leaseUntil limit endpoints (claimed, q)).1, d.id = id) := by
  induction endpoints generalizing claimed q with
  | nil => exact ⟨List.prefix_rfl, fun _ _ _ _ hmem => absurd hmem List.not_mem_nil⟩
  | cons endpoint endpoints ih =>
    rw [List.nodup_cons] at hnodup
    have hdue := due_dueOf h hnew
    obtain ⟨hclaims, hends⟩ := claimEach_spec limit h (nodup_dueOf q.nodup endpoint) hdue
    obtain ⟨hgrows, htakes⟩ := claimEach_takes uuid leaseUntil limit
      (dueOf q.held endpoint at_) claimed q
    obtain ⟨hgrows', htakes'⟩ := ih hclaims hnodup.2
      (notMem_of_ends hnodup.1 (fun d hd hmem => hnew d hd (List.mem_cons_of_mem _ hmem)) hends)
    refine ⟨hgrows.trans hgrows', fun hroom id one hone hmem hat => ?_⟩
    rcases List.mem_cons.mp hmem with rfl | hmem
    · have hkept : q.find id = some one := (h.kept id fun d hd heq => by
        obtain ⟨one', hone', -, -, hd'⟩ := h.taken d hd
        rw [heq, hone] at hone'
        cases hone'
        exact hnew d hd ((congrArg QueuedDelivery.endpoint hd').symm ▸ List.mem_cons_self)).trans
          hone
      have hroom' := lt_of_le_of_lt (Int.ofNat_le.mpr hgrows'.length_le) hroom
      obtain ⟨d, hd, heq⟩ := htakes hroom' (id, one)
        (mem_dueOf.mpr ⟨mem_of_get hkept, rfl, hat⟩)
      exact ⟨d, hgrows'.subset hd, heq⟩
    · exact htakes' hroom id one hone hmem hat

/-- **A claim with room left took all that was due** at its endpoints. -/
theorem claim_takes {q : Queue} {endpoints : List Str}
    (hroom : (claim uuid q endpoints at_ leaseUntil limit).1.length < limit) {id : Str} {one : Held}
    (hone : q.find id = some one) (hmem : one.endpoint ∈ endpoints) (hdue : one.due ≤ at_) :
    ∃ d ∈ (claim uuid q endpoints at_ leaseUntil limit).1, d.id = id :=
  (claimFrom_takes (Claims.refl q) (nodup_addAll List.nodup_nil) fun _ h =>
    absurd h List.not_mem_nil).2 hroom id one hone (mem_addAll.mpr (Or.inr hmem)) hdue

/-- A claim answers no more than is held. -/
theorem Claims.length_le {q q' : Queue} {answered : List QueuedDelivery}
    (h : Claims uuid at_ leaseUntil q answered q') : answered.length ≤ q.held.length := by
  have hsub : answered.map (·.id) ⊆ q.held.map Prod.fst := by
    intro id hid
    obtain ⟨d, hd, rfl⟩ := List.mem_map.mp hid
    obtain ⟨one, hone, -⟩ := h.taken d hd
    exact List.mem_map_of_mem (mem_of_get hone)
  simpa using (List.subperm_of_subset h.nodup hsub).length_le

end Claims

/-! ## What a lease allows -/

/-- The lease a delivery holds now. -/
def Current (q : Queue) (id lease : Str) : Prop := ∃ one, q.find id = some one ∧
    one.lease = some lease

theorem leased_eq_some {q : Queue} {id lease : Str} {one : Held} :
    leased q id lease = some one ↔ q.find id = some one ∧ one.lease = some lease := by
  rw [leased, Option.filter_eq_some_iff, decide_eq_true_iff]

theorem leased_eq_none {q : Queue} {id lease : Str} (h : ¬ Current q id lease) :
    leased q id lease = none := by
  rw [Option.eq_none_iff_forall_ne_some]
  exact fun one hone => h ⟨one, leased_eq_some.mp hone⟩

end Janus.Webhooks
