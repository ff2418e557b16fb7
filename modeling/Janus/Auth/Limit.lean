import Mathlib.Data.List.Perm.Basic
import Mathlib.Data.List.Range

/-!
# Auth/Limit — how many hashes run at once

A call takes a slot while one is free and waits otherwise.  A task that settles hands its slot to
the call that waits the longest, or frees it.  Each promise goes on in a step of its own, so between
a slot handed on and the task it is for, another call may come: it starts before that task when a
slot is free then (`limit_overtakes`), while slots themselves are given in the order of the calls
(`limit_fifo`).
-/

namespace Janus.Auth.Limit

/-! ## The semaphore -/

/-- How a promise goes on: a call that waited, with the slot it was handed, or a task that settled.
-/
inductive Job where
  | start (call : ℕ)
  | release (call : ℕ)
deriving DecidableEq

/-- The call a promise is of. -/
def Job.call : Job → ℕ
  | .start call => call
  | .release call => call

/-- What `limit` keeps — `running` and `waiting` — and what is under way: the promises to go on, the
tasks that run, and in order the calls started, given a slot, given back, and made to wait. -/
structure State where
  running : ℕ
  waiting : List ℕ
  jobs : List Job
  active : List ℕ
  started : List ℕ
  slots : List ℕ
  released : List ℕ
  queued : List ℕ
  called : ℕ
deriving DecidableEq

def State.init : State := ⟨0, [], [], [], [], [], [], [], 0⟩

/-- A slot passes straight to the next call, or is free. -/
def release (call : ℕ) (s : State) : State :=
  match s.waiting with
  | [] => { s with running := s.running - 1, released := s.released ++ [call] }
  | next :: rest =>
    { s with
      waiting := rest
      slots := s.slots ++ [next]
      jobs := s.jobs ++ [.start next]
      released := s.released ++ [call] }

/-- A task starts: one that throws at once is settled. -/
def run (call : ℕ) (throws : Bool) (s : State) : State :=
  if throws then release call { s with started := s.started ++ [call] }
  else { s with started := s.started ++ [call], active := s.active ++ [call] }

/-- What happens: a call, a task that settles, a promise that goes on. -/
inductive Event where
  | call (throws : Bool)
  | settle (call : ℕ)
  | job (k : ℕ) (throws : Bool)
deriving DecidableEq

def step (concurrency : ℕ) (s : State) : Event → Option State
  | .call throws =>
    let call := s.called
    let s := { s with called := s.called + 1 }
    if s.running < concurrency then
      some (run call throws { s with running := s.running + 1, slots := s.slots ++ [call] })
    else some { s with waiting := s.waiting ++ [call], queued := s.queued ++ [call] }
  | .settle call =>
    if call ∈ s.active then
      some { s with active := s.active.erase call, jobs := s.jobs ++ [.release call] }
    else none
  | .job k throws =>
    match s.jobs[k]? with
    | none => none
    | some (.start call) => some (run call throws { s with jobs := s.jobs.eraseIdx k })
    | some (.release call) => some (release call { s with jobs := s.jobs.eraseIdx k })

/-- Everything that happened, in order. -/
def runs (concurrency : ℕ) (events : List Event) (s : State) : Option State :=
  events.foldlM (step concurrency) s

/-! ## What every run keeps -/

/-- **Every slot given is held once**: by a task that runs, by a promise to go on, or by none, given
back. -/
structure Inv (concurrency : ℕ) (s : State) : Prop where
  running : s.running = s.active.length + s.jobs.length
  most : s.running ≤ concurrency
  full : s.waiting ≠ [] → s.running = concurrency
  order : s.slots ++ s.waiting = List.range s.called
  held : ∀ call, s.slots.count call =
    (s.jobs.map Job.call).count call + s.active.count call + s.released.count call

variable {concurrency : ℕ} {s s' : State} {call : ℕ}

theorem inv_init (concurrency : ℕ) : Inv concurrency .init where
  running := rfl
  most := Nat.zero_le _
  full h := absurd rfl h
  order := rfl
  held _ := rfl

/-- A slot about to be given back is held by its call, over what the others hold. -/
structure Leaving (concurrency call : ℕ) (s : State) : Prop where
  running : s.running = s.active.length + s.jobs.length + 1
  most : s.running ≤ concurrency
  full : s.waiting ≠ [] → s.running = concurrency
  order : s.slots ++ s.waiting = List.range s.called
  held : ∀ call', s.slots.count call' = (s.jobs.map Job.call).count call' + s.active.count call' +
    s.released.count call' + [call].count call'

theorem Leaving.release (h : Leaving concurrency call s) : Inv concurrency (release call s) := by
  unfold Limit.release
  split
  case h_1 hwaiting =>
    refine ⟨?_, (Nat.sub_le _ _).trans h.most, fun hne => absurd hwaiting hne, h.order,
      fun call' => ?_⟩
    · exact Nat.sub_eq_of_eq_add h.running
    · simp only [h.held, List.count_append]
      omega
  case h_2 next rest hwaiting =>
    refine ⟨?_, h.most, fun _ => h.full (by simp [hwaiting]), ?_, fun call' => ?_⟩
    · simp only [h.running, List.length_append, List.length_singleton]
      omega
    · rw [← h.order, hwaiting, List.append_assoc]
      rfl
    · simp only [List.count_append, List.map_append, List.map_singleton, Job.call, h.held]
      omega

theorem Leaving.run (h : Leaving concurrency call s) (throws : Bool) :
    Inv concurrency (run call throws s) := by
  unfold Limit.run
  split
  case isTrue => exact Leaving.release ⟨h.running, h.most, h.full, h.order, h.held⟩
  case isFalse =>
    refine ⟨?_, h.most, h.full, h.order, fun call' => ?_⟩
    · simp only [h.running, List.length_append, List.length_singleton]
      omega
    · simp only [h.held, List.count_append]
      omega

/-- **One step keeps every slot held once.** -/
theorem Inv.step (h : Inv concurrency s) {event : Event}
    (hstep : step concurrency s event = some s') : Inv concurrency s' := by
  cases event with
  | call throws =>
    simp only [Limit.step] at hstep
    split at hstep
    case isTrue hfree =>
      obtain rfl := Option.some.inj hstep
      have hwaiting : s.waiting = [] := by
        by_contra hne
        exact absurd (h.full hne) hfree.ne
      have hleaving : Leaving concurrency s.called { s with
          called := s.called + 1, running := s.running + 1, slots := s.slots ++ [s.called] } := by
        refine ⟨?_, hfree, fun hne => absurd hwaiting hne, ?_, fun call' => ?_⟩
        · simp only [h.running]
        · simp only [hwaiting, List.append_nil, List.range_succ]
          rw [← h.order, hwaiting, List.append_nil]
        · simp only [List.count_append, h.held]
      exact hleaving.run throws
    case isFalse hbusy =>
      obtain rfl := Option.some.inj hstep
      refine ⟨h.running, h.most, fun _ => le_antisymm h.most (not_lt.mp hbusy), ?_, h.held⟩
      rw [← List.append_assoc, h.order, List.range_succ]
  | settle call =>
    simp only [Limit.step] at hstep
    split at hstep
    case isFalse => exact absurd hstep (Option.some_ne_none _).symm
    case isTrue hactive =>
      obtain rfl := Option.some.inj hstep
      have hpos : 0 < s.active.length := List.length_pos_of_mem hactive
      refine ⟨?_, h.most, h.full, h.order, fun call' => ?_⟩
      · rw [h.running, List.length_erase_of_mem hactive, List.length_append, List.length_singleton]
        omega
      · have hcount : s.active.count call' = (s.active.erase call).count call' +
          [call].count call' := by
          rw [(List.perm_cons_erase hactive).count_eq, ← List.singleton_append, List.count_append,
            Nat.add_comm]
        simp only [h.held, hcount, List.map_append, List.map_singleton, List.count_append, Job.call]
        omega
  | job k throws =>
    simp only [Limit.step] at hstep
    cases hjob : s.jobs[k]? with
    | none =>
      rw [hjob] at hstep
      exact absurd hstep (Option.some_ne_none _).symm
    | some job =>
      obtain ⟨hk, hget⟩ := List.getElem?_eq_some_iff.mp hjob
      have hperm : s.jobs.Perm (job :: s.jobs.eraseIdx k) := by
        rw [← hget]
        exact (List.getElem_cons_eraseIdx_perm hk).symm
      have hleaving : Leaving concurrency job.call { s with jobs := s.jobs.eraseIdx k } := by
        refine ⟨?_, h.most, h.full, h.order, fun call' => ?_⟩
        · simp only [h.running, hperm.length_eq, List.length_cons]
          omega
        · simp only [h.held, (hperm.map Job.call).count_eq, List.map_cons, List.count_cons,
            List.count_nil]
          omega
      rw [hjob] at hstep
      cases job with
      | start call =>
        obtain rfl := Option.some.inj hstep
        exact hleaving.run throws
      | release call =>
        obtain rfl := Option.some.inj hstep
        exact hleaving.release

theorem Inv.runs (h : Inv concurrency s) {events : List Event}
    (hruns : runs concurrency events s = some s') : Inv concurrency s' := by
  induction events generalizing s with
  | nil =>
    obtain rfl := Option.some.inj hruns
    exact h
  | cons event events ih =>
    obtain ⟨s₁, hstep, hruns⟩ := Option.bind_eq_some_iff.mp hruns
    exact ih (h.step hstep) hruns

/-! ## The order of what waited -/

/-- Promises go on in the order they were to. -/
def Fifo (events : List Event) : Prop := ∀ k throws, .job k throws ∈ events → k = 0

/-- The calls whose promise is to start a task. -/
def starting (jobs : List Job) : List ℕ :=
  jobs.filterMap fun
    | .start call => some call
    | .release _ => none

/-- **Calls that waited start in the order they came**: those started, those to start, those that
wait still. -/
structure Queue (s : State) : Prop where
  order : s.started.filter (· ∈ s.queued) ++ starting s.jobs ++ s.waiting = s.queued
  sorted : s.queued.Pairwise (· < ·)
  called : ∀ call ∈ s.queued, call < s.called
  started : ∀ call ∈ s.started, call < s.called

theorem Queue.release (h : Queue s) : Queue (release call s) := by
  unfold Limit.release
  split
  case h_1 => exact ⟨h.order, h.sorted, h.called, h.started⟩
  case h_2 next rest hwaiting =>
    refine ⟨?_, h.sorted, h.called, h.started⟩
    refine Eq.trans ?_ h.order
    simp [starting, hwaiting]

theorem Queue.run (h : Queue { s with started := s.started ++ [call] }) (throws : Bool) :
    Queue (run call throws s) := by
  unfold Limit.run
  split
  · exact h.release
  · exact ⟨h.order, h.sorted, h.called, h.started⟩

theorem Queue.step (h : Queue s) {event : Event} (hfifo : Fifo [event])
    (hstep : step concurrency s event = some s') : Queue s' := by
  cases event with
  | call throws =>
    simp only [Limit.step] at hstep
    have hnew : s.called ∉ s.queued := fun hmem => absurd (h.called _ hmem) (lt_irrefl _)
    split at hstep
    case isTrue =>
      obtain rfl := Option.some.inj hstep
      refine Queue.run (s := { s with
        called := s.called + 1, running := s.running + 1, slots := s.slots ++ [s.called] })
        ⟨?_, h.sorted, fun call hcall => (h.called call hcall).trans (Nat.lt_succ_self _),
          fun call hcall => ?_⟩ throws
      · simp only [List.filter_append, List.filter_cons, hnew, decide_false, Bool.false_eq_true,
          if_false, List.filter_nil, List.append_nil, h.order]
      · rcases List.mem_append.mp hcall with hcall | hcall
        · exact (h.started call hcall).trans (Nat.lt_succ_self _)
        · exact List.mem_singleton.mp hcall ▸ Nat.lt_succ_self _
    case isFalse =>
      obtain rfl := Option.some.inj hstep
      have hfilter : s.started.filter (· ∈ s.queued ++ [s.called]) =
        s.started.filter (· ∈ s.queued) := by
        refine List.filter_congr fun call hcall => ?_
        simp [(h.started call hcall).ne]
      refine ⟨?_, ?_, ?_, fun call hcall => (h.started call hcall).trans (Nat.lt_succ_self _)⟩
      · simp only [hfilter, ← List.append_assoc, h.order]
      · refine List.pairwise_append.mpr ⟨h.sorted, List.pairwise_singleton _ _, fun a ha b hb => ?_⟩
        exact List.mem_singleton.mp hb ▸ h.called a ha
      · intro call hcall
        rcases List.mem_append.mp hcall with hcall | hcall
        · exact (h.called call hcall).trans (Nat.lt_succ_self _)
        · exact List.mem_singleton.mp hcall ▸ Nat.lt_succ_self _
  | settle call =>
    simp only [Limit.step] at hstep
    split at hstep
    case isFalse => exact absurd hstep (Option.some_ne_none _).symm
    case isTrue =>
      obtain rfl := Option.some.inj hstep
      refine ⟨Eq.trans ?_ h.order, h.sorted, h.called, h.started⟩
      simp [starting]
  | job k throws =>
    obtain rfl := hfifo k throws (List.mem_singleton_self _)
    simp only [Limit.step] at hstep
    cases hjobs : s.jobs with
    | nil =>
      rw [hjobs] at hstep
      exact absurd hstep (Option.some_ne_none _).symm
    | cons job rest =>
      have horder := h.order
      simp only [hjobs, List.getElem?_cons_zero, List.eraseIdx_zero, List.tail_cons] at hstep horder
      cases job with
      | start call =>
        obtain rfl := Option.some.inj hstep
        have hmem : call ∈ s.queued := by
          rw [← horder]
          simp [starting]
        refine Queue.run (s := { s with jobs := rest }) ⟨Eq.trans ?_ horder, h.sorted, h.called,
          fun call' hcall => ?_⟩ throws
        · simp only [List.filter_append, List.filter_cons, hmem, decide_true, if_true,
            List.filter_nil]
          simp [starting]
        · rcases List.mem_append.mp hcall with hcall | hcall
          · exact h.started call' hcall
          · exact List.mem_singleton.mp hcall ▸ h.called call hmem
      | release call =>
        obtain rfl := Option.some.inj hstep
        exact Queue.release ⟨horder, h.sorted, h.called, h.started⟩

theorem Queue.runs (h : Queue s) {events : List Event} (hfifo : Fifo events)
    (hruns : runs concurrency events s = some s') : Queue s' := by
  induction events generalizing s with
  | nil =>
    obtain rfl := Option.some.inj hruns
    exact h
  | cons event events ih =>
    obtain ⟨s₁, hstep, hruns⟩ := Option.bind_eq_some_iff.mp hruns
    have hfirst : Fifo [event] := fun k throws hmem =>
      hfifo k throws (List.mem_singleton.mp hmem ▸ List.mem_cons_self)
    exact ih (h.step hfirst hstep) (fun k throws hmem => hfifo k throws (List.mem_cons_of_mem _ hmem))
      hruns

/-! ## Slots that are free again -/

/-- While slots are free, tasks that are called run. -/
theorem runs_free {k : ℕ} (hfree : s.running + k ≤ concurrency) :
    ∃ s', runs concurrency (List.replicate k (.call false)) s = some s' ∧
      s'.active.length = s.active.length + k := by
  induction k generalizing s with
  | zero => exact ⟨s, rfl, rfl⟩
  | succ k ih =>
    have hstep : step concurrency s (.call false) = some
        { s with
          running := s.running + 1
          called := s.called + 1
          slots := s.slots ++ [s.called]
          started := s.started ++ [s.called]
          active := s.active ++ [s.called] } := if_pos (show s.running < concurrency by omega)
    obtain ⟨s', hruns, hlength⟩ := ih (s := { s with
      running := s.running + 1
      called := s.called + 1
      slots := s.slots ++ [s.called]
      started := s.started ++ [s.called]
      active := s.active ++ [s.called] }) (show s.running + 1 + k ≤ concurrency by omega)
    refine ⟨s', ?_, ?_⟩
    · rw [List.replicate_succ]
      exact Option.bind_eq_some_iff.mpr ⟨_, hstep, hruns⟩
    · rw [hlength, List.length_append, List.length_singleton]
      omega

/-- **A semaphore that gives its slots in the order of the calls and leaks none**: at most so many
tasks run at once, a slot given is held or was given back once, calls that waited start in the order
they came, and once every task has settled as many may run again. -/
theorem limit_fifo (hconcurrency : 1 ≤ concurrency) {events : List Event}
    (hruns : runs concurrency events .init = some s) :
    s.active.length ≤ concurrency ∧
    s.slots ++ s.waiting = List.range s.called ∧
    (s.waiting ≠ [] → s.running = concurrency) ∧
    (s.slots.length = s.running + s.released.length ∧ s.released.Nodup) ∧
    (Fifo events → (s.started.filter (· ∈ s.queued)).Pairwise (· < ·)) ∧
    (s.active = [] → s.jobs = [] → s.waiting = [] ∧ s.released.length = s.called ∧
      ∃ s', runs concurrency (List.replicate concurrency (.call false)) s = some s' ∧
        s'.active.length = concurrency) := by
  have h := (inv_init concurrency).runs hruns
  have hheld : s.slots.Perm (s.jobs.map Job.call ++ s.active ++ s.released) := by
    refine List.perm_iff_count.mpr fun call => ?_
    simp only [List.count_append, h.held]
  have hlength : s.slots.length = s.running + s.released.length := by
    rw [hheld.length_eq, h.running]
    simp only [List.length_append, List.length_map]
    omega
  refine ⟨by have := h.running; have := h.most; omega, h.order, h.full, ⟨hlength, ?_⟩, ?_, ?_⟩
  · have hslots : s.slots.Nodup :=
      (h.order ▸ List.nodup_range : (s.slots ++ s.waiting).Nodup).sublist
      (List.sublist_append_left _ _)
    exact (hheld.nodup_iff.mp hslots).sublist (List.sublist_append_right _ _)
  · intro hfifo
    have hqueue : Queue .init := ⟨rfl, List.Pairwise.nil, nofun, nofun⟩
    have hq := hqueue.runs hfifo hruns
    have hprefix := (List.prefix_append (s.started.filter (· ∈ s.queued)) (starting s.jobs)).trans
      (List.prefix_append _ s.waiting)
    rw [hq.order] at hprefix
    exact hq.sorted.sublist hprefix.sublist
  · intro hactive hjobs
    have hrunning : s.running = 0 := by rw [h.running, hactive, hjobs]; rfl
    have hwaiting : s.waiting = [] := by
      by_contra hne
      have := h.full hne
      omega
    refine ⟨hwaiting, ?_, ?_⟩
    · have horder := congrArg List.length h.order
      rw [hwaiting, List.append_nil, List.length_range] at horder
      omega
    · obtain ⟨s', hruns', hlength'⟩ :=
        runs_free (show s.running + concurrency ≤ concurrency by omega)
      exact ⟨s', hruns', by rw [hlength', hactive]; simp⟩

/-- Two slots, three calls, and a third task that throws. -/
theorem limit_fifo_three : ∃ s, runs 2 [.call false, .call false, .call false, .settle 1,
    .job 0 false,
    .job 0 true, .settle 0, .job 0 false] .init = some s ∧ s.waiting = [] ∧ s.released.length = 3 :=
  have h := (limit_fifo (by decide) (rfl : runs 2 [.call false, .call false, .call false, .settle 1,
    .job 0 false, .job 0 true, .settle 0, .job 0 false] .init = some _)).2.2.2.2.2 rfl rfl
  ⟨_, rfl, h.1, h.2.1⟩

/-- Two tasks settle while one call waits: its slot is handed on, the other is free, and a call that
comes before its promise goes on starts first. -/
theorem limit_overtakes : ∃ s, runs 2 [.call false, .call false, .call false, .settle 0, .settle 1,
    .job 0 false, .job 0 false, .call false, .job 0 false] .init = some s ∧
      s.started = [0, 1, 3, 2] := ⟨_, rfl, rfl⟩

end Janus.Auth.Limit
