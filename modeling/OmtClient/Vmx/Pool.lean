import OmtClient.Lib.Loop
import OmtClient.Lib.Threads

/-!
# The decoder's pool

`Decoder::run`, `Drop for Decoder` and `worker_main` of `crates/omt-vmx/src/lib.rs`: the
calling thread publishes a job under the pool's lock and waits until every worker has let go
of it. Each part that runs under the lock is one step, and so is a worker's decode; a
thread that waits on a condition variable is asleep until it is notified, or wakes for no
reason. From the end of a job to the next test of its loop a worker keeps the lock: letting
the others in between only adds interleavings.

The jobs are those of the calls to `run`, after which the decoder is dropped. What a worker
executed is a history; `running` is an integer here, so that it could go below zero.

1. `pool_handshake`: what holds in every state of every interleaving, and that the threads
   cannot come to a stop before the decoder is dropped.
-/

namespace OmtClient.Vmx.Pool

open OmtClient.Lib

variable {J : Type}

/-- Where a worker is. -/
inductive Pc (J : Type)
  /-- At the test of its loop. -/
  | ready
  /-- In `start.wait`. -/
  | asleep
  /-- With the job it copied, outside the lock. -/
  | working (job : Option J)
  /-- Done with the job, before it takes the lock again. -/
  | done
  | exited
  deriving DecidableEq, Repr

structure Worker (J : Type) where
  pc : Pc J
  seen : Nat
  executed : List J
  deriving DecidableEq, Repr

/-- Where the calling thread is: how many calls of `run` have returned, and how far the
present one is. -/
inductive Caller
  | between (runs : Nat)
  | decoding (runs : Nat)
  /-- At the test of `while state.running > 0`. -/
  | waiting (runs : Nat)
  /-- In `finished.wait`. -/
  | asleep (runs : Nat)
  | joining
  | dropped
  deriving DecidableEq, Repr

structure State (J : Type) where
  generation : Nat
  running : Int
  shutdown : Bool
  job : Option J
  workers : List (Worker J)
  caller : Caller
  deriving DecidableEq, Repr

def State.init (threads : Nat) : State J :=
  ⟨0, 0, false, none, List.replicate threads ⟨.ready, 0, []⟩, .between 0⟩

/-! ## Steps -/

/-- A notification on `start`, or a wake for no reason. -/
def Worker.wake (w : Worker J) : Worker J := if w.pc matches .asleep then { w with pc := .ready } else w

/-- The same for the caller. -/
def Caller.wake : Caller → Caller
  | .asleep runs => .waiting runs
  | c => c

/-- What the calling thread does next. -/
def callerStep (jobs : List J) (s : State J) : Option (State J) :=
  match s.caller with
  | .between runs =>
    match jobs[runs]? with
    | some job =>
      if s.workers = [] then some { s with caller := .between (runs + 1) }
      else
        some { s with
          job := some job
          running := s.workers.length
          generation := s.generation + 1
          workers := s.workers.map Worker.wake
          caller := .decoding runs }
    | none => some { s with shutdown := true, workers := s.workers.map Worker.wake, caller := .joining }
  | .decoding runs => some { s with caller := .waiting runs }
  | .waiting runs =>
    if 0 < s.running then some { s with caller := .asleep runs }
    else some { s with job := none, caller := .between (runs + 1) }
  | .asleep _ => none
  | .joining => if s.workers.all (·.pc matches .exited) then some { s with caller := .dropped } else none
  | .dropped => none

/-- What a worker does next, to the pool and to itself. -/
def workerStep (s : State J) (w : Worker J) : Option (State J × Worker J) :=
  match w.pc with
  | .ready =>
    if s.shutdown then some (s, { w with pc := .exited })
    else if s.generation = w.seen then some (s, { w with pc := .asleep })
    else some (s, { w with pc := .working s.job, seen := s.generation })
  | .asleep => none
  | .working job => some (s, { w with pc := .done, executed := w.executed ++ job.toList })
  | .done =>
    let running := s.running - 1
    some ({ s with running, caller := if running = 0 then s.caller.wake else s.caller }, { w with pc := .ready })
  | .exited => none

/-- Which thread goes next; a thread may also wake for no reason. -/
inductive Action
  | caller
  | worker (i : Nat)
  | wakeCaller
  | wakeWorker (i : Nat)
  deriving DecidableEq, Repr

def step (jobs : List J) (s : State J) : Action → Option (State J)
  | .caller => callerStep jobs s
  | .worker i =>
    s.workers[i]?.bind fun w => (workerStep s w).map fun p => { p.1 with workers := s.workers.set i p.2 }
  | .wakeCaller => some { s with caller := s.caller.wake }
  | .wakeWorker i => s.workers[i]?.map fun w => { s with workers := s.workers.set i w.wake }

/-- The state that an interleaving leads to. -/
def run (jobs : List J) (s : State J) (schedule : List Action) : Option (State J) := schedule.foldlM (step jobs) s

/-- A thread that only wakes for no reason or goes to sleep. -/
def idle (s : State J) : Action → Bool
  | .caller => s.caller matches .waiting _ && decide (0 < s.running)
  | .worker i =>
    s.workers[i]?.any fun w => w.pc matches .ready && !s.shutdown && decide (s.generation = w.seen)
  | _ => true

/-! ## What is left to do -/

/-- The steps that a worker owes to the present generation, and its exit. -/
def Worker.owes (generation : Nat) (w : Worker J) : Nat :=
  match w.pc with
  | .ready | .asleep => if w.seen = generation then 1 else 4
  | .working _ => 3
  | .done => 2
  | .exited => 0

/-- The steps that the calling thread owes, with those of the workers for the jobs to come. -/
def Caller.owes (jobs threads : Nat) : Caller → Nat
  | .between runs => (jobs - runs) * (3 * threads + 3) + 2
  | .decoding runs => (jobs - (runs + 1)) * (3 * threads + 3) + 4
  | .waiting runs | .asleep runs => (jobs - (runs + 1)) * (3 * threads + 3) + 3
  | .joining => 1
  | .dropped => 0

/-- The steps, other than waking and going to sleep, that are left. -/
def State.owes (jobs : Nat) (s : State J) : Nat :=
  s.caller.owes jobs s.workers.length + (s.workers.map (Worker.owes s.generation)).sum

/-- What the handshake promises in a state. -/
structure Safe (jobs : List J) (s : State J) : Prop where
  /-- A worker executes the jobs in order, each once. -/
  executes : ∀ w ∈ s.workers, w.executed <+: jobs
  nonneg : 0 ≤ s.running
  /-- A call of `run` returns when each worker has executed its job and none holds it. -/
  returned : ∀ runs, s.caller = .between runs →
    s.job = none ∧ ∀ w ∈ s.workers, (w.pc = .ready ∨ w.pc = .asleep) ∧ w.executed = jobs.take runs
  /-- A worker exits when it has finished all there was. -/
  exits : ∀ w ∈ s.workers, w.pc = .exited → w.executed = jobs
  dropped : s.caller = .dropped → ∀ w ∈ s.workers, w.pc = .exited
  /-- Until the decoder is dropped some thread has a step that is not idle. -/
  progress : s.caller ≠ .dropped → ∃ a s', step jobs s a = some s' ∧ idle s a = false
  /-- Such steps come to an end; the idle ones change nothing of that. -/
  ends : ∀ a s', step jobs s a = some s' →
    s'.owes jobs.length ≤ s.owes jobs.length ∧ (idle s a = false → s'.owes jobs.length < s.owes jobs.length)

/-! ## The invariant -/

/-- A worker that has nothing to do. -/
structure Rested (jobs : List J) (runs : Nat) (w : Worker J) : Prop where
  pc : w.pc = .ready ∨ w.pc = .asleep
  seen : w.seen = runs
  executed : w.executed = jobs.take runs

/-- How far a worker is with the job of the call after `runs` others. -/
inductive Stage (jobs : List J) (job : J) (runs : Nat) (w : Worker J) : Prop
  | behind (hpc : w.pc = .ready) (hseen : w.seen = runs) (hexecuted : w.executed = jobs.take runs)
  | working (hpc : w.pc = .working (some job)) (hseen : w.seen = runs + 1) (hexecuted : w.executed = jobs.take runs)
  | done (hpc : w.pc = .done) (hseen : w.seen = runs + 1) (hexecuted : w.executed = jobs.take (runs + 1))
  | rested (h : Rested jobs (runs + 1) w)

/-- A worker that `running` still counts. -/
def pending (generation : Nat) (w : Worker J) : Bool :=
  match w.pc with
  | .ready | .asleep => w.seen != generation
  | .working _ | .done => true
  | .exited => false

inductive Inv (jobs : List J) (s : State J) : Prop
  | between {runs : Nat} (hcaller : s.caller = .between runs) (hruns : runs ≤ jobs.length) (hrunning : s.running = 0)
    (hjob : s.job = none) (hshutdown : s.shutdown = false)
    (hworkers : ∀ w ∈ s.workers, Rested jobs runs w ∧ s.generation = runs)
  | running {runs : Nat} {job : J}
    (hcaller : s.caller = .decoding runs ∨ s.caller = .waiting runs ∨ s.caller = .asleep runs)
    (hjobs : jobs[runs]? = some job) (hjob : s.job = some job) (hshutdown : s.shutdown = false)
    (hgeneration : s.generation = runs + 1) (hworkers : ∀ w ∈ s.workers, Stage jobs job runs w)
    (hrunning : s.running = (s.workers.countP (pending (runs + 1)) : Int))
    (hasleep : s.caller = .asleep runs → 0 < s.running)
  | joining (hcaller : s.caller = .joining) (hrunning : s.running = 0) (hshutdown : s.shutdown = true)
    (hworkers : ∀ w ∈ s.workers,
      ((w.pc = .ready ∧ w.seen = s.generation) ∨ w.pc = .exited) ∧ w.executed = jobs)
  | dropped (hcaller : s.caller = .dropped) (hrunning : s.running = 0)
    (hworkers : ∀ w ∈ s.workers, w.pc = .exited ∧ w.executed = jobs)

namespace PoolLemmas

variable {jobs : List J} {s s' : State J} {w : Worker J} {runs i : Nat} {job : J}

theorem sum_const {α : Type} {f : α → Nat} {l : List α} {c : Nat} (h : ∀ x ∈ l, f x = c) :
    (l.map f).sum = l.length * c := by
  rw [List.map_congr_left h, List.map_const', List.sum_replicate_nat]

theorem wake_rested (h : Rested jobs runs w) : w.wake.pc = .ready ∧ Rested jobs runs w.wake := by
  unfold Worker.wake
  rcases h.pc with hpc | hpc
  · rw [hpc]
    exact ⟨hpc, h⟩
  · rw [hpc]
    exact ⟨rfl, .inl rfl, h.seen, h.executed⟩

theorem owes_rested {g : Nat} (h : Rested jobs runs w) (hg : g = runs) : w.owes g = 1 := by
  unfold Worker.owes
  rcases h.pc with hpc | hpc
  · rw [hpc]
    exact if_pos (h.seen.trans hg.symm)
  · rw [hpc]
    exact if_pos (h.seen.trans hg.symm)

theorem owes_wake (g : Nat) : w.wake.owes g = w.owes g := by
  unfold Worker.wake
  cases hpc : w.pc <;> simp [Worker.owes, hpc]

theorem pending_wake (g : Nat) : pending g w.wake = pending g w := by
  unfold Worker.wake
  cases hpc : w.pc <;> simp [pending, hpc]

theorem rested_of_not_pending (h : Stage jobs job runs w) (hnot : ¬ pending (runs + 1) w = true) :
    Rested jobs (runs + 1) w := by
  unfold pending at hnot
  cases h with
  | behind hpc hseen hexecuted =>
    rw [hpc] at hnot
    have hne : w.seen ≠ runs + 1 := by
      rw [hseen]
      exact Nat.ne_of_lt (Nat.lt_succ_self runs)
    exact absurd (bne_iff_ne.mpr hne) hnot
  | working hpc hseen hexecuted =>
    rw [hpc] at hnot
    exact absurd rfl hnot
  | done hpc hseen hexecuted =>
    rw [hpc] at hnot
    exact absurd rfl hnot
  | rested h => exact h

/-- What a step may do to what is left to do. -/
def Descends (jobs : List J) (s s' : State J) (a : Action) : Prop :=
  s'.owes jobs.length ≤ s.owes jobs.length ∧ (idle s a = false → s'.owes jobs.length < s.owes jobs.length)

theorem descends_of_lt {a : Action} (h : s'.owes jobs.length < s.owes jobs.length) : Descends jobs s s' a :=
  ⟨Nat.le_of_lt h, fun _ => h⟩

theorem descends_of_idle {a : Action} (h : s'.owes jobs.length ≤ s.owes jobs.length) (hidle : idle s a = true) :
    Descends jobs s s' a :=
  ⟨h, fun hnot => absurd (hidle.symm.trans hnot) (by decide)⟩

/-- A job is published, or the decoder is dropped. -/
theorem step_between (hcaller : s.caller = .between runs) (hruns : runs ≤ jobs.length) (hrunning : s.running = 0)
    (hjob : s.job = none) (hshutdown : s.shutdown = false)
    (hworkers : ∀ w ∈ s.workers, Rested jobs runs w ∧ s.generation = runs) (hstep : callerStep jobs s = some s') :
    Inv jobs s' ∧ Descends jobs s s' .caller := by
  unfold callerStep at hstep
  rw [hcaller] at hstep
  dsimp only at hstep
  have howes : (s.workers.map (Worker.owes s.generation)).sum = s.workers.length * 1 :=
    sum_const fun w hw => owes_rested (hworkers w hw).1 (hworkers w hw).2
  cases hnext : jobs[runs]? with
  | none =>
    rw [hnext] at hstep
    cases hstep
    have hall : runs = jobs.length := Nat.le_antisymm hruns (List.getElem?_eq_none_iff.mp hnext)
    refine ⟨.joining rfl hrunning rfl fun w hw => ?_, descends_of_lt ?_⟩
    · obtain ⟨w, hw', rfl⟩ := List.mem_map.mp hw
      obtain ⟨hrested, hgen⟩ := hworkers w hw'
      obtain ⟨hpc, hwake⟩ := wake_rested hrested
      refine ⟨.inl ⟨hpc, hwake.seen.trans hgen.symm⟩, hwake.executed.trans ?_⟩
      rw [hall, List.take_length]
    · have hsame : ((s.workers.map Worker.wake).map (Worker.owes s.generation)).sum = s.workers.length * 1 := by
        rw [← howes, List.map_map]
        exact congrArg List.sum (List.map_congr_left fun w _ => owes_wake s.generation)
      unfold State.owes
      rw [hsame, howes, hcaller, hall, Caller.owes, Caller.owes]
      omega
  | some job =>
    rw [hnext] at hstep
    dsimp only at hstep
    have hlt : runs < jobs.length := (List.getElem?_eq_some_iff.mp hnext).1
    split at hstep
    · next hnone =>
      cases hstep
      refine ⟨.between rfl hlt hrunning hjob hshutdown fun w hw => ?_, descends_of_lt ?_⟩
      · rw [hnone] at hw
        cases hw
      · unfold State.owes
        rw [hcaller]
        dsimp only
        rw [Caller.owes, Caller.owes, hnone, List.length_nil]
        omega
    · cases hstep
      have hbehind : ∀ w ∈ s.workers, w.wake.pc = .ready ∧ w.wake.seen = runs ∧ w.wake.executed = jobs.take runs :=
        fun w hw => ⟨(wake_rested (hworkers w hw).1).1, (wake_rested (hworkers w hw).1).2.seen,
          (wake_rested (hworkers w hw).1).2.executed⟩
      have hgen : s.generation = runs := by
        obtain ⟨w, ws, hw⟩ := List.exists_cons_of_ne_nil ‹s.workers ≠ []›
        exact (hworkers w (by rw [hw]; exact List.mem_cons_self)).2
      refine ⟨.running (.inl rfl) hnext rfl hshutdown (congrArg (· + 1) hgen) (fun w hw => ?_) ?_ nofun, descends_of_lt ?_⟩
      · obtain ⟨w, hw', rfl⟩ := List.mem_map.mp hw
        exact .behind (hbehind w hw').1 (hbehind w hw').2.1 (hbehind w hw').2.2
      · have hall : (s.workers.map Worker.wake).countP (pending (runs + 1)) = (s.workers.map Worker.wake).length := by
          refine List.countP_eq_length.mpr fun w hw => ?_
          obtain ⟨w, hw', rfl⟩ := List.mem_map.mp hw
          unfold pending
          rw [(hbehind w hw').1]
          rw [(hbehind w hw').2.1, bne_iff_ne]
          exact Nat.ne_of_lt (Nat.lt_succ_self runs)
        rw [hall, List.length_map]
      · have hnow : ((s.workers.map Worker.wake).map (Worker.owes (s.generation + 1))).sum = s.workers.length * 4 := by
          rw [List.map_map]
          refine sum_const fun w hw => ?_
          rw [Function.comp_apply, Worker.owes, (hbehind w hw).1]
          rw [(hbehind w hw).2.1, hgen, if_neg (Nat.ne_of_lt (Nat.lt_succ_self runs))]
        unfold State.owes
        rw [hnow, howes, hcaller, Caller.owes, Caller.owes, List.length_map]
        have hsplit : (jobs.length - runs) * (3 * s.workers.length + 3) =
            (jobs.length - (runs + 1)) * (3 * s.workers.length + 3) + (3 * s.workers.length + 3) := by
          rw [← Nat.succ_mul]
          congr 1
          omega
        omega

/-- The calling thread while a job is out. -/
theorem step_running (hcaller : s.caller = .decoding runs ∨ s.caller = .waiting runs ∨ s.caller = .asleep runs)
    (hjobs : jobs[runs]? = some job) (hjob : s.job = some job) (hshutdown : s.shutdown = false)
    (hgeneration : s.generation = runs + 1) (hworkers : ∀ w ∈ s.workers, Stage jobs job runs w)
    (hrunning : s.running = (s.workers.countP (pending (runs + 1)) : Int)) (hstep : callerStep jobs s = some s') :
    Inv jobs s' ∧ Descends jobs s s' .caller := by
  unfold callerStep at hstep
  rcases hcaller with hcaller | hcaller | hcaller
  · rw [hcaller] at hstep
    cases hstep
    refine ⟨.running (.inr (.inl rfl)) hjobs hjob hshutdown hgeneration hworkers hrunning nofun, descends_of_lt ?_⟩
    unfold State.owes
    rw [hcaller]
    exact Nat.add_lt_add_right (Nat.lt_succ_self _) _
  · rw [hcaller] at hstep
    dsimp only at hstep
    split at hstep
    · next hpos =>
      cases hstep
      refine ⟨.running (.inr (.inr rfl)) hjobs hjob hshutdown hgeneration hworkers hrunning fun _ => hpos,
        descends_of_idle ?_ ?_⟩
      · unfold State.owes
        rw [hcaller]
        exact Nat.le_refl _
      · unfold idle
        rw [hcaller]
        exact decide_eq_true hpos
    · next hzero =>
      cases hstep
      -- no worker is counted any more, so each has been through the job
      have hcount : s.workers.countP (pending (runs + 1)) = 0 := by omega
      have hlt : runs < jobs.length := (List.getElem?_eq_some_iff.mp hjobs).1
      have hrested : ∀ w ∈ s.workers, Rested jobs (runs + 1) w := fun w hw =>
        rested_of_not_pending (hworkers w hw) (List.countP_eq_zero.mp hcount w hw)
      refine ⟨.between rfl hlt (by rw [hrunning, hcount]; rfl) rfl hshutdown fun w hw => ⟨hrested w hw, hgeneration⟩,
        descends_of_lt ?_⟩
      unfold State.owes
      rw [hcaller]
      exact Nat.add_lt_add_right (Nat.lt_succ_self _) _
  · rw [hcaller] at hstep
    cases hstep

theorem step_joining (hcaller : s.caller = .joining) (hrunning : s.running = 0)
    (hworkers : ∀ w ∈ s.workers, ((w.pc = .ready ∧ w.seen = s.generation) ∨ w.pc = .exited) ∧ w.executed = jobs)
    (hstep : callerStep jobs s = some s') : Inv jobs s' ∧ Descends jobs s s' .caller := by
  unfold callerStep at hstep
  rw [hcaller] at hstep
  dsimp only at hstep
  split at hstep
  · next hall =>
    cases hstep
    refine ⟨.dropped rfl hrunning fun w hw => ?_, descends_of_lt ?_⟩
    · have hexited := List.all_eq_true.mp hall w hw
      refine ⟨?_, (hworkers w hw).2⟩
      rcases (hworkers w hw).1 with ⟨hpc, -⟩ | hpc
      · rw [hpc] at hexited
        cases hexited
      · exact hpc
    · unfold State.owes
      rw [hcaller]
      exact Nat.add_lt_add_right (Nat.lt_succ_self _) _
  · cases hstep

theorem callerStep_spec (h : Inv jobs s) (hstep : callerStep jobs s = some s') :
    Inv jobs s' ∧ Descends jobs s s' .caller := by
  cases h with
  | between hcaller hruns hrunning hjob hshutdown hworkers =>
    exact step_between hcaller hruns hrunning hjob hshutdown hworkers hstep
  | running hcaller hjobs hjob hshutdown hgeneration hworkers hrunning hasleep =>
    exact step_running hcaller hjobs hjob hshutdown hgeneration hworkers hrunning hstep
  | joining hcaller hrunning hshutdown hworkers => exact step_joining hcaller hrunning hworkers hstep
  | dropped hcaller hrunning hworkers =>
    unfold callerStep at hstep
    rw [hcaller] at hstep
    cases hstep

/-! ## Workers -/

theorem caller_wake_owes (n m : Nat) (c : Caller) : c.wake.owes n m = c.owes n m := by
  cases c <;> rfl

theorem wake_ne_asleep (c : Caller) (runs : Nat) : c.wake ≠ .asleep runs := by
  cases c <;> exact nofun

/-- A worker that owes less, with the caller where it was or awake. -/
theorem descends_worker {a : Action} {as bs : List (Worker J)} {w' : Worker J} (hs : s.workers = as ++ w :: bs)
    (hs' : s'.workers = as ++ w' :: bs) (hcaller : s'.caller = s.caller ∨ s'.caller = s.caller.wake)
    (hgen : s'.generation = s.generation) :
    (w'.owes s.generation < w.owes s.generation → Descends jobs s s' a) ∧
      (w'.owes s.generation = w.owes s.generation → idle s a = true → Descends jobs s s' a) := by
  have hsame : ∀ n, s'.caller.owes n s'.workers.length = s.caller.owes n s.workers.length := by
    intro n
    have hlength : s'.workers.length = s.workers.length := by
      rw [hs, hs', List.length_append, List.length_append, List.length_cons, List.length_cons]
    rw [hlength]
    rcases hcaller with hcaller | hcaller
    · rw [hcaller]
    · rw [hcaller, caller_wake_owes]
  have hsum : s.owes jobs.length = s.caller.owes jobs.length s.workers.length +
      (w.owes s.generation + ((as ++ bs).map (Worker.owes s.generation)).sum) := by
    unfold State.owes
    rw [← sum_replace, ← hs]
  have hsum' : s'.owes jobs.length = s.caller.owes jobs.length s.workers.length +
      (w'.owes s.generation + ((as ++ bs).map (Worker.owes s.generation)).sum) := by
    unfold State.owes
    rw [hsame, hgen, hs', sum_replace]
  constructor
  · intro hlt
    exact descends_of_lt (by omega)
  · intro heq hidle
    exact descends_of_idle (by omega) hidle

/-- What a worker's step does, when the pool is `s`. -/
theorem workerStep_cases {q : State J × Worker J} (h : workerStep s w = some q) :
    (w.pc = .ready ∧ s.shutdown = true ∧ q = (s, { w with pc := .exited })) ∨
    (w.pc = .ready ∧ s.shutdown = false ∧ s.generation = w.seen ∧ q = (s, { w with pc := .asleep })) ∨
    (w.pc = .ready ∧ s.shutdown = false ∧ s.generation ≠ w.seen ∧
      q = (s, { w with pc := .working s.job, seen := s.generation })) ∨
    (∃ job, w.pc = .working job ∧ q = (s, { w with pc := .done, executed := w.executed ++ job.toList })) ∨
    (w.pc = .done ∧ q = ({ s with
      running := s.running - 1
      caller := if s.running - 1 = 0 then s.caller.wake else s.caller }, { w with pc := .ready })) := by
  unfold workerStep at h
  cases hpc : w.pc with
  | ready =>
    rw [hpc] at h
    dsimp only at h
    split at h
    · next hdown => exact .inl ⟨rfl, hdown, (Option.some.inj h).symm⟩
    · next hdown =>
      have hdown := Bool.eq_false_iff.mpr hdown
      split at h
      · next hseen => exact .inr (.inl ⟨rfl, hdown, hseen, (Option.some.inj h).symm⟩)
      · next hseen => exact .inr (.inr (.inl ⟨rfl, hdown, hseen, (Option.some.inj h).symm⟩))
  | asleep =>
    rw [hpc] at h
    cases h
  | working job =>
    rw [hpc] at h
    exact .inr (.inr (.inr (.inl ⟨job, rfl, (Option.some.inj h).symm⟩)))
  | done =>
    rw [hpc] at h
    exact .inr (.inr (.inr (.inr ⟨rfl, (Option.some.inj h).symm⟩)))
  | exited =>
    rw [hpc] at h
    cases h

theorem idle_worker (hi : s.workers[i]? = some w) (hpc : w.pc = .ready) (hdown : s.shutdown = false)
    (hseen : s.generation = w.seen) : idle s (.worker i) = true := by
  unfold idle
  dsimp only
  rw [hi, Option.any_some, hpc, hdown, decide_eq_true hseen]
  rfl

theorem owes_asleep (hpc : w.pc = .ready) (g : Nat) : Worker.owes g { w with pc := .asleep } = w.owes g := by
  unfold Worker.owes
  rw [hpc]

/-- The state after a worker's step. -/
def after (s : State J) (i : Nat) (q : State J × Worker J) : State J := { q.1 with workers := s.workers.set i q.2 }

theorem after_workers {q : State J × Worker J} (hi : s.workers[i]? = some w) :
    ∃ as bs, s.workers = as ++ w :: bs ∧ (after s i q).workers = as ++ q.2 :: bs := by
  obtain ⟨as, bs, hs, hset⟩ := getElem_split hi
  exact ⟨as, bs, hs, hset q.2⟩

theorem worker_between {q : State J × Worker J} (hi : s.workers[i]? = some w) (hstep : workerStep s w = some q)
    (hcaller : s.caller = .between runs) (hruns : runs ≤ jobs.length) (hrunning : s.running = 0)
    (hjob : s.job = none) (hshutdown : s.shutdown = false)
    (hworkers : ∀ w ∈ s.workers, Rested jobs runs w ∧ s.generation = runs) :
    Inv jobs (after s i q) ∧ Descends jobs s (after s i q) (.worker i) := by
  obtain ⟨as, bs, hs, hafter⟩ := after_workers (q := q) hi
  obtain ⟨hrested, hgen⟩ := hworkers w (List.mem_of_getElem? hi)
  rcases workerStep_cases hstep with ⟨-, hdown, -⟩ | ⟨hpc, hdown, hseen, rfl⟩ | ⟨-, -, hseen, -⟩ | ⟨job, hpc, -⟩ | ⟨hpc, -⟩
  · exact absurd (hdown.symm.trans hshutdown) (by decide)
  · refine ⟨.between hcaller hruns hrunning hjob hshutdown ?_, ?_⟩
    · rw [hafter]
      exact forall_replace (hs ▸ hworkers) ⟨⟨.inr rfl, hrested.seen, hrested.executed⟩, hgen⟩
    · exact (descends_worker hs hafter (.inl rfl) rfl).2 (owes_asleep hpc _) (idle_worker hi hpc hdown hseen)
  · exact absurd (hgen.trans hrested.seen.symm) hseen
  · rcases hrested.pc with h | h
    · exact nomatch h.symm.trans hpc
    · exact nomatch h.symm.trans hpc
  · rcases hrested.pc with h | h
    · exact nomatch h.symm.trans hpc
    · exact nomatch h.symm.trans hpc

theorem worker_joining {q : State J × Worker J} (hi : s.workers[i]? = some w) (hstep : workerStep s w = some q)
    (hcaller : s.caller = .joining) (hrunning : s.running = 0) (hshutdown : s.shutdown = true)
    (hworkers : ∀ w ∈ s.workers, ((w.pc = .ready ∧ w.seen = s.generation) ∨ w.pc = .exited) ∧ w.executed = jobs) :
    Inv jobs (after s i q) ∧ Descends jobs s (after s i q) (.worker i) := by
  obtain ⟨as, bs, hs, hafter⟩ := after_workers (q := q) hi
  obtain ⟨hwhere, hexecuted⟩ := hworkers w (List.mem_of_getElem? hi)
  rcases workerStep_cases hstep with ⟨hpc, -, rfl⟩ | ⟨-, hdown, -⟩ | ⟨-, hdown, -⟩ | ⟨job, hpc, -⟩ | ⟨hpc, -⟩
  · refine ⟨.joining hcaller hrunning hshutdown ?_, ?_⟩
    · rw [hafter]
      exact forall_replace (hs ▸ hworkers) ⟨.inr rfl, hexecuted⟩
    · refine (descends_worker hs hafter (.inl rfl) rfl).1 ?_
      unfold Worker.owes
      rw [hpc]
      dsimp only
      split <;> decide
  · exact absurd (hdown.symm.trans hshutdown) (by decide)
  · exact absurd (hdown.symm.trans hshutdown) (by decide)
  · rcases hwhere with ⟨h, -⟩ | h
    · exact nomatch h.symm.trans hpc
    · exact nomatch h.symm.trans hpc
  · rcases hwhere with ⟨h, -⟩ | h
    · exact nomatch h.symm.trans hpc
    · exact nomatch h.symm.trans hpc

section

variable (hcaller : s.caller = .decoding runs ∨ s.caller = .waiting runs ∨ s.caller = .asleep runs)
  (hjobs : jobs[runs]? = some job) (hjob : s.job = some job) (hshutdown : s.shutdown = false)
  (hgeneration : s.generation = runs + 1) (hworkers : ∀ w ∈ s.workers, Stage jobs job runs w)
  (hrunning : s.running = (s.workers.countP (pending (runs + 1)) : Int))
  (hasleep : s.caller = .asleep runs → 0 < s.running)

include hcaller hjobs hjob hshutdown hgeneration hworkers hrunning hasleep

/-- A worker that copies the job, decodes it or goes to sleep: it is counted as before. -/
theorem inv_counted {w' : Worker J} (hi : s.workers[i]? = some w) (hstage : Stage jobs job runs w')
    (hpending : pending (runs + 1) w' = pending (runs + 1) w) : Inv jobs (after s i (s, w')) := by
  obtain ⟨as, bs, hs, hafter⟩ := after_workers (q := (s, w')) hi
  refine .running hcaller hjobs hjob hshutdown hgeneration ?_ ?_ hasleep
  · rw [hafter]
    exact forall_replace (hs ▸ hworkers) hstage
  · rw [hafter, countP_replace, hpending, ← countP_replace, ← hs]
    exact hrunning

/-- A worker that has let go of the job: the count goes down, and the last one wakes the
caller. -/
theorem inv_finished (hi : s.workers[i]? = some w) (hpc : w.pc = .done) (hseen : w.seen = runs + 1)
    (hexecuted : w.executed = jobs.take (runs + 1)) :
    Inv jobs (after s i ({ s with
      running := s.running - 1
      caller := if s.running - 1 = 0 then s.caller.wake else s.caller }, { w with pc := .ready })) := by
  obtain ⟨as, bs, hs, hafter⟩ := after_workers (q := (s, { w with pc := .ready })) hi
  have hbefore : pending (runs + 1) w = true := by
    unfold pending
    rw [hpc]
  have hnow : pending (runs + 1) { w with pc := .ready } = false := by
    unfold pending
    rw [hseen]
    exact bne_self_eq_false _
  refine (@Inv.running _ _ _ runs) ?_ hjobs hjob hshutdown hgeneration ?_ ?_ ?_
  · show (if s.running - 1 = 0 then s.caller.wake else s.caller) = _ ∨ _
    split
    · rcases hcaller with h | h | h
      · exact .inl (congrArg Caller.wake h)
      · exact .inr (.inl (congrArg Caller.wake h))
      · exact .inr (.inl (congrArg Caller.wake h))
    · exact hcaller
  · have hrested : Stage jobs job runs { w with pc := .ready } := .rested ⟨.inl rfl, hseen, hexecuted⟩
    show ∀ z ∈ (after s i (s, { w with pc := .ready })).workers, _
    rw [hafter]
    exact forall_replace (hs ▸ hworkers) hrested
  · have hcount := (@countP_replace _ as bs w) (pending (runs + 1))
    have hcount' := (@countP_replace _ as bs { w with pc := .ready }) (pending (runs + 1))
    rw [hbefore, if_pos rfl, ← hs] at hcount
    rw [hnow, if_neg Bool.false_ne_true, ← hafter] at hcount'
    show s.running - 1 = ((after s i (s, { w with pc := .ready })).workers.countP _ : Int)
    omega
  · show (if s.running - 1 = 0 then s.caller.wake else s.caller) = _ → 0 < s.running - 1
    split
    · intro hasleep'
      exact absurd hasleep' (wake_ne_asleep s.caller runs)
    · intro hasleep'
      have hpos := hasleep hasleep'
      omega

theorem worker_running {q : State J × Worker J} (hi : s.workers[i]? = some w) (hstep : workerStep s w = some q) :
    Inv jobs (after s i q) ∧ Descends jobs s (after s i q) (.worker i) := by
  have hkept : ∀ w', Stage jobs job runs w' → pending (runs + 1) w' = pending (runs + 1) w → Inv jobs (after s i (s, w')) :=
    fun w' => inv_counted hcaller hjobs hjob hshutdown hgeneration hworkers hrunning hasleep hi
  have hstage := hworkers w (List.mem_of_getElem? hi)
  obtain ⟨as, bs, hs, hafter⟩ := after_workers (q := q) hi
  rcases workerStep_cases hstep with ⟨-, hdown, -⟩ | ⟨hpc, hdown, hseen, rfl⟩ | ⟨hpc, -, hseen, rfl⟩ | ⟨job', hpc, rfl⟩ | ⟨hpc, rfl⟩
  · exact absurd (hdown.symm.trans hshutdown) (by decide)
  · have hrested : Rested jobs (runs + 1) { w with pc := .asleep } := by
      cases hstage with
      | behind _ hseen' _ => omega
      | working hpc' _ _ => exact nomatch hpc.symm.trans hpc'
      | done hpc' _ _ => exact nomatch hpc.symm.trans hpc'
      | rested h => exact ⟨.inr rfl, h.seen, h.executed⟩
    have hpending : pending (runs + 1) { w with pc := .asleep } = pending (runs + 1) w := by
      unfold pending
      rw [hpc]
    exact ⟨hkept _ (.rested hrested) hpending,
      (descends_worker hs hafter (.inl rfl) rfl).2 (owes_asleep hpc _) (idle_worker hi hpc hdown hseen)⟩
  · have hexecuted : w.executed = jobs.take runs := by
      cases hstage with
      | behind _ _ h => exact h
      | working hpc' _ _ => exact nomatch hpc.symm.trans hpc'
      | done hpc' _ _ => exact nomatch hpc.symm.trans hpc'
      | rested h => exact absurd (hgeneration.trans h.seen.symm) hseen
    have hpending : pending (runs + 1) { w with pc := .working s.job, seen := s.generation } = pending (runs + 1) w := by
      unfold pending
      rw [hpc]
      exact (bne_iff_ne.mpr (hgeneration ▸ Ne.symm hseen)).symm
    refine ⟨hkept _ (.working (congrArg Pc.working hjob) hgeneration hexecuted) hpending,
      (descends_worker hs hafter (.inl rfl) rfl).1 ?_⟩
    unfold Worker.owes
    rw [hpc]
    dsimp only
    rw [if_neg (Ne.symm hseen)]
    decide
  · have hseen : w.seen = runs + 1 ∧ w.executed = jobs.take runs ∧ job' = some job := by
      cases hstage with
      | behind hpc' _ _ => exact nomatch hpc.symm.trans hpc'
      | working hpc' hseen hexecuted => exact ⟨hseen, hexecuted, Pc.working.inj (hpc.symm.trans hpc')⟩
      | done hpc' _ _ => exact nomatch hpc.symm.trans hpc'
      | rested h => exact (h.pc.elim (fun h => nomatch hpc.symm.trans h) fun h => nomatch hpc.symm.trans h)
    obtain ⟨hseen, hexecuted, rfl⟩ := hseen
    have htake : w.executed ++ (some job).toList = jobs.take (runs + 1) := by
      rw [hexecuted, ← hjobs, List.take_add_one]
    have hpending : pending (runs + 1) { w with pc := .done, executed := w.executed ++ (some job).toList } =
        pending (runs + 1) w := by
      unfold pending
      rw [hpc]
    refine ⟨hkept _ (.done rfl hseen htake) hpending, (descends_worker hs hafter (.inl rfl) rfl).1 ?_⟩
    unfold Worker.owes
    rw [hpc]
    exact Nat.lt_succ_self 2
  · have hseen : w.seen = runs + 1 ∧ w.executed = jobs.take (runs + 1) := by
      cases hstage with
      | behind hpc' _ _ => exact nomatch hpc.symm.trans hpc'
      | working hpc' _ _ => exact nomatch hpc.symm.trans hpc'
      | done _ hseen hexecuted => exact ⟨hseen, hexecuted⟩
      | rested h => exact (h.pc.elim (fun h => nomatch hpc.symm.trans h) fun h => nomatch hpc.symm.trans h)
    refine ⟨inv_finished hcaller hjobs hjob hshutdown hgeneration hworkers hrunning hasleep hi hpc hseen.1 hseen.2,
      (descends_worker hs hafter ?_ rfl).1 ?_⟩
    · show (if s.running - 1 = 0 then s.caller.wake else s.caller) = _ ∨ _
      split
      · exact .inr rfl
      · exact .inl rfl
    · unfold Worker.owes
      rw [hpc]
      dsimp only
      rw [if_pos (hseen.1.trans hgeneration.symm)]
      decide

end

theorem workerStep_spec {q : State J × Worker J} (h : Inv jobs s) (hi : s.workers[i]? = some w)
    (hstep : workerStep s w = some q) : Inv jobs (after s i q) ∧ Descends jobs s (after s i q) (.worker i) := by
  cases h with
  | between hcaller hruns hrunning hjob hshutdown hworkers =>
    exact worker_between hi hstep hcaller hruns hrunning hjob hshutdown hworkers
  | running hcaller hjobs hjob hshutdown hgeneration hworkers hrunning hasleep =>
    exact worker_running hcaller hjobs hjob hshutdown hgeneration hworkers hrunning hasleep hi hstep
  | joining hcaller hrunning hshutdown hworkers => exact worker_joining hi hstep hcaller hrunning hshutdown hworkers
  | dropped hcaller hrunning hworkers =>
    have hpc := (hworkers w (List.mem_of_getElem? hi)).1
    unfold workerStep at hstep
    rw [hpc] at hstep
    cases hstep

/-! ## Wakes for no reason -/

theorem wakeCaller_spec (h : Inv jobs s) :
    Inv jobs { s with caller := s.caller.wake } ∧ Descends jobs s { s with caller := s.caller.wake } .wakeCaller := by
  constructor
  · cases h with
    | between hcaller hruns hrunning hjob hshutdown hworkers =>
      exact .between (congrArg Caller.wake hcaller) hruns hrunning hjob hshutdown hworkers
    | running hcaller hjobs hjob hshutdown hgeneration hworkers hrunning hasleep =>
      refine .running ?_ hjobs hjob hshutdown hgeneration hworkers hrunning fun h => absurd h (wake_ne_asleep _ _)
      rcases hcaller with h | h | h
      · exact .inl (congrArg Caller.wake h)
      · exact .inr (.inl (congrArg Caller.wake h))
      · exact .inr (.inl (congrArg Caller.wake h))
    | joining hcaller hrunning hshutdown hworkers =>
      exact .joining (congrArg Caller.wake hcaller) hrunning hshutdown hworkers
    | dropped hcaller hrunning hworkers => exact .dropped (congrArg Caller.wake hcaller) hrunning hworkers
  · refine descends_of_idle ?_ rfl
    unfold State.owes
    exact Nat.add_le_add_right (Nat.le_of_eq (caller_wake_owes _ _ _)) _

theorem wake_stage (h : Stage jobs job runs w) : Stage jobs job runs w.wake := by
  cases h with
  | behind hpc hseen hexecuted =>
    unfold Worker.wake
    rw [hpc]
    exact .behind hpc hseen hexecuted
  | working hpc hseen hexecuted =>
    unfold Worker.wake
    rw [hpc]
    exact .working hpc hseen hexecuted
  | done hpc hseen hexecuted =>
    unfold Worker.wake
    rw [hpc]
    exact .done hpc hseen hexecuted
  | rested h => exact .rested (wake_rested h).2

theorem wakeWorker_spec (h : Inv jobs s) (hi : s.workers[i]? = some w) :
    Inv jobs (after s i (s, w.wake)) ∧ Descends jobs s (after s i (s, w.wake)) (.wakeWorker i) := by
  obtain ⟨as, bs, hs, hafter⟩ := after_workers (q := (s, w.wake)) hi
  refine ⟨?_, (descends_worker hs hafter (.inl rfl) rfl).2 (owes_wake _) rfl⟩
  have hmem := List.mem_of_getElem? hi
  cases h with
  | between hcaller hruns hrunning hjob hshutdown hworkers =>
    refine .between hcaller hruns hrunning hjob hshutdown ?_
    rw [hafter]
    exact forall_replace (hs ▸ hworkers) ⟨(wake_rested (hworkers w hmem).1).2, (hworkers w hmem).2⟩
  | running hcaller hjobs hjob hshutdown hgeneration hworkers hrunning hasleep =>
    exact inv_counted hcaller hjobs hjob hshutdown hgeneration hworkers hrunning hasleep hi
      (wake_stage (hworkers w hmem)) (pending_wake _)
  | joining hcaller hrunning hshutdown hworkers =>
    refine .joining hcaller hrunning hshutdown ?_
    have hwake : w.wake = w := by
      unfold Worker.wake
      rcases (hworkers w hmem).1 with ⟨hpc, -⟩ | hpc
      · rw [hpc]
        rfl
      · rw [hpc]
        rfl
    rw [hafter, hwake]
    exact forall_replace (hs ▸ hworkers) (hworkers w hmem)
  | dropped hcaller hrunning hworkers =>
    refine .dropped hcaller hrunning ?_
    have hwake : w.wake = w := by
      unfold Worker.wake
      rw [(hworkers w hmem).1]
      rfl
    rw [hafter, hwake]
    exact forall_replace (hs ▸ hworkers) (hworkers w hmem)

/-- What one step keeps. -/
theorem step_spec {a : Action} (h : Inv jobs s) (hstep : step jobs s a = some s') :
    Inv jobs s' ∧ Descends jobs s s' a := by
  cases a with
  | caller => exact callerStep_spec h hstep
  | worker i =>
    obtain ⟨w, hi, hstep⟩ := Option.bind_eq_some_iff.mp hstep
    obtain ⟨q, hq, rfl⟩ := Option.map_eq_some_iff.mp hstep
    exact workerStep_spec h hi hq
  | wakeCaller =>
    cases hstep
    exact wakeCaller_spec h
  | wakeWorker i =>
    obtain ⟨w, hi, rfl⟩ := Option.map_eq_some_iff.mp hstep
    exact wakeWorker_spec h hi

theorem init_inv (threads : Nat) : Inv jobs (State.init threads) := by
  refine .between rfl (Nat.zero_le _) rfl rfl rfl fun w hw => ?_
  rw [List.eq_of_mem_replicate hw]
  exact ⟨⟨.inl rfl, rfl, rfl⟩, rfl⟩

/-! ## Progress -/

/-- A worker whose step is not idle. -/
theorem progress_worker {q : State J × Worker J} (hw : w ∈ s.workers) (hstep : workerStep s w = some q)
    (hbusy : ¬ (w.pc = .ready ∧ s.shutdown = false ∧ s.generation = w.seen)) :
    ∃ a s', step jobs s a = some s' ∧ idle s a = false := by
  obtain ⟨i, hi⟩ := List.mem_iff_getElem?.mp hw
  refine ⟨.worker i, after s i q, ?_, ?_⟩
  · unfold step
    dsimp only
    rw [hi, Option.bind_some, hstep]
    rfl
  · refine Bool.eq_false_iff.mpr fun hidle => hbusy ?_
    unfold idle at hidle
    dsimp only at hidle
    rw [hi, Option.any_some] at hidle
    cases hpc : w.pc <;> rw [hpc] at hidle <;> simp_all

theorem progress_caller (hstep : callerStep jobs s = some s') (hbusy : ∀ runs, s.caller = .waiting runs → ¬ 0 < s.running) :
    ∃ a s', step jobs s a = some s' ∧ idle s a = false := by
  refine ⟨.caller, s', hstep, Bool.eq_false_iff.mpr fun hidle => ?_⟩
  unfold idle at hidle
  cases hcaller : s.caller with
  | waiting runs =>
    rw [hcaller] at hidle
    exact hbusy runs hcaller (of_decide_eq_true hidle)
  | between runs | decoding runs | asleep runs | joining | dropped =>
    rw [hcaller] at hidle
    cases hidle

theorem callerStep_between (hcaller : s.caller = .between runs) : ∃ s', callerStep jobs s = some s' := by
  unfold callerStep
  rw [hcaller]
  dsimp only
  split
  · split
    · exact ⟨_, rfl⟩
    · exact ⟨_, rfl⟩
  · exact ⟨_, rfl⟩

/-- A worker that is counted has a step to take. -/
theorem progress_pending (hworkers : ∀ w ∈ s.workers, Stage jobs job runs w) (hgeneration : s.generation = runs + 1)
    (hshutdown : s.shutdown = false) (hcount : 0 < s.workers.countP (pending (runs + 1))) :
    ∃ a s', step jobs s a = some s' ∧ idle s a = false := by
  obtain ⟨w, hw, hpending⟩ := List.countP_pos_iff.mp hcount
  cases hworkers w hw with
  | behind hpc hseen hexecuted =>
    have hne : s.generation ≠ w.seen := by omega
    refine progress_worker (q := (s, { w with pc := .working s.job, seen := s.generation })) hw ?_ fun h => hne h.2.2
    unfold workerStep
    rw [hpc]
    rw [hshutdown, if_neg Bool.false_ne_true, if_neg hne]
  | working hpc hseen hexecuted =>
    refine progress_worker (q := (s, { w with pc := .done, executed := w.executed ++ [job] })) hw ?_
      fun h => nomatch hpc.symm.trans h.1
    unfold workerStep
    rw [hpc]
    rfl
  | done hpc hseen hexecuted =>
    refine progress_worker (q := ({ s with
      running := s.running - 1
      caller := if s.running - 1 = 0 then s.caller.wake else s.caller }, { w with pc := .ready })) hw ?_
      fun h => nomatch hpc.symm.trans h.1
    unfold workerStep
    rw [hpc]
  | rested h =>
    unfold pending at hpending
    rcases h.pc with hpc | hpc
    · rw [hpc, h.seen] at hpending
      exact absurd hpending (by simp)
    · rw [hpc, h.seen] at hpending
      exact absurd hpending (by simp)

theorem progress (h : Inv jobs s) (hdropped : s.caller ≠ .dropped) :
    ∃ a s', step jobs s a = some s' ∧ idle s a = false := by
  cases h with
  | between hcaller hruns hrunning hjob hshutdown hworkers =>
    obtain ⟨s', hstep⟩ := (@callerStep_between _ jobs) hcaller
    exact progress_caller hstep fun runs h => nomatch hcaller.symm.trans h
  | running hcaller hjobs hjob hshutdown hgeneration hworkers hrunning hasleep =>
    rename_i runs job
    by_cases hcount : 0 < s.workers.countP (pending (runs + 1))
    · exact progress_pending hworkers hgeneration hshutdown hcount
    · -- nobody is counted, so the caller is not asleep and its wait is over
      have hzero : ¬ 0 < s.running := by omega
      rcases hcaller with hcaller | hcaller | hcaller
      · refine (@progress_caller _ _ _ { s with caller := .waiting runs }) ?_ fun _ _ => hzero
        unfold callerStep
        rw [hcaller]
      · refine (@progress_caller _ _ _ { s with job := none, caller := .between (runs + 1) }) ?_ fun _ _ => hzero
        unfold callerStep
        rw [hcaller]
        exact if_neg hzero
      · exact absurd (hasleep hcaller) hzero
  | joining hcaller hrunning hshutdown hworkers =>
    by_cases hall : s.workers.all (·.pc matches .exited)
    · refine (@progress_caller _ _ _ { s with caller := .dropped }) ?_ fun runs h => nomatch hcaller.symm.trans h
      unfold callerStep
      rw [hcaller]
      exact if_pos hall
    · obtain ⟨w, hw, hnot⟩ := List.all_eq_false.mp (Bool.eq_false_iff.mpr hall)
      have hpc : w.pc = .ready := by
        rcases (hworkers w hw).1 with ⟨hpc, -⟩ | hpc
        · exact hpc
        · rw [hpc] at hnot
          exact absurd rfl hnot
      refine progress_worker (q := (s, { w with pc := .exited })) hw ?_ fun h => nomatch hshutdown.symm.trans h.2.1
      unfold workerStep
      rw [hpc]
      exact if_pos hshutdown
  | dropped hcaller hrunning hworkers => exact absurd hcaller hdropped

theorem inv_safe (h : Inv jobs s) : Safe jobs s := by
  have hends : ∀ a s', step jobs s a = some s' → Descends jobs s s' a := fun a s' hstep => (step_spec h hstep).2
  have hprogress := progress h
  cases h with
  | between hcaller hruns hrunning hjob hshutdown hworkers =>
    refine ⟨fun w hw => ?_, hrunning ▸ Int.le_refl 0, fun runs hat => ?_, fun w hw hpc => ?_,
      fun h => (nomatch hcaller.symm.trans h), hprogress, hends⟩
    · rw [(hworkers w hw).1.executed]
      exact List.take_prefix _ _
    · obtain rfl := Caller.between.inj (hat.symm.trans hcaller)
      exact ⟨hjob, fun w hw => ⟨(hworkers w hw).1.pc, (hworkers w hw).1.executed⟩⟩
    · rcases (hworkers w hw).1.pc with h | h
      · exact nomatch h.symm.trans hpc
      · exact nomatch h.symm.trans hpc
  | running hcaller hjobs hjob hshutdown hgeneration hworkers hrunning hasleep =>
    refine ⟨fun w hw => ?_, hrunning ▸ Int.natCast_nonneg _, fun runs hat => ?_, fun w hw hpc => ?_, fun hat => ?_,
      hprogress, hends⟩
    · cases hworkers w hw with
      | behind _ _ hexecuted => exact hexecuted ▸ List.take_prefix _ _
      | working _ _ hexecuted => exact hexecuted ▸ List.take_prefix _ _
      | done _ _ hexecuted => exact hexecuted ▸ List.take_prefix _ _
      | rested h => exact h.executed ▸ List.take_prefix _ _
    · rw [hat] at hcaller
      simp at hcaller
    · cases hworkers w hw with
      | behind hpc' _ _ => exact nomatch hpc.symm.trans hpc'
      | working hpc' _ _ => exact nomatch hpc.symm.trans hpc'
      | done hpc' _ _ => exact nomatch hpc.symm.trans hpc'
      | rested h => exact (h.pc.elim (fun h => nomatch hpc.symm.trans h) fun h => nomatch hpc.symm.trans h)
    · rw [hat] at hcaller
      simp at hcaller
  | joining hcaller hrunning hshutdown hworkers =>
    exact ⟨fun w hw => (hworkers w hw).2 ▸ List.prefix_refl _, hrunning ▸ Int.le_refl 0,
      fun runs h => (nomatch hcaller.symm.trans h), fun w hw _ => (hworkers w hw).2,
      fun h => (nomatch hcaller.symm.trans h), hprogress, hends⟩
  | dropped hcaller hrunning hworkers =>
    exact ⟨fun w hw => (hworkers w hw).2 ▸ List.prefix_refl _, hrunning ▸ Int.le_refl 0,
      fun runs h => (nomatch hcaller.symm.trans h), fun w hw _ => (hworkers w hw).2,
      fun _ w hw => (hworkers w hw).1, hprogress, hends⟩

end PoolLemmas

open PoolLemmas

/-- Whatever the number of workers, the jobs and the interleaving, wakes for no reason
included. -/
theorem pool_handshake (threads : Nat) (jobs : List J) (schedule : List Action) (s : State J)
    (h : run jobs (State.init threads) schedule = some s) : Safe jobs s :=
  inv_safe (foldlM_invariant (fun _ _ _ h hstep => (step_spec h hstep).1) (init_inv threads) h)

/-- Two workers, the second of which lags behind: it copies the first job when the other is
back at its loop and the caller has woken twice for nothing. -/
def lagging : List Action :=
  [.worker 0, .worker 1, .wakeWorker 1, .caller, .caller, .worker 0, .worker 0, .worker 0, .caller, .wakeCaller, .caller,
    .wakeCaller, .worker 1, .worker 1, .worker 0, .wakeWorker 0, .worker 1, .caller]

theorem lagging_worker_executes :
    ∃ s, run [7, 9] (State.init 2) lagging = some s ∧ s.caller = .between 1 ∧ Safe [7, 9] s := by
  have hrun : (run [7, 9] (State.init 2) lagging).map (·.caller) = some (.between 1) := by decide
  obtain ⟨s, hs, hcaller⟩ := Option.map_eq_some_iff.mp hrun
  exact ⟨s, hs, hcaller, pool_handshake 2 [7, 9] lagging s hs⟩

end OmtClient.Vmx.Pool
