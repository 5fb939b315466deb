import OmtClient.Lib.Threads
import OmtClient.Vmx.Frame

/-!
# Claiming slices

`decode_claimed` of `crates/omt-vmx/src/lib.rs`, run by several workers at once: each takes
the next slice from a shared counter until none is left; a slice that fails sets `failed`
and moves the counter to the end.

A step is what one worker does to what they share: a claim with the decoding into the
worker's own scratch, one row stored into the output, `failed` or the counter set. A
schedule is any list of workers; one that has finished, or is none, does nothing. `claimed`
and `done` are histories: the slices claimed, and what each slice has stored.

1. `claim_deterministic`: what every schedule comes to.
-/

namespace OmtClient.Vmx.Claim

open OmtClient.Lib OmtClient.Vmx.FrameLemmas

abbrev Memory := Nat → Bytes

def Memory.store (m : Memory) (s : Store) : Memory := fun b => if b = s.buffer then s.write.apply (m b) else m b

inductive Phase
  | ready
  /-- With the slice, the rows left to store and whether it was good. -/
  | storing (index : Nat) (left : List Store) (ok : Bool)
  /-- `failed` is set and the counter is not. -/
  | stopping
  | finished
  deriving DecidableEq, Repr

structure Worker where
  phase : Phase
  scratch : Scratch

structure State where
  next : Nat
  failed : Bool
  memory : Memory
  workers : List Worker
  claimed : List Nat
  done : Nat → List Store

/-- `run`, before the workers start. -/
def State.init (memory : Memory) (scratches : List Scratch) : State :=
  ⟨0, false, memory, scratches.map fun s => ⟨.ready, s⟩, [], fun _ => []⟩

section

variable (k : Kernels) (g : Geometry) (f : Frame g)

/-- What a worker does next, to what is shared and to itself. -/
def workerStep (s : State) (w : Worker) : State × Worker :=
  match w.phase with
  | .ready =>
    let index := s.next
    match f.slices[index]? with
    | none => ({ s with next := s.next + 1 }, { w with phase := .finished })
    | some slice =>
      let (stores, scratch, ok) := decodeSlice k g f.job index slice w.scratch
      ({ s with next := s.next + 1, claimed := s.claimed ++ [index] }, ⟨.storing index stores ok, scratch⟩)
  | .storing index (st :: left) ok =>
    ({ s with memory := s.memory.store st, done := Function.update s.done index (s.done index ++ [st]) },
      { w with phase := .storing index left ok })
  | .storing _ [] true => (s, { w with phase := .ready })
  | .storing _ [] false => ({ s with failed := true }, { w with phase := .stopping })
  | .stopping => ({ s with next := f.slices.length }, { w with phase := .finished })
  | .finished => (s, w)

def step (s : State) (i : Nat) : State :=
  match s.workers[i]? with
  | none => s
  | some w =>
    let r := workerStep k g f s w
    { r.1 with workers := s.workers.set i r.2 }

def run (s : State) (schedule : List Nat) : State := schedule.foldl (step k g f) s

/-- Whether a slice of the frame is good, taken alone. -/
def good (j : Nat) : Bool := (f.slices[j]?).elim true fun slice => (sliceAlone k g f.job j slice).2

/-- What a slice of the frame stores, taken alone. -/
def storesOf (j : Nat) : List Store := (f.slices[j]?).elim [] fun slice => (sliceAlone k g f.job j slice).1

/-- The slices decoded one after the other. -/
def decodeInOrder : List Nat → Scratch → Memory → Memory
  | [], _, m => m
  | j :: js, s, m =>
    match f.slices[j]? with
    | none => decodeInOrder js s m
    | some slice =>
      let (stores, s', _) := decodeSlice k g f.job j slice s
      decodeInOrder js s' (stores.foldl Memory.store m)

/-- What the decode of the frame returns. -/
def State.result (s : State) : Except Status Unit := if s.failed then .error .corruptStream else .ok ()

/-- The steps that a worker has left. -/
def Phase.owes : Phase → Nat
  | .ready => 1
  | .storing _ left _ => left.length + 3
  | .stopping => 2
  | .finished => 0

/-- The steps of the slices from `next` on. -/
def unclaimed (next : Nat) : Nat :=
  ((List.range (f.slices.length - next)).map fun n => (storesOf k g f (next + n)).length + 3).sum

/-- The steps left in a decode. -/
def State.owes (s : State) : Nat := unclaimed k g f s.next + (s.workers.map (·.phase.owes)).sum

/-- What the workers have come to. -/
structure Decoded (memory : Memory) (scratches : List Scratch) (s : State) : Prop where
  /-- No slice is claimed twice. -/
  once : s.claimed.Nodup ∧ ∀ j ∈ s.claimed, j < f.slices.length
  /-- Different slices store different bytes. -/
  disjoint : ∀ b j l, j ≠ l → ∀ w ∈ writesOn b (storesOf k g f j), ∀ v ∈ writesOn b (storesOf k g f l), ∀ i,
    w.covers i → ¬ v.covers i
  /-- A worker that has not finished brings the decode nearer to its end. -/
  ends : ∀ i w, s.workers[i]? = some w → w.phase ≠ .finished → (step k g f s i).owes k g f < s.owes k g f
  /-- The verdict is that of the slices taken alone. -/
  verdict : (∀ w ∈ s.workers, w.phase = .finished) →
    (s.result = .error .corruptStream ↔ ∃ j < f.slices.length, good k g f j = false)
  /-- If none fails each is claimed, and the output is that of decoding them in order. -/
  output : (∀ w ∈ s.workers, w.phase = .finished) → (∀ j < f.slices.length, good k g f j = true) →
    (∀ j < f.slices.length, j ∈ s.claimed) ∧
      ∀ scratch ∈ scratches, s.memory = decodeInOrder k g f (List.range f.slices.length) scratch memory

end

/-! ## The invariant -/

/-- The slice that a worker is at. -/
def Phase.holds : Phase → Option Nat
  | .storing index _ _ => some index
  | _ => none

section

variable (k : Kernels) (g : Geometry) (f : Frame g) (memory : Memory)

/-- What one worker is at. -/
structure Busy (s : State) (w : Worker) : Prop where
  sized : w.scratch.Sized g f.job.placedBytes
  storing : ∀ j left ok, w.phase = .storing j left ok →
    j ∈ s.claimed ∧ ok = good k g f j ∧ s.done j ++ left = storesOf k g f j
  stopping : w.phase = .stopping → s.failed = true
  finished : w.phase = .finished → f.slices.length ≤ s.next

structure Inv (s : State) : Prop where
  nodup : s.claimed.Nodup
  bound : ∀ j ∈ s.claimed, j < f.slices.length ∧ j < s.next
  contiguous : s.failed = false → ∀ j < f.slices.length, j < s.next → j ∈ s.claimed
  failing : s.failed = true → ∃ j < f.slices.length, good k g f j = false
  busy : ∀ w ∈ s.workers, Busy k g f s w
  holders : (s.workers.filterMap (·.phase.holds)).Nodup
  /-- A slice that was claimed and is held no more. -/
  settled : ∀ j ∈ s.claimed, j ∉ s.workers.filterMap (·.phase.holds) →
    s.done j = storesOf k g f j ∧ (good k g f j = true ∨ s.failed = true)
  unclaimed : ∀ j, j ∉ s.claimed → s.done j = []
  length : ∀ b, (s.memory b).length = (memory b).length
  owned : ∀ b i j, owns g f b j i → (s.memory b)[i]? = (applyAll (memory b) (writesOn b (s.done j)))[i]?
  untouched : ∀ b i, (∀ j, ¬ owns g f b j i) → (s.memory b)[i]? = (memory b)[i]?

end

namespace ClaimLemmas

variable {k : Kernels} {g : Geometry} {f : Frame g} {memory : Memory} {s s' : State} {w w' : Worker} {as bs : List Worker}

theorem writesOn_append (b : Nat) (xs ys : List Store) : writesOn b (xs ++ ys) = writesOn b xs ++ writesOn b ys := by
  rw [writesOn, List.filter_append, List.map_append]
  rfl

theorem writesOn_cons (b : Nat) (st : Store) (stores : List Store) :
    writesOn b (st :: stores) = if b = st.buffer then st.write :: writesOn b stores else writesOn b stores := by
  unfold writesOn
  rw [List.filter_cons]
  by_cases hb : b = st.buffer
  · rw [if_pos hb, if_pos (by rw [hb]; exact beq_self_eq_true _)]
    rfl
  · rw [if_neg hb, if_neg fun heq => hb (eq_of_beq heq).symm]

theorem storesOf_keeps (hf : Prepared g f) (j : Nat) : Keeps g f j (storesOf k g f j) := by
  unfold storesOf
  cases hj : f.slices[j]? with
  | none =>
    intro st hst
    cases hst
  | some slice => exact decodeSlice_keeps hf hj

/-! ### Memory -/

/-- One row stored by the owner of its bytes. -/
theorem store_owned (hf : Prepared g f) {st : Store} {j : Nat} {done : Nat → List Store} {m : Memory}
    (hkeeps : ∀ i, st.write.covers i → owns g f st.buffer j i) (hlength : ∀ b, (m b).length = (memory b).length)
    (howned : ∀ b i j, owns g f b j i → (m b)[i]? = (applyAll (memory b) (writesOn b (done j)))[i]?) (b i l : Nat)
    (hl : owns g f b l i) :
    (m.store st b)[i]? = (applyAll (memory b) (writesOn b (Function.update done j (done j ++ [st]) l)))[i]? := by
  unfold Memory.store
  by_cases hb : b = st.buffer
  · rw [if_pos hb]
    by_cases hlj : l = j
    · subst hlj
      rw [Function.update_self, writesOn_append, writesOn_cons, if_pos hb, applyAll_append]
      exact apply_agree ((hlength b).trans (length_applyAll _ _).symm) (.inr (howned b i l hl))
    · rw [Function.update_of_ne hlj, apply_untouched, howned b i l hl]
      intro hcovers
      exact hlj (owns_apart hf hl (hb ▸ hkeeps i hcovers))
  · rw [if_neg hb]
    by_cases hlj : l = j
    · subst hlj
      rw [Function.update_self, writesOn_append, writesOn_cons, if_neg hb]
      exact (howned b i l hl).trans (congrArg (fun ws => (applyAll (memory b) ws)[i]?) (List.append_nil _).symm)
    · rw [Function.update_of_ne hlj]
      exact howned b i l hl

theorem store_untouched {st : Store} {j b i : Nat} {m : Memory}
    (hkeeps : ∀ i, st.write.covers i → owns g f st.buffer j i) (hnone : ∀ j, ¬ owns g f b j i) :
    (m.store st b)[i]? = (m b)[i]? := by
  unfold Memory.store
  split
  · next hb =>
    refine apply_untouched fun hcovers => hnone j ?_
    rw [hb]
    exact hkeeps i hcovers
  · rfl

theorem store_length (st : Store) (m : Memory) (b : Nat) : (m.store st b).length = (m b).length := by
  unfold Memory.store
  split
  · exact length_apply _ _
  · rfl

/-! ### Workers -/

theorem filterMap_replace (h : Worker → Option Nat) :
    (as ++ w :: bs).filterMap h = as.filterMap h ++ ((h w).toList ++ bs.filterMap h) := by
  rw [List.filterMap_append, List.filterMap_cons]
  cases h w <;> rfl

/-- A worker keeps on when the others have gone on. -/
theorem busy_mono (h : Busy k g f s w) (hclaimed : ∀ j ∈ s.claimed, j ∈ s'.claimed)
    (hfailed : s.failed = true → s'.failed = true) (hnext : f.slices.length ≤ s.next → f.slices.length ≤ s'.next)
    (hdone : ∀ j, w.phase.holds = some j → s'.done j = s.done j) : Busy k g f s' w := by
  refine ⟨h.sized, fun j left ok hphase => ?_, fun hphase => hfailed (h.stopping hphase),
    fun hphase => hnext (h.finished hphase)⟩
  obtain ⟨hj, hok, hstores⟩ := h.storing j left ok hphase
  refine ⟨hclaimed j hj, hok, ?_⟩
  rw [hdone j (by rw [hphase]; rfl)]
  exact hstores

/-- What is held was claimed. -/
theorem held_claimed (h : Inv k g f memory s) {j : Nat} (hj : j ∈ s.workers.filterMap (·.phase.holds)) : j ∈ s.claimed := by
  obtain ⟨w, hw, hholds⟩ := List.mem_filterMap.mp hj
  cases hphase : w.phase with
  | storing index left ok =>
    rw [hphase] at hholds
    obtain rfl := Option.some.inj hholds
    exact ((h.busy w hw).storing index left ok hphase).1
  | ready | stopping | finished =>
    rw [hphase] at hholds
    cases hholds

/-- The others hold other slices. -/
theorem others_apart (h : Inv k g f memory s) (hs : s.workers = as ++ w :: bs) {j : Nat} (hw : w.phase.holds = some j) :
    ∀ v ∈ as ++ bs, v.phase.holds ≠ some j := by
  intro v hv hholds
  have hnodup := h.holders
  rw [hs, filterMap_replace, hw] at hnodup
  have hmiddle := (List.nodup_cons.mp (List.nodup_middle.mp hnodup)).1
  have hin : j ∈ (as ++ bs).filterMap (·.phase.holds) := List.mem_filterMap.mpr ⟨v, hv, hholds⟩
  rw [List.filterMap_append] at hin
  exact hmiddle hin

/-- The threads after a step, each with what is known of it. -/
theorem busy_replace {P : Worker → Prop} (hothers : ∀ v ∈ as ++ bs, P v) (hw : P w') : ∀ v ∈ as ++ w' :: bs, P v := by
  intro v hv
  rcases List.mem_append.mp hv with hv | hv
  · exact hothers v (List.mem_append_left _ hv)
  · rcases List.mem_cons.mp hv with rfl | hv
    · exact hw
    · exact hothers v (List.mem_append_right _ hv)

theorem others_busy (h : Inv k g f memory s) (hs : s.workers = as ++ w :: bs) : ∀ v ∈ as ++ bs, Busy k g f s v := by
  intro v hv
  refine h.busy v ?_
  rw [hs]
  rcases List.mem_append.mp hv with hv | hv
  · exact List.mem_append_left _ hv
  · exact List.mem_append_right _ (List.mem_cons_of_mem _ hv)

theorem self_busy (h : Inv k g f memory s) (hs : s.workers = as ++ w :: bs) : Busy k g f s w :=
  h.busy w (by rw [hs]; exact List.mem_append_right _ List.mem_cons_self)

/-- The slices held when a worker moves from or to one. -/
theorem holders_eq (hs : s.workers = as ++ w :: bs) (hsame : w'.phase.holds = w.phase.holds) :
    (as ++ w' :: bs).filterMap (·.phase.holds) = s.workers.filterMap (·.phase.holds) := by
  rw [hs, filterMap_replace, filterMap_replace, hsame]

/-- A worker that holds nothing before and after: the counter or `failed` may go up. -/
theorem inv_moved (h : Inv k g f memory s) (hs : s.workers = as ++ w :: bs) (hbefore : w.phase.holds = none)
    (hafter : w'.phase.holds = none) {next : Nat} (hbusy : Busy k g f { s with next := next, workers := as ++ w' :: bs } w')
    (hnext : f.slices.length ≤ next) (hcontiguous : s.failed = false → f.slices.length ≤ s.next) :
    Inv k g f memory { s with next := next, workers := as ++ w' :: bs } := by
  have hholders := holders_eq hs (hafter.trans hbefore.symm)
  refine ⟨h.nodup, fun j hj => ?_, fun hfailed j hj _ => ?_, h.failing, ?_, ?_, ?_, h.unclaimed, h.length, h.owned, h.untouched⟩
  · exact ⟨(h.bound j hj).1, Nat.lt_of_lt_of_le (h.bound j hj).1 hnext⟩
  · exact h.contiguous hfailed j hj (Nat.lt_of_lt_of_le hj (hcontiguous hfailed))
  · refine busy_replace (fun v hv => ?_) hbusy
    exact busy_mono (others_busy h hs v hv) (fun _ hj => hj) id (fun _ => hnext) fun _ _ => rfl
  · exact hholders.symm ▸ h.holders
  · intro j hj hnot
    exact h.settled j hj (hholders ▸ hnot)

/-- A slice is claimed. -/
theorem inv_claim (hf : Prepared g f) (h : Inv k g f memory s) (hs : s.workers = as ++ w :: bs) (hready : w.phase = .ready)
    {slice : Slice} (hslice : f.slices[s.next]? = some slice) :
    Inv k g f memory { s with
      next := s.next + 1
      claimed := s.claimed ++ [s.next]
      workers := as ++ ⟨.storing s.next (decodeSlice k g f.job s.next slice w.scratch).1
        (decodeSlice k g f.job s.next slice w.scratch).2.2, (decodeSlice k g f.job s.next slice w.scratch).2.1⟩ :: bs } := by
  have hlt : s.next < f.slices.length := (List.getElem?_eq_some_iff.mp hslice).1
  obtain ⟨hstores, hok, hsized⟩ := (@decodeSlice_alone k _ _ s.next slice) (columnsInside hf)
    (self_busy h hs).sized
  have hnew : s.next ∉ s.claimed := fun hin => Nat.lt_irrefl _ (h.bound _ hin).2
  have hfree : w.phase.holds = none := by rw [hready]; rfl
  have hfew : s.workers.filterMap (·.phase.holds) = as.filterMap (·.phase.holds) ++ bs.filterMap (·.phase.holds) := by
    rw [hs, filterMap_replace, hfree]
    rfl
  refine ⟨?_, fun j hj => ?_, fun hfailed j hj hjn => ?_, h.failing, ?_, ?_, ?_, fun j hj => ?_, h.length, h.owned, h.untouched⟩
  · refine List.nodup_append.mpr ⟨h.nodup, List.nodup_singleton _, fun a ha b hb => ?_⟩
    rw [List.mem_singleton.mp hb]
    exact fun heq => hnew (heq ▸ ha)
  · rcases List.mem_append.mp hj with hj | hj
    · exact ⟨(h.bound j hj).1, Nat.lt_succ_of_lt (h.bound j hj).2⟩
    · rw [List.mem_singleton.mp hj]
      exact ⟨hlt, Nat.lt_succ_self _⟩
  · rcases Nat.lt_succ_iff_lt_or_eq.mp hjn with hjn | rfl
    · exact List.mem_append_left _ (h.contiguous hfailed j hj hjn)
    · exact List.mem_append_right _ (List.mem_singleton.mpr rfl)
  · refine busy_replace (fun v hv => ?_) ⟨hsized, fun j left ok hphase => ?_, nofun, nofun⟩
    · exact busy_mono (others_busy h hs v hv) (fun _ hj => List.mem_append_left _ hj) id
        (fun hle => Nat.le_succ_of_le hle) fun _ _ => rfl
    · obtain ⟨rfl, rfl, rfl⟩ := Phase.storing.inj hphase
      refine ⟨List.mem_append_right _ (List.mem_singleton.mpr rfl), ?_, ?_⟩
      · rw [hok, good, hslice]
        rfl
      · dsimp only
        rw [h.unclaimed _ hnew, List.nil_append, hstores, storesOf, hslice]
        rfl
  · rw [filterMap_replace]
    refine List.nodup_middle.mpr (List.nodup_cons.mpr ⟨fun hin => hnew (held_claimed h (hfew ▸ hin)), ?_⟩)
    exact hfew ▸ h.holders
  · intro j hj hnot
    rw [filterMap_replace] at hnot
    rcases List.mem_append.mp hj with hj | hj
    · refine h.settled j hj fun hin => hnot ?_
      rw [hfew] at hin
      rcases List.mem_append.mp hin with hin | hin
      · exact List.mem_append_left _ hin
      · exact List.mem_append_right _ (List.mem_append_right _ hin)
    · refine absurd ?_ hnot
      rw [List.mem_singleton.mp hj]
      exact List.mem_append_right _ (List.mem_append_left _ (List.mem_singleton.mpr rfl))
  · exact h.unclaimed j fun hin => hj (List.mem_append_left _ hin)

/-- A row is stored. -/
theorem inv_store (hf : Prepared g f) (h : Inv k g f memory s) (hs : s.workers = as ++ w :: bs) {index : Nat} {st : Store}
    {left : List Store} {ok : Bool} (hphase : w.phase = .storing index (st :: left) ok) :
    Inv k g f memory { s with
      memory := s.memory.store st
      done := Function.update s.done index (s.done index ++ [st])
      workers := as ++ { w with phase := .storing index left ok } :: bs } := by
  obtain ⟨hclaimed, hok, hstores⟩ := (self_busy h hs).storing index (st :: left) ok hphase
  have hheld : w.phase.holds = some index := by rw [hphase]; rfl
  have hkeeps : ∀ i, st.write.covers i → owns g f st.buffer index i := by
    refine storesOf_keeps (k := k) hf index st ?_
    rw [← hstores]
    exact List.mem_append_right _ List.mem_cons_self
  have hother : ∀ j, j ≠ index → Function.update s.done index (s.done index ++ [st]) j = s.done j :=
    fun j hj => Function.update_of_ne hj _ _
  have hholders := (@holders_eq _ _ { w with phase := .storing index left ok }) hs hheld.symm
  refine ⟨h.nodup, h.bound, h.contiguous, h.failing, ?_, ?_, ?_, fun j hj => ?_, fun b => ?_, ?_, ?_⟩
  · refine busy_replace (fun v hv => ?_) ⟨(self_busy h hs).sized, fun j l o hp => ?_, nofun, nofun⟩
    · refine busy_mono (others_busy h hs v hv) (fun _ hj => hj) id id fun j hj => hother j ?_
      rintro rfl
      exact others_apart h hs hheld v hv hj
    · obtain ⟨rfl, rfl, rfl⟩ := Phase.storing.inj hp
      refine ⟨hclaimed, hok, ?_⟩
      dsimp only
      rw [Function.update_self, List.append_assoc]
      exact hstores
  · exact hholders.symm ▸ h.holders
  · intro j hj hnot
    have hout : j ∉ s.workers.filterMap (·.phase.holds) := hholders ▸ hnot
    have hne : j ≠ index := by
      rintro rfl
      refine hout (List.mem_filterMap.mpr ⟨w, ?_, hheld⟩)
      rw [hs]
      exact List.mem_append_right _ List.mem_cons_self
    dsimp only
    rw [hother j hne]
    exact h.settled j hj hout
  · dsimp only
    rw [hother j fun heq => hj (heq ▸ hclaimed)]
    exact h.unclaimed j hj
  · exact (store_length st s.memory b).trans (h.length b)
  · exact fun b i l hl => store_owned hf hkeeps h.length h.owned b i l hl
  · exact fun b i hnone => (store_untouched hkeeps hnone).trans (h.untouched b i hnone)

/-- A slice is done with. -/
theorem inv_done (h : Inv k g f memory s) (hs : s.workers = as ++ w :: bs) {index : Nat} {ok failed : Bool}
    (hphase : w.phase = .storing index [] ok) (hnone : w'.phase.holds = none) (hscratch : w'.scratch = w.scratch)
    (hfinished : w'.phase ≠ .finished) (hstopping : w'.phase = .stopping → failed = true)
    (hverdict : failed = (s.failed || !ok)) :
    Inv k g f memory { s with failed := failed, workers := as ++ w' :: bs } := by
  obtain ⟨hclaimed, hok, hstores⟩ := (self_busy h hs).storing index [] ok hphase
  rw [List.append_nil] at hstores
  have hheld : w.phase.holds = some index := by rw [hphase]; rfl
  have hkept : s.failed = true → failed = true := by
    intro hfailed
    rw [hverdict, hfailed, Bool.true_or]
  refine ⟨h.nodup, h.bound, fun hfailed => ?_, fun hfailed => ?_, ?_, ?_, fun j hj hnot => ?_, h.unclaimed, h.length,
    h.owned, h.untouched⟩
  · refine h.contiguous (Bool.eq_false_iff.mpr fun htrue => ?_)
    exact Bool.false_ne_true (hfailed.symm.trans (hkept htrue))
  · dsimp only at hfailed
    rw [hverdict, Bool.or_eq_true] at hfailed
    rcases hfailed with hfailed | hbad
    · exact h.failing hfailed
    · refine ⟨index, (h.bound index hclaimed).1, ?_⟩
      rw [← hok]
      simpa using hbad
  · refine busy_replace (fun v hv => ?_) ⟨hscratch ▸ (self_busy h hs).sized, fun j left o hp => ?_, hstopping,
      fun hp => absurd hp hfinished⟩
    · exact busy_mono (others_busy h hs v hv) (fun _ hj => hj) hkept id fun _ _ => rfl
    · rw [hp] at hnone
      cases hnone
  · have hnodup := h.holders
    rw [hs, filterMap_replace, hheld] at hnodup
    rw [filterMap_replace, hnone]
    exact (List.nodup_cons.mp (List.nodup_middle.mp hnodup)).2
  · by_cases hindex : j = index
    · subst hindex
      refine ⟨hstores, ?_⟩
      cases ok with
      | true => exact .inl hok.symm
      | false => exact .inr (by rw [hverdict, Bool.not_false, Bool.or_true])
    · obtain ⟨hdone, hgood⟩ := h.settled j hj fun hin => hnot (by
        rw [hs, filterMap_replace, hheld] at hin
        rw [filterMap_replace, hnone]
        rcases List.mem_append.mp hin with hin | hin
        · exact List.mem_append_left _ hin
        · rcases List.mem_cons.mp hin with heq | hin
          · exact absurd heq hindex
          · exact List.mem_append_right _ hin)
      exact ⟨hdone, hgood.imp_right hkept⟩

theorem step_inv (hf : Prepared g f) (h : Inv k g f memory s) (i : Nat) : Inv k g f memory (step k g f s i) := by
  unfold step
  cases hi : s.workers[i]? with
  | none => exact h
  | some w =>
    obtain ⟨as, bs, hs, hset⟩ := getElem_split hi
    dsimp only
    rw [hset]
    unfold workerStep
    cases hphase : w.phase with
    | ready =>
      dsimp only
      cases hslice : f.slices[s.next]? with
      | none =>
        have hle := List.getElem?_eq_none_iff.mp hslice
        refine inv_moved h hs (by rw [hphase]; rfl) rfl ?_ (Nat.le_succ_of_le hle) fun _ => hle
        exact ⟨(self_busy h hs).sized, nofun, nofun, fun _ => Nat.le_succ_of_le hle⟩
      | some slice => exact inv_claim hf h hs hphase hslice
    | storing index left ok =>
      cases left with
      | cons st left => exact inv_store hf h hs hphase
      | nil =>
        cases ok with
        | true =>
          refine (@inv_done _ _ _ _ _ _ _ _ _ h hs _ _ s.failed) hphase rfl rfl nofun nofun ?_
          rw [Bool.not_true, Bool.or_false]
        | false =>
          refine (@inv_done _ _ _ _ _ _ _ _ _ h hs _ _ true) hphase rfl rfl nofun (fun _ => rfl) ?_
          rw [Bool.not_false, Bool.or_true]
    | stopping =>
      have hfailed := (self_busy h hs).stopping hphase
      refine inv_moved h hs (by rw [hphase]; rfl) rfl ?_ (Nat.le_refl _) fun hnot => ?_
      · exact ⟨(self_busy h hs).sized, nofun, nofun, fun _ => Nat.le_refl _⟩
      · exact absurd (hfailed.symm.trans hnot) (by decide)
    | finished =>
      rw [← hs]
      exact h

theorem init_inv {scratches : List Scratch} (hscratches : ∀ t ∈ scratches, t.Sized g f.job.placedBytes) :
    Inv k g f memory (State.init memory scratches) := by
  have hworkers : ∀ w ∈ (State.init memory scratches).workers, w.phase = .ready ∧ w.scratch.Sized g f.job.placedBytes := by
    intro w hw
    obtain ⟨t, ht, rfl⟩ := List.mem_map.mp hw
    exact ⟨rfl, hscratches t ht⟩
  refine ⟨List.nodup_nil, nofun, fun _ j _ hj => absurd hj (Nat.not_lt_zero j), nofun, fun w hw => ?_, ?_, nofun,
    fun _ _ => rfl, fun _ => rfl, fun _ _ _ _ => rfl, fun _ _ _ => rfl⟩
  · obtain ⟨hready, hsized⟩ := hworkers w hw
    refine ⟨hsized, fun j left ok hphase => ?_, fun hphase => ?_, fun hphase => ?_⟩
    all_goals
      rw [hready] at hphase
      cases hphase
  · have hnone : (State.init memory scratches).workers.filterMap (·.phase.holds) = [] := by
      refine List.filterMap_eq_nil_iff.mpr fun w hw => ?_
      rw [(hworkers w hw).1]
      rfl
    rw [hnone]
    exact List.nodup_nil

theorem step_length (s : State) (i : Nat) : (step k g f s i).workers.length = s.workers.length := by
  unfold step
  split
  · rfl
  · exact List.length_set

/-- What holds along every schedule. -/
theorem run_inv (hf : Prepared g f) (h : Inv k g f memory s) (schedule : List Nat) :
    Inv k g f memory (run k g f s schedule) ∧ (run k g f s schedule).workers.length = s.workers.length := by
  induction schedule generalizing s with
  | nil => exact ⟨h, rfl⟩
  | cons i rest ih =>
    obtain ⟨hinv, hlength⟩ := ih (step_inv hf h i)
    exact ⟨hinv, hlength.trans (step_length s i)⟩

theorem reached {scratches : List Scratch} (hf : Prepared g f) (memory : Memory)
    (hscratches : ∀ t ∈ scratches, t.Sized g f.job.placedBytes) (hworkers : scratches ≠ []) (schedule : List Nat) :
    Inv k g f memory (run k g f (State.init memory scratches) schedule) ∧
      (run k g f (State.init memory scratches) schedule).workers ≠ [] := by
  obtain ⟨hinv, hlength⟩ := run_inv (k := k) hf ((@init_inv _ _ _ memory) hscratches) schedule
  refine ⟨hinv, ?_⟩
  rw [← List.length_pos_iff, hlength, State.init, List.length_map, List.length_pos_iff]
  exact hworkers

/-! ### The end of a decode -/

theorem unclaimed_succ {next : Nat} (h : next < f.slices.length) :
    unclaimed k g f next = (storesOf k g f next).length + 3 + unclaimed k g f (next + 1) := by
  obtain ⟨m, hm⟩ : ∃ m, f.slices.length - next = m + 1 := ⟨f.slices.length - next - 1, by omega⟩
  have hrest : f.slices.length - (next + 1) = m := by omega
  unfold unclaimed
  rw [hm, hrest, List.range_succ_eq_map, List.map_cons, List.sum_cons, List.map_map]
  refine congrArg ((storesOf k g f next).length + 3 + ·) (congrArg List.sum (List.map_congr_left fun n _ => ?_))
  show (storesOf k g f (next + (n + 1))).length + 3 = (storesOf k g f (next + 1 + n)).length + 3
  rw [Nat.add_assoc, Nat.add_comm 1 n]

theorem unclaimed_none {next : Nat} (h : f.slices.length ≤ next) : unclaimed k g f next = 0 := by
  unfold unclaimed
  rw [Nat.sub_eq_zero_of_le h]
  rfl

theorem owes_split (h : s.workers = as ++ w :: bs) :
    s.owes k g f = unclaimed k g f s.next + (w.phase.owes + ((as ++ bs).map (·.phase.owes)).sum) := by
  rw [State.owes, h, sum_replace fun v : Worker => v.phase.owes]

/-- A step that leaves fewer steps to its worker and to the slices not claimed. -/
theorem owes_lt (hs : s.workers = as ++ w :: bs) (hs' : s'.workers = as ++ w' :: bs)
    (h : unclaimed k g f s'.next + w'.phase.owes < unclaimed k g f s.next + w.phase.owes) : s'.owes k g f < s.owes k g f := by
  rw [owes_split hs, owes_split hs', ← Nat.add_assoc, ← Nat.add_assoc]
  exact Nat.add_lt_add_right h _

/-- A worker that has not finished brings the decode nearer to its end. -/
theorem step_descends (hf : Prepared g f) (h : Inv k g f memory s) {i : Nat} (hi : s.workers[i]? = some w)
    (hbusy : w.phase ≠ .finished) : (step k g f s i).owes k g f < s.owes k g f := by
  obtain ⟨as, bs, hs, hset⟩ := getElem_split hi
  unfold step
  rw [hi]
  dsimp only
  refine (@owes_lt _ _ _ _ _ w (workerStep k g f s w).2) hs (hset _) ?_
  unfold workerStep
  cases hphase : w.phase with
  | ready =>
    dsimp only
    cases hslice : f.slices[s.next]? with
    | none =>
      have hle := List.getElem?_eq_none_iff.mp hslice
      rw [unclaimed_none (Nat.le_succ_of_le hle), unclaimed_none hle]
      exact Nat.zero_lt_one
    | some slice =>
      have hlt : s.next < f.slices.length := (List.getElem?_eq_some_iff.mp hslice).1
      obtain ⟨hstores, -, -⟩ := (@decodeSlice_alone k _ _ s.next slice) (columnsInside hf)
        (self_busy h hs).sized
      have hown : storesOf k g f s.next = (decodeSlice k g f.job s.next slice w.scratch).1 := by
        rw [hstores, storesOf, hslice]
        rfl
      rw [unclaimed_succ hlt, hown, Nat.add_comm (unclaimed k g f (s.next + 1))]
      exact Nat.lt_succ_self _
  | storing index left ok =>
    refine Nat.add_lt_add_of_le_of_lt (Nat.le_of_eq ?_) ?_
    · cases left with
      | cons st left => rfl
      | nil => cases ok <;> rfl
    · cases left with
      | cons st left => exact Nat.lt_succ_self _
      | nil =>
        cases ok with
        | true => exact (by decide : 1 < 3)
        | false => exact (by decide : 2 < 3)
  | stopping =>
    rw [unclaimed_none (Nat.le_refl _)]
    exact Nat.lt_of_lt_of_le Nat.zero_lt_two (Nat.le_add_left _ _)
  | finished => exact absurd hphase hbusy

/-- When all have finished, a decode in which nothing failed has claimed and settled every slice. -/
theorem finished_settled (h : Inv k g f memory s) (hworkers : s.workers ≠ [])
    (hfinished : ∀ w ∈ s.workers, w.phase = .finished) {j : Nat} (hfailed : s.failed = false) (hj : j < f.slices.length) :
    j ∈ s.claimed ∧ s.done j = storesOf k g f j ∧ good k g f j = true := by
  obtain ⟨w, hw⟩ := List.exists_mem_of_ne_nil _ hworkers
  have hnext := (h.busy w hw).finished (hfinished w hw)
  have hclaimed := h.contiguous hfailed j hj (Nat.lt_of_lt_of_le hj hnext)
  have hfree : j ∉ s.workers.filterMap (·.phase.holds) := by
    intro hin
    obtain ⟨v, hv, hholds⟩ := List.mem_filterMap.mp hin
    rw [hfinished v hv] at hholds
    cases hholds
  obtain ⟨hdone, hgood⟩ := h.settled j hclaimed hfree
  exact ⟨hclaimed, hdone, hgood.resolve_right fun htrue => Bool.false_ne_true (hfailed.symm.trans htrue)⟩

theorem failed_iff (h : Inv k g f memory s) (hworkers : s.workers ≠ [])
    (hfinished : ∀ w ∈ s.workers, w.phase = .finished) :
    s.failed = true ↔ ∃ j < f.slices.length, good k g f j = false := by
  refine ⟨h.failing, fun ⟨j, hj, hbad⟩ => ?_⟩
  by_contra hnot
  obtain ⟨-, -, hgood⟩ := finished_settled h hworkers hfinished (Bool.eq_false_iff.mpr hnot) hj
  exact Bool.false_ne_true (hbad.symm.trans hgood)

/-- Two decodes in which the same slices are good end alike. -/
theorem decoded_alike {f' : Frame g} {memory' : Memory} {s' : State} {n : Nat} (h : Inv k g f memory s)
    (h' : Inv k g f' memory' s') (hworkers : s.workers ≠ []) (hworkers' : s'.workers ≠ [])
    (hcount : f.slices.length = n) (hcount' : f'.slices.length = n)
    (hsame : ∀ j < n, good k g f j = good k g f' j)
    (hfinished : ∀ w ∈ s.workers, w.phase = .finished) (hfinished' : ∀ w ∈ s'.workers, w.phase = .finished) :
    s.result = s'.result ∧ (s'.result = .ok () → ∀ j < n,
      s.done j = storesOf k g f j ∧ s'.done j = storesOf k g f' j ∧ good k g f' j = true) := by
  have hfailed : s.failed = s'.failed := by
    refine Bool.eq_iff_iff.mpr ?_
    rw [failed_iff h hworkers hfinished, failed_iff h' hworkers' hfinished', hcount, hcount']
    exact exists_congr fun j => and_congr_right fun hj => by rw [hsame j hj]
  refine ⟨by rw [State.result, State.result, hfailed], fun hok j hj => ?_⟩
  have hgood : s'.failed = false := by
    refine Bool.eq_false_iff.mpr fun htrue => ?_
    rw [State.result, if_pos htrue] at hok
    cases hok
  have hdone := finished_settled h hworkers hfinished (j := j) (hfailed.trans hgood) (hcount.symm ▸ hj)
  have hdone' := finished_settled h' hworkers' hfinished' (j := j) hgood (hcount'.symm ▸ hj)
  exact ⟨hdone.2.1, hdone'.2⟩

/-! ### The slices in order -/

theorem foldl_store (stores : List Store) (m : Memory) (b : Nat) :
    stores.foldl Memory.store m b = applyAll (m b) (writesOn b stores) := by
  induction stores generalizing m with
  | nil => rfl
  | cons st stores ih =>
    rw [List.foldl_cons, ih, writesOn_cons, Memory.store]
    split
    · rfl
    · rfl

theorem decodeInOrder_eq (hf : Prepared g f) {scratch : Scratch} (hscratch : scratch.Sized g f.job.placedBytes)
    (js : List Nat) (m : Memory) (b : Nat) :
    decodeInOrder k g f js scratch m b = applyAll (m b) (js.flatMap fun j => writesOn b (storesOf k g f j)) := by
  induction js generalizing scratch m with
  | nil => rfl
  | cons j js ih =>
    rw [List.flatMap_cons, applyAll_append, decodeInOrder, storesOf]
    cases hj : f.slices[j]? with
    | none => exact ih hscratch m
    | some slice =>
      obtain ⟨hstores, -, hsized⟩ := (@decodeSlice_alone k _ _ j slice) (columnsInside hf) hscratch
      dsimp only
      rw [ih hsized, foldl_store, hstores]
      rfl

theorem storesOf_owned (hf : Prepared g f) (b : Nat) : Owned (fun j => writesOn b (storesOf k g f j)) (owns g f b) := by
  refine ⟨fun j w hw i hi => ?_, fun j l i => owns_apart hf⟩
  obtain ⟨st, hst, rfl⟩ := List.mem_map.mp hw
  obtain ⟨hst, hbuffer⟩ := List.mem_filter.mp hst
  rw [← eq_of_beq hbuffer]
  exact storesOf_keeps hf j st hst i hi

/-- A memory in which every slice has stored what it stores. -/
theorem memory_eq (hf : Prepared g f) (h : Inv k g f memory s)
    (hdone : ∀ j < f.slices.length, s.done j = storesOf k g f j) (b : Nat) :
    s.memory b = applyAll (memory b) ((List.range f.slices.length).flatMap fun j => writesOn b (storesOf k g f j)) := by
  have howned := storesOf_owned (k := k) hf b
  refine List.ext_getElem? fun i => ?_
  by_cases hany : ∃ j, owns g f b j i
  · obtain ⟨j, hj⟩ := hany
    rw [h.owned b i j hj]
    by_cases hlt : j < f.slices.length
    · rw [hdone j hlt, applyAll_owned howned hj (List.mem_range.mpr hlt) List.nodup_range]
    · rw [h.unclaimed j fun hin => hlt (h.bound j hin).1,
        applyAll_others howned hj fun hin => hlt (List.mem_range.mp hin)]
      rfl
  · rw [h.untouched b i fun j hj => hany ⟨j, hj⟩, applyAll_untouched]
    intro w hw hcovers
    obtain ⟨j, -, hw⟩ := List.mem_flatMap.mp hw
    exact hany ⟨j, howned.keeps j w hw i hcovers⟩

end ClaimLemmas

open ClaimLemmas

/-- Whatever the interleaving of the workers: no slice is claimed twice, what the slices
store is apart, the decode comes to an end, and then its verdict and its output are those
of decoding the slices one after the other. -/
theorem claim_deterministic (k : Kernels) {g : Geometry} {f : Frame g} {color : ColorSpace} {l : Loaded g}
    {stale : List (Nat × Nat)} {capacity : Nat} {alloc : Bool} {r : Request} (memory : Memory) {scratches : List Scratch}
    (hprepare : prepare g color l stale capacity alloc r = .ok f)
    (hscratches : ∀ s ∈ scratches, s.Sized g f.job.placedBytes) (hworkers : scratches ≠ []) (schedule : List Nat) :
    Decoded k g f memory scratches (run k g f (State.init memory scratches) schedule) := by
  obtain ⟨hf, -⟩ := prepared_of_prepare hprepare
  obtain ⟨hinv, hsome⟩ := reached (k := k) hf memory hscratches hworkers schedule
  refine ⟨⟨hinv.nodup, fun j hj => (hinv.bound j hj).1⟩, ?_, ?_, ?_, ?_⟩
  · intro b j l hne w hw v hv i hcovers hcovers'
    have howned := storesOf_owned (k := k) hf b
    exact hne (howned.apart j l i (howned.keeps j w hw i hcovers) (howned.keeps l v hv i hcovers'))
  · intro i w hi hbusy
    exact step_descends hf hinv hi hbusy
  · intro hfinished
    rw [← failed_iff hinv hsome hfinished, State.result]
    split
    · next hfailed => exact ⟨fun _ => hfailed, fun _ => rfl⟩
    · next hfailed => exact ⟨nofun, fun htrue => absurd htrue hfailed⟩
  · intro hfinished hgood
    have hfailed : (run k g f (State.init memory scratches) schedule).failed = false := by
      refine Bool.eq_false_iff.mpr fun htrue => ?_
      obtain ⟨j, hj, hbad⟩ := hinv.failing htrue
      exact Bool.false_ne_true (hbad.symm.trans (hgood j hj))
    have hsettled := fun j hj => finished_settled hinv hsome hfinished (j := j) hfailed hj
    refine ⟨fun j hj => (hsettled j hj).1, fun scratch hscratch => funext fun b => ?_⟩
    rw [decodeInOrder_eq hf (hscratches scratch hscratch)]
    exact memory_eq hf hinv (fun j hj => (hsettled j hj).2.1) b

/-- A picture of two slices. -/
def twoSlices : Geometry := ⟨16, 32, by decide, by decide, by decide⟩

/-- What a slice of it may hold. -/
def dcPayload (dc : Byte) : Bytes := List.replicate 8 dc
def acPayload : Bytes := (List.replicate 3 [0xD4, 0x01, 0x00, 0x00]).flatten

def twoStreams : Loaded twoSlices :=
  ⟨List.replicate 2 (((Stream.new 512).load (dcPayload 0x5A) true).2, ((Stream.new 1024).load acPayload true).2),
    List.replicate 64 1, 0, rfl⟩

/-- The frame of a call for them, with the placed rows of each slice. -/
def twoFrame (job : Job) (ranges : List (Nat × Nat)) : Frame twoSlices :=
  ⟨job, (twoStreams.streams.zip ranges).map fun s => ⟨s.1.1, s.1.2, s.2⟩⟩

def imageFrame : Frame twoSlices :=
  twoFrame ⟨.bgrx, twoStreams.matrix, 0, yuvRgb709, some 2048, 64, [none, none, none], [0, 0, 0], none⟩ [(0, 0), (0, 0)]

/-- Turns enough for a decode by one worker or two. -/
def turns : List Nat := (List.replicate 100 [1, 0, 0]).flatten

theorem two_workers_decoded :
    let memory : Memory := fun _ => List.replicate 2048 0
    let scratches := [Scratch.new twoSlices 0, Scratch.new twoSlices 0]
    let s := run portable twoSlices imageFrame (State.init memory scratches) turns
    prepare twoSlices .bt709 twoStreams [] 0 true (.bgrx 2048 64) = .ok imageFrame ∧
      (∀ w ∈ s.workers, w.phase = .finished) ∧ s.result = .ok () ∧ Decoded portable twoSlices imageFrame memory scratches s := by
  have hprepare : prepare twoSlices .bt709 twoStreams [] 0 true (.bgrx 2048 64) = .ok imageFrame := by rfl
  refine ⟨hprepare, by decide +kernel, by decide +kernel,
    claim_deterministic portable _ hprepare (fun s hs => ?_) (List.cons_ne_nil _ _) _⟩
  have hnew : s = Scratch.new twoSlices 0 := by
    rcases List.mem_cons.mp hs with rfl | hs
    · rfl
    · exact List.mem_singleton.mp hs
  rw [hnew]
  exact Scratch.new_sized twoSlices 0

end OmtClient.Vmx.Claim
