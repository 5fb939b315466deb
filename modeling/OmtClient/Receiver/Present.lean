import OmtClient.Lib.Loop
import OmtClient.Omt.Protocol
import OmtClient.Vmx.Decode

/-!
# Presenting frames

`VideoOutput` of `crates/omt-receiver/src/video.rs`: a chain of three surfaces, of which
one is scanned out, one may be queued for the next flip and one is decoded into.

A call of `present` is cut where the display may go on by itself: a queued flip completes
at some vertical blank, whether or not the receiver waits for it then. What the calls
outside give (the ceiling, the mode setting, the decoder, the waits) is part of the action.
The display takes a flip only when none is pending and says that it is busy otherwise; a
mode setting waits for a pending flip, whose event may or may not be delivered. The
surfaces of a new mode are new ones.

`lost` and `busy` are histories: whether a wait ever ended without its event, and whether a
flip was ever asked for while one was pending.

1. `decode_target_free`: what holds in every state of every run.
-/

namespace OmtClient.Receiver

inductive Present
  | presented
  | skipped
  | unsupported (detail : String)
  | failed (detail : String)
  deriving DecidableEq, Repr

namespace Present

open OmtClient.Lib OmtClient.Omt OmtClient.Vmx

def drmBuffers : Nat := 3
def skipBudget : Nat := 20

structure VideoFormat where
  width : Int
  height : Int
  frameRateN : Int
  frameRateD : Int
  colorSpace : Int
  deriving DecidableEq, Repr

/-- `classify_decode`, with the skips after it. -/
def classifyDecode (error : Status) (presented : Bool) (skips : Nat) : Present × Nat :=
  let detail := "VMX decoder rejected the frame: " ++ error.name
  match error with
  | .truncated | .invalidFormat | .oversized | .sliceCount | .corruptStream =>
    if !presented then (.failed detail, skips)
    else if skips + 1 ≤ skipBudget then (.skipped, skips + 1)
    else (.failed ("VMX decoder rejected " ++ toString (skips + 1) ++ " consecutive frames: " ++ error.name), skips + 1)
  | .unsupportedFormat => (.unsupported detail, skips)
  | _ => (.failed detail, skips)

/-! ## The display -/

/-- A surface: the chain it was made for and its place there. -/
structure Surface where
  chain : Nat
  index : Nat
  deriving DecidableEq, Repr

structure Display where
  shown : Option Surface
  queued : List Surface
  /-- Completions that were not read yet. -/
  events : Nat
  deriving DecidableEq, Repr

/-- A vertical blank: the first queued flip completes. -/
def Display.vblank (d : Display) : Display :=
  match d.queued with
  | [] => d
  | f :: rest => ⟨some f, rest, d.events + 1⟩

/-- A mode setting that scans `f` out; `delivered` is whether the event of a flip that it
waited for arrives. -/
def Display.modeset (d : Display) (f : Surface) (delivered : Bool) : Display :=
  ⟨some f, [], d.events + if delivered then d.queued.length else 0⟩

/-! ## The output -/

/-- `Config`, as far as the flips go. -/
structure Config where
  chain : Nat
  front : Nat
  flipPending : Bool
  format : VideoFormat
  presented : Bool
  skips : Nat
  deriving DecidableEq, Repr

def Config.surface (c : Config) (index : Nat) : Surface := ⟨c.chain, index⟩

/-- The surface that the next frame is decoded into. -/
def Config.next (c : Config) : Nat := (c.front + 1) % drmBuffers

/-- Where a call is. -/
inductive Phase
  | idle
  /-- In `release`, to configure a format or for good. -/
  | releasing (format : Option VideoFormat)
  | configuring (format : VideoFormat)
  | loading
  /-- The decoder writes this surface. -/
  | decoding (next : Nat)
  | retiring (next : Nat)
  | queueing (next : Nat)
  deriving DecidableEq, Repr

structure State where
  cfg : Option Config
  rejected : Option (VideoFormat × String)
  phase : Phase
  /-- What the last call returned. -/
  result : Option Present
  /-- How many chains were made. -/
  chains : Nat
  display : Display
  lost : Bool
  busy : Bool
  deriving DecidableEq, Repr

/-- An output just opened, on a display that shows nothing of it. -/
def State.init : State := ⟨none, none, .idle, none, 0, ⟨none, [], 0⟩, false, false⟩

/-- A call returns. -/
def State.done (s : State) (r : Present) : State := { s with phase := .idle, result := some r }

/-- What `configure` came to after `release`. -/
inductive Setup
  | ready (delivered : Bool)
  | unsupported (detail : String)
  | failed (detail : String)
  deriving DecidableEq, Repr

inductive Action
  /-- `present` is called on a frame, whose format the ceiling admits or not. -/
  | present (video : Option VideoFormat) (ceiling : Option String)
  /-- `retire_flip`: how many completions the read that found one took, or why it failed. -/
  | retire (read : Except String Nat)
  | configure (setup : Setup)
  /-- Whether the frame has a body, and what loading it says. -/
  | load (media : Bool) (status : Option Status)
  | decode (status : Option Status)
  /-- The flip is asked for; `error` is a refusal other than for a pending flip. -/
  | queue (error : Option String)
  | drop
  | vblank
  deriving Repr

/-- A new format: the ceiling is asked before anything is released. -/
def State.begin (s : State) (format : VideoFormat) (ceiling : Option String) : State :=
  if s.cfg.any (·.format = format) then { s with phase := .loading }
  else
    match ceiling with
    | some detail => { s with rejected := some (format, detail) }.done (.unsupported detail)
    | none => { s with phase := .releasing (some format) }

/-- The start of `present`. -/
def State.present (s : State) (video : Option VideoFormat) (ceiling : Option String) : State :=
  match video with
  | none => s.done (.unsupported "Unsupported video frame")
  | some format =>
    match s.rejected with
    | some (rejected, detail) =>
      if rejected = format then s.done (.unsupported detail) else { s with rejected := none }.begin format ceiling
    | none => s.begin format ceiling

/-- `retire_flip` on a configuration: what it leaves, and its error. -/
def State.retire (s : State) (c : Config) (read : Except String Nat) : Option (State × Option String) :=
  if c.flipPending then
    let s := { s with cfg := some { c with flipPending := false } }
    match read with
    | .ok n =>
      if 1 ≤ n ∧ n ≤ s.display.events then
        some ({ s with display := { s.display with events := s.display.events - n } }, none)
      else none
    | .error detail => some ({ s with lost := true }, some detail)
  else some (s, none)

/-- After `release`: the configuration is dropped and what it was released for goes on. -/
def State.released (s : State) (format : Option VideoFormat) : State :=
  { s with cfg := none, phase := format.elim .idle .configuring }

/-- The end of `configure`. -/
def State.configure (s : State) (format : VideoFormat) : Setup → State
  | .ready delivered =>
    { s with
      cfg := some ⟨s.chains, 0, false, format, false, 0⟩
      chains := s.chains + 1
      display := s.display.modeset ⟨s.chains, 0⟩ delivered
      phase := .loading }
  | .unsupported detail => { s with rejected := some (format, detail) }.done (.unsupported detail)
  | .failed detail => s.done (.failed detail)

/-- An undecodable frame. -/
def State.undecodable (s : State) (c : Config) (error : Status) : State :=
  let (r, skips) := classifyDecode error c.presented c.skips
  { s with cfg := some { c with skips } }.done r

/-- The flip is asked for. -/
def State.queue (s : State) (c : Config) (next : Nat) (error : Option String) : State :=
  if s.display.queued ≠ [] then
    { s with busy := true }.done (.failed "Unable to queue DRM page flip: Device or resource busy (os error 16)")
  else
    match error with
    | some e => s.done (.failed ("Unable to queue DRM page flip: " ++ e))
    | none =>
      { s with
        cfg := some { c with front := next, flipPending := true, presented := true, skips := 0 }
        display := { s.display with queued := s.display.queued ++ [c.surface next] } }.done .presented

def step (s : State) : Action → Option State
  | .present video ceiling => if s.phase = .idle then some (s.present video ceiling) else none
  | .retire read =>
    match s.phase with
    | .releasing format =>
      match s.cfg with
      | none => some (s.released format)
      | some c => (s.retire c read).map fun p => p.1.released format
    | .retiring next =>
      match s.cfg with
      | none => some (s.done (.failed "Video output is not configured"))
      | some c =>
        (s.retire c read).map fun p =>
          match p.2 with
          | some detail => p.1.done (.failed detail)
          | none => { p.1 with phase := .queueing next }
    | _ => none
  | .configure setup =>
    match s.phase with
    | .configuring format => some (s.configure format setup)
    | _ => none
  | .load media status =>
    if s.phase = .loading then
      if media = false then some (s.done (.failed "Truncated VMX frame"))
      else
        match s.cfg with
        | none => some (s.done (.failed "Video output is not configured"))
        | some c =>
          match status with
          | some e => some (s.undecodable c e)
          | none => some { s with phase := .decoding c.next }
    else none
  | .decode status =>
    match s.phase, s.cfg with
    | .decoding next, some c =>
      match status with
      | some e => some (s.undecodable c e)
      | none => some { s with phase := .retiring next }
    | _, _ => none
  | .queue error =>
    match s.phase with
    | .queueing next =>
      match s.cfg with
      | none => some (s.done (.failed "Video output is not configured"))
      | some c => some (s.queue c next error)
    | _ => none
  | .drop => if s.phase = .idle then some { s with phase := .releasing none } else none
  | .vblank => some { s with display := s.display.vblank }

/-- The state after a sequence of actions. -/
def run (s : State) (actions : List Action) : Option State := actions.foldlM step s

/-- What the flip chain promises in a state. -/
structure Safe (s : State) : Prop where
  /-- The surface that the decoder writes is one of the chain and is neither scanned out
  nor queued. -/
  target : ∀ next, s.phase = .decoding next → ∃ c, s.cfg = some c ∧ next < drmBuffers ∧
    s.display.shown ≠ some (c.surface next) ∧ c.surface next ∉ s.display.queued
  onePending : s.display.queued.length ≤ 1
  /-- Unless a wait ended without its event, a flip is only asked for when none is
  pending. -/
  asked : s.lost = false → s.busy = false

/-! ## The invariant -/

/-- A chain on its display: the front surface is scanned out, or it is queued and the one
before it is. -/
inductive Chain (c : Config) (d : Display) : Prop
  | settled (hfront : c.front < drmBuffers) (hqueued : d.queued = []) (hshown : d.shown = some (c.surface c.front))
  | flying {before : Nat} (hbefore : before < drmBuffers) (hfront : c.front = (before + 1) % drmBuffers)
    (hqueued : d.queued = [c.surface c.front]) (hshown : d.shown = some (c.surface before))

/-- Of the configuration and the display, wherever the call is. -/
structure Core (cfg : Option Config) (d : Display) (lost busy : Bool) : Prop where
  chain : ∀ c, cfg = some c → Chain c d
  one : d.queued.length ≤ 1
  /-- As long as every wait got its event, the receiver knows of every flip. -/
  counted : lost = false → busy = false ∧ d.events + d.queued.length = if cfg.any (·.flipPending) then 1 else 0

/-- The surface that a call has chosen. -/
def Phase.target : Phase → Option Nat
  | .decoding next | .retiring next | .queueing next => some next
  | _ => none

structure Inv (s : State) : Prop where
  core : Core s.cfg s.display s.lost s.busy
  target : ∀ next, s.phase.target = some next → ∃ c, s.cfg = some c ∧ next = c.next
  retired : ∀ next, s.phase = .queueing next → s.cfg.any (·.flipPending) = false
  released : ∀ format, s.phase = .configuring format → s.cfg = none

namespace PresentLemmas

variable {cfg : Option Config} {c : Config} {d : Display} {lost busy : Bool} {s s' : State}

theorem next_lt (c : Config) : c.next < drmBuffers := Nat.mod_lt _ (by decide)

/-- With three surfaces the next one is neither the front nor the one before it. -/
theorem next_ne_front : c.next ≠ c.front := by
  unfold Config.next drmBuffers
  omega

theorem next_ne_before {before : Nat} (hfront : c.front = (before + 1) % drmBuffers) :
    c.next ≠ before := by
  unfold Config.next drmBuffers at *
  omega

theorem surface_ne {i j : Nat} (h : i ≠ j) : c.surface i ≠ c.surface j := fun heq => h (congrArg Surface.index heq)

/-- The next surface is free. -/
theorem chain_free (h : Chain c d) : d.shown ≠ some (c.surface c.next) ∧ c.surface c.next ∉ d.queued := by
  cases h with
  | settled hfront hqueued hshown =>
    rw [hqueued, hshown]
    refine ⟨fun heq => ?_, List.not_mem_nil⟩
    exact surface_ne next_ne_front (Option.some.inj heq).symm
  | flying hbefore hfront hqueued hshown =>
    rw [hqueued, hshown]
    refine ⟨fun heq => ?_, fun hmem => ?_⟩
    · exact surface_ne (next_ne_before hfront) (Option.some.inj heq).symm
    · exact surface_ne next_ne_front (List.mem_singleton.mp hmem)

/-! ### What each call does to the display -/

theorem core_vblank (h : Core cfg d lost busy) : Core cfg d.vblank lost busy := by
  unfold Display.vblank
  split
  · exact h
  · next f rest hqueued =>
    have hone := h.one
    rw [hqueued, List.length_cons] at hone
    have hrest : rest = [] := List.eq_nil_of_length_eq_zero (by omega)
    refine ⟨fun c hc => ?_, ?_, fun hlost => ⟨(h.counted hlost).1, ?_⟩⟩
    · cases h.chain c hc with
      | settled hfront hnone hshown => exact nomatch hnone.symm.trans hqueued
      | flying hbefore hfront hfly hshown =>
        obtain ⟨rfl, -⟩ := List.cons.inj (hfly.symm.trans hqueued)
        refine .settled ?_ hrest rfl
        rw [hfront]
        exact Nat.mod_lt _ (by decide)
    · rw [hrest]
      exact Nat.zero_le 1
    · have hcount := (h.counted hlost).2
      rw [hqueued, List.length_cons] at hcount
      dsimp only
      omega

/-- A configuration without a flip pending may go. -/
theorem core_dropped (h : Core cfg d lost busy) (hidle : cfg.any (·.flipPending) = false) : Core none d lost busy := by
  refine ⟨nofun, h.one, fun hlost => ⟨(h.counted hlost).1, ?_⟩⟩
  rw [(h.counted hlost).2, hidle]
  rfl

theorem core_modeset {chain : Nat} {format : VideoFormat} (h : Core none d lost busy) (delivered : Bool) :
    Core (some ⟨chain, 0, false, format, false, 0⟩) (d.modeset ⟨chain, 0⟩ delivered) lost busy := by
  refine ⟨fun c hc => ?_, Nat.zero_le 1, fun hlost => ⟨(h.counted hlost).1, ?_⟩⟩
  · obtain rfl := Option.some.inj hc
    exact .settled (Nat.zero_lt_succ 2) rfl rfl
  · have hcount : d.events + d.queued.length = 0 := (h.counted hlost).2
    show d.events + (if delivered then d.queued.length else 0) + 0 = 0
    split
    · omega
    · omega

theorem core_skips (h : Core (some c) d lost busy) (skips : Nat) : Core (some { c with skips }) d lost busy := by
  refine ⟨fun c' hc => ?_, h.one, h.counted⟩
  obtain rfl := Option.some.inj hc
  cases h.chain c rfl with
  | settled hfront hqueued hshown => exact .settled hfront hqueued hshown
  | flying hbefore hfront hqueued hshown => exact .flying hbefore hfront hqueued hshown

/-- The same surfaces, with the flip no longer awaited. -/
theorem chain_retired (h : Chain c d) (n : Nat) :
    Chain { c with flipPending := false } { d with events := n } := by
  cases h with
  | settled hfront hqueued hshown => exact .settled hfront hqueued hshown
  | flying hbefore hfront hqueued hshown => exact .flying hbefore hfront hqueued hshown

/-- `retire_flip`: the flip is no longer awaited, with its event or without. -/
theorem retire_spec {read : Except String Nat} {p : State × Option String} (h : Core (some c) s.display s.lost s.busy)
    (hcfg : s.cfg = some c) (hretire : s.retire c read = some p) :
    ∃ c', p.1.cfg = some c' ∧ c'.next = c.next ∧ c'.flipPending = false ∧ p.1.phase = s.phase ∧
      Core (some c') p.1.display p.1.lost p.1.busy := by
  unfold State.retire at hretire
  split at hretire
  · next hpending =>
    dsimp only at hretire
    have hchain := h.chain c rfl
    split at hretire
    · split at hretire
      · next n hread =>
        cases hretire
        refine ⟨_, rfl, rfl, rfl, rfl, ?_, h.one, fun hlost => ⟨(h.counted hlost).1, ?_⟩⟩
        · intro c' hc
          obtain rfl := Option.some.inj hc
          exact chain_retired hchain _
        · have hcount := (h.counted hlost).2
          rw [Option.any_some, if_pos hpending] at hcount
          rw [Option.any_some, if_neg Bool.false_ne_true]
          dsimp only at hread ⊢
          omega
      · cases hretire
    · cases hretire
      refine ⟨_, rfl, rfl, rfl, rfl, ?_, h.one, nofun⟩
      intro c' hc
      obtain rfl := Option.some.inj hc
      exact chain_retired hchain _
  · next hidle =>
    cases hretire
    exact ⟨c, hcfg, rfl, Bool.eq_false_iff.mpr hidle, rfl, h⟩

/-- A flip that the display takes. -/
theorem core_queued (h : Core (some c) d lost busy) (hretired : c.flipPending = false) (hfree : d.queued = []) :
    Core (some { c with front := c.next, flipPending := true, presented := true, skips := 0 })
      { d with queued := d.queued ++ [c.surface c.next] } lost busy := by
  refine ⟨fun c' hc => ?_, ?_, fun hlost => ⟨(h.counted hlost).1, ?_⟩⟩
  · obtain rfl := Option.some.inj hc
    cases h.chain c rfl with
    | settled hfront hqueued hshown =>
      refine .flying hfront rfl ?_ hshown
      dsimp only
      rw [hqueued]
      rfl
    | flying hbefore hfront hqueued hshown => exact nomatch hfree.symm.trans hqueued
  · rw [hfree]
    exact Nat.le_refl 1
  · have hcount := (h.counted hlost).2
    rw [Option.any_some, hretired, hfree] at hcount
    rw [hfree]
    exact congrArg (· + 1) hcount

/-- A flip asked for too early: some wait had ended without its event. -/
theorem core_busy (h : Core (some c) d lost busy) (hretired : c.flipPending = false) (hbusy : d.queued ≠ []) :
    Core (some c) d lost true := by
  refine ⟨h.chain, h.one, fun hlost => ?_⟩
  have hcount := (h.counted hlost).2
  rw [Option.any_some, hretired, if_neg Bool.false_ne_true] at hcount
  have hpos := List.length_pos_of_ne_nil hbusy
  omega

/-! ### Steps -/

theorem inv_untargeted {phase : Phase} {r : Option Present} {rejected : Option (VideoFormat × String)}
    (h : Core s.cfg s.display s.lost s.busy) (hphase : phase.target = none)
    (hreleased : ∀ format, phase = .configuring format → s.cfg = none) :
    Inv { s with phase := phase, result := r, rejected := rejected } := by
  refine ⟨h, fun next hnext => (nomatch hphase.symm.trans hnext), fun next hnext => ?_, hreleased⟩
  dsimp only at hnext
  rw [hnext] at hphase
  cases hphase

theorem inv_done (r : Present) (h : Core s.cfg s.display s.lost s.busy) : Inv (s.done r) := inv_untargeted h rfl nofun

theorem inv_begin (h : Core s.cfg s.display s.lost s.busy) (format : VideoFormat) (ceiling : Option String) :
    Inv (s.begin format ceiling) := by
  unfold State.begin
  split
  · exact inv_untargeted h rfl nofun
  · cases ceiling with
    | some detail => exact inv_done _ h
    | none => exact inv_untargeted h rfl nofun

theorem inv_present (h : Core s.cfg s.display s.lost s.busy) (video : Option VideoFormat) (ceiling : Option String) :
    Inv (s.present video ceiling) := by
  unfold State.present
  cases video with
  | none => exact inv_done _ h
  | some format =>
    dsimp only
    split
    · split
      · exact inv_done _ h
      · exact inv_begin (s := { s with rejected := none }) h format ceiling
    · exact inv_begin h format ceiling

theorem inv_undecodable (h : Core (some c) s.display s.lost s.busy) (e : Status) : Inv (s.undecodable c e) :=
  inv_done (s := { s with cfg := some { c with skips := _ } }) _ (core_skips h _)

theorem inv_queue {next : Nat} {error : Option String} (h : Core (some c) s.display s.lost s.busy) (hcfg : s.cfg = some c)
    (hretired : c.flipPending = false) (hnext : next = c.next) : Inv (s.queue c next error) := by
  unfold State.queue
  split
  · next hbusy => exact inv_done (s := { s with busy := true }) _ (hcfg ▸ core_busy h hretired hbusy)
  · next hfree =>
    cases error with
    | some e => exact inv_done _ (hcfg ▸ h)
    | none =>
      rw [hnext]
      exact inv_done (s := { s with cfg := _, display := _ }) _ (core_queued h hretired (Decidable.not_not.mp hfree))

theorem inv_configure {format : VideoFormat} {setup : Setup} (h : Core none s.display s.lost s.busy) (hcfg : s.cfg = none) :
    Inv (s.configure format setup) := by
  cases setup with
  | ready delivered => exact ⟨core_modeset h delivered, nofun, nofun, nofun⟩
  | unsupported detail => exact inv_done (s := { s with rejected := _ }) _ (hcfg ▸ h)
  | failed detail => exact inv_done _ (hcfg ▸ h)

theorem inv_released (format : Option VideoFormat) (h : Core s.cfg s.display s.lost s.busy)
    (hidle : s.cfg.any (·.flipPending) = false) : Inv (s.released format) := by
  have htarget : (format.elim Phase.idle Phase.configuring).target = none := by cases format <;> rfl
  exact inv_untargeted (s := { s with cfg := none }) (core_dropped h hidle) htarget fun _ _ => rfl

theorem step_retire {read : Except String Nat} (h : Inv s) (hstep : step s (.retire read) = some s') : Inv s' := by
  unfold step at hstep
  dsimp only at hstep
  split at hstep
  · next format hphase =>
    split at hstep
    · next hcfg =>
      cases hstep
      exact inv_released format h.core (by rw [hcfg]; rfl)
    · next c hcfg =>
      obtain ⟨p, hretire, rfl⟩ := Option.map_eq_some_iff.mp hstep
      obtain ⟨c', hcfg', -, hidle, -, hcore⟩ := retire_spec (hcfg ▸ h.core) hcfg hretire
      exact inv_released format (hcfg' ▸ hcore) (by rw [hcfg']; exact hidle)
  · next next hphase =>
    split at hstep
    · cases hstep
      exact inv_done _ h.core
    · next c hcfg =>
      obtain ⟨p, hretire, rfl⟩ := Option.map_eq_some_iff.mp hstep
      obtain ⟨c', hcfg', hsame, hidle, -, hcore⟩ := retire_spec (hcfg ▸ h.core) hcfg hretire
      cases hresult : p.2 with
      | some detail => exact inv_done _ (hcfg' ▸ hcore)
      | none =>
        refine ⟨hcfg' ▸ hcore, fun n hn => ⟨c', hcfg', ?_⟩, fun n _ => ?_, nofun⟩
        · obtain ⟨c₀, hc₀, hnext⟩ := h.target next (by rw [hphase]; rfl)
          obtain rfl := Option.some.inj (hcfg.symm.trans hc₀)
          exact (Option.some.inj hn).symm.trans (hnext.trans hsame.symm)
        · dsimp only
          rw [hcfg', Option.any_some, hidle]
  · cases hstep

theorem step_load {media : Bool} {status : Option Status} (h : Inv s) (hstep : step s (.load media status) = some s') :
    Inv s' := by
  unfold step at hstep
  dsimp only at hstep
  split at hstep
  · split at hstep
    · cases hstep
      exact inv_done _ h.core
    · split at hstep
      · cases hstep
        exact inv_done _ h.core
      · next c hcfg =>
        split at hstep
        · cases hstep
          exact inv_undecodable (hcfg ▸ h.core) _
        · cases hstep
          exact ⟨h.core, fun n hn => ⟨c, hcfg, (Option.some.inj hn).symm⟩, nofun, nofun⟩
  · cases hstep

theorem step_decode {status : Option Status} (h : Inv s) (hstep : step s (.decode status) = some s') : Inv s' := by
  unfold step at hstep
  dsimp only at hstep
  split at hstep
  · next next c hphase hcfg =>
    split at hstep
    · cases hstep
      exact inv_undecodable (hcfg ▸ h.core) _
    · cases hstep
      exact ⟨h.core, fun n hn => h.target n (by rw [hphase]; exact hn), nofun, nofun⟩
  · cases hstep

theorem step_queue {error : Option String} (h : Inv s) (hstep : step s (.queue error) = some s') : Inv s' := by
  unfold step at hstep
  dsimp only at hstep
  split at hstep
  · next next hphase =>
    split at hstep
    · cases hstep
      exact inv_done _ h.core
    · next c hcfg =>
      cases hstep
      obtain ⟨c₀, hc₀, hnext⟩ := h.target next (by rw [hphase]; rfl)
      obtain rfl := Option.some.inj (hcfg.symm.trans hc₀)
      have hretired := h.retired next hphase
      rw [hcfg, Option.any_some] at hretired
      exact inv_queue (hcfg ▸ h.core) hcfg hretired hnext
  · cases hstep

/-- What one step keeps. -/
theorem step_inv {a : Action} (h : Inv s) (hstep : step s a = some s') : Inv s' := by
  cases a with
  | present video ceiling =>
    unfold step at hstep
    dsimp only at hstep
    split at hstep
    · cases hstep
      exact inv_present h.core video ceiling
    · cases hstep
  | retire read => exact step_retire h hstep
  | configure setup =>
    unfold step at hstep
    dsimp only at hstep
    split at hstep
    · next format hphase =>
      cases hstep
      have hcfg := h.released format hphase
      exact inv_configure (hcfg ▸ h.core) hcfg
    · cases hstep
  | load media status => exact step_load h hstep
  | decode status => exact step_decode h hstep
  | queue error => exact step_queue h hstep
  | drop =>
    unfold step at hstep
    dsimp only at hstep
    split at hstep
    · cases hstep
      exact inv_untargeted h.core rfl nofun
    · cases hstep
  | vblank =>
    cases hstep
    exact ⟨core_vblank h.core, h.target, h.retired, h.released⟩

theorem init_inv : Inv State.init :=
  ⟨⟨nofun, Nat.zero_le 1, fun _ => ⟨rfl, rfl⟩⟩, nofun, nofun, nofun⟩

theorem inv_safe (h : Inv s) : Safe s := by
  refine ⟨fun next hphase => ?_, h.core.one, fun hlost => (h.core.counted hlost).1⟩
  obtain ⟨c, hcfg, rfl⟩ := h.target next (by rw [hphase]; rfl)
  exact ⟨c, hcfg, next_lt c, chain_free (h.core.chain c hcfg)⟩

end PresentLemmas

open PresentLemmas

/-- Whatever frames arrive, whatever the display answers and whenever its flips complete. -/
theorem decode_target_free (actions : List Action) (s : State) (h : run State.init actions = some s) : Safe s :=
  inv_safe (foldlM_invariant (fun _ _ _ => step_inv) init_inv h)

/-- A wait that times out: the call fails with the flip still pending. The flip completes
later, the next one is taken, and the wait for it reads the old event, so the flip after it
finds the display busy. -/
def staleEvent (format : VideoFormat) : List Action :=
  [.present (some format) none, .retire (.ok 0), .configure (.ready false),
    .load true none, .decode none, .retire (.ok 0), .queue none,
    .present (some format) none, .load true none, .decode none, .retire (.error "DRM page flip timed out"),
    .vblank, .present (some format) none, .load true none, .decode none, .retire (.ok 0), .queue none,
    .present (some format) none, .load true none, .decode none, .retire (.ok 1), .queue none,
    .present (some format) none, .load true none]

theorem stale_event_target_free : ∃ s, run State.init (staleEvent ⟨1920, 1080, 60, 1, 709⟩) = some s ∧
    s.phase = .decoding 0 ∧ s.busy = true ∧ Safe s := by
  have hrun : (run State.init (staleEvent ⟨1920, 1080, 60, 1, 709⟩)).map (fun s => (s.phase, s.busy)) =
      some (.decoding 0, true) := by decide
  obtain ⟨s, hs, heq⟩ := Option.map_eq_some_iff.mp hrun
  exact ⟨s, hs, congrArg Prod.fst heq, congrArg Prod.snd heq, decode_target_free _ s hs⟩

end Present

end OmtClient.Receiver
