import OmtClient.Deploy.SdCard
import OmtClient.Lib.Prog

/-!
# What an operation of the deployer works with

The operations talk to a remote host, the file system, a clock and the operator. Every
question to them advances `tick` and gets an answer that can be any function of it. The
state keeps what was sent, what was written to local files, and every rule that a
validation found broken, also where the operation went on.

1. `Orderly`: what an operation sends and which rules it finds broken, whatever the
   answers are.
2. `Quiet`: it finds only rules about the file system broken.
-/

namespace OmtClient.Deploy

open OmtClient.Lib OmtClient.Common Prog

/-- `SshResult`. -/
structure SshResult where
  exitCode : Int
  out : String
  err : String

def SshResult.success (r : SshResult) : Bool := r.exitCode == 0

/-- Standard output, a newline if one is needed, then standard error. -/
def SshResult.combined (r : SshResult) : String :=
  if r.err = "" then r.out
  else if r.out ≠ "" ∧ r.out.toList.getLast? ≠ some '\n' then r.out ++ "\n" ++ r.err
  else r.out ++ r.err

structure Member where
  name : String
  bytes : Bytes

/-- Where the bytes of a member come from. -/
inductive Payload
  | embedded (bytes : Bytes)
  | file (path fingerprint : String)

structure Artifact where
  name : String
  digest : String
  data : Payload

/-- What the outside answers at a tick. -/
structure Outside where
  /-- The operator has cancelled. -/
  cancelled : Nat → Bool
  nowMs : Nat → Nat
  files : Nat → Files
  /-- So many random bytes. -/
  random : Nat → Nat → Option Bytes
  /-- Why no session to a host was made. -/
  connect : Nat → Connection → Option String
  run : Nat → String → Bytes → Except String SshResult
  runPtyAfterMarker : Nat → String → String → Bytes → Except String SshResult
  upload : Nat → Payload → String → Except String Unit
  /-- A member and all members of a working tree. -/
  treePayload : Nat → String → String → Except String Payload
  treeArtifacts : Nat → String → Except String (List Artifact)
  /-- A file of a working tree is as it was. -/
  unchanged : Nat → Artifact → Except String Bool
  buildImage : Nat → String → Except String Unit
  downloadHeadless : Nat → Except String Bytes
  writeFile : Nat → String → Bytes → Except String Unit

/-- An outside where nothing fails but the commands that `run` says. -/
def Outside.calm (files : Nat → Files) (run : Nat → String → Bytes → Except String SshResult) : Outside where
  cancelled _ := false
  nowMs _ := 0
  files := files
  random _ bytes := some (List.replicate bytes 0)
  connect _ _ := none
  run := run
  runPtyAfterMarker t command _ input := run t command input
  upload _ _ _ := .ok ()
  treePayload _ _ _ := .ok (.embedded [])
  treeArtifacts _ _ := .ok []
  unchanged _ _ := .ok true
  buildImage _ _ := .ok ()
  downloadHeadless _ := .ok []
  writeFile _ _ _ := .ok ()

/-- What does not change while an operation runs. -/
structure Site where
  kdf : Pbkdf2
  sha256Hex : Bytes → String
  /-- The members of the capsule in the deployer. -/
  members : List Member
  /-- The script that sets up a Wi-Fi profile. -/
  wifiScript : String
  /-- How many turns of a wait are looked at. -/
  patience : Nat
  outside : Outside

structure State where
  tick : Nat
  refused : List Problem
  sent : List (String × Bytes)
  written : List (String × Bytes)

def State.init : State := ⟨0, [], [], []⟩

/-- Why an operation failed: a rule, or something outside. -/
inductive Failure
  | problem (p : Problem)
  | outside (text : String)
  deriving DecidableEq, Repr

abbrev Act (α : Type) := Prog State Failure α

def fail {α : Type} (text : String) : Act α := raise (.outside text)

def failIf (c : Bool) (text : String) : Act Unit := if c then fail text else pure ()

section

variable {α : Type} (site : Site)

def ask (question : Outside → Nat → α) : Act α := do
  let s ← get
  modify fun s => { s with tick := s.tick + 1 }
  pure (question site.outside s.tick)

/-- A question whose answer can be that it failed. -/
def demand (question : Outside → Nat → Except String α) : Act α := do
  match ← ask site question with
  | .ok a => pure a
  | .error e => fail e

/-- A rule that does not hold stops the operation. -/
def check (found : Option Problem) : Act Unit :=
  match found with
  | none => pure ()
  | some p => do
    modify fun s => { s with refused := s.refused ++ [p] }
    raise (.problem p)

/-- What was computed from the settings, or the rule that they break. -/
def settled (r : Except Problem α) : Act α :=
  match r with
  | .ok a => pure a
  | .error p => do
    modify fun s => { s with refused := s.refused ++ [p] }
    raise (.problem p)

/-- `sys::check_cancel`. -/
def checkCancel : Act Unit := do
  failIf (← ask site Outside.cancelled) "operation cancelled"

/-- `Session::run`. -/
def run (command : String) (input : Bytes) : Act SshResult := do
  modify fun s => { s with sent := s.sent ++ [(command, input)] }
  demand site fun o t => o.run t command input

/-- `Session::run_pty_after_marker`. -/
def runPtyAfterMarker (command marker : String) (input : Bytes) : Act SshResult := do
  modify fun s => { s with sent := s.sent ++ [(command, input)] }
  demand site fun o t => o.runPtyAfterMarker t command marker input

/-- `upload_payload`. -/
def uploadPayload (p : Payload) (remote : String) : Act Unit := demand site fun o t => o.upload t p remote

/-- `random_token`: always for 8 or 12 bytes here. -/
def randomToken (bytes : Nat) : Act String := do
  match ← ask site fun o t => o.random t bytes with
  | some raw => pure (hex raw)
  | none => fail "randomness is unavailable"

/-- `write_file_sync`. -/
def writeFileSync (path : String) (data : Bytes) : Act Unit := do
  demand site fun o t => o.writeFile t path data
  modify fun s => { s with written := s.written ++ [(path, data)] }

/-- `connect_checked`. -/
def connectChecked (c : Connection) : Act Unit := do
  let fs ← ask site Outside.files
  check (validateConnection fs c)
  match ← ask site fun o t => o.connect t c with
  | some e => fail e
  | none => pure ()

/-! ## The boot partition -/

def checkedTarget (directory name : String) : Act String := do
  let path := pathJoin directory name
  let fs ← ask site Outside.files
  match fs.lstat path with
  | .missing | .file => pure path
  | .error => fail path
  | _ => fail "A destination path exists but is not a regular file."

def prepareSdCard (s : SdSettings) : Act Unit := do
  let fs ← ask site Outside.files
  check (validateSdSettings fs s)
  failIf (← ask site Outside.cancelled) "operation cancelled"
  let headlessTarget ← checkedTarget site s.bootDirectory headlessFileName
  let wifiTarget ← checkedTarget site s.bootDirectory "wpa_supplicant.conf"
  let headless ← demand site Outside.downloadHeadless
  failIf (← ask site Outside.cancelled) "operation cancelled"
  let wifi ← settled (wpaSupplicantConfig site.kdf s)
  writeFileSync site headlessTarget headless
  writeFileSync site wifiTarget (utf8 wifi)

end

/-! ## What an operation does -/

/-- Whatever the outside answers, the operation finds only rules of `A` broken, is stopped
by no others, and sends only what `P` allows. -/
def Orderly {α : Type} (A : Problem → Prop) (P : String × Bytes → Prop) (m : Act α) : Prop :=
  Runs (fun s => (∀ p ∈ s.refused, A p) ∧ ∀ e ∈ s.sent, P e) (fun _ => 0) (fun e => ∀ p, e = .problem p → A p) m

/-- A rule about the file system. -/
abbrev FromFiles (p : Problem) : Prop := p.ofFiles = true

/-- The operation finds no rules broken but those about the file system. -/
def Quiet {α : Type} (m : Act α) : Prop := Orderly FromFiles (fun _ => True) m

/-- A connection that breaks only rules of `A`, whatever is in the file system. -/
def Ruled (A : Problem → Prop) (c : Connection) : Prop := ∀ fs p, validateConnection fs c = some p → A p

namespace MachineLemmas

variable {α β : Type} {site : Site} {A : Problem → Prop} {P : String × Bytes → Prop}

theorem orderly_bind {m : Act α} {f : α → Act β} (hm : Orderly A P m) (hf : ∀ a, Orderly A P (f a)) :
    Orderly A P (m >>= f) := runs_bind hm hf

theorem orderly_pure (a : α) : Orderly A P (pure a : Act α) := runs_pure a

theorem orderly_fail (text : String) : Orderly A P (fail text : Act α) := runs_raise fun _ h => (nomatch h)

theorem orderly_ite {c : Prop} [Decidable c] {m m' : Act α} (h : Orderly A P m) (h' : Orderly A P m') :
    Orderly A P (if c then m else m') := runs_ite h h'

theorem orderly_failIf (c : Bool) (text : String) : Orderly A P (failIf c text) :=
  orderly_ite (orderly_fail text) (orderly_pure ())

theorem orderly_attempt {m : Act α} (h : Orderly A P m) : Orderly A P (attempt m) := runs_attempt h

/-- A step that sends nothing and finds nothing. -/
theorem orderly_modify {g : State → State} (hrefused : ∀ s, (g s).refused = s.refused)
    (hsent : ∀ s, (g s).sent = s.sent) : Orderly A P (modify g : Act Unit) := by
  refine runs_modify (fun s hs => ?_) fun _ => Nat.le_refl _
  rw [hrefused s, hsent s]
  exact hs

theorem orderly_ask (question : Outside → Nat → α) : Orderly A P (ask site question) :=
  orderly_bind runs_get fun _ => orderly_bind (orderly_modify (fun _ => rfl) fun _ => rfl) fun _ => orderly_pure _

theorem orderly_demand (question : Outside → Nat → Except String α) : Orderly A P (demand site question) := by
  refine orderly_bind (orderly_ask _) fun r => ?_
  cases r with
  | ok a => exact orderly_pure a
  | error e => exact orderly_fail e

theorem orderly_refuse {p : Problem} (h : A p) :
    Orderly A P (do modify fun s => { s with refused := s.refused ++ [p] }; raise (.problem p) : Act α) := by
  refine runs_bind (runs_modify ?_ fun _ => Nat.le_refl _) fun _ => runs_raise ?_
  · rintro s ⟨hrefused, hsent⟩
    exact ⟨List.forall_mem_append.mpr ⟨hrefused, List.forall_mem_singleton.mpr h⟩, hsent⟩
  · intro q hq
    cases hq
    exact h

theorem orderly_check {found : Option Problem} (h : ∀ p, found = some p → A p) : Orderly A P (check found) := by
  cases found with
  | none => exact orderly_pure ()
  | some p => exact orderly_refuse (h p rfl)

theorem orderly_settled {r : Except Problem α} (h : ∀ p, r = .error p → A p) : Orderly A P (settled r) := by
  cases r with
  | ok a => exact orderly_pure a
  | error p => exact orderly_refuse (h p rfl)

/-- What was computed goes on with its value. -/
theorem orderly_settled_bind {r : Except Problem α} {f : α → Act β} (herror : ∀ p, r = .error p → A p)
    (hok : ∀ a, r = .ok a → Orderly A P (f a)) : Orderly A P (settled r >>= f) := by
  cases r with
  | ok a => exact hok a rfl
  | error p =>
    intro s hs
    exact orderly_refuse (herror p rfl) s hs

theorem orderly_loop {body : Act (Option α)} {stuck : String} (h : Orderly A P body) (n : Nat) :
    Orderly A P (loop body (.outside stuck) n) := by
  induction n with
  | zero => exact orderly_fail stuck
  | succ n ih =>
    refine orderly_bind h fun o => ?_
    cases o with
    | none => exact ih
    | some a => exact orderly_pure a

theorem orderly_checkCancel : Orderly A P (checkCancel site) :=
  orderly_bind (orderly_ask _) fun _ => orderly_failIf _ _

theorem orderly_send {command : String} {input : Bytes} (h : P (command, input)) :
    Orderly A P (modify fun s => { s with sent := s.sent ++ [(command, input)] } : Act Unit) := by
  refine runs_modify ?_ fun _ => Nat.le_refl _
  rintro s ⟨hrefused, hsent⟩
  exact ⟨hrefused, List.forall_mem_append.mpr ⟨hsent, List.forall_mem_singleton.mpr h⟩⟩

theorem orderly_run {command : String} {input : Bytes} (h : P (command, input)) :
    Orderly A P (run site command input) :=
  orderly_bind (orderly_send h) fun _ => orderly_demand _

theorem orderly_runPtyAfterMarker {command marker : String} {input : Bytes} (h : P (command, input)) :
    Orderly A P (runPtyAfterMarker site command marker input) :=
  orderly_bind (orderly_send h) fun _ => orderly_demand _

theorem orderly_uploadPayload (p : Payload) (remote : String) : Orderly A P (uploadPayload site p remote) :=
  orderly_demand _

theorem orderly_randomToken (bytes : Nat) : Orderly A P (randomToken site bytes) := by
  refine orderly_bind (orderly_ask _) fun r => ?_
  cases r with
  | none => exact orderly_fail _
  | some raw => exact orderly_pure _

theorem orderly_writeFileSync (path : String) (data : Bytes) : Orderly A P (writeFileSync site path data) :=
  orderly_bind (orderly_demand _) fun _ => orderly_modify (fun _ => rfl) fun _ => rfl

theorem orderly_connectChecked {c : Connection} (hc : Ruled A c) : Orderly A P (connectChecked site c) := by
  refine orderly_bind (orderly_ask _) fun fs => orderly_bind (orderly_check (hc fs)) fun _ =>
    orderly_bind (orderly_ask _) fun r => ?_
  cases r with
  | none => exact orderly_pure ()
  | some e => exact orderly_fail e

theorem orderly_checkedTarget (directory name : String) : Orderly A P (checkedTarget site directory name) := by
  refine orderly_bind (orderly_ask _) fun fs => ?_
  split
  · exact orderly_pure _
  · exact orderly_pure _
  · exact orderly_fail _
  · exact orderly_fail _

/-- A card is prepared without breaking a rule when its settings hold and its key can be
derived. -/
theorem orderly_prepareSdCard {s : SdSettings} (hs : ∀ fs p, validateSdSettings fs s = some p → A p)
    (hkey : ∀ p, wpaSupplicantConfig site.kdf s = .error p → A p) : Orderly A P (prepareSdCard site s) := by
  refine orderly_bind (orderly_ask _) fun fs => orderly_bind (orderly_check (hs fs)) fun _ => ?_
  refine orderly_bind (orderly_ask _) fun _ => orderly_bind (orderly_failIf _ _) fun _ => ?_
  refine orderly_bind (orderly_checkedTarget _ _) fun _ => orderly_bind (orderly_checkedTarget _ _) fun _ => ?_
  refine orderly_bind (orderly_demand _) fun _ => orderly_bind (orderly_ask _) fun _ => ?_
  refine orderly_bind (orderly_failIf _ _) fun _ => orderly_bind (orderly_settled hkey) fun _ => ?_
  exact orderly_bind (orderly_writeFileSync _ _) fun _ => orderly_writeFileSync _ _

end MachineLemmas

end OmtClient.Deploy
