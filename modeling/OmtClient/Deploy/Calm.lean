import OmtClient.Deploy.Jobs

/-!
# Operations when all goes well

A rule that an operation looks at late is found broken only in a run in which everything
before it works. The module has a host on which everything works, and shows that a
deployment to it gets to its end and that a card gets to the derivation of its key.

1. `gives_deploy`: a deployment returns.
2. `sd_derives`: the preparation of a card gets to its key.
-/

namespace OmtClient.Deploy

open OmtClient.Lib OmtClient.Common Prog

def supportedBoard : String := "aarch64\nalpine\n3.24.1\nRaspberry Pi 5 Model B Rev 1.0"

/-- Another boot for every question. -/
def bootAt (t : Nat) : String := String.ofList (List.replicate (t + 1) 'x')

/-- The output of a command on a supported board where bash and sudo are installed. -/
@[irreducible] def calmOutput (t : Nat) (command : String) : String :=
  if command = platformProbe then supportedBoard
  else if command = toolingProbe then "0\nyes\nyes\nno"
  else if command = bootIdCommand then bootAt t
  else ""

/-- Every command works, and the container says that it listens. -/
def calmRun (t : Nat) (command : String) (_ : Bytes) : Except String SshResult :=
  .ok ⟨0, calmOutput t command, "omt-web listening on"⟩

/-- A deployer with an empty capsule and such a host. -/
def calmSite (kdf : Pbkdf2) (files : Nat → Files) : Site := ⟨kdf, fun _ => "", [], "", 1, .calm files calmRun⟩

/-- The operation returns, with a value as `P` says. -/
def Gives {α : Type} (P : α → Prop) (m : Act α) : Prop :=
  ∀ s, wp m (fun a s' => P a ∧ s.tick ≤ s'.tick) (fun _ _ => False) s

namespace CalmLemmas

variable {α β : Type} {kdf : Pbkdf2} {files : Nat → Files} {P : α → Prop} {Q : β → Prop} {s : State}

theorem gives_pure {a : α} (h : P a) : Gives P (pure a : Act α) := fun _ => ⟨h, Nat.le_refl _⟩

theorem gives_bind {m : Act α} {f : α → Act β} (hm : Gives P m) (hf : ∀ a, P a → Gives Q (f a)) : Gives Q (m >>= f) := by
  intro s
  refine wp_seq (hm s) fun a s' ha => ?_
  refine wp_mono (hf a ha.1 s') ?_ fun _ _ h => h
  intro b s'' hb
  exact ⟨hb.1, Nat.le_trans ha.2 hb.2⟩

theorem gives_ask (question : Outside → Nat → α) (h : ∀ t, P (question (Outside.calm files calmRun) t)) :
    Gives P (ask (calmSite kdf files) question) := fun s => ⟨h s.tick, Nat.le_succ s.tick⟩

theorem gives_demand {question : Outside → Nat → Except String α}
    (h : ∀ t, ∃ a, question (Outside.calm files calmRun) t = .ok a ∧ P a) : Gives P (demand (calmSite kdf files) question) := by
  refine gives_bind (gives_ask (P := fun r => ∃ a, r = .ok a ∧ P a) question h) fun r hr => ?_
  obtain ⟨a, rfl, ha⟩ := hr
  exact gives_pure ha

theorem gives_checkCancel : Gives (fun _ => True) (checkCancel (calmSite kdf files)) := by
  refine gives_bind (gives_ask (P := (· = false)) _ fun _ => rfl) fun c hc => ?_
  rw [hc]
  exact gives_pure trivial

theorem gives_check {found : Option Problem} (h : found = none) : Gives (fun _ => True) (check found) := by
  rw [h]
  exact gives_pure trivial

theorem gives_randomToken (bytes : Nat) : Gives (fun _ => True) (randomToken (calmSite kdf files) bytes) := by
  refine gives_bind (gives_ask (P := fun r => ∃ raw, r = some raw) _ fun _ => ⟨_, rfl⟩) fun r hr => ?_
  obtain ⟨raw, rfl⟩ := hr
  exact gives_pure trivial

theorem gives_connectChecked {c : Connection} (hc : ∀ t, validateConnection (files t) c = none) :
    Gives (fun _ => True) (connectChecked (calmSite kdf files) c) := by
  refine gives_bind (gives_ask (P := fun fs => validateConnection fs c = none) _ hc) fun fs hfs => ?_
  refine gives_bind (gives_check hfs) fun _ _ => ?_
  refine gives_bind (gives_ask (P := (· = none)) _ fun _ => rfl) fun r hr => ?_
  rw [hr]
  exact gives_pure trivial

/-- What a command can answer. -/
structure Calm (command : String) (r : SshResult) : Prop where
  success : r.success = true
  out : ∃ t, r.out = calmOutput t command
  err : r.err = "omt-web listening on"

theorem gives_run (command : String) (input : Bytes) : Gives (Calm command) (run (calmSite kdf files) command input) := by
  refine gives_bind (P := fun _ => True) (fun _ => ⟨trivial, Nat.le_refl _⟩) fun _ _ => ?_
  exact gives_demand fun t => ⟨_, rfl, rfl, ⟨t, rfl⟩, rfl⟩

/-- The answer of a command is told by when it was sent. -/
theorem run_at {command : String} {input : Bytes} :
    wp (run (calmSite kdf files) command input)
      (fun r s' => r.success = true ∧ r.out = calmOutput s.tick command ∧ s'.tick = s.tick + 1) (fun _ _ => False) s :=
  ⟨rfl, rfl, rfl⟩

theorem gives_requireSuccess {command : String} {r : SshResult} (h : Calm command r) (operation : String) :
    Gives (fun _ => True) (requireSuccess r operation) := by
  rw [requireSuccess, if_pos h.success]
  exact gives_pure trivial

theorem gives_runRequired (command : String) (input : Bytes) (what : String) :
    Gives (fun _ => True) (runRequired (calmSite kdf files) command input what) :=
  gives_bind (gives_run command input) fun _ hr => gives_requireSuccess hr what

theorem gives_probePlatform : Gives (fun _ => True) (probePlatform (calmSite kdf files)) := by
  refine gives_bind (gives_run _ _) fun r hr => gives_bind (gives_requireSuccess hr _) fun _ _ => ?_
  obtain ⟨t, ht⟩ := hr.out
  have hout : calmOutput t platformProbe = supportedBoard := by
    unfold calmOutput
    exact if_pos rfl
  have hfine : nthLine supportedBoard 0 = some "aarch64" ∧ nthLine supportedBoard 1 = some "alpine" ∧
      ((nthLine supportedBoard 2).any fun r => "3.24.".toList.isPrefixOf r.toList) ∧
      ((nthLine supportedBoard 3).any isSupportedBoard) := by decide +kernel
  rw [ht, hout, requireSupportedAppliance, if_pos hfine]
  exact gives_pure trivial

theorem gives_ensureHostBootstrapped (c : Connection) (root : Option String) :
    Gives (fun _ => True) (ensureHostBootstrapped (calmSite kdf files) c root) := by
  refine gives_bind (gives_run _ _) fun r hr => gives_bind (gives_requireSuccess hr _) fun _ _ => ?_
  obtain ⟨t, ht⟩ := hr.out
  have hne : toolingProbe ≠ platformProbe := by decide +kernel
  have hout : calmOutput t toolingProbe = "0\nyes\nyes\nno" := by
    unfold calmOutput
    rw [if_neg hne, if_pos rfl]
  have htools : ((parseHostTooling "0\nyes\nyes\nno").hasBash && (parseHostTooling "0\nyes\nyes\nno").hasSudo) = true := by
    decide +kernel
  rw [ht, hout, if_pos htools]
  exact gives_pure trivial

/-! ## Boots -/

theorem trim_bootAt (t : Nat) : trim (bootAt t) = bootAt t := by
  have hdrop : (List.replicate (t + 1) 'x').dropWhile Receiver.isWhitespace = List.replicate (t + 1) 'x' :=
    List.dropWhile_cons_of_neg (by decide)
  rw [trim, bootAt, String.toList_ofList, Receiver.trim, hdrop, List.reverse_replicate, hdrop, List.reverse_replicate]

theorem bootAt_injective {t u : Nat} (h : bootAt t = bootAt u) : t = u := by
  have hlist := congrArg (·.toList.length) h
  simp only [bootAt, String.toList_ofList, List.length_replicate] at hlist
  exact Nat.succ_injective hlist

theorem bootAt_ne_empty (t : Nat) : bootAt t ≠ "" := by
  intro h
  have hlist := congrArg (·.toList.length) h
  simp only [bootAt, String.toList_ofList, List.length_replicate] at hlist
  exact Nat.succ_ne_zero t hlist

section

-- Here a run is taken apart by its rules only, never by computing it.
seal wp

/-- A boot is told by when it was asked for. -/
theorem readBootId_at : wp (readBootId (calmSite kdf files)) (fun id s' => id = bootAt s.tick ∧ s'.tick = s.tick + 1)
    (fun _ _ => False) s := by
  have hnot : bootIdCommand ≠ platformProbe ∧ bootIdCommand ≠ toolingProbe := by decide +kernel
  have hout : calmOutput s.tick bootIdCommand = bootAt s.tick := by
    unfold calmOutput
    rw [if_neg hnot.1, if_neg hnot.2, if_pos rfl]
  have hempty : (trim (bootAt s.tick) == "") = false := by
    rw [trim_bootAt]
    exact beq_false_of_ne (bootAt_ne_empty _)
  rw [readBootId]
  refine wp_seq run_at fun r s₁ h₁ => ?_
  rw [requireSuccess, if_pos h₁.1, h₁.2.1, hout, hempty, trim_bootAt]
  rw [failIf, if_neg (by decide), wp_bind, wp_pure, wp_bind, wp_pure, wp_pure]
  exact ⟨rfl, h₁.2.2⟩

/-- The wait for another boot than an earlier one ends at once. -/
theorem waitForReboot_returns {c : Connection} (hc : ∀ t, validateConnection (files t) c = none) {t timeoutMs : Nat}
    (ht : t < s.tick) (htime : 0 < timeoutMs) :
    wp (waitForReboot (calmSite kdf files) [c] (bootAt t) timeoutMs) (fun _ s' => s.tick ≤ s'.tick) (fun _ _ => False) s := by
  have hask : Gives (· = 0) (ask (calmSite kdf files) Outside.nowMs) := gives_ask _ fun _ => rfl
  rw [waitForReboot]
  refine wp_seq (hask s) fun start s₁ h₁ => ?_
  rw [show (calmSite kdf files).patience = 1 from rfl, rebootTurns, List.map_cons, List.map_nil]
  refine wp_seq (hask s₁) fun now s₂ h₂ => ?_
  rw [h₁.1, h₂.1, if_pos (by rwa [Nat.zero_add])]
  refine wp_seq (gives_checkCancel s₂) fun _ s₃ h₃ => ?_
  have hle : s.tick ≤ s₃.tick := Nat.le_trans h₁.2 (Nat.le_trans h₂.2 h₃.2)
  have hlook : wp (lookAround (calmSite kdf files) (bootAt t) [(c, false)]) (fun o s' => o = none ∧ s.tick ≤ s'.tick)
      (fun _ _ => False) s₃ := by
    rw [lookAround, wp_bind, wp_attempt]
    refine wp_mono (gives_connectChecked hc s₃) (fun _ s₄ h₄ => ?_) fun _ _ h => h.elim
    dsimp only
    rw [wp_bind, wp_attempt]
    refine wp_mono readBootId_at (fun id s₅ h₅ => ?_) fun _ _ h => h.elim
    have hle₄ : s.tick ≤ s₄.tick := Nat.le_trans hle h₄.2
    have hne : id ≠ bootAt t := by
      rw [h₅.1]
      exact fun heq => absurd (bootAt_injective heq) (Nat.ne_of_gt (Nat.lt_of_lt_of_le ht hle₄))
    dsimp only
    rw [if_pos hne, wp_pure, h₅.2]
    exact ⟨rfl, Nat.le_succ_of_le hle₄⟩
  refine wp_seq hlook fun o s₄ h₄ => ?_
  rw [h₄.1]
  exact wp_pure.mpr h₄.2

theorem gives_fetchInitialWebPassword (c : Connection) :
    Gives (fun _ => True) (fetchInitialWebPassword (calmSite kdf files) c) := by
  refine gives_bind (P := fun _ => True) (gives_ask _ fun _ => trivial) fun start _ => ?_
  rw [show (calmSite kdf files).patience = 1 from rfl, loop]
  refine gives_bind (P := fun o => ∃ answer, o = some answer) ?_ fun o ho => ?_
  · refine gives_bind gives_checkCancel fun _ _ => gives_bind (gives_run _ _) fun r hr => ?_
    have hlistening : contains r.combined "omt-web listening on" = true := by
      rw [contains, SshResult.combined, hr.err, if_neg (by decide)]
      split
      · rw [String.toList_append]
        exact findSub_suffix _ _
      · rw [String.toList_append]
        exact findSub_suffix _ _
    rw [if_neg (by rw [hr.success]; decide)]
    split
    · exact gives_pure ⟨_, rfl⟩
    · rw [if_pos hlistening]
      exact gives_pure ⟨_, rfl⟩
  · obtain ⟨answer, rfl⟩ := ho
    exact gives_pure trivial

/-! ## A deployment -/

theorem gives_stageAndPromote (st : Staging) : Gives (fun _ => True) (stageAndPromote (calmSite kdf files) st []) :=
  gives_bind (P := fun _ => True) (gives_pure trivial) fun _ _ => gives_runRequired _ _ _

theorem gives_stageDeployment (c : Connection) (o : DeployOptions) :
    Gives (fun _ => True) (stageDeployment (calmSite kdf files) c o []) := by
  refine gives_bind (gives_runRequired _ _ _) fun _ _ => gives_bind (gives_randomToken _) fun token _ => ?_
  refine gives_bind (gives_runRequired _ _ _) fun _ _ => gives_bind (gives_runRequired _ _ _) fun _ _ => ?_
  intro s
  rw [wp_bind, wp_attempt]
  exact wp_mono (gives_stageAndPromote _ s) (fun _ _ h => wp_pure.mpr h) fun _ _ h => h.elim

theorem gives_installDeployment {c : Connection} (hc : ∀ t, validateConnection (files t) c = none) (o : DeployOptions) :
    wp (installDeployment (calmSite kdf files) c o) (fun _ _ => True) (fun _ _ => False) s := by
  rw [installDeployment]
  refine wp_seq (gives_run _ _ s) fun r s₁ h₁ => ?_
  refine wp_seq (gives_requireSuccess h₁.1 _ s₁) fun _ s₂ _ => ?_
  have hpassword : Gives (fun _ => True) (passwordBeforeReboot (calmSite kdf files) c r) := by
    rw [passwordBeforeReboot]
    split
    · exact gives_pure trivial
    · exact gives_fetchInitialWebPassword c
  refine wp_seq (hpassword s₂) fun password s₃ _ => ?_
  refine wp_seq readBootId_at fun id s₄ h₄ => ?_
  have hreboot : Gives (fun _ => True) (rebootHost (calmSite kdf files) c (sudoInput c) "Post-install reboot") :=
    gives_bind (gives_run _ _) fun _ hr => gives_requireSuccess hr _
  refine wp_seq (hreboot s₄) fun _ s₅ h₅ => ?_
  rw [h₄.1]
  have hlater : s₃.tick < s₅.tick := Nat.lt_of_lt_of_le (by rw [h₄.2]; exact Nat.lt_succ_self _) h₅.2
  refine wp_seq (waitForReboot_returns hc hlater (by decide)) fun _ s₆ _ => ?_
  rw [wp_bind, wp_attempt]
  -- whether or not the container runs, the deployment goes on
  refine wp_mono (wp_true _) (fun _ s₇ _ => ?_) fun _ s₇ _ => wp_pure.mpr trivial
  dsimp only
  rw [wp_ite]
  refine ⟨fun _ => ?_, fun _ => wp_pure.mpr trivial⟩
  exact wp_seq (gives_fetchInitialWebPassword c s₇) fun _ _ _ => wp_pure.mpr trivial

/-- A deployment whose rules hold returns. -/
theorem gives_deploy {c : Connection} (hc : ∀ t, validateConnection (files t) c = none) {o : DeployOptions}
    (ho : ∀ t, validateOptions (files t) o = none) (hroot : o.projectRoot = none) (hrebuild : o.rebuildImage = false) :
    wp (deploy (calmSite kdf files) c o) (fun _ _ => True) (fun _ _ => False) s := by
  have hvalid : ∀ t, (validateConnection (files t) c).or (validateOptions (files t) o) = none := fun t => by
    rw [hc t, ho t]
    rfl
  rw [deploy]
  refine wp_seq (gives_ask (P := fun fs => (validateConnection fs c).or (validateOptions fs o) = none) _ hvalid s)
    fun fs s₁ h₁ => ?_
  refine wp_seq (gives_check h₁.1 s₁) fun _ s₂ _ => wp_seq (gives_checkCancel s₂) fun _ s₃ _ => ?_
  rw [buildImage, if_pos hrebuild]
  refine wp_seq (gives_pure (P := fun _ => True) trivial s₃) fun _ s₄ _ => wp_seq (gives_checkCancel s₄) fun _ s₅ _ => ?_
  rw [capsuleArtifacts, hroot]
  refine wp_seq (gives_pure (P := (· = [])) rfl s₅) fun arts s₆ h₆ => ?_
  refine wp_seq (gives_connectChecked hc s₆) fun _ s₇ _ => wp_seq (gives_probePlatform s₇) fun _ s₈ _ => ?_
  refine wp_seq (gives_ensureHostBootstrapped c none s₈) fun _ s₉ _ => ?_
  rw [h₆.1]
  exact wp_seq (gives_stageDeployment c o s₉) fun _ _ _ => gives_installDeployment hc o

end

/-! ## A card -/

theorem checkedTarget_of_missing (hlater : ∀ t, 0 < t → (files t).lstat = fun _ => .missing) (hs : 0 < s.tick)
    (directory name : String) :
    wp (checkedTarget (calmSite kdf files) directory name) (fun _ s' => 0 < s'.tick) (fun _ _ => False) s := by
  have hask : wp (ask (calmSite kdf files) Outside.files) (fun fs s' => fs = files s.tick ∧ 0 < s'.tick) (fun _ _ => False) s :=
    ⟨rfl, Nat.succ_pos _⟩
  rw [checkedTarget]
  refine wp_seq hask fun fs s₁ h₁ => ?_
  rw [h₁.1, hlater _ hs]
  exact h₁.2

/-- On a card that is as it should be, where nothing is written yet, the preparation gets to
the key. -/
theorem sd_derives {settings : SdSettings} {p : Problem} {Q : Unit → State → Prop} {E : Failure → State → Prop}
    (hvalid : validateSdSettings (files 0) settings = none)
    (hlater : ∀ t, 0 < t → (files t).lstat = fun _ => .missing)
    (hkey : wpaSupplicantConfig kdf settings = .error p)
    (h : wp (prepareSdCard (calmSite kdf files) settings) Q E .init) : ∃ s, E (.problem p) s := by
  have hask : wp (ask (calmSite kdf files) Outside.files) (fun fs s' => fs = files 0 ∧ 0 < s'.tick) (fun _ _ => False) .init :=
    ⟨rfl, Nat.succ_pos _⟩
  obtain ⟨fs, s₁, ⟨rfl, h₁⟩, h⟩ := wp_bind_elim h hask
  obtain ⟨_, s₂, ⟨_, h₂⟩, h⟩ := wp_bind_elim h (gives_check hvalid s₁)
  obtain ⟨c, s₃, ⟨rfl, h₃⟩, h⟩ := wp_bind_elim h (gives_ask (P := (· = false)) Outside.cancelled (fun _ => rfl) s₂)
  obtain ⟨_, s₄, ⟨_, h₄⟩, h⟩ := wp_bind_elim h (gives_pure (P := fun _ => True) trivial s₃)
  have hpos : 0 < s₄.tick := Nat.lt_of_lt_of_le h₁ (Nat.le_trans h₂ (Nat.le_trans h₃ h₄))
  obtain ⟨_, s₅, h₅, h⟩ := wp_bind_elim h (checkedTarget_of_missing hlater hpos _ _)
  obtain ⟨_, s₆, h₆, h⟩ := wp_bind_elim h (checkedTarget_of_missing hlater h₅ _ _)
  obtain ⟨_, s₇, _, h⟩ := wp_bind_elim h (gives_demand (P := fun _ => True) (fun _ => ⟨_, rfl, trivial⟩) s₆)
  obtain ⟨c, s₈, ⟨rfl, _⟩, h⟩ := wp_bind_elim h (gives_ask (P := (· = false)) Outside.cancelled (fun _ => rfl) s₇)
  obtain ⟨_, s₉, _, h⟩ := wp_bind_elim h (gives_pure (P := fun _ => True) trivial s₈)
  rw [show (calmSite kdf files).kdf = kdf from rfl, hkey] at h
  exact ⟨_, h⟩

end CalmLemmas

end OmtClient.Deploy
