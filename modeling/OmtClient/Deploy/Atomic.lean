import Mathlib.Logic.Relation
import OmtClient.Deploy.Transaction

/-!
# A deployment is whole

What `promote` and `recover` of `deploy/transaction.sh` leave when the machine or a signal stops them anywhere: in a
deployment, and in the recoveries after it. The members of the manifest are outside of the reserved directories and no
transaction is open at first; nothing else is asked of the manifest or the files. A command fails only where the tree
makes it fail.

1. `recover_idle`, `recover_half`: a recovery ends well, and with the files as they were before the transaction.
2. `promote_whole`: what a promotion leaves when it returns, when it is refused and when a signal comes.
3. `promote_crash_atomic`: after a stopped promotion and stopped recoveries, one whole recovery leaves every member as
   it was or every member as it is to be.
4. `deployment_atomic`: the same after any history of deployments.
-/

namespace OmtClient.Deploy.Transaction

open OmtClient.Lib Prog

/-- What is below the deployment directory, directories aside. -/
abbrev View := List Bytes → Option (Node Bytes)

def Disk.files (d : Disk) : View := d.live.leaf

/-- No transaction is open: a journal that is prepared is not ready. -/
def Disk.Idle (d : Disk) : Prop := ∀ token j, d.journal (token, .prepared) = some j → j.ready = false

/-- The members that a manifest names. -/
def membersOf (manifest : Option Bytes) : List Bytes :=
  manifest.elim [] fun file => (loadManifest file).toOption.getD []

/-- The members that the manifest of the stage names. -/
def Disk.members (d : Disk) : List Bytes := membersOf (stagedManifest d)

/-- The members of the stage are outside of the reserved directories. -/
def Disk.Outside (d : Disk) : Prop := ∀ n ∈ d.members, outside n = true

/-- The files with the staged ones in their places. -/
def Disk.deployed (d : Disk) : View := fun p =>
  if p ∈ d.members.map components then d.staged.bind fun t => t.leaf p else d.files p

/-- A tree with the old files, and with what was in the places of the members. -/
structure Disk.Kept (d : Disk) (t : Files) : Prop where
  files : t.leaf = d.files
  places : ∀ n ∈ d.members, t.lookup (components n) = d.live.lookup (components n)

/-- A tree with the new files, and with what was staged in the places of the members. -/
structure Disk.Brought (d : Disk) (t : Files) : Prop where
  files : t.leaf = d.deployed
  places : ∀ n ∈ d.members, t.lookup (components n) = d.staged.bind fun u => u.lookup (components n)

/-! ## Histories -/

/-- A run of `recover`, however it ends. -/
def Recovers (d d' : Disk) : Prop :=
  ∃ order names left signal, ((recoverPending order).run ⟨d, names, left, signal⟩).2.disk = d'

/-- A run of `recover` that ends well. -/
def Recovered (d d' : Disk) : Prop :=
  ∃ order names left signal s,
    (recoverPending order).run ⟨d, names, left, signal⟩ = (.ok (), s) ∧ s.disk = d'

/-- A run of `promote` with members outside of the reserved directories, however it ends. -/
def Promotes (d d' : Disk) : Prop :=
  d.Outside ∧ ∃ order token names left signal,
    ((promote order token).run ⟨d, names, left, signal⟩).2.disk = d'

/-- What can have happened to a deployment directory, with the files before its last deployment and those that it was
to bring. `deploy` of the client begins with a recovery, and goes on only if that ends well. -/
inductive History : Disk → View → View → Prop
  | idle {d : Disk} (h : d.Idle) : History d d.files d.files
  | recover {d d' : Disk} {old new : View} (h : History d old new) (hrun : Recovers d d') :
    History d' old new
  | stage {d : Disk} {old new : View} (h : History d old new) (staged : Option Files) :
    History { d with staged } old new
  | deploy {d d₁ d' : Disk} {old new : View} (h : History d old new)
      (hrecovered : Recovered d d₁) (staged : Option Files)
      (hrun : Promotes { d₁ with staged } d') :
    History d' d₁.files ({ d₁ with staged } : Disk).deployed

namespace AtomicLemmas

/-! ## Runs that may be stopped -/

section

variable {α β : Type} {m : Act α} {f : α → Act β} {d d' : Disk} {names : List Bytes} {E : Stop → Disk → Prop}
  {Q : α → Disk → List Bytes → Prop} {R : β → Disk → List Bytes → Prop}

/-- From here the program returns or ends early as is said, however many steps are left. Nothing stops it when nothing
stops the script. -/
def Does (m : Act α) (d : Disk) (names : List Bytes) (Q : α → Disk → List Bytes → Prop) (E : Stop → Disk → Prop) : Prop :=
  ∀ left signal, wp m (fun a s => Q a s.disk s.names ∧ (left = none → s.left = none))
    (fun e s => E e s.disk ∧ (left = none → e ≠ .crash ∧ e ≠ .interrupted)) ⟨d, names, left, signal⟩

theorem Does.mono {Q' : α → Disk → List Bytes → Prop} {E' : Stop → Disk → Prop} (h : Does m d names Q E)
    (hQ : ∀ a d' ns, Q a d' ns → Q' a d' ns) (hE : ∀ e d', E e d' → E' e d') : Does m d names Q' E' := by
  intro left signal
  refine wp_mono (h left signal) ?_ ?_
  · exact fun a s hs => ⟨hQ _ _ _ hs.1, hs.2⟩
  · exact fun e s hs => ⟨hE _ _ hs.1, hs.2⟩

theorem does_pure {a : α} (h : Q a d names) : Does (pure a) d names Q E := fun _ _ => ⟨h, id⟩

theorem does_raise {e : Stop} (h : E e d) (hcrash : e ≠ .crash) (hsignal : e ≠ .interrupted) : Does (raise e) d names Q E :=
  fun _ _ => ⟨h, fun _ => ⟨hcrash, hsignal⟩⟩

theorem does_bind (hm : Does m d names Q E) (hf : ∀ a d' ns, Q a d' ns → Does (f a) d' ns R E) :
    Does (m >>= f) d names R E := by
  intro left signal
  refine wp_seq (hm left signal) ?_
  rintro a ⟨d', ns, left', signal'⟩ ⟨hq, hleft⟩
  refine wp_mono (hf a d' ns hq left' signal') ?_ ?_
  · exact fun b s hs => ⟨hs.1, fun h => hs.2 (hleft h)⟩
  · exact fun e s hs => ⟨hs.1, fun h => hs.2 (hleft h)⟩

theorem does_get {f : Shell → Act β} (h : ∀ s : Shell, s.disk = d → s.names = names → Does (f s) d names R E) :
    Does (get >>= f) d names R E := fun left signal => h ⟨d, names, left, signal⟩ rfl rfl left signal

theorem does_command {strict : Bool} {g : Disk → Option Disk} {Q : Unit → Disk → List Bytes → Prop} {c : Disk} (hg : g d = some c)
    (hE : ∀ e, e = .crash ∨ e = .interrupted → E e d) (hQ : Q () c names) : Does (command strict g) d names Q E := by
  intro left signal
  simp only [command, wp_bind, wp_get, wp_ite, hg]
  refine ⟨fun hstop => ?_, fun _ => ⟨hQ, fun hleft => by rw [hleft]; rfl⟩⟩
  cases signal with
  | none => exact ⟨hE _ (.inl rfl), fun hleft => by rw [hleft] at hstop; cases hstop⟩
  | some left' => exact ⟨hE _ (.inr rfl), fun hleft => by rw [hleft] at hstop; cases hstop⟩

/-- What one turn hands on to the next one. -/
theorem does_forEach {γ : Type} {body : γ → Act Unit} (J : List γ → Disk → List Bytes → Prop)
    (hbody : ∀ x xs d ns, J (x :: xs) d ns → Does (body x) d ns (fun _ => J xs) E) {l : List γ} (h : J l d names) :
    Does (forEach body l) d names (fun _ => J []) E := by
  induction l generalizing d names with
  | nil => exact does_pure h
  | cons x xs ih => exact does_bind (hbody x xs d names h) fun _ _ _ hnext => ih hnext

theorem does_loadNames {file : Bytes} {ns : List Bytes} {Q : Unit → Disk → List Bytes → Prop}
    (h : loadManifest file = .ok ns) (hout : ns.all outside = true) (hQ : Q () d ns) :
    Does (loadNames (some file)) d names Q E := by
  rw [loadNames, h]
  dsimp only
  rw [if_pos hout]
  exact fun _ _ => ⟨hQ, id⟩

end

/-! ## Journals -/

section

variable {d d' d'' : Disk} {key k : Bytes × Kind} {j : Journal} {names : List Bytes} {E : Stop → Disk → Prop}
  {order : Option (Bytes × Kind) → List Remains}

theorem there_of_journal (h : d.journal key = some j) : d.journals.isSome = true := by
  obtain ⟨js, hjs, -⟩ := Option.bind_eq_some_iff.mp h
  rw [hjs]
  rfl

theorem journal_setJournal (h : d.journals.isSome = true) :
    (d.setJournal key j).journal k = if k = key then some j else d.journal k := by
  obtain ⟨js, hjs⟩ := Option.isSome_iff_exists.mp h
  rw [Disk.setJournal, Disk.journal, Disk.journal, hjs]
  split
  next heq =>
    rw [heq]
    exact AList.lookup_insert _
  next hne => exact AList.lookup_insert_ne hne

theorem journal_dropJournal : (d.dropJournal key).journal k = if k = key then none else d.journal k := by
  rw [Disk.dropJournal, Disk.journal, Disk.journal]
  cases d.journals with
  | none => exact (ite_self _).symm
  | some js =>
    split
    next heq =>
      rw [heq]
      exact AList.lookup_erase _ _
    next hne => exact AList.lookup_erase_ne hne

theorem updateJournal_some {f : Journal → Option Journal} {k : Journal} (h : d.journal key = some j) (hf : f j = some k) :
    d.updateJournal key f = some (d.setJournal key k) := by
  rw [Disk.updateJournal, h, Option.bind_eq_bind, Option.bind_some, hf]
  rfl

/-- Only one journal is another, and not ready unless it was. -/
structure Beside (key : Bytes × Kind) (d d' : Disk) : Prop where
  live : d'.live = d.live
  staged : d'.staged = d.staged
  there : d'.journals.isSome = d.journals.isSome
  others : ∀ k, k ≠ key → d'.journal k = d.journal k
  unready : ∀ j', d'.journal key = some j' → ∃ j, d.journal key = some j ∧ (j.ready = false → j'.ready = false)

theorem Beside.refl (key : Bytes × Kind) (d : Disk) : Beside key d d := ⟨rfl, rfl, rfl, fun _ _ => rfl, fun j' h => ⟨j', h, id⟩⟩

theorem Beside.trans (h : Beside key d d') (h' : Beside key d' d'') : Beside key d d'' where
  live := h'.live.trans h.live
  staged := h'.staged.trans h.staged
  there := h'.there.trans h.there
  others k hk := (h'.others k hk).trans (h.others k hk)
  unready j'' hj'' := by
    obtain ⟨j', hj', hready'⟩ := h'.unready j'' hj''
    obtain ⟨j, hj, hready⟩ := h.unready j' hj'
    exact ⟨j, hj, fun hno => hready' (hready hno)⟩

theorem Beside.idle (h : Beside key d d') (hidle : d.Idle) : d'.Idle := by
  intro token j' hj'
  by_cases heq : (token, Kind.prepared) = key
  · subst heq
    obtain ⟨j, hj, hready⟩ := h.unready j' hj'
    exact hready (hidle token j hj)
  · rw [h.others _ heq] at hj'
    exact hidle token j' hj'

theorem beside_remains (h : d.journal key = some j) (r : Remains) : Beside key d (d.setJournal key (r.journal j)) where
  live := rfl
  staged := rfl
  there := Option.isSome_map
  others k hk := by rw [journal_setJournal (there_of_journal h), if_neg hk]
  unready j' hj' := by
    rw [journal_setJournal (there_of_journal h), if_pos rfl] at hj'
    cases hj'
    exact ⟨j, h, fun hno => by rw [Remains.journal, hno]; rfl⟩

theorem beside_dropJournal : Beside key d (d.dropJournal key) where
  live := rfl
  staged := rfl
  there := Option.isSome_map
  others k hk := by rw [journal_dropJournal, if_neg hk]
  unready j' hj' := by
    rw [journal_dropJournal, if_pos rfl] at hj'
    cases hj'

/-- A journal is removed, and nothing else. -/
theorem removeJournal_does (h : (d.journal key).isSome = true)
    (hE : ∀ d' e, Beside key d d' → e = .crash ∨ e = .interrupted → E e d') :
    Does (removeJournal order key) d names (fun _ d' ns => ns = names ∧ Beside key d d' ∧ d'.journal key = none) E := by
  rw [removeJournal]
  refine does_bind (does_forEach (fun _ d' ns => ns = names ∧ Beside key d d' ∧ (d'.journal key).isSome = true) ?_
    ⟨rfl, .refl key d, h⟩) ?_
  · rintro r rs d' ns ⟨rfl, hbeside, hthere⟩
    obtain ⟨j, hj⟩ := Option.isSome_iff_exists.mp hthere
    refine does_command (updateJournal_some hj rfl) (fun e => hE d' e hbeside) ⟨rfl, hbeside.trans (beside_remains hj r), ?_⟩
    rw [journal_setJournal (there_of_journal hj), if_pos rfl]
    rfl
  · rintro - d' ns ⟨rfl, hbeside, -⟩
    refine does_command rfl (fun e => hE d' e hbeside) ⟨rfl, hbeside.trans beside_dropJournal, ?_⟩
    rw [journal_dropJournal, if_pos rfl]

/-! ## Recovery when no transaction is open -/

theorem mem_glob {kind : Kind} {token : Bytes} : token ∈ d.glob kind ↔ (d.journal (token, kind)).isSome = true := by
  rw [Disk.glob, List.mem_insertionSort, List.mem_map]
  have hkeys : (token, kind) ∈ d.journals.elim [] AList.keys ↔ (d.journal (token, kind)).isSome = true := by
    rw [Disk.journal]
    cases d.journals with
    | none => exact ⟨fun h => (by cases h), fun h => (by cases h)⟩
    | some js => exact AList.lookup_isSome.symm
  rw [← hkeys]
  constructor
  · rintro ⟨⟨token', kind'⟩, hin, rfl⟩
    rw [List.mem_filter, beq_iff_eq] at hin
    obtain ⟨hin, rfl⟩ := hin
    exact hin
  · exact fun hin => ⟨(token, kind), List.mem_filter.mpr ⟨hin, beq_iff_eq.mpr rfl⟩, rfl⟩

/-- The files are the same, and no transaction is open. -/
structure Calm (d d' : Disk) : Prop where
  live : d'.live = d.live
  staged : d'.staged = d.staged
  idle : d'.Idle

theorem Calm.beside (h : Calm d d') (h' : Beside key d' d'') : Calm d d'' :=
  ⟨h'.live.trans h.live, h'.staged.trans h.staged, h'.idle h.idle⟩

theorem dropRoot_some (h : d.journals.isSome = true) (hnone : ∀ k, d.journal k = none) : d.dropRoot = some { d with journals := none } := by
  obtain ⟨js, hjs⟩ := Option.isSome_iff_exists.mp h
  have hempty : js.keys = [] := by
    rw [List.eq_nil_iff_forall_not_mem]
    intro k hk
    have hgone := hnone k
    rw [Disk.journal, hjs] at hgone
    exact Option.ne_none_iff_isSome.mpr (AList.lookup_isSome.mpr hk) hgone
  rw [Disk.dropRoot, hjs, Option.any_some, hempty, List.isEmpty_nil, if_pos rfl]

/-- Completed journals are removed. -/
theorem sweep_does (hthere : d.journals.isSome = true) (hnone : ∀ token, d.journal (token, .prepared) = none)
    (hE : ∀ d' e, Calm d d' → e = .crash ∨ e = .interrupted → E e d') :
    Does (sweep order) d names (fun _ d' ns => ns = names ∧ Calm d d' ∧ d'.journals = none) E := by
  have hidle : ∀ {d' : Disk}, (∀ token, d'.journal (token, .prepared) = none) → d'.Idle := by
    intro d' hno token j hj
    rw [hno token] at hj
    cases hj
  rw [sweep]
  refine does_get fun s hs _ => ?_
  refine does_bind (does_forEach (fun l d' ns => ns = names ∧ Calm d d' ∧ d'.journals.isSome = true ∧
    (∀ token, d'.journal (token, .prepared) = none) ∧ ∀ k, (d'.journal k).isSome = true → k ∈ l) ?_
    ⟨rfl, ⟨rfl, rfl, hidle hnone⟩, hthere, hnone, ?_⟩) ?_
  · rintro key l d' ns ⟨rfl, hcalm, hthere', hnone', hleft⟩
    rw [sweepJournal]
    refine does_get fun s hs _ => ?_
    rw [hs]
    cases hj : d'.journal key with
    | none =>
      refine does_pure ⟨rfl, hcalm, hthere', hnone', fun k hk => ?_⟩
      rcases List.mem_cons.mp (hleft k hk) with rfl | hin
      · rw [hj] at hk
        cases hk
      · exact hin
    | some j =>
      refine (removeJournal_does (by rw [hj]; rfl) fun d'' e hbeside => hE d'' e (hcalm.beside hbeside)).mono ?_ fun _ _ h => h
      rintro - d'' ns ⟨rfl, hbeside, hgone⟩
      refine ⟨rfl, hcalm.beside hbeside, hbeside.there.trans hthere', fun token => ?_, fun k hk => ?_⟩
      · by_cases heq : (token, Kind.prepared) = key
        · rw [heq, hgone]
        · rw [hbeside.others _ heq, hnone' token]
      · by_cases heq : k = key
        · rw [heq, hgone] at hk
          cases hk
        · rw [hbeside.others _ heq] at hk
          exact (List.mem_cons.mp (hleft k hk)).resolve_left heq
  · rintro ⟨token, kind⟩ hk
    rw [hs, List.mem_append, List.mem_map, List.mem_map]
    cases kind with
    | prepared =>
      rw [hnone token] at hk
      cases hk
    | committed => exact .inl ⟨token, mem_glob.mpr hk, rfl⟩
    | rolledBack => exact .inr ⟨token, mem_glob.mpr hk, rfl⟩
  · rintro - d' ns ⟨rfl, hcalm, hthere', hnone', hleft⟩
    have hempty : ∀ k, d'.journal k = none := fun k => by
      cases hk : d'.journal k with
      | none => rfl
      | some j => exact absurd (hleft k (by rw [hk]; rfl)) List.not_mem_nil
    exact does_command (dropRoot_some hthere' hempty) (fun e => hE d' e hcalm)
      ⟨rfl, ⟨hcalm.live, hcalm.staged, fun token j hj => (by cases hj)⟩, rfl⟩

/-- A recovery ends well and changes no file when no transaction is open. -/
theorem recover_idle (hidle : d.Idle) (hE : ∀ d' e, Calm d d' → e = .crash ∨ e = .interrupted → E e d') :
    Does (recoverPending order) d names (fun _ d' ns => ns = names ∧ Calm d d' ∧ d'.journals = none) E := by
  rw [recoverPending]
  refine does_get fun s hs _ => ?_
  rw [hs]
  split
  next hnone => exact does_pure ⟨rfl, ⟨rfl, rfl, hidle⟩, Option.isNone_iff_eq_none.mp hnone⟩
  next hthere =>
  refine does_bind (does_forEach (fun l d' ns => ns = names ∧ Calm d d' ∧ d'.journals.isSome = true ∧
    ∀ token, (d'.journal (token, .prepared)).isSome = true → token ∈ l) ?_
    ⟨rfl, ⟨rfl, rfl, hidle⟩, Option.isSome_iff_ne_none.mpr (mt Option.isNone_iff_eq_none.mpr hthere), fun token htoken => mem_glob.mpr htoken⟩) ?_
  · rintro token l d' ns ⟨rfl, hcalm, hthere', hleft⟩
    rw [recoverJournal]
    refine does_get fun s hs _ => ?_
    rw [hs]
    cases hj : d'.journal (token, .prepared) with
    | none =>
      refine does_pure ⟨rfl, hcalm, hthere', fun token' hk => ?_⟩
      rcases List.mem_cons.mp (hleft token' hk) with rfl | hin
      · rw [hj] at hk
        cases hk
      · exact hin
    | some j =>
      dsimp only
      rw [if_pos (hcalm.idle token j hj)]
      refine (removeJournal_does (by rw [hj]; rfl) fun d'' e hbeside => hE d'' e (hcalm.beside hbeside)).mono ?_ fun _ _ h => h
      rintro - d'' ns ⟨rfl, hbeside, hgone⟩
      refine ⟨rfl, hcalm.beside hbeside, hbeside.there.trans hthere', fun token' hk => ?_⟩
      by_cases heq : token' = token
      · rw [heq, hgone] at hk
        cases hk
      · rw [hbeside.others _ (fun h => heq (Prod.mk.inj h).1)] at hk
        exact (List.mem_cons.mp (hleft token' hk)).resolve_left heq
  · rintro - d' ns ⟨rfl, hcalm, hthere', hleft⟩
    have hnone : ∀ token, d'.journal (token, .prepared) = none := fun token => by
      cases hj : d'.journal (token, .prepared) with
      | none => rfl
      | some j => exact absurd (hleft token (by rw [hj]; rfl)) List.not_mem_nil
    have htrans : ∀ {d'' : Disk}, Calm d' d'' → Calm d d'' := fun h =>
      ⟨h.live.trans hcalm.live, h.staged.trans hcalm.staged, h.idle⟩
    refine (sweep_does hthere' hnone fun d'' e h => hE d'' e (htrans h)).mono ?_ fun _ _ h => h
    rintro - d'' ns ⟨rfl, hcalm', hgone⟩
    exact ⟨rfl, htrans hcalm', hgone⟩

end

/-! ## The record of a transaction -/

section

variable {names ns out : List Bytes} {line n : Bytes} {names' : List Bytes} {d : Disk} {E : Stop → Disk → Prop}

theorem addMember_ok (h : addMember names line = .ok out) : safeRelativePath line = true ∧ line ∉ names ∧ out = names ++ [line] := by
  unfold addMember at h
  split at h
  · cases h
  split at h
  · cases h
  next hsafe =>
  split at h
  · cases h
  next hfresh =>
  split at h
  · cases h
  · cases h
    exact ⟨Bool.eq_true_of_not_eq_false hsafe, hfresh, rfl⟩

/-- The names of a manifest are safe and different. -/
theorem names_of_manifest {file : Bytes} (h : loadManifest file = .ok names) : names.Nodup ∧ ∀ n ∈ names, safeRelativePath n = true := by
  have hfold : ∀ (ls : List Bytes) {names out : List Bytes}, ls.foldlM addMember names = .ok out →
      (names.Nodup ∧ ∀ n ∈ names, safeRelativePath n = true) → out.Nodup ∧ ∀ n ∈ out, safeRelativePath n = true := by
    intro ls
    induction ls with
    | nil =>
      intro names out h hnames
      cases h
      exact hnames
    | cons line ls ih =>
      intro names out h ⟨hnodup, hsafe⟩
      rw [List.foldlM_cons] at h
      cases hstep : addMember names line with
      | error e =>
        rw [hstep] at h
        cases h
      | ok next =>
        rw [hstep] at h
        obtain ⟨hline, hfresh, rfl⟩ := addMember_ok hstep
        refine ih h ⟨?_, fun n hn => ?_⟩
        · rw [List.nodup_append]
          exact ⟨hnodup, List.nodup_singleton line, fun a ha b hb heq => hfresh (List.mem_singleton.mp hb ▸ heq ▸ ha)⟩
        · rcases List.mem_append.mp hn with hn | hn
          · exact hsafe n hn
          · rw [List.mem_singleton.mp hn]
            exact hline
  unfold loadManifest at h
  split at h
  · cases h
  split at h
  · cases h
  cases hlines : (readLines (fromSecondLine file)).foldlM addMember [] with
  | error e =>
    rw [hlines] at h
    cases h
  | ok loaded =>
    rw [hlines] at h
    have hall := hfold _ hlines ⟨List.nodup_nil, fun n hn => absurd hn List.not_mem_nil⟩
    dsimp only [Except.bind] at h
    split at h
    · cases h
    · cases h
      exact hall

theorem components_injective : Function.Injective components := by
  intro a b h
  have hjoined := congrArg [47].intercalate h
  rwa [components, components, List.intercalate_splitOn, List.intercalate_splitOn] at hjoined

def word (there : Bool) : Bytes := utf8 (if there then "present" else "absent")

theorem word_facts : ∀ there : Bool, word there ≠ [] ∧ (∀ b ∈ word there, b ≠ 0 ∧ b ≠ 9 ∧ b ≠ 10) ∧
    (word there = utf8 "present" ∨ word there = utf8 "absent") ∧ (word there == utf8 "present") = there := by
  decide

/-- A line of the record without its end. -/
def entry (n : Bytes) (there : Bool) : Bytes := n ++ 9 :: word there

theorem stateLine_eq (n : Bytes) (there : Bool) : stateLine n there = entry n there ++ [10] := by
  rw [stateLine, entry, List.append_assoc]
  rfl

theorem bytes_safe (h : safeRelativePath n = true) : n ≠ [] ∧ ∀ b ∈ n, b ≠ 0 ∧ b ≠ 9 ∧ b ≠ 10 := by
  have hnamed := (ManifestLemmas.safe_iff).mp h
  constructor
  · rintro rfl
    exact (hnamed.parts [] (List.mem_singleton_self [])).1 rfl
  · intro b hb
    have hpath := hnamed.bytes b hb
    refine ⟨?_, ?_, ?_⟩
    all_goals
      rintro rfl
      revert hpath
      decide

theorem entry_line (h : safeRelativePath n = true) (there : Bool) : (10 : Byte) ∉ entry n there := by
  rw [entry, List.mem_append, List.mem_cons]
  rintro (hin | hin | hin)
  · exact ((bytes_safe h).2 10 hin).2.2 rfl
  · cases hin
  · exact ((word_facts there).2.1 10 hin).2.2 rfl

/-- A line of the record is read as what it says. -/
theorem fields_entry (h : safeRelativePath n = true) (there : Bool) : fields (entry n there) = [n, word there] := by
  obtain ⟨hne, hbytes⟩ := bytes_safe h
  obtain ⟨hword, hplain, -⟩ := word_facts there
  have hvalue : value (entry n there) = n ++ 9 :: word there := by
    refine ManifestLemmas.value_eq fun b hb => ?_
    rw [entry, List.mem_append, List.mem_cons] at hb
    rcases hb with hb | rfl | hb
    · exact (hbytes b hb).1
    · decide
    · exact (hplain b hb).1
  rw [fields, hvalue, List.splitOn_append_cons_self_of_not_mem fun hin => (hbytes 9 hin).2.1 rfl,
    List.splitOn_eq_singleton fun hin => (hplain 9 hin).2.1 rfl]
  simp [hne, hword]

theorem lookup_graph (g : Bytes → Bool) (l : List Bytes) : (l.map fun n => (n, g n)).lookup n = if n ∈ l then some (g n) else none := by
  induction l with
  | nil => rfl
  | cons a l ih =>
    rw [List.map_cons, List.lookup_cons, ih]
    by_cases ha : n = a
    · subst ha
      simp
    · have hbeq : (n == a) = false := beq_eq_false_iff_ne.mpr ha
      simp [hbeq, ha]

/-- The record as it is written. -/
def record (g : Bytes → Bool) (l : List Bytes) : Bytes := l.flatMap fun n => stateLine n (g n)

theorem record_lines {g : Bytes → Bool} {l : List Bytes} (h : ∀ n ∈ l, safeRelativePath n = true) :
    (record g l).count 10 = l.length ∧ ((record g l).splitOn 10).dropLast = l.map fun n => entry n (g n) := by
  induction l with
  | nil => exact ⟨rfl, rfl⟩
  | cons n l ih =>
    obtain ⟨hn, hl⟩ := List.forall_mem_cons.mp h
    obtain ⟨hcount, hsplit⟩ := ih hl
    have hcons : record g (n :: l) = entry n (g n) ++ 10 :: record g l := by
      rw [record, List.flatMap_cons, stateLine_eq, List.append_assoc]
      rfl
    have hfree := entry_line hn (g n)
    rw [hcons]
    constructor
    · rw [List.count_append, List.count_eq_zero_of_not_mem hfree, List.count_cons_self, hcount, Nat.zero_add]
      rfl
    · rw [List.splitOn_append_cons_self_of_not_mem hfree, List.dropLast_cons_of_ne_nil (List.splitOn_ne_nil _ _), hsplit]
      rfl

/-- The loop over the record gives what was recorded, of names that the manifest has. -/
theorem readPrior_record {g : Bytes → Bool} {l : List Bytes} (hnodup : l.Nodup) (hin : ∀ n ∈ l, n ∈ names)
    (hsafe : ∀ n ∈ l, safeRelativePath n = true) :
    readPrior names [] (l.map fun n => entry n (g n)) = pure (l.map fun n => (n, g n)) := by
  have hrest : ∀ rest done, l = done ++ rest →
      readPrior names (done.map fun n => (n, g n)) (rest.map fun n => entry n (g n)) =
        pure (l.map fun n => (n, g n)) := by
    intro rest
    induction rest with
    | nil =>
      intro done hl
      rw [List.append_nil] at hl
      rw [hl]
      rfl
    | cons n rest ih =>
      intro done hl
      have hmem : n ∈ l := by
        rw [hl]
        exact List.mem_append_right done List.mem_cons_self
      have hnamed : ¬(!names.contains n) = true := by
        rw [List.contains_iff_mem.mpr (hin n hmem)]
        exact Bool.false_ne_true
      have hfresh : n ∉ done := by
        rw [hl, List.nodup_append] at hnodup
        exact fun hdone => hnodup.2.2 n hdone n List.mem_cons_self rfl
      obtain ⟨-, -, hwords, hreads⟩ := word_facts (g n)
      rw [List.map_cons, readPrior, fields_entry (hsafe n hmem)]
      dsimp only
      rw [if_neg hnamed, if_neg (fun hno => hwords.elim hno.1 hno.2), lookup_graph, if_neg hfresh,
        hreads]
      have hnext := ih (done ++ [n]) (by rw [hl, List.append_assoc]; rfl)
      rw [List.map_append] at hnext
      exact hnext
  exact hrest l [] rfl

end

/-! ## An open transaction -/

/-- A transaction on these files that passed every question. The members are moved in some order of their own. -/
structure Plan where
  token : Bytes
  live : Files
  staged : Files
  manifest : Bytes
  names : List Bytes
  moved : List Bytes
  loads : loadManifest manifest = .ok names
  out : names.all outside = true
  same : moved.Perm names
  listed : staged.lookup [utf8 "deploy", utf8 "manifest-v3.txt"] = some (.file manifest)
  file : ∀ n ∈ names, ∃ c, staged.lookup (components n) = some (.file c)
  prior : ∀ n ∈ names, live.lookup (components n) = none ∨ ∃ c, live.lookup (components n) = some (.file c)
  clear : ∀ n ∈ names, live.Clear (components n)
  apart : ∀ n ∈ names, ∀ n' ∈ names, components n' ∉ Tree.above (components n)

namespace Plan

variable (P : Plan)

def key : Bytes × Kind := (P.token, .prepared)

def there (n : Bytes) : Bool := (P.live.lookup (components n)).isSome

def before : View := P.live.leaf

def after : View := fun p => if p ∈ P.names.map components then P.staged.leaf p else P.live.leaf p

/-- A tree with the files as they were. -/
structure Old (t : Files) : Prop where
  files : ∀ p, t.leaf p = P.before p
  clear : ∀ n ∈ P.names, t.Clear (components n)

/-- A tree with the files as they are to be. -/
structure New (t : Files) : Prop where
  files : ∀ p, t.leaf p = P.after p
  clear : ∀ n ∈ P.names, t.Clear (components n)

/-- The journal when it is ready. -/
def journal (b : Files) : Journal := ⟨some P.manifest, some (record P.there P.moved), true, some b⟩

end Plan

/-- The transaction is open: what is not in its place as it was is in the backup. -/
structure Half (P : Plan) (b : Files) (d : Disk) : Prop where
  there : d.journals.isSome = true
  journal : ∀ k, d.journal k = if k = P.key then some (P.journal b) else none
  others : ∀ p, p ∉ P.names.map components → d.live.leaf p = P.before p
  clear : ∀ n ∈ P.names, d.live.Clear (components n)
  held : ∀ n ∈ P.names, P.there n = true → b.lookup (components n) = P.live.lookup (components n) ∨
    (b.lookup (components n) = none ∧ d.live.leaf (components n) = P.before (components n))

def Open (P : Plan) (d : Disk) : Prop := ∃ b, Half P b d

/-- The script is stopped with the disk in such a state. -/
def Stops (I : Disk → Prop) (e : Stop) (d : Disk) : Prop := (e = .crash ∨ e = .interrupted) ∧ I d

section

variable {P : Plan} {b : Files} {d d' : Disk} {n m : Bytes} {names : List Bytes} {E : Stop → Disk → Prop} {strict : Bool}
  {order : Option (Bytes × Kind) → List Remains}

theorem Plan.safe (P : Plan) : P.names.Nodup ∧ ∀ n ∈ P.names, safeRelativePath n = true :=
  names_of_manifest P.loads

theorem Plan.fresh (P : Plan) : P.moved.Nodup := P.same.nodup_iff.mpr P.safe.1

theorem Plan.mem_moved (P : Plan) : n ∈ P.moved ↔ n ∈ P.names := P.same.mem_iff

theorem Half.at_key (h : Half P b d) : d.journal P.key = some (P.journal b) := by rw [h.journal, if_pos rfl]

/-- Before the transaction there was a file in the place or nothing. -/
theorem Plan.before_eq (hn : n ∈ P.names) : P.before (components n) = P.live.lookup (components n) :=
  Tree.leaf_of_clear (P.clear n hn)

theorem Plan.before_absent (hn : n ∈ P.names) (h : P.there n = false) : P.before (components n) = none := by
  rw [Plan.before_eq hn]
  exact Option.isSome_eq_false_iff.mp h |> Option.isNone_iff_eq_none.mp

theorem Plan.before_present (hn : n ∈ P.names) (h : P.there n = true) : ∃ c, P.live.lookup (components n) = some (.file c) := by
  rcases P.prior n hn with hnone | hfile
  · rw [Plan.there, hnone] at h
    cases h
  · exact hfile

/-- Only directories are others. -/
structure SameFiles (P : Plan) (d d' : Disk) : Prop where
  journals : d'.journals = d.journals
  staged : d'.staged = d.staged
  leaf : ∀ q, d'.live.leaf q = d.live.leaf q
  clear : ∀ n ∈ P.names, d.live.Clear (components n) → d'.live.Clear (components n)

theorem SameFiles.refl (P : Plan) (d : Disk) : SameFiles P d d := ⟨rfl, rfl, fun _ => rfl, fun _ _ h => h⟩

theorem SameFiles.half (h : SameFiles P d d') (hhalf : Half P b d) : Half P b d' where
  there := by rw [h.journals, hhalf.there]
  journal k := by rw [Disk.journal, h.journals]; exact hhalf.journal k
  others p hp := (h.leaf p).trans (hhalf.others p hp)
  clear n hn := h.clear n hn (hhalf.clear n hn)
  held n hn hthere := (hhalf.held n hn hthere).imp_right fun hrest => ⟨hrest.1, (h.leaf _).trans hrest.2⟩

theorem parent_cases (p : List Bytes) : Tree.above p = [] ∧ p.length ≤ 1 ∨ p.dropLast ∈ Tree.above p := by
  rcases Nat.lt_or_ge 1 p.length with hlong | hshort
  · refine .inr (Tree.mem_above.mpr ⟨p.length - 1, by omega, by omega, ?_⟩)
    rw [List.dropLast_eq_take]
  · refine .inl ⟨?_, hshort⟩
    rw [Tree.above, Nat.sub_eq_zero_of_le hshort]
    rfl

theorem assertSafe_pure {t : Files} (h : t.Clear (components n)) : assertSafeAncestors t n = pure () := by
  refine if_pos (List.all_eq_true.mpr fun q hq => ?_)
  exact Option.isNone_iff_eq_none.mpr (h.way q hq)

/-- The directories above a member are made. -/
theorem ensureParents_does (hn : n ∈ P.names) (hclear : d.live.Clear (components n)) :
    Does (ensureParents strict n) d names (fun _ d' ns => ns = names ∧ SameFiles P d d' ∧
      ((components n).length ≤ 1 ∨ d'.live.isDirectory (components n).dropLast = true)) (Stops (· = d)) := by
  rw [ensureParents]
  refine does_get fun s hs _ => ?_
  rw [hs, assertSafe_pure hclear]
  refine does_bind (Q := fun _ d' ns => d' = d ∧ ns = names) (does_pure ⟨rfl, rfl⟩) ?_
  rintro - d' ns ⟨rfl, rfl⟩
  rcases parent_cases (components n) with ⟨hnone, hshort⟩ | hparent
  · rw [if_pos hnone]
    exact does_pure ⟨rfl, .refl P d', .inl hshort⟩
  · rw [if_neg (List.ne_nil_of_mem hparent)]
    obtain ⟨t, ht⟩ := Tree.mkdirs_clear hclear
    refine does_command (c := { d' with live := t }) (by rw [ht]; rfl) (fun e he => ⟨he, rfl⟩) ⟨rfl, ⟨rfl, rfl, ?_, ?_⟩, ?_⟩
    · exact fun q => Tree.leaf_mkdirs ht
    · exact fun m hm hfree => Tree.clear_mkdirs ht (P.apart n hn m hm) hfree
    · exact .inr (Tree.isDirectory_of_mkdirs ht hparent)

/-- Empty directories are taken away. -/
theorem cleanupParents_does (ps : List (List Bytes)) :
    Does (cleanupParents ps) d names (fun _ d' ns => ns = names ∧ SameFiles P d d') (Stops (SameFiles P d)) := by
  have hrest : ∀ ps d', SameFiles P d d' →
      Does (cleanupParents ps) d' names (fun _ d'' ns => ns = names ∧ SameFiles P d d'') (Stops (SameFiles P d)) := by
    intro ps
    induction ps with
    | nil => exact fun d' h => does_pure ⟨rfl, h⟩
    | cons p ps ih =>
      intro d' h
      rw [cleanupParents]
      refine does_get fun s hs _ => ?_
      rw [hs]
      cases hrm : d'.live.rmdir p with
      | none => exact does_pure ⟨rfl, h⟩
      | some t =>
        refine does_bind (Q := fun _ d'' ns => d'' = { d' with live := t } ∧ ns = names)
          (does_command rfl (fun e he => ⟨he, h⟩) ⟨rfl, rfl⟩) ?_
        rintro - d'' ns ⟨rfl, rfl⟩
        refine ih _ ⟨h.journals, h.staged, fun q => (Tree.leaf_rmdir hrm).trans (h.leaf q), fun m hm hfree => ?_⟩
        exact Tree.clear_rmdir hrm (h.clear m hm hfree)
  exact hrest ps d (.refl P d)

/-- What is done about one member. -/
structure Restored (P : Plan) (n : Bytes) (d d' : Disk) : Prop where
  half : Open P d'
  staged : d'.staged = d.staged
  place : d'.live.leaf (components n) = P.before (components n)
  rest : ∀ q, q ≠ components n → d'.live.leaf q = d.live.leaf q

/-- Without a file in the place the rest is as it was. -/
theorem Half.removed {t : Files} (h : Half P b d) (hn : n ∈ P.names) (ht : d.live.remove (components n) = some t)
    (hheld : P.there n = true → b.lookup (components n) = P.live.lookup (components n)) : Half P b { d with live := t } where
  there := h.there
  journal := h.journal
  others p hp := ((Tree.leaf_remove ht).2 p fun heq => hp (heq ▸ List.mem_map_of_mem hn)).trans (h.others p hp)
  clear m hm := Tree.clear_remove ht (h.clear m hm)
  held m hm hthere := by
    by_cases heq : m = n
    · subst heq
      exact .inl (hheld hthere)
    · refine (h.held m hm hthere).imp_right fun hrest => ⟨hrest.1, ?_⟩
      exact ((Tree.leaf_remove ht).2 _ fun hsame => heq (components_injective hsame)).trans hrest.2

/-- The backup of a member goes back to its place. -/
theorem putBack_half {c : Bytes} (h : Half P b d) (hn : n ∈ P.names) (hlive : P.live.lookup (components n) = some (.file c))
    (hb : b.lookup (components n) = some (.file c))
    (hdir : (components n).length ≤ 1 ∨ d.live.isDirectory (components n).dropLast = true) :
    ∃ d', d.putBack P.key (components n) = some d' ∧ Restored P n d d' := by
  have hleaf : b.leaf (components n) = some (.file c) := by
    rw [Tree.leaf, if_neg, hb]
    rw [Tree.isDirectory_iff, hb]
    intro heq
    cases heq
  obtain ⟨t, ht⟩ := Tree.put_clear (h.clear n hn) hdir (.file c)
  obtain ⟨hplace, hrest⟩ := Tree.leaf_put ht (by intro heq; cases heq)
  refine ⟨{ d.setJournal P.key { P.journal b with backup := some (b.erase (components n)) } with live := t },
    ?_, ⟨b.erase (components n), ?_⟩, rfl, ?_, hrest⟩
  · rw [Disk.putBack, h.at_key]
    simp only [Option.bind_eq_bind, Option.bind_some, Plan.journal, Tree.rename_leaf hleaf ht]
  · refine ⟨?_, fun k => ?_, fun p hp => ?_, fun m hm => ?_, fun m hm hthere => ?_⟩
    · exact Option.isSome_map.trans h.there
    · show (d.setJournal P.key _).journal k = _
      rw [journal_setJournal h.there]
      split
      · rfl
      next hne => rw [h.journal, if_neg hne]
    · exact (hrest p fun heq => hp (heq ▸ List.mem_map_of_mem hn)).trans (h.others p hp)
    · exact Tree.clear_put ht (by intro heq; cases heq) (P.apart m hm n hn) (h.clear m hm)
    · by_cases heq : m = n
      · subst heq
        refine .inr ⟨AList.lookup_erase _ _, hplace.trans ?_⟩
        rw [Plan.before_eq hm, hlive]
      · have hother : components m ≠ components n := fun hsame => heq (components_injective hsame)
        rw [AList.lookup_erase_ne hother]
        exact (h.held m hm hthere).imp_right fun hm' => ⟨hm'.1, (hrest _ hother).trans hm'.2⟩
  · rw [Plan.before_eq hn, hlive]
    exact hplace

/-- What the transaction did to a member is undone. -/
theorem restore_does (h : Half P b d) (hn : n ∈ P.names) :
    Does (restore strict P.key (P.moved.map fun n => (n, P.there n)) n) d names
      (fun _ d' ns => ns = names ∧ Restored P n d d')
      (Stops (Open P)) := by
  obtain ⟨t, ht⟩ := Tree.remove_clear (h.clear n hn)
  have hremove : (do let live ← d.live.remove (components n); some { d with live }) = some { d with live := t } := by
    rw [ht]
    rfl
  rw [restore, lookup_graph, if_pos (P.mem_moved.mpr hn)]
  cases hthere : P.there n with
  | false =>
    refine does_bind (Q := fun _ d' ns => d' = { d with live := t } ∧ ns = names)
      (does_command hremove (fun e he => ⟨he, b, h⟩) ⟨rfl, rfl⟩) ?_
    rintro - d' ns ⟨rfl, rfl⟩
    have hhalf := h.removed hn ht fun hyes => by rw [hthere] at hyes; cases hyes
    refine (cleanupParents_does (P := P) _).mono ?_ ?_
    · rintro - d' ns ⟨rfl, hsame⟩
      refine ⟨rfl, ⟨b, hsame.half hhalf⟩, hsame.staged, ?_,
        fun q hq => (hsame.leaf q).trans ((Tree.leaf_remove ht).2 q hq)⟩
      rw [hsame.leaf, Plan.before_absent hn hthere]
      exact (Tree.leaf_remove ht).1
    · exact fun e d' hstop => ⟨hstop.1, b, hstop.2.half hhalf⟩
  | true =>
    obtain ⟨c, hc⟩ := Plan.before_present hn hthere
    refine does_get fun s hs _ => ?_
    have hbackup : ((s.disk.journal P.key).bind Journal.backup).bind (fun b => b.lookup (components n)) = b.lookup (components n) := by
      rw [hs, h.at_key]
      rfl
    rw [hbackup]
    rcases h.held n hn hthere with hb | ⟨hb, hplace⟩
    · rw [hc] at hb
      rw [hb]
      refine does_bind (Q := fun _ d' ns => d' = { d with live := t } ∧ ns = names)
        (does_command hremove (fun e he => ⟨he, b, h⟩) ⟨rfl, rfl⟩) ?_
      rintro - d' ns ⟨rfl, rfl⟩
      have hhalf := h.removed hn ht fun _ => hb.trans hc.symm
      refine does_bind ((ensureParents_does hn (hhalf.clear n hn)).mono (fun _ _ _ h => h) ?_) ?_
      · rintro e d' ⟨hstop, rfl⟩
        exact ⟨hstop, b, hhalf⟩
      · rintro - d' ns ⟨rfl, hsame, hdir⟩
        obtain ⟨d'', hput, hrestored⟩ := putBack_half (hsame.half hhalf) hn hc hb hdir
        refine does_command hput (fun e he => ⟨he, b, hsame.half hhalf⟩)
          ⟨rfl, hrestored.half, hrestored.staged.trans hsame.staged, hrestored.place, fun q hq => ?_⟩
        exact (hrestored.rest q hq).trans ((hsame.leaf q).trans ((Tree.leaf_remove ht).2 q hq))
    · rw [hb]
      exact does_pure ⟨rfl, ⟨b, h⟩, rfl, hplace, fun _ _ => rfl⟩

theorem validateJournal_does (h : Half P b d) :
    Does (validateJournal P.key) d names
      (fun state d' ns => state = record P.there P.moved ∧ d' = d ∧ ns = P.names) E := by
  rw [validateJournal]
  refine does_get fun s hs _ => ?_
  rw [hs, h.at_key]
  show Does (if (P.journal b).ready = false then _ else _) _ _ _ _
  rw [if_neg (by rw [Plan.journal]; exact Bool.noConfusion)]
  refine does_bind (Q := fun _ d' ns => d' = d ∧ ns = P.names)
    (does_loadNames P.loads P.out ⟨rfl, rfl⟩) ?_
  rintro - d' ns ⟨rfl, rfl⟩
  refine does_get fun s hs hnames => ?_
  have hcount := (record_lines (g := P.there) fun n hn => P.safe.2 n (P.mem_moved.mp hn)).1
  rw [hnames, if_neg (not_not.mpr (hcount.trans P.same.length_eq))]
  exact does_pure ⟨rfl, rfl, rfl⟩

/-- What a rollback leaves. -/
structure Undone (P : Plan) (d d' : Disk) : Prop where
  half : Open P d'
  staged : d'.staged = d.staged
  old : P.Old d'.live

/-- A rollback ends well and puts every file back. -/
theorem rollback_does (h : Half P b d) :
    Does (rollbackPrepared strict P.key) d names (fun _ d' ns => ns = P.names ∧ Undone P d d')
      (Stops (Open P)) := by
  rw [rollbackPrepared]
  refine does_bind (validateJournal_does h) ?_
  rintro - d' ns ⟨rfl, rfl, rfl⟩
  refine does_get fun s hs hnames => ?_
  have hsafe : ∀ n ∈ P.moved, safeRelativePath n = true := fun n hn => P.safe.2 n (P.mem_moved.mp hn)
  rw [hnames, (record_lines hsafe).2, readPrior_record P.fresh (fun n => P.mem_moved.mp) hsafe]
  refine does_bind
    (Q := fun prior d'' ns => prior = P.moved.map (fun n => (n, P.there n)) ∧ d'' = d' ∧ ns = P.names)
    (does_pure ⟨rfl, rfl, rfl⟩) ?_
  rintro - d'' ns ⟨rfl, rfl, rfl⟩
  refine (does_forEach (fun l d ns => ns = P.names ∧ Open P d ∧ d.staged = d''.staged ∧
    (∀ n ∈ l, n ∈ P.names) ∧ ∀ p, (∀ n ∈ l, p ≠ components n) → d.live.leaf p = P.before p) ?_
    ⟨rfl, ⟨b, h⟩, rfl, fun n hn => hn, fun p hp => ?_⟩).mono ?_ fun _ _ h => h
  · rintro n l d ns ⟨rfl, ⟨b, hhalf⟩, hstaged, hin, hdone⟩
    refine (restore_does hhalf (hin n List.mem_cons_self)).mono ?_ fun _ _ h => h
    rintro - d' ns ⟨rfl, hrestored⟩
    refine ⟨rfl, hrestored.half, hrestored.staged.trans hstaged,
      fun m hm => hin m (List.mem_cons_of_mem n hm), fun p hp => ?_⟩
    by_cases heq : p = components n
    · rw [heq]
      exact hrestored.place
    · rw [hrestored.rest p heq]
      exact hdone p (List.forall_mem_cons.mpr ⟨heq, hp⟩)
  · refine h.others p fun hmem => ?_
    obtain ⟨n, hn, heq⟩ := List.mem_map.mp hmem
    exact hp n hn heq.symm
  · rintro - d ns ⟨rfl, ⟨b', hhalf⟩, hstaged, -, hall⟩
    exact ⟨rfl, ⟨b', hhalf⟩, hstaged, fun p => hall p fun n hn => absurd hn List.not_mem_nil, hhalf.clear⟩

/-! ## Recovery of an open transaction -/

/-- No transaction is open, and the tree is such. -/
structure Settled (v : Files → Prop) (d : Disk) : Prop where
  files : v d.live
  idle : d.Idle

theorem Settled.calm {v : Files → Prop} (h : Settled v d) (hcalm : Calm d d') : Settled v d' :=
  ⟨hcalm.live ▸ h.files, hcalm.idle⟩

theorem Settled.mono {v v' : Files → Prop} (h : Settled v d) (hv : ∀ t, v t → v' t) : Settled v' d :=
  ⟨hv _ h.files, h.idle⟩

theorem Plan.kind_ne (P : Plan) {token : Bytes} {kind : Kind} (h : kind ≠ .prepared) :
    (token, kind) ≠ P.key :=
  fun heq => h (Prod.mk.inj heq).2

theorem Plan.token_ne (P : Plan) {token : Bytes} {kind : Kind} (h : token ≠ P.token) :
    (token, kind) ≠ P.key :=
  fun heq => h (Prod.mk.inj heq).1

/-- Only this journal is there. -/
structure Sole (key : Bytes × Kind) (d : Disk) : Prop where
  there : d.journals.isSome = true
  journal : (d.journal key).isSome = true
  others : ∀ k, k ≠ key → d.journal k = none

/-- Another name for the journal ends the transaction. -/
theorem rename_does {kind : Kind} (h : Half P b d) (hkind : kind ≠ .prepared) :
    Does (command strict (Disk.renameJournal P.key (P.token, kind))) d names
      (fun _ d' ns => ns = names ∧ d'.live = d.live ∧ d'.staged = d.staged ∧ Sole (P.token, kind) d')
      (Stops (Open P)) := by
  have hfree : d.journal (P.token, kind) = none := by rw [h.journal, if_neg (P.kind_ne hkind)]
  have hthere : (d.dropJournal P.key).journals.isSome = true := Option.isSome_map.trans h.there
  have hjournal : ∀ k, ((d.dropJournal P.key).setJournal (P.token, kind) (P.journal b)).journal k =
      if k = (P.token, kind) then some (P.journal b) else none := by
    intro k
    rw [journal_setJournal hthere, journal_dropJournal, h.journal]
    split
    · rfl
    · split <;> rfl
  refine does_command (c := (d.dropJournal P.key).setJournal (P.token, kind) (P.journal b)) ?_
    (fun e he => ⟨he, b, h⟩) ⟨rfl, rfl, rfl, Option.isSome_map.trans hthere, ?_, fun k hk => ?_⟩
  · rw [Disk.renameJournal, h.at_key, hfree]
    rfl
  · rw [hjournal, if_pos rfl]
    rfl
  · rw [hjournal, if_neg hk]

theorem Sole.prepared {token : Bytes} {kind : Kind} (h : Sole (token, kind) d) (hkind : kind ≠ .prepared)
    (token' : Bytes) : d.journal (token', .prepared) = none :=
  h.others _ fun heq => hkind (Prod.mk.inj heq).2.symm

theorem idle_of_none (h : ∀ token, d.journal (token, .prepared) = none) : d.Idle := by
  intro token j hj
  rw [h token] at hj
  cases hj

/-- The transaction was undone, and its journal has another name. -/
structure RolledBack (P : Plan) (d d' : Disk) : Prop where
  old : P.Old d'.live
  staged : d'.staged = d.staged
  there : d'.journals.isSome = true
  prepared : ∀ token, d'.journal (token, .prepared) = none

theorem recoverJournal_half (h : Half P b d) :
    Does (recoverJournal order P.token) d names (fun _ d' ns => ns = P.names ∧ RolledBack P d d')
      (Stops (Open P)) := by
  rw [recoverJournal]
  refine does_get fun s hs _ => ?_
  have hjournal : s.disk.journal (P.token, .prepared) = some (P.journal b) := by
    rw [hs]
    exact h.at_key
  rw [hjournal]
  show Does (if (P.journal b).ready = false then _ else _) _ _ _ _
  rw [if_neg (by rw [Plan.journal]; exact Bool.noConfusion)]
  refine does_bind (rollback_does h) ?_
  rintro - d' ns ⟨rfl, ⟨b', hhalf⟩, hstaged, hold⟩
  refine does_get fun s hs _ => ?_
  have hfree : d'.journal (P.token, .rolledBack) = none := by
    rw [hhalf.journal, if_neg (P.kind_ne (by decide))]
  rw [hs, hfree, Option.isSome_none, if_neg Bool.false_ne_true]
  refine ((@rename_does _ _ _ _ true .rolledBack) hhalf (by decide)).mono ?_ fun _ _ h => h
  rintro - d'' ns ⟨rfl, hlive, hstaged', hsole⟩
  exact ⟨rfl, hlive ▸ hold, hstaged'.trans hstaged, hsole.there, hsole.prepared (by decide)⟩

/-- A recovery ends well and undoes the transaction that is open. -/
theorem recover_half (h : Half P b d) :
    Does (recoverPending order) d names
      (fun _ d' ns => ns = P.names ∧ P.Old d'.live ∧ d'.staged = d.staged ∧ d'.journals = none)
      (Stops fun d' => Open P d' ∨ Settled P.Old d') := by
  rw [recoverPending]
  refine does_get fun s hs _ => ?_
  rw [hs, if_neg (by rw [Option.isNone_eq_false_iff.mpr h.there]; exact Bool.false_ne_true)]
  refine does_bind (does_forEach (fun l d' ns => (Half P b d' ∧ d' = d ∧ P.token ∈ l) ∨
    (ns = P.names ∧ RolledBack P d d')) ?_ (.inl ⟨h, rfl, ?_⟩)) ?_
  · rintro token l d' ns (⟨hhalf, rfl, hin⟩ | ⟨rfl, hback⟩)
    · by_cases heq : token = P.token
      · rw [heq]
        refine (recoverJournal_half hhalf).mono ?_ ?_
        · exact fun _ d'' _ hdone => .inr hdone
        · exact fun e d'' hstop => ⟨hstop.1, .inl hstop.2⟩
      · rw [recoverJournal]
        refine does_get fun s hs _ => ?_
        have hfree : d'.journal (token, .prepared) = none := by
          rw [hhalf.journal, if_neg (P.token_ne heq)]
        rw [hs, hfree]
        exact does_pure (.inl ⟨hhalf, rfl, (List.mem_cons.mp hin).resolve_left fun hsame => heq hsame.symm⟩)
    · rw [recoverJournal]
      refine does_get fun s hs _ => ?_
      rw [hs, hback.prepared token]
      exact does_pure (.inr ⟨rfl, hback⟩)
  · exact mem_glob.mpr (by rw [← Plan.key, h.at_key]; rfl)
  · rintro - d' ns (⟨-, -, hin⟩ | ⟨rfl, hback⟩)
    · exact absurd hin List.not_mem_nil
    · have hsettled : Settled P.Old d' := ⟨hback.old, idle_of_none hback.prepared⟩
      refine (sweep_does hback.there hback.prepared
        fun d'' e hcalm he => ⟨he, .inr (hsettled.calm hcalm)⟩).mono ?_ fun _ _ h => h
      rintro - d'' ns' ⟨rfl, hcalm, hgone⟩
      exact ⟨rfl, (hsettled.calm hcalm).files, hcalm.staged.trans hback.staged, hgone⟩

/-- A recovery will leave an old tree or a new one. -/
inductive Recoverable (old new : Files → Prop) (d : Disk) : Prop
  | old (h : Settled old d)
  | new (h : Settled new d)
  | between (P : Plan) (hold : ∀ t, P.Old t → old t) (h : Open P d)

theorem Recoverable.mono {old new old' new' : Files → Prop} (h : Recoverable old new d)
    (hold : ∀ t, old t → old' t) (hnew : ∀ t, new t → new' t) : Recoverable old' new' d := by
  cases h with
  | old h => exact .old (h.mono hold)
  | new h => exact .new (h.mono hnew)
  | between P hP h => exact .between P (fun t ht => hold t (hP t ht)) h

/-- A recovery ends well, with an old tree or a new one. -/
theorem recover_recoverable {old new : Files → Prop} (h : Recoverable old new d) :
    Does (recoverPending order) d names (fun _ d' _ => d'.journals = none ∧ (old d'.live ∨ new d'.live))
      (Stops (Recoverable old new)) := by
  have hsettled : ∀ {v : Files → Prop}, Settled v d → (∀ d', Settled v d' → Recoverable old new d') →
      (∀ t, v t → old t ∨ new t) → Does (recoverPending order) d names
        (fun _ d' _ => d'.journals = none ∧ (old d'.live ∨ new d'.live)) (Stops (Recoverable old new)) := by
    intro v hv hkeep hwhich
    refine (recover_idle hv.idle fun d' e hcalm he => ⟨he, hkeep d' (hv.calm hcalm)⟩).mono ?_ fun _ _ h => h
    rintro - d' ns ⟨-, hcalm, hgone⟩
    exact ⟨hgone, hwhich _ (hv.calm hcalm).files⟩
  cases h with
  | old h => exact hsettled h (fun _ => .old) fun _ => .inl
  | new h => exact hsettled h (fun _ => .new) fun _ => .inr
  | between P hold h =>
    obtain ⟨b, hhalf⟩ := h
    refine (recover_half hhalf).mono ?_ ?_
    · exact fun _ d' _ ⟨_, hdone, _, hgone⟩ => ⟨hgone, .inl (hold _ hdone)⟩
    · exact fun e d' hstop =>
        ⟨hstop.1, hstop.2.elim (.between P hold) fun h => .old (h.mono hold)⟩

/-! ## The journal is written -/

/-- Nothing has been changed yet. -/
structure Ready (P : Plan) (d : Disk) : Prop where
  live : d.live = P.live
  staged : d.staged = some P.staged
  there : d.journals.isSome = true
  journals : ∀ k, d.journal k = none

/-- The journal is written and not ready. -/
structure Writing (P : Plan) (j : Journal) (d : Disk) : Prop where
  live : d.live = P.live
  staged : d.staged = some P.staged
  there : d.journals.isSome = true
  journals : ∀ k, d.journal k = if k = P.key then some j else none
  unready : j.ready = false

theorem Writing.at_key {j : Journal} (h : Writing P j d) : d.journal P.key = some j := by rw [h.journals, if_pos rfl]

theorem Plan.old_live (P : Plan) : P.Old P.live := ⟨fun _ => rfl, P.clear⟩

theorem Writing.settled {j : Journal} (h : Writing P j d) : Settled P.Old d := by
  refine ⟨h.live ▸ P.old_live, fun token j' hj' => ?_⟩
  rw [h.journals] at hj'
  split at hj'
  · cases hj'
    exact h.unready
  · cases hj'

theorem journals_set {j j' : Journal} (hthere : d.journals.isSome = true) (h : ∀ k, d.journal k = if k = P.key then some j else none)
    (k : Bytes × Kind) : (d.setJournal P.key j').journal k = if k = P.key then some j' else none := by
  rw [journal_setJournal hthere, h]
  split <;> rfl

theorem Writing.set {j k : Journal} (h : Writing P j d) (hready : k.ready = false) : Writing P k (d.setJournal P.key k) :=
  ⟨h.live, h.staged, Option.isSome_map.trans h.there, journals_set h.there h.journals, hready⟩

/-- A command that writes to the journal. -/
theorem writing_does {j j' : Journal} {f : Journal → Option Journal} (h : Writing P j d) (hf : f j = some j')
    (hready : j'.ready = false) :
    Does (command true (Disk.updateJournal P.key f)) d names (fun _ d' ns => ns = names ∧ Writing P j' d')
      (Stops (Settled P.Old)) :=
  does_command (updateJournal_some h.at_key hf) (fun _ he => ⟨he, h.settled⟩) ⟨rfl, h.set hready⟩

theorem stagedManifest_eq (h : d.staged = some P.staged) : stagedManifest d = some P.manifest := by
  unfold stagedManifest
  rw [h, Option.bind_some, P.listed]

/-- The members have been moved up to these. -/
structure Moving (P : Plan) (rest : List Bytes) (b : Files) (d : Disk) : Prop where
  half : Half P b d
  fresh : rest.Nodup
  members : ∀ n ∈ rest, n ∈ P.names
  todo : ∀ n ∈ rest, d.live.leaf (components n) = P.before (components n)
  done : ∀ n ∈ P.names, n ∉ rest → d.live.leaf (components n) = P.staged.leaf (components n)
  room : ∀ n ∈ P.names, b.Clear (components n)
  staged : ∃ t, d.staged = some t ∧ ∀ n ∈ rest, t.leaf (components n) = P.staged.leaf (components n)

theorem clear_empty (p : List Bytes) : Tree.Clear (∅ : Files) p :=
  ⟨fun _ _ => Tree.leaf_eq_none.mpr (.inl (AList.lookup_empty _)), by
    rw [Bool.eq_false_iff, Ne, Tree.isDirectory_iff, AList.lookup_empty]
    exact fun h => nomatch h⟩

/-- The journal is written, and then the transaction is open. -/
theorem writeJournal_does (h : Ready P d) :
    Does (writeJournal P.key) d P.moved (fun _ d' ns => ns = P.moved ∧ Moving P P.moved ∅ d')
      (Stops (Settled P.Old)) := by
  have hbefore : Settled P.Old d := by
    refine ⟨h.live ▸ P.old_live, fun token j hj => ?_⟩
    rw [h.journals] at hj
    cases hj
  rw [writeJournal]
  refine does_bind (Q := fun _ d' ns => ns = P.moved ∧ Writing P ⟨none, none, false, none⟩ d')
    (does_command (c := d.setJournal P.key ⟨none, none, false, none⟩) ?_ (fun _ he => ⟨he, hbefore⟩) ⟨rfl, ?_⟩) ?_
  · rw [Disk.newJournal, h.journals, Option.isNone_eq_false_iff.mpr h.there]
    rfl
  · refine ⟨h.live, h.staged, Option.isSome_map.trans h.there, fun k => ?_, rfl⟩
    rw [journal_setJournal h.there, h.journals]
  rintro - d' ns ⟨rfl, hnew⟩
  refine does_bind (writing_does hnew rfl rfl) ?_
  rintro - d' ns ⟨rfl, hbackup⟩
  refine does_bind (Q := fun _ d'' ns => ns = P.moved ∧ Writing P ⟨some P.manifest, none, false, some ∅⟩ d'')
    (does_command (c := d'.setJournal P.key ⟨some P.manifest, none, false, some ∅⟩) ?_ (fun _ he => ⟨he, hbackup.settled⟩)
      ⟨rfl, hbackup.set rfl⟩) ?_
  · rw [stagedManifest_eq hbackup.staged]
    exact updateJournal_some hbackup.at_key rfl
  rintro - d' ns ⟨rfl, hmanifest⟩
  refine does_bind (writing_does hmanifest rfl rfl) ?_
  rintro - d' ns ⟨rfl, hstate⟩
  refine does_get fun s _ hnames => ?_
  rw [hnames]
  refine does_bind (does_forEach (fun l d' ns => ns = P.moved ∧ ∃ done, P.moved = done ++ l ∧
    Writing P ⟨some P.manifest, some (record P.there done), false, some ∅⟩ d') ?_ ⟨rfl, [], rfl, hstate⟩) ?_
  · rintro n l d' ns ⟨rfl, done, hall, hwriting⟩
    have hthere : (d'.live.lookup (components n)).isSome = P.there n := by rw [hwriting.live]; rfl
    have hrecord : record P.there (done ++ [n]) = record P.there done ++ stateLine n (P.there n) := by
      rw [record, List.flatMap_append, List.flatMap_singleton]
      rfl
    have hnext := hwriting.set (k := ⟨some P.manifest, some (record P.there (done ++ [n])), false, some ∅⟩) rfl
    refine does_command ?_ (fun _ he => ⟨he, hwriting.settled⟩) ⟨rfl, done ++ [n], ?_, hnext⟩
    · rw [hrecord, ← hthere]
      exact updateJournal_some hwriting.at_key rfl
    · rw [hall, List.append_assoc]
      rfl
  rintro - d' ns ⟨rfl, done, hall, hwriting⟩
  rw [List.append_nil] at hall
  refine does_command (updateJournal_some hwriting.at_key rfl) (fun _ he => ⟨he, hwriting.settled⟩) ⟨rfl, ?_⟩
  have hfiles : ∀ p, d'.live.leaf p = P.before p := fun p => by rw [hwriting.live]; rfl
  refine ⟨⟨Option.isSome_map.trans hwriting.there, ?_, fun p _ => hfiles p, ?_, ?_⟩, P.fresh,
    fun _ => P.mem_moved.mp, fun n _ => hfiles _, fun n hn hno => absurd (P.mem_moved.mpr hn) hno,
    fun n _ => clear_empty _, P.staged, hwriting.staged, fun _ _ => rfl⟩
  · rw [Plan.journal, hall]
    exact journals_set hwriting.there hwriting.journals
  · intro n hn
    show d'.live.Clear (components n)
    rw [hwriting.live]
    exact P.clear n hn
  · exact fun n _ _ => .inr ⟨AList.lookup_empty _, hfiles _⟩

/-! ## The members are moved -/

/-- A backup with the same files is as good. -/
theorem Half.rebacked {b' : Files} (h : Half P b d) (hb : ∀ n ∈ P.names, b'.lookup (components n) = b.lookup (components n)) :
    Half P b' (d.setJournal P.key (P.journal b')) where
  there := Option.isSome_map.trans h.there
  journal := journals_set h.there h.journal
  others := h.others
  clear := h.clear
  held n hn hthere := by
    rw [hb n hn]
    exact h.held n hn hthere

theorem Moving.rebacked {rest : List Bytes} {t : Files} (h : Moving P rest b d) (hn : n ∈ P.names)
    (ht : b.mkdirs (Tree.above (components n)) = some t) : Moving P rest t (d.setJournal P.key (P.journal t)) := by
  have hroom : ∀ m ∈ P.names, t.Clear (components m) := fun m hm => Tree.clear_mkdirs ht (P.apart n hn m hm) (h.room m hm)
  refine ⟨h.half.rebacked fun m hm => ?_, h.fresh, h.members, h.todo, h.done, hroom, h.staged⟩
  rw [← Tree.leaf_of_clear (hroom m hm), Tree.leaf_mkdirs ht, Tree.leaf_of_clear (h.room m hm)]

/-- The directories above a backup are made. -/
theorem ensureBackupParents_does {rest : List Bytes} (h : Moving P (n :: rest) b d) :
    Does (ensureBackupParents P.key n) d names (fun _ d' ns => ns = names ∧ ∃ b', Moving P (n :: rest) b' d' ∧
      ((components n).length ≤ 1 ∨ b'.isDirectory (components n).dropLast = true)) (Stops (Open P)) := by
  have hn := h.members n List.mem_cons_self
  rw [ensureBackupParents]
  refine does_get fun s hs _ => ?_
  have hbackup : (s.disk.journal P.key).bind Journal.backup = some b := by
    rw [hs, h.half.at_key]
    rfl
  rw [hbackup]
  dsimp only
  rw [assertSafe_pure (h.room n hn)]
  refine does_bind (Q := fun _ d' ns => d' = d ∧ ns = names) (does_pure ⟨rfl, rfl⟩) ?_
  rintro - d' ns ⟨rfl, rfl⟩
  rcases parent_cases (components n) with ⟨hnone, hshort⟩ | hparent
  · rw [if_pos hnone]
    exact does_pure ⟨rfl, b, h, .inl hshort⟩
  · rw [if_neg (List.ne_nil_of_mem hparent)]
    obtain ⟨t, ht⟩ := Tree.mkdirs_clear (h.room n hn)
    refine does_command (updateJournal_some (k := P.journal t) h.half.at_key ?_) (fun e he => ⟨he, b, h.half⟩)
      ⟨rfl, t, h.rebacked hn ht, .inr (Tree.isDirectory_of_mkdirs ht hparent)⟩
    simp only [Plan.journal, Option.bind_eq_bind, Option.bind_some, ht]

theorem SameFiles.moving {rest : List Bytes} (h : SameFiles P d d') (hmoving : Moving P rest b d) : Moving P rest b d' where
  half := h.half hmoving.half
  fresh := hmoving.fresh
  members := hmoving.members
  todo m hm := (h.leaf _).trans (hmoving.todo m hm)
  done m hm hno := (h.leaf _).trans (hmoving.done m hm hno)
  room := hmoving.room
  staged := by rw [h.staged]; exact hmoving.staged

/-- The place of a member is empty, and what was there is in the backup. -/
structure Vacant (P : Plan) (n : Bytes) (rest : List Bytes) (b : Files) (d : Disk) : Prop where
  half : Half P b d
  fresh : (n :: rest).Nodup
  members : ∀ m ∈ n :: rest, m ∈ P.names
  kept : P.there n = true → b.lookup (components n) = P.live.lookup (components n)
  parent : (components n).length ≤ 1 ∨ d.live.isDirectory (components n).dropLast = true
  todo : ∀ m ∈ rest, d.live.leaf (components m) = P.before (components m)
  done : ∀ m ∈ P.names, m ∉ n :: rest → d.live.leaf (components m) = P.staged.leaf (components m)
  room : ∀ m ∈ P.names, b.Clear (components m)
  staged : ∃ t, d.staged = some t ∧ ∀ m ∈ n :: rest, t.leaf (components m) = P.staged.leaf (components m)

theorem components_ne (h : m ≠ n) : components m ≠ components n := fun hsame => h (components_injective hsame)

theorem dropLast_ne {p : List Bytes} (h : 1 < p.length) : p.dropLast ≠ p := by
  intro heq
  have hlength := congrArg List.length heq
  rw [List.length_dropLast] at hlength
  omega

/-- What is in the place of a member moves to the backup. -/
theorem setAside_vacant {rest : List Bytes} (h : Moving P (n :: rest) b d) (hthere : P.there n = true)
    (hbackup : (components n).length ≤ 1 ∨ b.isDirectory (components n).dropLast = true)
    (hparent : (components n).length ≤ 1 ∨ d.live.isDirectory (components n).dropLast = true) :
    ∃ d' b', d.setAside P.key (components n) = some d' ∧ Vacant P n rest b' d' := by
  have hn := h.members n List.mem_cons_self
  obtain ⟨c, hc⟩ := Plan.before_present hn hthere
  have hfile : Node.file c ≠ .directory := by intro heq; cases heq
  have hleaf : d.live.leaf (components n) = some (.file c) := by rw [h.todo n List.mem_cons_self, Plan.before_eq hn, hc]
  obtain ⟨b', hb'⟩ := Tree.put_clear (h.room n hn) hbackup (.file c)
  obtain ⟨hkept, hothers⟩ := Tree.lookup_put hb'
  have hfresh := (List.nodup_cons.mp h.fresh).1
  have hrest : ∀ m, m ≠ n → (Tree.leaf (d.live.erase (components n)) (components m)) = d.live.leaf (components m) :=
    fun m hne => Tree.leaf_erase_ne (components_ne hne)
  refine ⟨{ d.setJournal P.key (P.journal b') with live := d.live.erase (components n) }, b', ?_, ?_⟩
  · rw [Disk.setAside, h.half.at_key]
    simp only [Option.bind_eq_bind, Option.bind_some, Plan.journal, Tree.rename_leaf hleaf hb']
  · refine ⟨⟨Option.isSome_map.trans h.half.there, fun k => journals_set h.half.there h.half.journal k, fun p hp => ?_,
      fun m hm => Tree.clear_erase (h.half.clear m hm), fun m hm hyes => ?_⟩, h.fresh, h.members, fun _ => hkept.trans hc.symm, ?_,
      fun m hm => ?_, fun m hm hno => ?_, fun m hm => ?_, h.staged⟩
    · have hother : p ≠ components n := fun heq => hp (heq ▸ List.mem_map_of_mem hn)
      exact (Tree.leaf_erase_ne hother).trans (h.half.others p hp)
    · by_cases heq : m = n
      · subst heq
        exact .inl (hkept.trans hc.symm)
      · rw [hothers _ (components_ne heq)]
        exact (h.half.held m hm hyes).imp_right fun hgone => ⟨hgone.1, (hrest m heq).trans hgone.2⟩
    · rcases Nat.lt_or_ge 1 (components n).length with hlong | hshort
      · refine .inr ?_
        rw [Tree.isDirectory_congr (AList.lookup_erase_ne (dropLast_ne hlong))]
        exact hparent.resolve_left (Nat.not_le.mpr hlong)
      · exact .inl hshort
    · exact (hrest m fun heq => hfresh (heq ▸ hm)).trans (h.todo m (List.mem_cons_of_mem n hm))
    · exact (hrest m fun heq => hno (heq ▸ List.mem_cons_self)).trans (h.done m hm hno)
    · exact Tree.clear_put hb' hfile (P.apart m hm n hn) (h.room m hm)

/-- Where nothing was, nothing is to be moved. -/
theorem Moving.vacant {rest : List Bytes} (h : Moving P (n :: rest) b d) (hthere : P.there n = false)
    (hparent : (components n).length ≤ 1 ∨ d.live.isDirectory (components n).dropLast = true) : Vacant P n rest b d where
  half := h.half
  fresh := h.fresh
  members := h.members
  kept hyes := by rw [hthere] at hyes; cases hyes
  parent := hparent
  todo m hm := h.todo m (List.mem_cons_of_mem n hm)
  done := h.done
  room := h.room
  staged := h.staged

/-- The staged file moves to the empty place. -/
theorem bringIn_moving {rest : List Bytes} (h : Vacant P n rest b d) :
    ∃ d', d.bringIn (components n) = some d' ∧ Moving P rest b d' := by
  have hn := h.members n List.mem_cons_self
  obtain ⟨c, hc⟩ := P.file n hn
  have hfile : Node.file c ≠ .directory := by intro heq; cases heq
  have hleaf : P.staged.leaf (components n) = some (.file c) := Tree.leaf_of_lookup hc hfile
  obtain ⟨t, ht, hstaged⟩ := h.staged
  obtain ⟨live, hput⟩ := Tree.put_clear (h.half.clear n hn) h.parent (.file c)
  obtain ⟨hplace, hothers⟩ := Tree.leaf_put hput hfile
  obtain ⟨hfresh, hnodup⟩ := List.nodup_cons.mp h.fresh
  have hrest : ∀ m, m ≠ n → live.leaf (components m) = d.live.leaf (components m) := fun m hne => hothers _ (components_ne hne)
  refine ⟨{ d with live, staged := some (t.erase (components n)) }, ?_, ?_⟩
  · rw [Disk.bringIn, ht]
    have hrename := Tree.rename_leaf ((hstaged n List.mem_cons_self).trans hleaf) hput
    simp only [Option.bind_eq_bind, Option.bind_some, hrename]
  · refine ⟨⟨h.half.there, h.half.journal, fun p hp => ?_, fun m hm => ?_, fun m hm hyes => ?_⟩, hnodup,
      fun m hm => h.members m (List.mem_cons_of_mem n hm), fun m hm => ?_, fun m hm hno => ?_, h.room,
      t.erase (components n), rfl, fun m hm => ?_⟩
    · exact (hothers p fun heq => hp (heq ▸ List.mem_map_of_mem hn)).trans (h.half.others p hp)
    · exact Tree.clear_put hput hfile (P.apart m hm n hn) (h.half.clear m hm)
    · by_cases heq : m = n
      · subst heq
        exact .inl (h.kept hyes)
      · exact (h.half.held m hm hyes).imp_right fun hgone => ⟨hgone.1, (hrest m heq).trans hgone.2⟩
    · exact (hrest m fun heq => hfresh (heq ▸ hm)).trans (h.todo m hm)
    · by_cases heq : m = n
      · subst heq
        exact hplace.trans hleaf.symm
      · exact (hrest m heq).trans (h.done m hm fun hin => (List.mem_cons.mp hin).elim heq hno)
    · have hne : m ≠ n := fun heq => hfresh (heq ▸ hm)
      exact (Tree.leaf_erase_ne (components_ne hne)).trans (hstaged m (List.mem_cons_of_mem n hm))

/-- A member is moved, with what was in its place. -/
theorem promoteMember_does {rest : List Bytes} (h : Moving P (n :: rest) b d) :
    Does (promoteMember P.key n) d names (fun _ d' ns => ns = names ∧ ∃ b', Moving P rest b' d') (Stops (Open P)) := by
  have hn := h.members n List.mem_cons_self
  rw [promoteMember]
  refine does_bind (ensureBackupParents_does h) ?_
  rintro - d₁ ns ⟨rfl, b₁, h₁, hbackup⟩
  refine does_bind ((ensureParents_does hn (h₁.half.clear n hn)).mono (fun _ _ _ h => h) ?_) ?_
  · rintro e d' ⟨hstop, rfl⟩
    exact ⟨hstop, b₁, h₁.half⟩
  rintro - d₂ ns ⟨rfl, hsame, hparent⟩
  have h₂ := hsame.moving h₁
  refine does_get fun s hs _ => ?_
  have hthere : (s.disk.live.lookup (components n)).isSome = P.there n := by
    rw [hs, ← Tree.leaf_of_clear (h₂.half.clear n hn), h₂.todo n List.mem_cons_self, Plan.before_eq hn]
    rfl
  have hbring : ∀ d' b', Vacant P n rest b' d' → Does (command true (Disk.bringIn (components n))) d' ns
      (fun _ d' ns' => ns' = ns ∧ ∃ b', Moving P rest b' d') (Stops (Open P)) := by
    intro d' b' hvacant
    obtain ⟨d'', hbring, hmoving⟩ := bringIn_moving hvacant
    exact does_command hbring (fun e he => ⟨he, b', hvacant.half⟩) ⟨rfl, b', hmoving⟩
  show Does (if (s.disk.live.lookup (components n)).isSome = true then
    command true (Disk.setAside P.key (components n)) >>= fun _ => command true (Disk.bringIn (components n))
    else command true (Disk.bringIn (components n))) _ _ _ _
  rw [hthere]
  split
  next hyes =>
    obtain ⟨d', b', haside, hvacant⟩ := setAside_vacant h₂ hyes hbackup hparent
    refine does_bind (Q := fun _ d'' ns' => d'' = d' ∧ ns' = ns) (does_command haside (fun e he => ⟨he, b₁, h₂.half⟩) ⟨rfl, rfl⟩) ?_
    rintro - d'' ns' ⟨rfl, rfl⟩
    exact hbring d'' b' hvacant
  next hno => exact hbring d₂ b₁ (h₂.vacant (Bool.eq_false_iff.mpr hno) hparent)

/-- When every member is moved the files are those of the deployment. -/
theorem Moving.new (h : Moving P [] b d) : P.New d.live := by
  refine ⟨fun p => ?_, h.half.clear⟩
  unfold Plan.after
  split
  next hmem =>
    obtain ⟨n, hn, rfl⟩ := List.mem_map.mp hmem
    exact h.done n hn List.not_mem_nil
  next hno => exact h.half.others p hno

/-! ## The transaction ends -/

/-- The states in which the transaction can be stopped before it commits. -/
def Early (P : Plan) (d : Disk) : Prop := Settled P.Old d ∨ Open P d

/-- The transaction has committed. -/
structure Late (P : Plan) (d : Disk) : Prop where
  new : P.New d.live
  prepared : ∀ token, d.journal (token, .prepared) = none

theorem Late.settled (h : Late P d) : Settled P.New d := ⟨h.new, idle_of_none h.prepared⟩

/-- The transaction brings every file and commits. -/
theorem commit_does (h : Ready P d) :
    Does (commit P.token) d P.moved (fun _ d' _ => P.New d'.live ∧ Sole (P.token, .committed) d')
      (Stops (Early P)) := by
  rw [commit]
  refine does_bind ((writeJournal_does h).mono (fun _ _ _ h => h) fun e d' hstop => ⟨hstop.1, .inl hstop.2⟩) ?_
  rintro - d₁ ns ⟨rfl, hmoving⟩
  refine does_get fun s _ hnames => ?_
  rw [hnames]
  refine does_bind (does_forEach (fun l d' ns => ns = P.moved ∧ ∃ b, Moving P l b d') ?_ ⟨rfl, ∅, hmoving⟩) ?_
  · rintro n rest d' ns ⟨rfl, b, hmember⟩
    exact (promoteMember_does hmember).mono (fun _ _ _ h => h) fun e d'' hstop => ⟨hstop.1, .inr hstop.2⟩
  rintro - d₂ ns ⟨rfl, b, hmoved⟩
  refine (rename_does hmoved.half (by decide : Kind.committed ≠ .prepared)).mono ?_
    fun e d' hstop => ⟨hstop.1, .inr hstop.2⟩
  rintro - d₃ ns ⟨-, hlive, -, hsole⟩
  exact ⟨hlive ▸ hmoved.new, hsole⟩

theorem removeStage_does (h : Late P d) (hnone : d.journals = none) :
    Does (removeStage order) d names (fun _ d' _ => Late P d' ∧ d'.journals = none) (Stops (Late P)) := by
  rw [removeStage]
  refine does_bind (does_forEach (fun _ d' _ => Late P d' ∧ d'.journals = none) ?_ ⟨h, hnone⟩) ?_
  · rintro r rs d' ns ⟨hlate, hgone⟩
    exact does_command rfl (fun _ he => ⟨he, hlate⟩) ⟨⟨hlate.new, hlate.prepared⟩, hgone⟩
  · rintro - d' ns ⟨hlate, hgone⟩
    exact does_command rfl (fun _ he => ⟨he, hlate⟩) ⟨⟨hlate.new, hlate.prepared⟩, hgone⟩

/-- What is left of a committed transaction is removed. -/
theorem cleanUp_does (hnew : P.New d.live) (hsole : Sole (P.token, .committed) d) :
    Does (cleanUp order P.token) d names (fun _ d' _ => Late P d' ∧ d'.journals = none) (Stops (Late P)) := by
  have hkeep : ∀ d', Beside (P.token, .committed) d d' → Late P d' := by
    intro d' hbeside
    refine ⟨hbeside.live ▸ hnew, fun token => ?_⟩
    rw [hbeside.others _ fun heq => Kind.noConfusion (Prod.mk.inj heq).2]
    exact hsole.prepared (by decide) token
  rw [cleanUp]
  refine does_bind (removeJournal_does hsole.journal fun d' e hbeside he => ⟨he, hkeep d' hbeside⟩) ?_
  rintro - d₁ ns ⟨-, hbeside, hgone⟩
  have hnone : ∀ k, d₁.journal k = none := by
    intro k
    by_cases heq : k = (P.token, .committed)
    · rw [heq, hgone]
    · rw [hbeside.others k heq, hsole.others k heq]
  refine does_bind (Q := fun _ d' _ => d' = { d₁ with journals := none })
    (does_command (dropRoot_some (hbeside.there.trans hsole.there) hnone)
      (fun e he => ⟨he, hkeep d₁ hbeside⟩) rfl) ?_
  rintro - d₂ ns rfl
  exact removeStage_does ⟨(hkeep d₁ hbeside).new, fun _ => rfl⟩ rfl

/-! ## Before the transaction -/

/-- A member passed what `promote` asks. -/
structure Passed (staged live : Files) (n : Bytes) : Prop where
  ways : ∀ q ∈ Tree.above (components n), staged.leaf q = none
  file : ∃ c, staged.lookup (components n) = some (.file c)
  way : ∀ q ∈ Tree.above (components n), live.leaf q = none
  prior : live.lookup (components n) = none ∨ ∃ c, live.lookup (components n) = some (.file c)

theorem Passed.clear {staged live : Files} (h : Passed staged live n) : live.Clear (components n) := by
  refine ⟨h.way, Bool.eq_false_iff.mpr fun hdir => ?_⟩
  rw [Tree.isDirectory_iff] at hdir
  rcases h.prior with hnone | ⟨c, hfile⟩
  · rw [hnone] at hdir
    cases hdir
  · rw [hfile] at hdir
    cases hdir

/-- No member is in the way of another. -/
theorem Passed.apart {staged live : Files} (h : Passed staged live n) (h' : Passed staged live m) :
    components m ∉ Tree.above (components n) := by
  intro hin
  obtain ⟨c, hfile⟩ := h'.file
  have hleaf := Tree.leaf_of_lookup hfile (by intro heq; cases heq)
  rw [h.ways _ hin] at hleaf
  cases hleaf

theorem does_fail {α : Type} {text : String} {Q : α → Disk → List Bytes → Prop} (h : ∀ t, E (.failed t) d) :
    Does (fail text : Act α) d names Q E := does_raise (h _) (by intro heq; cases heq) (by intro heq; cases heq)

theorem assertSafe_does {t : Files} :
    Does (assertSafeAncestors t n) d names (fun _ d' ns => (d' = d ∧ ns = names) ∧ ∀ q ∈ Tree.above (components n), t.leaf q = none)
      (fun e d' => d' = d ∧ e ≠ .beyond) := by
  unfold assertSafeAncestors
  split
  next hall => exact does_pure ⟨⟨rfl, rfl⟩, fun q hq => Option.isNone_iff_eq_none.mp (List.all_eq_true.mp hall q hq)⟩
  next => exact does_raise ⟨rfl, by intro heq; cases heq⟩ (by intro heq; cases heq) (by intro heq; cases heq)

/-- A member is asked about, and nothing is changed. -/
theorem checkMember_does {staged : Files} :
    Does (checkMember staged n) d names (fun _ d' ns => (d' = d ∧ ns = names) ∧ Passed staged d.live n)
      (fun e d' => d' = d ∧ e ≠ .beyond) := by
  rw [checkMember]
  refine does_bind assertSafe_does ?_
  rintro - d' ns ⟨⟨rfl, rfl⟩, hways⟩
  split
  next c hfile =>
    refine does_get fun s hs _ => ?_
    rw [hs]
    refine does_bind assertSafe_does ?_
    rintro - d'' ns' ⟨⟨rfl, rfl⟩, hway⟩
    split
    next hnone => exact does_pure ⟨⟨rfl, rfl⟩, hways, ⟨c, hfile⟩, hway, .inl hnone⟩
    next c' hprior => exact does_pure ⟨⟨rfl, rfl⟩, hways, ⟨c, hfile⟩, hway, .inr ⟨c', hprior⟩⟩
    next => exact does_raise ⟨rfl, by intro heq; cases heq⟩ (by intro heq; cases heq) (by intro heq; cases heq)
  next => exact does_raise ⟨rfl, by intro heq; cases heq⟩ (by intro heq; cases heq) (by intro heq; cases heq)

theorem loadNames_does {o : Option Bytes} :
    Does (loadNames o) d names
      (fun _ d' ns => d' = d ∧ ∃ file, o = some file ∧ loadManifest file = .ok ns ∧ ns.all outside = true)
      (fun e d' => d' = d ∧ ((∀ n ∈ membersOf o, outside n = true) → e ≠ .beyond)) := by
  unfold loadNames
  split
  next => exact does_fail fun _ => ⟨rfl, fun _ => by intro heq; cases heq⟩
  next file =>
    split
    next => exact does_raise ⟨rfl, fun _ => by intro heq; cases heq⟩ (by intro heq; cases heq) (by intro heq; cases heq)
    next ns hload =>
      split
      next hout => exact fun _ _ => ⟨⟨rfl, file, rfl, hload, hout⟩, id⟩
      next hno =>
        refine does_raise ⟨rfl, fun hall => absurd (List.all_eq_true.mpr fun n hn => hall n ?_) hno⟩
          (by intro heq; cases heq) (by intro heq; cases heq)
        rw [membersOf, Option.elim_some, hload]
        exact hn

theorem journal_makeRoot (k : Bytes × Kind) : d.makeRoot.journal k = d.journal k := by
  rw [Disk.makeRoot, Disk.journal, Disk.journal]
  cases d.journals with
  | none => exact AList.lookup_empty _
  | some js => rfl

theorem listed_of_manifest {t : Files} {file : Bytes} (ht : d.staged = some t) (h : stagedManifest d = some file) :
    t.lookup [utf8 "deploy", utf8 "manifest-v3.txt"] = some (.file file) := by
  unfold stagedManifest at h
  rw [ht, Option.bind_some] at h
  split at h
  next hfile =>
    cases h
    exact hfile
  next => cases h

/-- The stage passed what `promote` asks. -/
structure Accepted (d : Disk) (t : Files) (file : Bytes) (names : List Bytes) : Prop where
  staged : d.staged = some t
  manifest : stagedManifest d = some file
  loads : loadManifest file = .ok names
  out : names.all outside = true
  passed : ∀ n ∈ names, Passed t d.live n

theorem Accepted.members {t : Files} {file : Bytes} (h : Accepted d t file names) : d.members = names := by
  rw [Disk.members, membersOf, h.manifest, Option.elim_some, h.loads]
  rfl

/-- The transaction that brings the stage to a tree in which the ways are free. -/
def Accepted.plan {t : Files} {file : Bytes} (h : Accepted d t file names) (token : Bytes) (live : Files)
    (moved : List Bytes) (hsame : moved.Perm names)
    (hprior : ∀ n ∈ names, live.lookup (components n) = none ∨ ∃ c, live.lookup (components n) = some (.file c))
    (hclear : ∀ n ∈ names, live.Clear (components n)) : Plan where
  token := token
  live := live
  staged := t
  manifest := file
  names := names
  moved := moved
  loads := h.loads
  out := h.out
  same := hsame
  listed := listed_of_manifest h.staged h.manifest
  file n hn := (h.passed n hn).file
  prior := hprior
  clear := hclear
  apart n hn m hm := (h.passed n hn).apart (h.passed m hm)

/-- The stage is asked about, and nothing is changed. -/
theorem check_does :
    Does check d names (fun _ d' ns => d' = d ∧ ∃ t file, Accepted d t file ns)
      (fun e d' => d' = d ∧ (d.Outside → e ≠ .beyond)) := by
  rw [check]
  refine does_get fun s hs _ => ?_
  rw [hs]
  split
  next => exact does_fail fun _ => ⟨rfl, fun _ => by intro heq; cases heq⟩
  next staged hstaged =>
  refine does_bind loadNames_does ?_
  rintro - d₁ ns ⟨rfl, manifest, hmanifest, hload, hout⟩
  refine does_get fun s _ hnames => ?_
  rw [hnames]
  refine (does_forEach (fun l d' ns' => (d' = d₁ ∧ ns' = ns) ∧ ∀ n ∈ ns, n ∉ l → Passed staged d₁.live n) ?_
    ⟨⟨rfl, rfl⟩, fun n hn hno => absurd hn hno⟩).mono ?_ fun _ _ h => h
  · rintro n l d' ns' ⟨⟨rfl, rfl⟩, hpassed⟩
    refine checkMember_does.mono ?_ fun e d'' h => ⟨h.1, fun _ => h.2⟩
    rintro - d'' ns'' ⟨hsame, hn⟩
    refine ⟨hsame, fun m hm hno => ?_⟩
    by_cases heq : m = n
    · exact heq ▸ hn
    · exact hpassed m hm fun hin => (List.mem_cons.mp hin).elim heq hno
  · rintro - d₂ ns' ⟨⟨rfl, rfl⟩, hpassed⟩
    exact ⟨rfl, staged, manifest, hstaged, hmanifest, hload, hout, fun n hn => hpassed n hn List.not_mem_nil⟩

/-- The transaction that is to be made of the stage. -/
structure Planned (d : Disk) (token : Bytes) (P : Plan) : Prop where
  token : P.token = token
  names : P.names = d.members
  staged : d.staged = some P.staged

/-- Before the transaction only journals that are not ready are removed. -/
theorem prepare_idle (token : Bytes) (hidle : d.Idle) :
    Does (prepare order) d names
      (fun _ d' ns => ∃ P : Plan, Planned d token P ∧ P.live = d.live ∧ ns = P.moved ∧ Ready P d')
      (fun e d' => Calm d d' ∧ (d.Outside → e ≠ .beyond)) := by
  have hstop : ∀ {d' : Disk} {e : Stop}, Calm d d' → e = .crash ∨ e = .interrupted →
      Calm d d' ∧ (d.Outside → e ≠ .beyond) := by
    rintro d' e hcalm (rfl | rfl)
    · exact ⟨hcalm, fun _ => by intro heq; cases heq⟩
    · exact ⟨hcalm, fun _ => by intro heq; cases heq⟩
  rw [prepare]
  refine does_bind (check_does.mono (fun _ _ _ h => h) ?_) ?_
  · rintro e d' ⟨rfl, hfollowed⟩
    exact ⟨⟨rfl, rfl, hidle⟩, hfollowed⟩
  rintro - d₂ ns' ⟨rfl, staged, manifest, haccepted⟩
  have hrooted : Calm d₂ d₂.makeRoot :=
    ⟨rfl, rfl, fun token j hj => hidle token j ((journal_makeRoot _).symm.trans hj)⟩
  refine does_bind (Q := fun _ d' ns => d' = d₂.makeRoot ∧ ns = ns')
    (does_command rfl (fun _ => hstop ⟨rfl, rfl, hidle⟩) ⟨rfl, rfl⟩) ?_
  rintro - d₃ ns ⟨rfl, rfl⟩
  refine does_bind (recover_idle hrooted.idle fun d' e h => hstop ⟨h.live, h.staged, h.idle⟩) ?_
  rintro - d₄ ns' ⟨rfl, hclean, hgone⟩
  refine does_command rfl (fun _ => hstop ⟨hclean.live, hclean.staged, hclean.idle⟩)
    ⟨haccepted.plan token d₂.live ns' (.refl _) (fun n hn => (haccepted.passed n hn).prior)
      fun n hn => (haccepted.passed n hn).clear, ⟨rfl, haccepted.members.symm, haccepted.staged⟩, rfl, rfl,
      hclean.live, hclean.staged.trans haccepted.staged, rfl, fun k => ?_⟩
  rw [journal_makeRoot, Disk.journal, hgone]
  rfl

/-- In the places of the members there is what was there or what was staged. -/
theorem Planned.kept {token : Bytes} {t : Files} (h : Planned d token P) (hlive : P.live = d.live) (ht : P.Old t) :
    d.Kept t := by
  refine ⟨funext fun p => by rw [ht.files, Plan.before, hlive]; rfl, fun n hn => ?_⟩
  rw [← h.names] at hn
  rw [← Tree.leaf_of_clear (ht.clear n hn), ht.files, Plan.before_eq hn, hlive]

theorem Planned.brought {token : Bytes} {t : Files} (h : Planned d token P) (hlive : P.live = d.live)
    (ht : P.New t) : d.Brought t := by
  refine ⟨funext fun p => ?_, fun n hn => ?_⟩
  · rw [ht.files, Plan.after, Disk.deployed, h.names, h.staged, hlive]
    rfl
  · rw [← h.names] at hn
    obtain ⟨c, hc⟩ := P.file n hn
    rw [← Tree.leaf_of_clear (ht.clear n hn), ht.files, Plan.after, if_pos (List.mem_map_of_mem hn), h.staged,
      Option.bind_some, hc]
    exact Tree.leaf_of_lookup hc (by intro heq; cases heq)

/-! ## Promotion -/

theorem Does.wp {α : Type} {m : Act α} {Q : α → Disk → List Bytes → Prop} (h : Does m d names Q E) {s : Shell}
    (hs : s.disk = d) (hnames : s.names = names) :
    Prog.wp m (fun a s' => Q a s'.disk s'.names) (fun e s' => E e s'.disk) s := by
  subst hs hnames
  exact wp_mono (h s.left s.signal) (fun _ _ h => h.1) fun _ _ h => h.1

/-- A journal that is not ready is not rolled back. -/
theorem rollback_idle {token : Bytes} (hidle : d.Idle) :
    Does (rollbackPrepared strict (token, .prepared)) d names (fun _ _ _ => False)
      (fun e d' => d' = d ∧ ∃ text, e = .failed text) := by
  rw [rollbackPrepared]
  refine does_bind (Q := fun _ _ _ => False) ?_ fun _ _ _ h => h.elim
  rw [validateJournal]
  refine does_get fun s hs _ => ?_
  rw [hs]
  cases hj : d.journal (token, .prepared) with
  | none => exact does_fail fun t => ⟨rfl, t, rfl⟩
  | some j =>
    dsimp only
    split
    · exact does_fail fun t => ⟨rfl, t, rfl⟩
    · exact does_fail fun t => ⟨rfl, t, rfl⟩
    · rw [if_pos (hidle token j hj)]
      exact does_fail fun t => ⟨rfl, t, rfl⟩

/-- How `promote` can end early. -/
structure Ended (old new : Files → Prop) (e : Stop) (d : Disk) : Prop where
  recoverable : Recoverable old new d
  whole : e ≠ .crash → old d.live ∨ new d.live
  refused : e ≠ .crash → e ≠ .interrupted → old d.live
  followed : e ≠ .beyond

theorem Settled.ended {old new : Files → Prop} {e : Stop} (h : Settled old d) (he : e ≠ .beyond) : Ended old new e d :=
  ⟨.old h, fun _ => .inl h.files, fun _ _ => h.files, he⟩

theorem Late.ended (h : Late P d) (old : Files → Prop) : Ended old P.New .interrupted d :=
  ⟨.new h.settled, fun _ => .inr h.new, fun _ hno => absurd rfl hno, by intro heq; cases heq⟩

/-- The trap before the commit leaves what a recovery undoes, and undoes it itself unless the machine stops. -/
theorem rollback_early {s : Shell} (h : Early P s.disk) :
    Prog.wp (rollback P.token .interrupted) (fun _ _ => False)
      (fun e s' => Early P s'.disk ∧ (e ≠ .crash → P.Old s'.disk.live) ∧ e ≠ .beyond) s := by
  rw [rollback]
  refine (wp_bind).mpr ((wp_get).mpr ((wp_ite).mpr ⟨fun _ => (wp_bind).mpr ((wp_attempt).mpr ?_), fun hno => ?_⟩))
  · rcases h with hold | ⟨b, hhalf⟩
    · refine wp_mono ((rollback_idle hold.idle).wp rfl rfl) (fun _ _ hno => hno.elim) ?_
      rintro e s' ⟨hsame, text, rfl⟩
      rw [← hsame] at hold
      exact ⟨.inl hold, fun _ => hold.files, by intro heq; cases heq⟩
    · refine wp_mono ((rollback_does hhalf).wp rfl rfl) ?_ ?_
      · rintro - s' ⟨-, hundone⟩
        exact ⟨.inr hundone.half, fun _ => hundone.old, by intro heq; cases heq⟩
      · rintro e s' ⟨rfl | rfl, hopen⟩
        · exact ⟨.inr hopen, fun hno => absurd rfl hno, by intro heq; cases heq⟩
        · exact ⟨.inr hopen, fun hno => absurd rfl hno, by intro heq; cases heq⟩
  · rcases h with hold | ⟨b, hhalf⟩
    · exact ⟨.inl hold, fun _ => hold.files, by intro heq; cases heq⟩
    · rw [← Plan.key, hhalf.at_key] at hno
      exact absurd rfl hno

/-- The trap behind the commit does nothing. -/
theorem rollback_late {s : Shell} (h : Late P s.disk) :
    Prog.wp (rollback P.token .interrupted) (fun _ _ => False)
      (fun e s' => e = .interrupted ∧ s'.disk = s.disk) s := by
  rw [rollback]
  refine (wp_bind).mpr ((wp_get).mpr ((wp_ite).mpr ⟨fun hyes => ?_, fun _ => ⟨rfl, rfl⟩⟩))
  rw [h.prepared] at hyes
  cases hyes

theorem Early.ended {e : Stop} (h : Early P d) (hold : e ≠ .crash → P.Old d.live) (he : e ≠ .beyond) :
    Ended P.Old P.New e d := by
  refine ⟨?_, fun hno => .inl (hold hno), fun hno _ => hold hno, he⟩
  rcases h with hsettled | hopen
  · exact .old hsettled
  · exact .between P (fun _ h => h) hopen

theorem Ended.mono {old new old' new' : Files → Prop} {e : Stop} (h : Ended old new e d) (hold : ∀ t, old t → old' t)
    (hnew : ∀ t, new t → new' t) : Ended old' new' e d :=
  ⟨h.recoverable.mono hold hnew, fun hno => (h.whole hno).imp (hold _) (hnew _), fun hno hno' => hold _ (h.refused hno hno'),
    h.followed⟩

/-- The transaction, its end and the trap. -/
theorem transact_ends (hready : Ready P d) {s : Shell} (hs : s.disk = d) (hnames : s.names = P.moved) :
    Prog.wp (transact order P.token) (fun _ s' => Late P s'.disk ∧ s'.disk.journals = none)
      (fun e s' => Ended P.Old P.New e s'.disk) s := by
  rw [transact]
  refine (wp_bind).mpr ((wp_attempt).mpr (wp_seq (wp_mono ((commit_does hready).wp hs hnames) (fun _ _ h => h) ?_) ?_))
  · rintro e s₁ ⟨rfl | rfl, hearly⟩
    · exact hearly.ended (fun hno => absurd rfl hno) (by intro heq; cases heq)
    · refine wp_mono (rollback_early hearly) (fun _ _ hno => hno.elim) ?_
      exact fun e s₂ ⟨hearly', hold, he⟩ => hearly'.ended hold he
  · rintro - s₁ ⟨hnew, hsole⟩
    refine wp_mono ((cleanUp_does hnew hsole).wp rfl rfl) (fun _ _ h => h) ?_
    rintro e s₂ ⟨rfl | rfl, hlate⟩
    · exact ⟨.new hlate.settled, fun hno => absurd rfl hno, fun hno => absurd rfl hno, by intro heq; cases heq⟩
    · refine wp_mono (rollback_late hlate) (fun _ _ hno => hno.elim) ?_
      rintro e s₃ ⟨rfl, hsame⟩
      rw [← hsame] at hlate
      exact hlate.ended P.Old

theorem checkToken_does {token : Bytes} :
    Does (checkToken token) d names (fun _ d' ns => d' = d ∧ ns = names) (fun e d' => d' = d ∧ e ≠ .beyond) := by
  unfold checkToken
  split
  · exact does_fail fun _ => ⟨rfl, by intro heq; cases heq⟩
  · exact does_pure ⟨rfl, rfl⟩

theorem promote_ends (token : Bytes) (hidle : d.Idle) (hout : d.Outside) {s : Shell} (hs : s.disk = d) :
    Prog.wp (promote order token) (fun _ s' => d.Brought s'.disk.live ∧ s'.disk.journals = none)
      (fun e s' => Ended d.Kept d.Brought e s'.disk) s := by
  have hsame : Settled d.Kept d := ⟨⟨rfl, fun _ _ => rfl⟩, hidle⟩
  rw [promote]
  refine wp_seq (wp_mono (checkToken_does.wp hs rfl) (fun _ _ h => h) ?_) ?_
  · rintro e s' ⟨heq, hfollowed⟩
    rw [← heq] at hsame
    exact heq ▸ hsame.ended hfollowed
  rintro - s₀ ⟨hs₀, -⟩
  refine wp_seq (wp_mono ((prepare_idle token hidle).wp hs₀ rfl) (fun _ _ h => h) ?_) ?_
  · rintro e s' ⟨hcalm, hfollowed⟩
    exact (hsame.calm hcalm).ended (hfollowed hout)
  rintro - s₁ ⟨P, hplanned, hlive, hnames, hready⟩
  have htoken := hplanned.token
  subst htoken
  refine wp_mono (transact_ends hready rfl hnames) ?_ ?_
  · exact fun _ s₂ ⟨hlate, hgone⟩ => ⟨hplanned.brought hlive hlate.new, hgone⟩
  · exact fun e s₂ hended => hended.mono (fun _ => hplanned.kept hlive) fun _ => hplanned.brought hlive

/-! ## Histories -/

theorem state_of_wp {α : Type} {m : Act α} {I : Shell → Prop} {s : Shell} (h : Prog.wp m (fun _ => I) (fun _ => I) s) : I (m.run s).2 := by
  unfold Prog.wp at h
  split at h
  · next hrun => rwa [hrun]
  · next hrun => rwa [hrun]

theorem recoverable_of_whole {old new : Files → Prop} (hgone : d.journals = none) (hfiles : old d.live ∨ new d.live) :
    Recoverable old new d := by
  have hidle : d.Idle := fun token j hj => by
    rw [Disk.journal, hgone] at hj
    cases hj
  exact hfiles.elim (fun h => .old ⟨h, hidle⟩) fun h => .new ⟨h, hidle⟩

theorem recovers_recoverable {old new : Files → Prop} (h : Recoverable old new d) (hrun : Recovers d d') :
    Recoverable old new d' := by
  obtain ⟨order, names, left, signal, rfl⟩ := hrun
  refine state_of_wp (I := fun s => Recoverable old new s.disk)
    (wp_mono ((recover_recoverable h).wp (s := ⟨d, names, left, signal⟩) rfl rfl) ?_ ?_)
  · exact fun _ s hdone => recoverable_of_whole hdone.1 hdone.2
  · exact fun e s hstop => hstop.2

theorem promotes_recoverable (hidle : d.Idle) (hrun : Promotes d d') : Recoverable d.Kept d.Brought d' := by
  obtain ⟨hout, order, token, names, left, signal, rfl⟩ := hrun
  refine state_of_wp (I := fun s => Recoverable d.Kept d.Brought s.disk)
    (wp_mono (promote_ends token hidle hout rfl) ?_ ?_)
  · exact fun _ s hpromoted => recoverable_of_whole hpromoted.2 (.inr hpromoted.1)
  · exact fun e s hended => hended.recoverable

/-- A stage changes nothing of this. -/
theorem Recoverable.stage {old new : Files → Prop} (h : Recoverable old new d) (staged : Option Files) :
    Recoverable old new { d with staged } := by
  cases h with
  | old h => exact .old ⟨h.files, h.idle⟩
  | new h => exact .new ⟨h.files, h.idle⟩
  | between P hold h =>
    obtain ⟨b, hhalf⟩ := h
    exact .between P hold ⟨b, hhalf.there, hhalf.journal, hhalf.others, hhalf.clear, hhalf.held⟩

/-- At every moment a recovery will leave the old files or the new ones. -/
theorem history_recoverable {old new : View} (h : History d old new) :
    Recoverable (fun t => t.leaf = old) (fun t => t.leaf = new) d := by
  induction h with
  | idle h => exact .old ⟨rfl, h⟩
  | recover h hrun ih => exact recovers_recoverable ih hrun
  | stage h staged ih => exact ih.stage staged
  | @deploy d d₁ d' old new h hrecovered staged hrun ih =>
    obtain ⟨order, names, left, signal, s, hok, rfl⟩ := hrecovered
    have hgone := ((@recover_recoverable _ _ order _ _) ih).wp (s := ⟨d, names, left, signal⟩) rfl rfl
    rw [Prog.wp, hok] at hgone
    have hidle : Disk.Idle { s.disk with staged } := fun token j hj => by
      rw [Disk.journal, hgone.1] at hj
      cases hj
    exact (promotes_recoverable hidle hrun).mono (fun _ ht => ht.files) fun _ ht => ht.files

/-- Without journals a recovery does nothing. -/
theorem recover_none (h : d.journals = none) (left : Option Nat) (signal : Option (Option Nat)) :
    (recoverPending order).run ⟨d, names, left, signal⟩ = (.ok (), ⟨d, names, left, signal⟩) := by
  have hnone : d.journals.isNone = true := Option.isNone_iff_eq_none.mpr h
  show (if d.journals.isNone = true then (pure () : Act Unit) else _).run ⟨d, names, left, signal⟩ = _
  rw [if_pos hnone]
  rfl

end

end AtomicLemmas

open AtomicLemmas

variable {d d₁ d₂ : Disk} {old new : View}

/-- A deployment directory with one file, and a stage that replaces it and brings another. -/
def sample : Disk where
  live := [⟨[utf8 "a"], .file (utf8 "old")⟩].toAList
  staged := some [⟨[utf8 "a"], .file (utf8 "new")⟩, ⟨[utf8 "b"], .directory⟩, ⟨[utf8 "b", utf8 "c"], .file (utf8 "more")⟩,
    ⟨[utf8 "deploy"], .directory⟩, ⟨[utf8 "deploy", utf8 "manifest-v3.txt"], .file (utf8 "version=3\na\nb/c\n")⟩].toAList
  journals := none

theorem sample_idle : sample.Idle := by
  intro token j hj
  cases hj

theorem sample_outside : sample.Outside := by
  unfold Disk.Outside
  decide

/-- A promotion from a directory without an open transaction. If it returns, every file of the stage is in its place
and no journal is left. If it is refused, no file has changed. A signal leaves all files as they were or all of them
as they are to be. -/
theorem promote_whole (hidle : d.Idle) (hout : d.Outside) (order : Option (Bytes × Kind) → List Remains) (token : Bytes)
    (names : List Bytes) (left : Option Nat) (signal : Option (Option Nat)) :
    wp (promote order token) (fun _ s => s.disk.files = d.deployed ∧ s.disk.journals = none)
      (fun e s => (e ≠ .crash → s.disk.files = d.files ∨ s.disk.files = d.deployed) ∧
        (e ≠ .crash → e ≠ .interrupted → s.disk.files = d.files) ∧ e ≠ .beyond) ⟨d, names, left, signal⟩ := by
  refine wp_mono (promote_ends token hidle hout rfl) ?_ ?_
  · exact fun _ s h => ⟨h.1.files, h.2⟩
  · exact fun e s h => ⟨fun he => (h.whole he).imp Disk.Kept.files Disk.Brought.files,
      fun he hsignal => (h.refused he hsignal).files, h.followed⟩

theorem promote_whole_sample : wp (promote (fun _ => []) (utf8 "0123456789abcdef01234567"))
    (fun _ s => s.disk.files = sample.deployed ∧ s.disk.journals = none)
    (fun e s => (e ≠ .crash → s.disk.files = sample.files ∨ s.disk.files = sample.deployed) ∧
      (e ≠ .crash → e ≠ .interrupted → s.disk.files = sample.files) ∧ e ≠ .beyond) ⟨sample, [], some 14, some none⟩ :=
  promote_whole sample_idle sample_outside _ _ _ _ _

/-- A promotion that is stopped anywhere, and recoveries that are stopped anywhere: a recovery that nothing stops ends
well. One that ends well leaves every member as it was, or every member as it was staged, and no other file is
changed; a recovery after it changes nothing. -/
theorem promote_crash_atomic (hidle : d.Idle) (hpromote : Promotes d d₁)
    (hrecover : Relation.ReflTransGen Recovers d₁ d₂) (order : Option (Bytes × Kind) → List Remains)
    (names : List Bytes) (left : Option Nat) (signal : Option (Option Nat)) :
    wp (recoverPending order)
      (fun _ s => (d.Kept s.disk.live ∨ d.Brought s.disk.live) ∧ ∀ order names left signal,
        (recoverPending order).run ⟨s.disk, names, left, signal⟩ = (.ok (), ⟨s.disk, names, left, signal⟩))
      (fun e _ => (e = .crash ∨ e = .interrupted) ∧ left ≠ none) ⟨d₂, names, left, signal⟩ := by
  have hrecoverable : Recoverable d.Kept d.Brought d₂ := by
    induction hrecover with
    | refl => exact promotes_recoverable hidle hpromote
    | tail _ hrun ih => exact recovers_recoverable ih hrun
  refine wp_mono (recover_recoverable hrecoverable left signal) ?_ ?_
  · exact fun _ s h => ⟨h.1.2, fun _ _ => recover_none h.1.1⟩
  · exact fun e s h => ⟨h.1.1, fun hnone => h.1.1.elim (h.2 hnone).1 (h.2 hnone).2⟩

/-- The machine stops when a member has been moved, and again in the recovery. -/
theorem promote_crash_atomic_sample :
    let crashed := ((promote (fun _ => []) (utf8 "0123456789abcdef01234567")).run ⟨sample, [], some 14, none⟩).2.disk
    let again := ((recoverPending fun _ => []).run ⟨crashed, [], some 2, none⟩).2.disk
    wp (recoverPending fun _ => [])
      (fun _ s => (sample.Kept s.disk.live ∨ sample.Brought s.disk.live) ∧ ∀ order names left signal,
        (recoverPending order).run ⟨s.disk, names, left, signal⟩ = (.ok (), ⟨s.disk, names, left, signal⟩))
      (fun e _ => (e = .crash ∨ e = .interrupted) ∧ (none : Option Nat) ≠ none) ⟨again, [], none, none⟩ :=
  promote_crash_atomic sample_idle ⟨sample_outside, _, _, _, _, _, rfl⟩ (.single ⟨_, _, _, _, rfl⟩) _ _ _ _

/-- Whatever has been stopped, and wherever: a recovery that nothing stops ends well, and any recovery that ends well
leaves all of the old files or all of the new ones, and no journal. -/
theorem deployment_atomic (h : History d old new) (order : Option (Bytes × Kind) → List Remains) (names : List Bytes)
    (left : Option Nat) (signal : Option (Option Nat)) :
    wp (recoverPending order) (fun _ s => s.disk.journals = none ∧ (s.disk.files = old ∨ s.disk.files = new))
      (fun e _ => (e = .crash ∨ e = .interrupted) ∧ left ≠ none) ⟨d, names, left, signal⟩ := by
  refine wp_mono (recover_recoverable (history_recoverable h) left signal) (fun _ _ h => h.1) fun e s hstop => ⟨hstop.1.1, fun hnone => ?_⟩
  exact hstop.1.1.elim (hstop.2 hnone).1 (hstop.2 hnone).2

/-- The machine stops in the middle of a promotion, and again in the recovery. -/
theorem deployment_atomic_sample :
    let crashed := ((promote (fun _ => []) (utf8 "0123456789abcdef01234567")).run ⟨sample, [], some 14, none⟩).2.disk
    let again := ((recoverPending fun _ => []).run ⟨crashed, [], some 2, none⟩).2.disk
    wp (recoverPending fun _ => [])
      (fun _ s => s.disk.journals = none ∧ (s.disk.files = sample.files ∨ s.disk.files = sample.deployed))
      (fun e _ => (e = .crash ∨ e = .interrupted) ∧ (none : Option Nat) ≠ none) ⟨again, [], none, none⟩ :=
  deployment_atomic (.recover (.deploy (.idle sample_idle) ⟨fun _ => [], [], none, none, _, rfl, rfl⟩ sample.staged
    ⟨sample_outside, _, _, _, _, _, rfl⟩) ⟨_, _, _, _, rfl⟩) _ _ _ _

end OmtClient.Deploy.Transaction
