import OmtClient.Web.App

/-!
# Who may change what

Which requests to the Web frontend can change anything: files, playback, the host. A
program is quiet when it leaves the files and the log alone, looks when it runs
nothing but `control status` and the sources' discovery, and is steady when it leaves
the password and the secret alone.

1. `guarded_cases`, `guarded_runs`: what follows the preamble of an authenticated POST
   runs with a current session and its token, and only then.
2. `routes_safe`: every row of the table keeps to what its methods allow.
3. `changes_need_session`: so does every request.
-/

namespace OmtClient.Web.App

open OmtClient.Lib OmtClient.Common OmtClient.Omt Prog Http
open Session (Auth Crypto sessionIdHex)

variable {c : Crypto} {F : Type} {site : Site F} {req : Request}

/-- What was done outside and changed something. -/
def State.changes (s : State c) : List Effect := s.log.filter Effect.changes

def State.inner (s : State c) : Auth c × (File → Option Bytes) × List Effect := (s.auth, s.files, s.log)

def State.durable (s : State c) : Auth c × (File → Option Bytes) × List Effect := (s.auth, s.files, s.changes)

def Quiet {α : Type} (m : Act c α) : Prop := Keeps State.inner m

def Looks {α : Type} (m : Act c α) : Prop := Keeps State.durable m

def Steady {α : Type} (m : Act c α) : Prop := Keeps State.auth m

/-- The request's cookie names a session that is current when the request comes. -/
structure Current (site : Site F) (req : Request) (s : State c) (id : String) : Prop where
  cookie : requestCookie req sessionCookie sessionCookieMax = some id
  length : (utf8 id).length = sessionIdHex
  current : s.auth.isCurrent site.dec id (site.outside.epoch s.tick) (s.files .registry) = true

/-- The request carries a current session and the token of that session. -/
def Authorised (site : Site F) (req : Request) (s : State c) : Prop :=
  ∃ id token, Current site req s id ∧ (Form.parse req.body).get "csrf_token" = some token ∧
    s.auth.verifyCsrf "session" id token = true

namespace AccessLemmas

theorem Quiet.looks {α : Type} {m : Act c α} (h : Quiet m) : Looks m :=
  Keeps.coarser (fun v => (v.1, v.2.1, v.2.2.filter Effect.changes)) (fun _ => rfl) h

theorem Looks.steady {α : Type} {m : Act c α} (h : Looks m) : Steady m :=
  Keeps.coarser Prod.fst (fun _ => rfl) h

theorem Quiet.steady {α : Type} {m : Act c α} (h : Quiet m) : Steady m := Looks.steady (Quiet.looks h)

/-! ## Programs that only read and answer -/

theorem ask_quiet {α : Type} (question : Outside F → Nat → α) : Quiet (ask site question : Act c α) := fun _ => rfl

theorem respond_quiet (f : Response → Response) : Quiet (respond f : Act c Unit) := fun _ => rfl

theorem readFile_quiet (file : File) : Quiet (readFile file : Act c (Option Bytes)) := fun _ => rfl

theorem sessionToken_quiet : Quiet (sessionToken : Act c String) := fun _ => rfl

theorem readSource_quiet : Quiet (readSource site : Act c _) := fun _ => rfl

theorem configuration_quiet : Quiet (configuration site : Act c _) := by
  refine keeps_bind readSource_quiet fun r => ?_
  rcases r with e | _ | t
  · exact keeps_pure _
  · exact keeps_pure _
  · exact keeps_pure _

theorem refresh_quiet : Quiet (refresh site : Act c Unit) := fun _ => rfl

theorem videoLimit_quiet : Quiet (videoLimit site : Act c VideoLimit) := by
  refine keeps_bind (readFile_quiet _) fun file => ?_
  dsimp only
  split
  · exact keeps_pure _
  · exact keeps_pure _

theorem appVersion_quiet : Quiet (appVersion site : Act c String) := by
  refine keeps_bind (ask_quiet _) fun file => ?_
  split
  · exact keeps_pure _
  · exact keeps_pure _

theorem legalTexts_quiet : Quiet (legalTexts site : Act c _) := fun _ => rfl

theorem common_quiet (authenticated : Bool) (csrf endpoint : String) :
    Quiet (common site req authenticated csrf endpoint : Act c _) := by
  refine keeps_bind keeps_get fun s => ?_
  dsimp only
  split
  · exact keeps_bind (fun _ => rfl) fun _ => keeps_pure _
  · exact keeps_bind (keeps_pure _) fun _ => keeps_pure _

theorem render_quiet (template : String) (context : List (String × Value F)) (status : Nat) :
    Quiet (render site req template context status : Act c Unit) := by
  unfold render
  split
  · exact respond_quiet _
  · exact respond_quiet _

theorem flashRedirect_quiet (place : String) (result : ActionResult) :
    Quiet (flashRedirect site place result : Act c Unit) := by
  refine keeps_bind (ask_quiet _) fun key => ?_
  cases key with
  | none => exact respond_quiet _
  | some key => exact keeps_bind (fun _ => rfl) fun _ => respond_quiet _

theorem loginPage_quiet (error : String) (status : Nat) : Quiet (loginPage site req error status : Act c Unit) := by
  refine keeps_bind (ask_quiet _) fun nonce => keeps_bind keeps_get fun s => ?_
  refine keeps_bind (common_quiet _ _ _) fun ctx => ?_
  exact keeps_bind (render_quiet _ _ _) fun _ => respond_quiet _

theorem errorPage_quiet (title message : String) (status : Nat) :
    Quiet (errorPage site req title message status : Act c Unit) :=
  keeps_bind sessionToken_quiet fun _ => keeps_bind (common_quiet _ _ _) fun _ => render_quiet _ _ _

theorem currentSession_quiet : Quiet (currentSession site req : Act c Bool) := by
  unfold currentSession
  split
  · exact keeps_pure _
  · refine keeps_bind (ask_quiet _) fun now => keeps_bind keeps_get fun s => ?_
    exact keeps_ite (keeps_pure _) (keeps_bind (fun _ => rfl) fun _ => keeps_pure _)

theorem requireSession_quiet : Quiet (requireSession site req : Act c Bool) := by
  refine keeps_bind currentSession_quiet fun b => ?_
  exact keeps_ite (keeps_pure _) (keeps_bind (respond_quiet _) fun _ => keeps_pure _)

theorem authenticatedPost_quiet : Quiet (authenticatedPost site req : Act c (Option Form)) := by
  refine keeps_bind requireSession_quiet fun b => keeps_ite (keeps_bind keeps_get fun s => ?_) (keeps_pure _)
  exact keeps_ite (keeps_pure _) (keeps_bind (errorPage_quiet _ _ _) fun _ => keeps_pure _)

theorem allow_quiet (scope : String) (limit : RateLimit) :
    Quiet (allow site req scope limit : Act c Bool) := fun _ => rfl

theorem networkPage_quiet (submitted errorOverride : Option String) :
    Quiet (networkPage site req submitted errorOverride : Act c Unit) := by
  refine keeps_bind sessionToken_quiet fun token => keeps_bind (readFile_quiet _) fun file => ?_
  exact keeps_bind configuration_quiet fun saved => keeps_bind (common_quiet _ _ _) fun ctx => render_quiet _ _ _

theorem notFound_quiet : Quiet (notFound site req : Act c Unit) :=
  keeps_bind currentSession_quiet fun _ => keeps_ite (errorPage_quiet _ _ _) (loginPage_quiet _ _)

/-! ## Programs that look -/

theorem runCommand_looks {command : Command} (h : command.looks = true) : Looks (runCommand site command : Act c (Output F)) := by
  intro s
  show (s.auth, s.files, (s.log ++ [Effect.run command]).filter Effect.changes) = s.durable
  have hnone : [Effect.run command].filter Effect.changes = [] := by
    simp [Effect.changes, h]
  rw [List.filter_append, hnone, List.append_nil]
  rfl

theorem status_looks : Looks (control site "status" : Act c (Output F)) := runCommand_looks (by decide)

theorem sources_looks : Looks (sources site : Act c (List String)) := by
  refine keeps_bind (Quiet.looks (ask_quiet _)) fun now => keeps_bind keeps_get fun s => ?_
  refine keeps_ite (keeps_pure _) (keeps_bind (runCommand_looks rfl) fun r => ?_)
  exact keeps_bind (Quiet.looks (ask_quiet _)) fun now => keeps_bind (fun _ => rfl) fun _ => keeps_pure _

theorem playbackSummary_looks : Looks (playbackSummary site : Act c Summary) := by
  refine keeps_bind (Quiet.looks readSource_quiet) fun source => ?_
  refine keeps_bind (Quiet.looks (ask_quiet _)) fun file => keeps_bind (Quiet.looks (ask_quiet _)) fun now => ?_
  split
  · exact keeps_bind status_looks fun _ => keeps_pure _
  · exact keeps_bind status_looks fun _ => keeps_pure _
  · exact keeps_pure _

theorem diagnosticsPage_looks (result : Option (DiagnosticResult F)) (observed : Option String) :
    Looks (diagnosticsPage site req result observed : Act c Unit) := by
  refine keeps_bind (Quiet.looks sessionToken_quiet) fun token => ?_
  refine keeps_bind (Quiet.looks configuration_quiet) fun saved => ?_
  refine keeps_bind (Quiet.looks (common_quiet _ _ _)) fun ctx => ?_
  cases observed with
  | some status =>
    refine keeps_bind (keeps_pure status) fun status => ?_
    exact keeps_bind (Quiet.looks appVersion_quiet) fun _ => Quiet.looks (render_quiet _ _ _)
  | none =>
    refine keeps_bind (keeps_bind status_looks fun _ => keeps_pure _) fun status => ?_
    exact keeps_bind (Quiet.looks appVersion_quiet) fun _ => Quiet.looks (render_quiet _ _ _)

/-! ## Programs that act -/

theorem note_steady (e : Effect) : Steady (note e : Act c Unit) := fun _ => rfl

theorem runCommand_steady (command : Command) : Steady (runCommand site command : Act c (Output F)) := fun _ => rfl

theorem replaceFile_steady (file : File) (data : Bytes) (maximum : Nat) :
    Steady (replaceFile site file data maximum : Act c _) := fun _ => rfl

theorem removeFile_steady (file : File) : Steady (removeFile site file : Act c _) := fun _ => rfl

theorem writeFixedInode_steady (file : File) (data : Bytes) : Steady (writeFixedInode site file data : Act c _) := by
  refine keeps_bind (fun _ => rfl) fun disk => keeps_bind (fun _ => rfl) fun old => keeps_bind (note_steady _) fun _ => ?_
  refine keeps_ite (keeps_pure _) ?_
  split
  · exact keeps_pure _
  · exact keeps_pure _
  · exact keeps_bind (fun _ => rfl) fun _ => keeps_pure _
  · exact keeps_bind (fun _ => rfl) fun _ => keeps_pure _

theorem saveSource_steady (target : Option SourceTarget) : Steady (saveSource site target : Act c _) := by
  cases target with
  | none => exact removeFile_steady _
  | some target =>
    dsimp only [saveSource]
    split
    · exact keeps_pure _
    · exact replaceFile_steady _ _ _

theorem saveAndRestart_steady (target : SourceTarget) (label : String) :
    Steady (saveAndRestart site target label : Act c ActionResult) := by
  refine keeps_bind (saveSource_steady _) fun r => ?_
  cases r with
  | error e => exact keeps_pure _
  | ok u =>
    refine keeps_bind (Quiet.steady refresh_quiet) fun _ => keeps_bind (runCommand_steady _) fun r => ?_
    exact keeps_ite (keeps_pure _) (keeps_pure _)

theorem select_steady (selection : String) : Steady (select site selection : Act c ActionResult) := by
  unfold select
  split
  · exact saveAndRestart_steady _ _
  · exact keeps_pure _

theorem saveDirect_steady (address : String) : Steady (saveDirect site address : Act c ActionResult) :=
  keeps_ite (saveAndRestart_steady _ _) (keeps_pure _)

theorem restart_steady : Steady (restart site : Act c ActionResult) := by
  refine keeps_bind (Quiet.steady readSource_quiet) fun r => ?_
  rcases r with e | _ | t
  · exact keeps_pure _
  · exact keeps_pure _
  · exact keeps_bind (runCommand_steady _) fun r => keeps_ite (keeps_pure _) (keeps_pure _)

theorem clear_steady : Steady (clear site : Act c ActionResult) := by
  refine keeps_bind (runCommand_steady _) fun r => keeps_ite (keeps_pure _) ?_
  refine keeps_bind (saveSource_steady _) fun r => ?_
  cases r with
  | error e => exact keeps_pure _
  | ok u => exact keeps_bind (Quiet.steady refresh_quiet) fun _ => keeps_pure _

theorem saveVideoLimit_steady (value : String) : Steady (saveVideoLimit site value : Act c ActionResult) := by
  have hsave (ceiling : Option String) : Steady (saveVideoCeiling site ceiling : Act c _) := by
    cases ceiling with
    | none => exact removeFile_steady _
    | some ceiling =>
      dsimp only [saveVideoCeiling]
      split
      · exact keeps_pure _
      · exact keeps_ite (keeps_pure _) (replaceFile_steady _ _ _)
  refine keeps_ite (keeps_pure _) (keeps_bind (hsave _) fun r => ?_)
  cases r with
  | error e => exact keeps_pure _
  | ok u => exact keeps_bind (runCommand_steady _) fun r => keeps_ite (keeps_pure _) (keeps_pure _)

theorem saveNetworkConfiguration_steady (value : String) :
    Steady (saveNetworkConfiguration site value : Act c (Except String Bool)) := by
  refine keeps_bind (Quiet.steady (readFile_quiet _)) fun file => ?_
  split
  · exact keeps_pure _
  · exact keeps_pure _
  · refine keeps_bind (replaceFile_steady _ _ _) fun r => ?_
    cases r with
    | error e => exact keeps_pure _
    | ok u => exact keeps_pure _

theorem bundle_steady (includePcap : Bool) : Steady (bundle site includePcap : Act c _) := by
  refine keeps_bind (Quiet.steady (ask_quiet _)) fun id => ?_
  cases id with
  | none => exact keeps_pure _
  | some id =>
    refine keeps_bind (Quiet.steady (ask_quiet _)) fun epoch => keeps_bind (writeFixedInode_steady _ _) fun _ => ?_
    refine keeps_bind (fun _ => rfl) fun _ => keeps_bind (fun _ => rfl) fun _ => ?_
    refine keeps_bind (Quiet.steady configuration_quiet) fun configuration => ?_
    exact keeps_ite (keeps_bind (runCommand_steady _) fun _ => Quiet.steady (ask_quiet _)) (Quiet.steady (ask_quiet _))

theorem requestReboot_steady : Steady (requestReboot site : Act c ActionResult) := by
  refine keeps_bind (Quiet.steady (ask_quiet _)) fun id => ?_
  cases id with
  | none => exact keeps_pure _
  | some id =>
    refine keeps_bind (Quiet.steady (ask_quiet _)) fun epoch => keeps_bind (writeFixedInode_steady _ _) fun r => ?_
    cases r with
    | error e => exact keeps_pure _
    | ok u =>
      refine keeps_bind (Quiet.steady (ask_quiet _)) fun answer => ?_
      split
      · exact keeps_pure _
      · exact keeps_pure _
      · exact keeps_pure _

/-! ## The checks -/

theorem currentSession_wp (s : State c) : wp (currentSession site req)
    (fun b s' => (b = true → Current site req s s'.session) ∧
      (b = false → (¬ ∃ id, Current site req s id) ∧ s'.res = s.res)) (fun _ _ => True) s := by
  unfold currentSession
  cases hcookie : requestCookie req sessionCookie sessionCookieMax with
  | none =>
    rw [wp_pure]
    refine ⟨fun h => absurd h (by decide), fun _ => ⟨?_, rfl⟩⟩
    rintro ⟨id, hid⟩
    exact absurd (hcookie.symm.trans hid.cookie) (by simp)
  | some id =>
    show wp (ite _ _ _) _ _ { s with tick := s.tick + 1 }
    rw [wp_ite]
    constructor
    · intro hrefused
      rw [wp_pure]
      refine ⟨fun h => absurd h (by decide), fun _ => ⟨?_, rfl⟩⟩
      rintro ⟨id', hid⟩
      obtain rfl : id = id' := Option.some.inj (hcookie.symm.trans hid.cookie)
      rcases hrefused with hlength | hcurrent
      · exact hlength hid.length
      · exact hcurrent hid.current
    · intro haccepted
      rw [not_or, not_not, not_not] at haccepted
      exact ⟨fun _ => ⟨hcookie, haccepted.1, haccepted.2⟩, fun h => absurd h (by decide)⟩

theorem requireSession_wp (s : State c) : wp (requireSession site req)
    (fun b s' => (b = true → Current site req s s'.session) ∧
      (b = false → (¬ ∃ id, Current site req s id) ∧ s'.res = redirect s.res "/login")) (fun _ _ => True) s := by
  refine wp_seq (currentSession_wp s) fun b s' hb => ?_
  cases b with
  | true => exact ⟨fun _ => hb.1 rfl, fun h => absurd h (by decide)⟩
  | false =>
    obtain ⟨hnone, hres⟩ := hb.2 rfl
    refine ⟨fun h => absurd h (by decide), fun _ => ⟨hnone, ?_⟩⟩
    show redirect s'.res "/login" = _
    rw [hres]

/-- The preamble of an authenticated POST lets nothing else through. -/
theorem authenticatedPost_wp (s : State c) : wp (authenticatedPost site req)
    (fun o s' => (o.isSome = true → Authorised site req s) ∧
      ((¬ ∃ id, Current site req s id) → o = none ∧ s'.res = redirect s.res "/login")) (fun _ _ => True) s := by
  refine wp_seq (wp_keeps (requireSession_wp s) requireSession_quiet) fun b s' hb => ?_
  obtain ⟨hsession, hinner⟩ := hb
  cases b with
  | false =>
    obtain ⟨hnone, hres⟩ := hsession.2 rfl
    exact ⟨fun h => absurd h (by decide), fun _ => ⟨rfl, hres⟩⟩
  | true =>
    have hcurrent := hsession.1 rfl
    have hauth : s'.auth = s.auth := congrArg Prod.fst hinner
    rw [if_pos rfl, wp_bind, wp_get, wp_ite]
    constructor
    · intro htoken
      obtain ⟨token, hform, hvalid⟩ := (Option.any_eq_true _ _).mp htoken
      rw [hauth] at hvalid
      exact ⟨fun _ => ⟨_, token, hcurrent, hform, hvalid⟩, fun h => absurd ⟨_, hcurrent⟩ h⟩
    · intro _
      refine wp_seq (wp_true _) fun _ s'' _ => ?_
      exact ⟨fun h => absurd h (by decide), fun h => absurd ⟨_, hcurrent⟩ h⟩

end AccessLemmas

open AccessLemmas

/-- Without a current session the handler only sends the request to the login. -/
def Closed (site : Site F) (req : Request) (f : Act c Unit) : Prop :=
  ∀ s, (¬ ∃ id, Current site req s id) → (f.run s).2.inner = s.inner ∧ (f.run s).2.res = redirect s.res "/login"

namespace AccessLemmas

theorem page_closed (page : Act c Unit) :
    Closed site req (requireSession site req >>= fun b => if b = true then page else pure ()) := by
  intro s hnone
  have hw : wp (requireSession site req >>= fun b => if b = true then page else pure ())
      (fun _ s' => s'.inner = s.inner ∧ s'.res = redirect s.res "/login") (fun _ _ => True) s := by
    refine wp_seq (wp_keeps (requireSession_wp s) requireSession_quiet) fun b s' hb => ?_
    obtain ⟨hsession, hinner⟩ := hb
    cases b with
    | false => exact ⟨hinner, (hsession.2 rfl).2⟩
    | true => exact absurd ⟨_, hsession.1 rfl⟩ hnone
  exact after_of_wp hw

/-- What follows the preamble runs only with a current session and its token. -/
theorem guarded_cases (rest : Form → Act c Unit) (s : State c) :
    Authorised site req s ∨ ((guarded site req rest).run s).2.inner = s.inner := by
  by_cases hauth : Authorised site req s
  · exact .inl hauth
  have hw : wp (guarded site req rest) (fun _ s' => s'.inner = s.inner) (fun _ _ => True) s := by
    refine wp_seq (wp_keeps (authenticatedPost_wp s) authenticatedPost_quiet) fun o s' ho => ?_
    obtain ⟨hpost, hinner⟩ := ho
    cases o with
    | none => exact hinner
    | some form => exact absurd (hpost.1 rfl) hauth
  exact .inr (after_of_wp hw)

theorem guarded_closed (rest : Form → Act c Unit) : Closed site req (guarded site req rest) := by
  intro s hnone
  have hw : wp (guarded site req rest) (fun _ s' => s'.inner = s.inner ∧ s'.res = redirect s.res "/login")
      (fun _ _ => True) s := by
    refine wp_seq (wp_keeps (authenticatedPost_wp s) authenticatedPost_quiet) fun o s' ho => ?_
    obtain ⟨hpost, hinner⟩ := ho
    obtain ⟨rfl, hres⟩ := hpost.2 hnone
    exact ⟨hinner, hres⟩
  exact after_of_wp hw

theorem guarded_steady {rest : Form → Act c Unit} (h : ∀ form, Steady (rest form)) : Steady (guarded site req rest) := by
  refine keeps_bind (Quiet.steady authenticatedPost_quiet) fun o => ?_
  cases o with
  | none => exact keeps_pure _
  | some form => exact h form

theorem postAction_steady (place : String) {action : Form → Act c ActionResult} (h : ∀ form, Steady (action form)) (form : Form) :
    Steady (action form >>= fun result => flashRedirect site place result) :=
  keeps_bind (h form) fun _ => Quiet.steady (flashRedirect_quiet _ _)

end AccessLemmas

/-! ## The table -/

/-- A row keeps to what its methods allow. -/
structure Safe (site : Site F) (req : Request) (route : Route c) : Prop where
  get : ∀ f, route.get = some f → Looks f
  post : ∀ f, route.post = some f → route.path ≠ "/login" →
    ∀ s, Authorised site req s ∨ (f.run s).2.inner = s.inner
  closed : ∀ f, route.get = some f ∨ route.post = some f → route.path ≠ "/login" → Closed site req f
  steady : ∀ f, route.get = some f ∨ route.post = some f → Steady f

namespace AccessLemmas

theorem safe_page (path : String) {page f : Act c Unit} (hpage : Looks page)
    (hf : f = requireSession site req >>= fun b => if b = true then page else pure ()) :
    Safe site req ⟨path, some f, none⟩ := by
  have hlooks : Looks f := by
    rw [hf]
    exact keeps_bind (Quiet.looks requireSession_quiet) fun _ => keeps_ite hpage (keeps_pure _)
  have hall {P : Act c Unit → Prop} (h : P f) : ∀ g, some f = some g ∨ none = some g → P g := by
    rintro g (hg | hg)
    · exact Option.some.inj hg ▸ h
    · exact nomatch hg
  exact ⟨fun g hg => hall hlooks g (.inl hg), (fun _ hg => nomatch hg), (fun g hg _ => hall (hf ▸ page_closed page) g hg),
    hall (Looks.steady hlooks)⟩

theorem safe_guarded (path : String) {rest : Form → Act c Unit} {f : Act c Unit} (hrest : ∀ form, Steady (rest form))
    (hf : f = guarded site req rest) : Safe site req ⟨path, none, some f⟩ := by
  have hall {P : Act c Unit → Prop} (h : P f) : ∀ g, none = some g ∨ some f = some g → P g := by
    rintro g (hg | hg)
    · exact nomatch hg
    · exact Option.some.inj hg ▸ h
  refine ⟨(fun _ hg => nomatch hg), fun g hg _ s => ?_, (fun g hg _ => hall (hf ▸ guarded_closed rest) g hg),
    hall (hf ▸ guarded_steady hrest)⟩
  obtain rfl := Option.some.inj hg
  rw [hf]
  exact guarded_cases rest s

theorem safe_both {path : String} {get post : Act c Unit} (hget : Safe site req ⟨path, some get, none⟩)
    (hpost : Safe site req ⟨path, none, some post⟩) : Safe site req ⟨path, some get, some post⟩ := by
  refine ⟨fun f hf => hget.get f hf, fun f hf => hpost.post f hf, fun f hf => ?_, fun f hf => ?_⟩
  · rcases hf with hf | hf
    · exact hget.closed f (.inl hf)
    · exact hpost.closed f (.inr hf)
  · rcases hf with hf | hf
    · exact hget.steady f (.inl hf)
    · exact hpost.steady f (.inr hf)

theorem loginGet_quiet : Quiet (loginGet site req : Act c Unit) :=
  keeps_bind currentSession_quiet fun _ => keeps_ite (respond_quiet _) (loginPage_quiet _ _)

theorem authenticate_steady (password : String) (previous : Option String) :
    Steady (authenticate site password previous : Act c _) := fun _ => rfl

/-- The login changes the registry only when the token of its cookie is in the form. -/
theorem loginPost_cases (s : State c) :
    loginTokenValid req s.auth = true ∨ ((loginPost site req).run s).2.inner = s.inner := by
  by_cases hvalid : loginTokenValid req s.auth = true
  · exact .inl hvalid
  have hpage (error : String) (status : Nat) (s' : State c) (hs : s'.inner = s.inner) :
      wp (loginPage site req error status) (fun _ s' => s'.inner = s.inner) (fun _ _ => True) s' :=
    wp_mono (wp_keeps (wp_true _) (loginPage_quiet error status)) (fun _ _ h => h.2.trans hs) fun _ _ h => h
  have hw : wp (loginPost site req) (fun _ s' => s'.inner = s.inner) (fun _ _ => True) s := by
    refine wp_seq (wp_keeps (wp_true _) (allow_quiet _ _)) fun b s' hb => ?_
    have hauth : s'.auth = s.auth := congrArg Prod.fst hb.2
    cases b with
    | false => exact hpage _ _ s' hb.2
    | true =>
      rw [if_pos rfl, wp_bind, wp_get, hauth, if_neg hvalid]
      exact hpage _ _ s' hb.2
  exact .inr (after_of_wp hw)

/-- What a login leaves alone: every file but the registry, and everything else outside. -/
def apart (s : State c) : (File → Option Bytes) × List Effect :=
  (fun f => if f = .registry then none else s.files f, s.changes.filter (· != .authenticate))

theorem apart_of_inner {s s' : State c} (h : s'.inner = s.inner) : apart s' = apart s := by
  have hfiles : s'.files = s.files := congrArg (fun v => v.2.1) h
  have hlog : s'.log = s.log := congrArg (fun v => v.2.2) h
  rw [apart, apart, State.changes, State.changes, hfiles, hlog]

theorem Quiet.keeps_apart {α : Type} {m : Act c α} (h : Quiet m) : Keeps apart m := fun s => apart_of_inner (h s)

theorem authenticate_apart (password : String) (previous : Option String) :
    Keeps apart (authenticate site password previous : Act c _) := by
  intro s
  refine Prod.ext (funext fun f => ?_) ?_
  · show (if f = .registry then none else if f = .registry then _ else s.files f) = if f = .registry then none else s.files f
    split
    · rfl
    · rfl
  · show ((s.log ++ [Effect.authenticate]).filter Effect.changes).filter (· != .authenticate) = _
    rw [List.filter_append, List.filter_append]
    exact List.append_nil _

theorem loginPost_apart : Keeps apart (loginPost site req : Act c Unit) := by
  have hpage (error : String) (status : Nat) := Quiet.keeps_apart ((@loginPage_quiet c _ site req) error status)
  refine keeps_bind (Quiet.keeps_apart (allow_quiet _ _)) fun b => keeps_ite (keeps_bind keeps_get fun s => ?_) (hpage _ _)
  refine keeps_ite (keeps_bind (authenticate_apart _ _) fun r => ?_) (hpage _ _)
  rcases r with e | _ | session
  · exact hpage _ _
  · exact hpage _ _
  · exact Quiet.keeps_apart (respond_quiet _)

theorem loginPost_steady : Steady (loginPost site req : Act c Unit) := by
  have hpage (error : String) (status : Nat) := Quiet.steady ((@loginPage_quiet c _ site req) error status)
  refine keeps_bind (Quiet.steady (allow_quiet _ _)) fun b => keeps_ite (keeps_bind keeps_get fun s => ?_) (hpage _ _)
  refine keeps_ite (keeps_bind (authenticate_steady _ _) fun r => ?_) (hpage _ _)
  rcases r with e | _ | session
  · exact hpage _ _
  · exact hpage _ _
  · exact Quiet.steady (respond_quiet _)

theorem safe_login : Safe site req (⟨"/login", some (loginGet site req), some (loginPost site req)⟩ : Route c) := by
  refine ⟨fun f hf => ?_, fun f _ hne => absurd rfl hne, fun f _ hne => absurd rfl hne, fun f hf => ?_⟩
  · exact Option.some.inj hf ▸ Quiet.looks loginGet_quiet
  · rcases hf with hf | hf
    · exact Option.some.inj hf ▸ Quiet.steady loginGet_quiet
    · exact Option.some.inj hf ▸ loginPost_steady

/-! ## The pages and the actions -/

theorem dashboard_safe : Safe site req (⟨"/", some (dashboard site req), none⟩ : Route c) := by
  refine safe_page "/" ?_ rfl
  refine keeps_bind (Quiet.looks sessionToken_quiet) fun _ => keeps_bind playbackSummary_looks fun _ => ?_
  refine keeps_bind (Quiet.looks (common_quiet _ _ _)) fun _ => keeps_bind sources_looks fun _ => ?_
  exact keeps_bind (Quiet.looks videoLimit_quiet) fun _ => Quiet.looks (render_quiet _ _ _)

theorem network_safe :
    Safe site req (⟨"/settings/network", some (networkGet site req), some (networkPost site req)⟩ : Route c) := by
  refine safe_both (safe_page _ (Quiet.looks (networkPage_quiet none none)) rfl) (safe_guarded _ ?_ rfl)
  intro form
  refine keeps_bind (saveNetworkConfiguration_steady _) fun r => ?_
  rcases r with message | _ | _
  · refine keeps_bind (Quiet.steady (networkPage_quiet _ _)) fun _ => ?_
    exact keeps_ite (keeps_pure _) (Quiet.steady (respond_quiet _))
  · exact Quiet.steady (flashRedirect_quiet _ _)
  · refine keeps_bind (Quiet.steady refresh_quiet) fun _ => keeps_bind (Quiet.steady configuration_quiet) fun saved => ?_
    refine keeps_ite (keeps_bind restart_steady fun _ => ?_) (Quiet.steady (flashRedirect_quiet _ _))
    exact Quiet.steady (flashRedirect_quiet _ _)

theorem diagnosticsGet_safe : Safe site req (⟨"/diagnostics", some (diagnosticsGet site req), none⟩ : Route c) :=
  safe_page _ (diagnosticsPage_looks none none) rfl

/-- Each of the checks, once its own steps are steady. -/
theorem diagnosticsAction_safe (path : String) {check : Form → Act c Unit} (hcheck : ∀ form, Steady (check form)) :
    Safe site req ⟨path, none, some (diagnosticsAction site req check)⟩ := by
  refine safe_guarded path ?_ rfl
  intro form
  exact keeps_bind (Quiet.steady (allow_quiet _ _)) fun _ =>
    keeps_ite (hcheck form) (Quiet.steady (errorPage_quiet _ _ _))

theorem shown_steady (result : Option (DiagnosticResult F)) (observed : Option String) :
    Steady (diagnosticsPage site req result observed : Act c Unit) := Looks.steady (diagnosticsPage_looks result observed)

theorem diagnosticsDirect_steady (form : Form) :
    Steady (direct site (trimmedAddress form "direct_address") >>= fun result =>
      diagnosticsPage site req (some result) none : Act c Unit) := by
  refine keeps_bind ?_ fun _ => shown_steady _ _
  exact keeps_ite (keeps_bind (runCommand_steady _) fun _ => keeps_pure _) (keeps_pure _)

theorem diagnosticsDownload_safe :
    Safe site req (⟨"/diagnostics/download", none, some (diagnosticsDownload site req)⟩ : Route c) := by
  refine safe_guarded _ ?_ rfl
  intro form
  refine keeps_bind (Quiet.steady (allow_quiet _ _)) fun _ => keeps_ite ?_ (Quiet.steady (errorPage_quiet _ _ _))
  refine keeps_bind (Quiet.steady appVersion_quiet) fun _ => keeps_bind (bundle_steady _) fun r => ?_
  cases r with
  | error e => exact Quiet.steady (errorPage_quiet _ _ _)
  | ok archive => exact Quiet.steady (respond_quiet _)

theorem systemGet_safe : Safe site req (⟨"/system", some (systemGet site req), none⟩ : Route c) := by
  refine safe_page _ (Quiet.looks ?_) rfl
  refine keeps_bind sessionToken_quiet fun _ => keeps_bind (common_quiet _ _ _) fun _ => ?_
  exact keeps_bind videoLimit_quiet fun _ => render_quiet _ _ _

theorem reboot_safe :
    Safe site req (⟨"/system/reboot", some (rebootGet site req), some (rebootPost site req)⟩ : Route c) := by
  refine safe_both (safe_page _ (Quiet.looks ?_) rfl) (safe_guarded _ ?_ rfl)
  · exact keeps_bind sessionToken_quiet fun _ => keeps_bind (common_quiet _ _ _) fun _ => render_quiet _ _ _
  · intro form
    refine keeps_bind (Quiet.steady (allow_quiet _ _)) fun _ => keeps_ite ?_ (Quiet.steady (errorPage_quiet _ _ _))
    refine keeps_bind requestReboot_steady fun _ => keeps_ite ?_ (Quiet.steady (flashRedirect_quiet _ _))
    refine keeps_bind (Quiet.steady sessionToken_quiet) fun _ => keeps_bind (Quiet.steady (common_quiet _ _ _)) fun _ => ?_
    exact Quiet.steady (render_quiet _ _ _)

theorem about_safe : Safe site req (⟨"/about", some (about site req), none⟩ : Route c) := by
  refine safe_page _ (Quiet.looks ?_) rfl
  refine keeps_bind sessionToken_quiet fun _ => keeps_bind appVersion_quiet fun _ => keeps_bind legalTexts_quiet fun _ => ?_
  exact keeps_bind (common_quiet _ _ _) fun _ => render_quiet _ _ _

end AccessLemmas

/-- Every row of the table keeps to what its methods allow. -/
theorem routes_safe (site : Site F) (req : Request) : ∀ route ∈ routes (c := c) site req, Safe site req route := by
  have haction (path place : String) {action : Form → Act c ActionResult} (h : ∀ form, Steady (action form)) :
      Safe site req ⟨path, none, some (postAction site req place action)⟩ :=
    safe_guarded path (postAction_steady place h) rfl
  simp only [routes, List.forall_mem_cons]
  refine ⟨safe_login, ?logout, dashboard_safe, ?select, ?refresh, haction _ _ fun _ => restart_steady,
    haction _ _ fun _ => clear_steady, network_safe, haction _ _ fun _ => saveDirect_steady _, diagnosticsGet_safe,
    ?discovery, ?runtime, diagnosticsAction_safe _ diagnosticsDirect_steady, diagnosticsDownload_safe, systemGet_safe,
    haction _ _ fun _ => saveVideoLimit_steady _, reboot_safe, about_safe, List.forall_mem_nil _⟩
  case logout =>
    exact safe_guarded _ (fun _ => keeps_bind (fun _ => rfl) fun _ => Quiet.steady (respond_quiet _)) rfl
  case select => exact haction _ _ fun _ => select_steady _
  case refresh =>
    exact safe_guarded _ (fun _ => keeps_bind (Quiet.steady refresh_quiet) fun _ => Quiet.steady (respond_quiet _)) rfl
  case discovery =>
    refine diagnosticsAction_safe _ fun _ => keeps_bind (Quiet.steady refresh_quiet) fun _ => ?_
    exact keeps_bind (fun _ => rfl) fun _ => shown_steady _ _
  case runtime => exact diagnosticsAction_safe _ fun _ => keeps_bind (fun _ => rfl) fun _ => shown_steady _ _

/-! ## Requests -/

/-- What is answered, elsewhere than at the login, to someone without a session: an asset, the
login page for an unknown path, that the method is not allowed, or the way to the login. -/
def ForAnyone (site : Site F) (req : Request) (res answer : Response) : Prop :=
  (assetName req).isSome = true ∨ (∀ route ∈ routes (c := c) site req, utf8 route.path ≠ req.path) ∨
    (∃ get post, answer = notAllowed get post res) ∨ answer = redirect res "/login"

/-- What a request with this answer may have done between two states. -/
structure Protected (site : Site F) (req : Request) (s : State c) (answer : Response) (s' : State c) : Prop where
  /-- A change comes from a POST with a current session and its token, or from a login with the token of its cookie. -/
  changes : s'.files ≠ s.files ∨ s'.changes ≠ s.changes → isPost req = true ∧
    (Authorised site req s ∨ req.path = utf8 "/login" ∧ loginTokenValid req s.auth = true ∧
      (∀ f, f ≠ .registry → s'.files f = s.files f) ∧
      s'.changes.filter (· != .authenticate) = s.changes.filter (· != .authenticate))
  /-- No request changes the password. -/
  password : s'.auth = s.auth
  /-- Without a session nothing is done, and only what is for anyone is answered. -/
  outsider : (¬ ∃ id, Current site req s id) → req.path ≠ utf8 "/login" →
    s'.files = s.files ∧ s'.log = s.log ∧ ForAnyone (c := c) site req s.res answer

namespace AccessLemmas

variable {s s' : State c} {answer : Response}

theorem files_of_inner (h : s'.inner = s.inner) : s'.files = s.files := congrArg (fun v => v.2.1) h

theorem log_of_inner (h : s'.inner = s.inner) : s'.log = s.log := congrArg (fun v => v.2.2) h

theorem unchanged_of_durable (h : s'.durable = s.durable) : ¬ (s'.files ≠ s.files ∨ s'.changes ≠ s.changes) := by
  rintro (hne | hne)
  · exact hne (congrArg (fun v => v.2.1) h)
  · exact hne (congrArg (fun v => v.2.2) h)

theorem durable_of_inner (h : s'.inner = s.inner) : s'.durable = s.durable :=
  congrArg (fun v => (v.1, v.2.1, v.2.2.filter Effect.changes)) h

theorem protected_quiet (h : s'.inner = s.inner) (hfor : ForAnyone (c := c) site req s.res answer) :
    Protected site req s answer s' :=
  ⟨fun hne => absurd hne (unchanged_of_durable (durable_of_inner h)), congrArg Prod.fst h,
    fun _ _ => ⟨files_of_inner h, log_of_inner h, hfor⟩⟩

/-- What handles a request for a row: its GET or its POST handler, or neither. -/
theorem handler_cases (req : Request) (route : Route c) :
    (∃ f, route.get = some f ∧ route.handler req = f) ∨
      (∃ f, isPost req = true ∧ route.post = some f ∧ route.handler req = f) ∨
      ∃ get post, route.handler req = respond (notAllowed get post) := by
  unfold Route.handler
  split
  · exact .inl ⟨_, by assumption, rfl⟩
  · exact .inr (.inl ⟨_, by assumption, by assumption, rfl⟩)
  · exact .inr (.inr ⟨_, _, rfl⟩)

/-- A handler's outsider clause, from the row. -/
theorem safe_outsider {route : Route c} (h : Safe site req route) (hpath : utf8 route.path = req.path) {f : Act c Unit}
    (hf : route.get = some f ∨ route.post = some f) (s : State c) (hnone : ¬ ∃ id, Current site req s id)
    (hlogin : req.path ≠ utf8 "/login") :
    (f.run s).2.files = s.files ∧ (f.run s).2.log = s.log ∧ ForAnyone (c := c) site req s.res (f.run s).2.res := by
  have hne : route.path ≠ "/login" := fun heq => hlogin (heq ▸ hpath.symm)
  obtain ⟨hinner, hres⟩ := h.closed f hf hne s hnone
  exact ⟨files_of_inner hinner, log_of_inner hinner, .inr (.inr (.inr hres))⟩

theorem login_post {route : Route c} (hmem : route ∈ routes site req) (hlogin : route.path = "/login") {f : Act c Unit}
    (hf : route.post = some f) : f = loginPost site req := by
  have hothers : ∀ r ∈ (routes (c := c) site req).tail, r.path ≠ "/login" := by
    have hpaths : (routes (c := c) site req).tail.map Route.path = ["/logout", "/", "/sources/select", "/sources/refresh",
        "/playback/restart", "/playback/clear", "/settings/network", "/settings/direct-source", "/diagnostics",
        "/diagnostics/discovery", "/diagnostics/runtime", "/diagnostics/direct", "/diagnostics/download", "/system",
        "/system/video-limit", "/system/reboot", "/about"] := rfl
    intro r hr heq
    have hin := List.mem_map_of_mem (f := Route.path) hr
    rw [hpaths, heq] at hin
    exact absurd hin (by decide)
  rcases List.mem_cons.mp hmem with rfl | htail
  · exact (Option.some.inj hf).symm
  · exact absurd hlogin (hothers route htail)

theorem handler_protected {route : Route c} (hmem : route ∈ routes site req) (hpath : utf8 route.path = req.path)
    (s : State c) : Protected site req s ((route.handler req).run s).2.res ((route.handler req).run s).2 := by
  have hsafe := routes_safe site req route hmem
  rcases handler_cases req route with ⟨f, hf, heq⟩ | ⟨f, hpost, hf, heq⟩ | ⟨get, post, heq⟩
  · rw [heq]
    exact ⟨fun hne => absurd hne (unchanged_of_durable (hsafe.get f hf s)), hsafe.steady f (.inl hf) s,
      safe_outsider hsafe hpath (.inl hf) s⟩
  · rw [heq]
    refine ⟨fun hne => ⟨hpost, ?_⟩, hsafe.steady f (.inr hf) s, safe_outsider hsafe hpath (.inr hf) s⟩
    by_cases hlogin : route.path = "/login"
    · obtain rfl : f = loginPost site req := login_post hmem hlogin hf
      have hchanged : ¬ ((loginPost site req).run s).2.inner = s.inner :=
        fun h => unchanged_of_durable (durable_of_inner h) hne
      have hapart := (@loginPost_apart _ _ site req) s
      refine .inr ⟨hpath ▸ congrArg utf8 hlogin, (loginPost_cases s).resolve_right hchanged, fun file hfile => ?_,
        congrArg Prod.snd hapart⟩
      have := congrFun (congrArg Prod.fst hapart) file
      simpa only [apart, if_neg hfile] using this
    · rcases hsafe.post f hf hlogin s with hauth | hinner
      · exact .inl hauth
      · exact absurd hne (unchanged_of_durable (durable_of_inner hinner))
  · rw [heq]
    exact protected_quiet rfl (.inr (.inr (.inl ⟨get, post, rfl⟩)))

theorem dispatch_protected (s : State c) :
    Protected site req s ((dispatch site req).run s).2.res ((dispatch site req).run s).2 := by
  unfold dispatch
  split
  · next hnone =>
    refine protected_quiet (notFound_quiet s) (.inr (.inl fun route hmem heq => ?_))
    have := List.find?_eq_none.mp hnone route hmem
    exact this (beq_iff_eq.mpr heq)
  · next route hfound =>
    have hpath := List.find?_some hfound
    exact handler_protected (List.mem_of_find?_eq_some hfound) (beq_iff_eq.mp hpath) s

end AccessLemmas

/-- No request changes anything, or acts on playback or the host, without a current session and the
token of that session; the login issues sessions with the token of its own cookie, and nothing else
is open to someone without a session. -/
theorem changes_need_session (site : Site F) (req : Request) (s : State c) :
    ∃ answer, ((handle site req).run s).2.res = securityHeaders answer (isStatic req) ∧
      Protected site req s answer ((handle site req).run s).2 := by
  have hstart (answer : Response) (s' : State c) (h : Protected site req { s with session := "" } answer s') :
      Protected site req s answer s' :=
    ⟨fun hne => (h.changes hne).imp_right fun hor => hor.imp_left fun ⟨id, token, hid, hrest⟩ =>
        ⟨id, token, ⟨hid.cookie, hid.length, hid.current⟩, hrest⟩,
      h.password, fun hnone => h.outsider fun ⟨id, hid⟩ => hnone ⟨id, hid.cookie, hid.length, hid.current⟩⟩
  have hrun : (handle site req).run s = (respond fun res => securityHeaders res (isStatic req)).run
      ((serve site req).run { s with session := "" }).2 := by
    unfold handle
    rw [run_bind, run_bind]
    rfl
  rw [hrun]
  unfold serve
  cases hasset : assetName req with
  | none =>
    have h := (@dispatch_protected _ _ site req) { s with session := "" }
    exact ⟨_, rfl, hstart _ _ ⟨h.changes, h.password, h.outsider⟩⟩
  | some name =>
    have hquiet : Quiet (serveAsset site name : Act c Unit) := by
      unfold serveAsset
      split
      · exact keeps_pure _
      · exact respond_quiet _
    have hinner := hquiet { s with session := "" }
    have hfor (answer : Response) : ForAnyone (c := c) site req s.res answer := .inl (by rw [hasset]; rfl)
    exact ⟨_, rfl, hstart _ _ (protected_quiet hinner (hfor _))⟩

end OmtClient.Web.App
