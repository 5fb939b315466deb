import OmtClient.Gui.App

/-!
# The open question

Pages of the deployer that press, answer and quit at the same time. A page acts on the last
state that it received; its requests and their answers are under way for any time and in any
order, and may be lost. The question that is open is one slot of the deployer, and an accept
does not say which question it answers.

`starts`, `grants` and `threads` are histories: the jobs started with what started them, the
senders of the accepts that granted a quit, and the threads that run.

1. `step_inv`: what a step keeps.
2. `calm_run_safe`: the runs in which an accept only starts what its sender was shown.
-/

namespace OmtClient.Gui.Confirm

open OmtClient.Lib OmtClient.Common OmtClient.Deploy OmtClient.Gui.AppLemmas

inductive Request (F : Type)
  | look (since : Nat)
  | post (path : String) (body : Json.Value F)

/-- A request under way, with the question that its sender was shown last. -/
structure Sent (F : Type) where
  page : Nat
  shown : Option String
  request : Request F

/-- What started a job: an accept, with what its sender was shown, or a press. -/
inductive Cause
  | press
  | accept (shown : Option String)
  deriving DecidableEq, Repr

structure Start where
  job : JobKind
  action : Action
  cause : Cause
  deriving DecidableEq, Repr

structure State (F : Type) where
  app : App
  /-- The question in the last state that each page received. -/
  pages : Nat → Option String
  requests : List (Sent F)
  answers : List (Nat × Answer)
  starts : List Start
  grants : List (Option String)
  threads : Nat

def State.init {F : Type} : State F := ⟨.new, fun _ => none, [], [], [], [], 0⟩

inductive Event (F : Type)
  | send (page : Nat) (request : Request F)
  /-- The request at a place of those under way is served. -/
  | serve (i : Nat) (o : Outside)
  | deliver (i : Nat)
  | dropRequest (i : Nat)
  | dropAnswer (i : Nat)
  | tick
  | line (text : String)
  | done (result : Except String Unit)

/-- The thread of a job still runs. -/
def running (a : App) : Bool := a.job.any fun w => w.result.isNone

/-- A job that runs after a request and did not before. -/
def started (before after : App) (cause : Cause) : List Start :=
  match before.job, after.job with
  | none, some w => [⟨w.request.job, w.request.action, cause⟩]
  | _, _ => []

section

variable {F : Type}

def Request.accepts : Request F → Bool
  | .look _ => false
  | .post path body => Gui.accepts path body

/-- A request served for a page. -/
def serve (s : State F) (m : Sent F) (o : Outside) : State F :=
  match m.request with
  | .look since =>
    let (app, answer) := getState o s.app since
    { s with app := app, answers := s.answers ++ [(m.page, answer)] }
  | .post path body =>
    let (app, answer) := post o s.app path body
    let new := started s.app app (if Gui.accepts path body then .accept m.shown else .press)
    { s with
      app := app
      answers := s.answers ++ [(m.page, answer)]
      starts := s.starts ++ new
      grants := if Gui.accepts path body && s.app.confirm.any (·.quit) then s.grants ++ [m.shown] else s.grants
      threads := s.threads + new.length }

/-- A change that the worker's thread makes, while it has no outcome yet. -/
def reported (a : App) (change : Worker → Worker) : App :=
  match a.job with
  | none => a
  | some w => if w.result.isSome then a else { a with job := some (change w) }

def step (s : State F) : Event F → State F
  | .send page request =>
    -- a page answers only what it was asked
    if request.accepts && (s.pages page).isNone then s
    else { s with requests := s.requests ++ [⟨page, s.pages page, request⟩] }
  | .serve i o =>
    match s.requests[i]? with
    | none => s
    | some m => serve { s with requests := s.requests.eraseIdx i } m o
  | .deliver i =>
    match s.answers[i]? with
    | none => s
    | some (page, answer) =>
      { s with
        answers := s.answers.eraseIdx i
        pages := match answer with
          | .ok st => Function.update s.pages page st.confirm
          | .error _ => s.pages }
  | .dropRequest i => { s with requests := s.requests.eraseIdx i }
  | .dropAnswer i => { s with answers := s.answers.eraseIdx i }
  | .tick => { s with app := s.app.pollWorker }
  | .line text => { s with app := reported s.app fun w => { w with lines := w.lines ++ [text] } }
  | .done result =>
    { s with
      app := reported s.app fun w => { w with result := some result }
      threads := if running s.app then s.threads - 1 else s.threads }

def run (events : List (Event F)) : State F := events.foldl step .init

/-- What was started and granted so far, each for what its sender was shown. -/
structure Safe (s : State F) : Prop where
  /-- A job with a question started on an accept of a page that showed it, and an accept
  started no other. -/
  asked : ∀ st ∈ s.starts, (st.cause = .press ∧ promptOf st.job st.action = none) ∨
    ∃ q, st.cause = .accept (some q) ∧ promptOf st.job st.action = some q
  /-- At most one job runs. -/
  one : s.threads ≤ 1
  /-- Quitting while a job runs was granted by a page that showed its question. -/
  quit : s.app.shouldQuit = true → running s.app = true → some App.quitPrompt ∈ s.grants

/-! ## Calm runs -/

/-- No page shows another question, no answer carries one and no accept answers one. -/
structure Fresh (s : State F) (question : String) : Prop where
  pages : ∀ p q, s.pages p = some q → q = question
  answers : ∀ x ∈ s.answers, ∀ st, x.2 = .ok st → ∀ q, st.confirm = some q → q = question
  accepts : ∀ m ∈ s.requests, m.request.accepts = true → ∀ q, m.shown = some q → q = question

/-- A request about to be served puts a question only where no other is still shown, and
starts nothing once a quit was granted. -/
def Calm (s : State F) : Event F → Prop
  | .serve i _ => ∀ m, s.requests[i]? = some m → ∀ path body, m.request = .post path body →
      (∀ question, Puts s.app path body question → Fresh s question) ∧
      (Launches s.app path body → s.app.shouldQuit = false)
  | _ => True

/-- A run whose steps are all calm. -/
def CalmRun (s : State F) : List (Event F) → Prop
  | [] => True
  | e :: events => Calm s e ∧ CalmRun (step s e) events

end

namespace ConfirmLemmas

variable {F : Type} {s : State F} {a b c : App}

/-- Whoever was shown a question was shown the one that is open, if one is. -/
def Agrees (a : App) (question : String) : Prop := ∀ p, a.confirm = some p → p.prompt = question

/-- What is shown, carried and answered is the question that is open. -/
structure Told (s : State F) : Prop where
  asked : ∀ p, s.app.confirm = some p → Asked p
  pages : ∀ p q, s.pages p = some q → Agrees s.app q
  answers : ∀ x ∈ s.answers, ∀ st, x.2 = .ok st → ∀ q, st.confirm = some q → Agrees s.app q
  accepts : ∀ m ∈ s.requests, m.request.accepts = true → ∃ q, m.shown = some q ∧ Agrees s.app q

structure Inv (s : State F) : Prop extends Told s where
  quit : s.app.shouldQuit = true → s.app.job ≠ none → some App.quitPrompt ∈ s.grants
  threads : s.threads = (running s.app).toNat
  starts : ∀ st ∈ s.starts, (st.cause = .press ∧ promptOf st.job st.action = none) ∨
    ∃ q, st.cause = .accept (some q) ∧ promptOf st.job st.action = some q

theorem safe_of_inv (h : Inv s) : Safe s := by
  refine ⟨h.starts, ?_, fun hquit hrunning => h.quit hquit fun hnone => ?_⟩
  · rw [h.threads]
    exact Bool.toNat_le _
  · rw [running, hnone] at hrunning
    cases hrunning

theorem agrees_of_kept (hconfirm : c.confirm = a.confirm ∨ c.confirm = none) {q : String} (h : Agrees a q) : Agrees c q := by
  intro p hp
  rcases hconfirm with hsame | hnone
  · exact h p (hsame.symm.trans hp)
  · rw [hnone] at hp
    cases hp

/-- A change that leaves the question or takes it away. -/
theorem told_kept (h : Told s) (hconfirm : c.confirm = s.app.confirm ∨ c.confirm = none) : Told { s with app := c } := by
  refine ⟨fun p hp => ?_, fun p q hq => agrees_of_kept hconfirm (h.pages p q hq),
    fun x hx st hst q hq => agrees_of_kept hconfirm (h.answers x hx st hst q hq), fun m hm ha => ?_⟩
  · rcases hconfirm with hsame | hnone
    · exact h.asked p (hsame.symm.trans hp)
    · rw [hnone] at hp
      cases hp
  · obtain ⟨q, hq, hagrees⟩ := h.accepts m hm ha
    exact ⟨q, hq, agrees_of_kept hconfirm hagrees⟩

/-- A question put where nothing else is shown. -/
theorem told_asked (h : Told s) {p : Pending} (hasked : Asked p) (hfresh : Fresh s p.prompt) :
    Told { s with app := { s.app with confirm := some p } } := by
  have hagrees : ∀ {q}, q = p.prompt → Agrees { s.app with confirm := some p } q := by
    rintro q rfl p' hp'
    rw [Option.some.inj hp']
  refine ⟨fun p' hp' => ?_, fun r q hq => hagrees (hfresh.pages r q hq),
    fun x hx st hst q hq => hagrees (hfresh.answers x hx st hst q hq), fun m hm ha => ?_⟩
  · rw [← Option.some.inj hp']
    exact hasked
  · obtain ⟨q, hq, -⟩ := h.accepts m hm ha
    exact ⟨q, hq, hagrees (hfresh.accepts m hm ha q hq)⟩

/-- Less under way. -/
theorem inv_fewer (h : Inv s) {requests : List (Sent F)} {answers : List (Nat × Answer)}
    (hrequests : ∀ m ∈ requests, m ∈ s.requests) (hanswers : ∀ x ∈ answers, x ∈ s.answers) :
    Inv { s with requests := requests, answers := answers } :=
  ⟨⟨h.asked, h.pages, fun x hx => h.answers x (hanswers x hx), fun m hm => h.accepts m (hrequests m hm)⟩, h.quit, h.threads,
    h.starts⟩

/-- An answer that tells the state as it is. -/
theorem inv_answer (h : Inv s) (page : Nat) {answer : Answer}
    (hanswer : ∀ st, answer = .ok st → st.confirm = s.app.confirm.map (·.prompt)) :
    Inv { s with answers := s.answers ++ [(page, answer)] } := by
  refine ⟨⟨h.asked, h.pages, fun x hx st hst q hq => ?_, h.accepts⟩, h.quit, h.threads, h.starts⟩
  rcases List.mem_append.mp hx with hx | hx
  · exact h.answers x hx st hst q hq
  · obtain rfl := List.mem_singleton.mp hx
    intro p hp
    rw [hanswer st hst, hp] at hq
    exact Option.some.inj hq

theorem running_polled (h : c.job = polled a.job) : running c = running a := by
  rw [running, running, h]
  cases a.job with
  | none => rfl
  | some w =>
    rw [polled]
    cases hresult : w.result with
    | none =>
      rw [if_neg (by exact Bool.false_ne_true)]
      exact (congrArg Option.isNone hresult).symm
    | some r =>
      rw [if_pos (by rfl)]
      exact (congrArg Option.isNone hresult).symm

theorem job_polled (h : c.job = polled a.job) (hjob : c.job ≠ none) : a.job ≠ none := by
  intro hnone
  rw [hnone] at h
  exact hjob h

/-- A poll of the worker. -/
theorem inv_polls (h : Inv s) (hpolls : Polls s.app c) : Inv { s with app := c } := by
  refine ⟨told_kept h.toTold (.inl hpolls.confirm), fun hquit hjob => ?_, ?_, h.starts⟩
  · exact h.quit (hpolls.shouldQuit.symm.trans hquit) (job_polled hpolls.job hjob)
  · exact h.threads.trans (congrArg Bool.toNat (running_polled hpolls.job).symm)

/-! ### Actions -/

theorem started_none (cause : Cause) (h : c.job = none ∨ a.job ≠ none) : started a c cause = [] := by
  unfold started
  split
  · next hbefore hafter =>
    rcases h with h | h
    · cases h.symm.trans hafter
    · exact absurd hbefore h
  · rfl

/-- The state after an action was served, less its answer. -/
def acted (s : State F) (c : App) (cause : Cause) (grants : List (Option String)) : State F :=
  { s with
    app := c
    starts := s.starts ++ started s.app c cause
    grants := grants
    threads := s.threads + (started s.app c cause).length }

variable {cause : Cause} {grants : List (Option String)}

/-- An action that starts nothing. -/
theorem inv_unstarted (h : Inv s) (htold : Told { s with app := b }) (hjob : running b = running s.app)
    (hnone : b.job = none ∨ s.app.job ≠ none) (hpolls : Polls b c)
    (hquit : b.shouldQuit = true → b.job ≠ none → some App.quitPrompt ∈ grants) : Inv (acted s c cause grants) := by
  have hstarted : started s.app c cause = [] := by
    refine started_none cause (hnone.imp_left fun hb => ?_)
    rw [hpolls.job, hb]
    rfl
  have hnext := told_kept htold (c := c) (.inl hpolls.confirm)
  unfold acted
  rw [hstarted, List.append_nil]
  refine ⟨⟨hnext.asked, hnext.pages, hnext.answers, hnext.accepts⟩, fun hq hj => ?_, ?_, h.starts⟩
  · exact hquit (hpolls.shouldQuit.symm.trans hq) (job_polled hpolls.job hj)
  · show s.threads = (running c).toNat
    rw [running_polled hpolls.job, hjob]
    exact h.threads

/-- A job is started, for a cause that it may have. -/
theorem inv_started (h : Inv s) {d : App} {job : JobKind} {action : Action} (hsame : d.job = s.app.job)
    (hquit : d.shouldQuit = s.app.shouldQuit) (hconfirm : d.confirm = s.app.confirm ∨ d.confirm = none)
    (hstarts : Starts d b job action) (hpolls : Polls b c) (hcalm : s.app.shouldQuit = false)
    (hcause : (cause = .press ∧ promptOf job action = none) ∨ ∃ q, cause = .accept (some q) ∧ promptOf job action = some q) :
    Inv (acted s c cause grants) := by
  obtain ⟨request, rfl, rfl, hb⟩ := hstarts.job
  have hbefore : s.app.job = none := hsame.symm.trans hstarts.idle
  have hafter : c.job = some ⟨request, [], none, false⟩ := by
    rw [hpolls.job, hb]
    rfl
  have hnew : started s.app c cause = [⟨request.job, request.action, cause⟩] := by
    unfold started
    rw [hbefore, hafter]
  have hnext := told_kept h.toTold (c := c) (hconfirm.imp
    (fun hc => hpolls.confirm.trans (hstarts.confirm.trans hc)) fun hc => hpolls.confirm.trans (hstarts.confirm.trans hc))
  unfold acted
  rw [hnew]
  refine ⟨⟨hnext.asked, hnext.pages, hnext.answers, hnext.accepts⟩, fun hq _ => ?_, ?_, fun st hst => ?_⟩
  · have hfalse : c.shouldQuit = false := hpolls.shouldQuit.trans (hstarts.shouldQuit.trans (hquit.trans hcalm))
    cases hq.symm.trans hfalse
  · show s.threads + 1 = (running c).toNat
    rw [h.threads, running, running, hbefore, hafter]
    rfl
  · rcases List.mem_append.mp hst with hst | hst
    · exact h.starts st hst
    · rw [List.mem_singleton.mp hst]
      exact hcause

/-- An action, calmly served. -/
theorem inv_acted (h : Inv s) {path : String} {body : Json.Value F} {shown : Option String} (hdid : Did s.app path body b)
    (hpolls : Polls b c) (hfresh : ∀ question, Puts s.app path body question → Fresh s question)
    (hlaunches : Launches s.app path body → s.app.shouldQuit = false)
    (hshown : accepts path body = true → ∃ q, shown = some q ∧ Agrees s.app q) :
    Inv (acted s c (if accepts path body then .accept shown else .press)
      (if accepts path body && s.app.confirm.any (·.quit) then s.grants ++ [shown] else s.grants)) := by
  -- a quit that was granted before stays granted
  have hgrants : ∀ g ∈ s.grants, g ∈ (if accepts path body && s.app.confirm.any (·.quit) then s.grants ++ [shown]
      else s.grants) := by
    intro g hg
    split
    · exact List.mem_append_left _ hg
    · exact hg
  have hkept : ∀ {d : App}, d.shouldQuit = s.app.shouldQuit → (d.job ≠ none → s.app.job ≠ none) →
      d.shouldQuit = true → d.job ≠ none → some App.quitPrompt ∈ (if accepts path body && s.app.confirm.any (·.quit) then
        s.grants ++ [shown] else s.grants) := by
    intro d hsame hjob hq hj
    exact hgrants _ (h.quit (hsame.symm.trans hq) (hjob hj))
  have hunmoved : ∀ {d : App}, d.job = s.app.job → d.job = none ∨ s.app.job ≠ none := by
    intro d hsame
    rw [hsame]
    exact Classical.em _
  cases hdid with
  | talked htalks =>
    refine inv_unstarted h (told_kept h.toTold (.inl htalks.confirm)) (by rw [running, running, htalks.job])
      (hunmoved htalks.job) hpolls (hkept htalks.shouldQuit fun hj => htalks.job ▸ hj)
  | @cancelled _ w _ hjob _ hconfirm hquit hcancel =>
    refine inv_unstarted h (told_kept h.toTold (.inl hconfirm)) ?_ (.inr ?_) hpolls (hkept hquit fun _ => ?_)
    · rw [running, running, hcancel, hjob]
      rfl
    · rw [hjob]
      rintro ⟨⟩
    · rw [hjob]
      rintro ⟨⟩
  | asked _ hasked hputs =>
    exact inv_unstarted h (told_asked h.toTold hasked (hfresh _ hputs)) rfl (Classical.em _) hpolls (hkept rfl id)
  | started haccept hprompt hlaunch hstarts =>
    refine inv_started h rfl rfl (.inl rfl) hstarts hpolls (hlaunches hlaunch) (.inl ⟨?_, hprompt⟩)
    rw [haccept]
    rfl
  | stopped _ hidle =>
    have htold : Told { s with app := { s.app with shouldQuit := true } } := told_kept h.toTold (.inl rfl)
    exact inv_unstarted h htold rfl (.inl hidle) hpolls fun _ hj => absurd hidle hj
  | declined _ _ htalks =>
    refine inv_unstarted h (told_kept h.toTold (.inr htalks.confirm)) (by rw [running, running, htalks.job])
      (hunmoved htalks.job) hpolls (hkept htalks.shouldQuit fun hj => htalks.job ▸ hj)
  | @quitted p haccept hopen hquit =>
    have htold : Told { s with app := { s.app with confirm := none, shouldQuit := true } } := told_kept h.toTold (.inr rfl)
    refine inv_unstarted h htold rfl (Classical.em _) hpolls fun _ _ => ?_
    obtain ⟨q, rfl, hagrees⟩ := hshown haccept
    have hprompt : p.prompt = App.quitPrompt := by
      have hasked := h.asked p hopen
      rwa [Asked, if_pos hquit] at hasked
    rw [haccept, hopen, Option.any_some, hquit, if_pos (by rfl), ← hagrees p hopen, hprompt]
    exact List.mem_append_right _ List.mem_cons_self
  | refused _ _ _ htalks =>
    refine inv_unstarted h (told_kept h.toTold (.inr htalks.confirm)) (by rw [running, running, htalks.job])
      (hunmoved htalks.job) hpolls (hkept htalks.shouldQuit fun hj => htalks.job ▸ hj)
  | @accepted _ p haccept hopen hquit hlaunch hstarts =>
    obtain ⟨q, rfl, hagrees⟩ := hshown haccept
    have hprompt : promptOf p.job p.action = some p.prompt := by
      have hasked := h.asked p hopen
      rwa [Asked, if_neg (by rw [hquit]; decide)] at hasked
    refine inv_started (d := { s.app with confirm := none }) h rfl rfl (.inr rfl) hstarts hpolls (hlaunches hlaunch)
      (.inr ⟨q, ?_, ?_⟩)
    · rw [haccept]
      rfl
    · rw [hprompt, hagrees p hopen]

/-- A request, calmly served. -/
theorem inv_serve (h : Inv s) {m : Sent F} (o : Outside)
    (hcalm : ∀ path body, m.request = .post path body →
      (∀ question, Puts s.app path body question → Fresh s question) ∧
      (Launches s.app path body → s.app.shouldQuit = false))
    (hshown : m.request.accepts = true → ∃ q, m.shown = some q ∧ Agrees s.app q) : Inv (serve s m o) := by
  unfold serve
  cases hrequest : m.request with
  | look since =>
    refine inv_answer (inv_polls h (polls_pollWorker s.app)) m.page fun st hst => ?_
    rw [← Except.ok.inj hst]
    rfl
  | post path body =>
    obtain ⟨hfresh, hlaunches⟩ := hcalm path body hrequest
    rw [hrequest] at hshown
    dsimp only
    rcases post_cases o s.app path body with ⟨hsame, hno, e, he⟩ | ⟨b, hdid, hpolls, hanswer⟩
    · -- a path that there is not
      have hnothing : started s.app s.app .press = [] := started_none _ (Classical.em _)
      rw [hsame, he, hno, if_neg (by exact Bool.false_ne_true), Bool.false_and, if_neg (by exact Bool.false_ne_true), hnothing,
        List.append_nil]
      exact inv_answer h m.page fun st hst => by cases hst
    · refine inv_answer (inv_acted h hdid hpolls hfresh hlaunches hshown) m.page fun st hst => ?_
      rcases hanswer with ⟨e, he⟩ | hok
      · rw [he] at hst
        cases hst
      · rw [hok] at hst
        rw [← Except.ok.inj hst]
        rfl

/-! ### Steps and runs -/

theorem inv_send (h : Inv s) (page : Nat) (request : Request F) : Inv (step s (.send page request)) := by
  unfold step
  dsimp only
  split
  · exact h
  · next hguard =>
    refine ⟨⟨h.asked, h.pages, h.answers, fun m hm ha => ?_⟩, h.quit, h.threads, h.starts⟩
    rcases List.mem_append.mp hm with hm | hm
    · exact h.accepts m hm ha
    · obtain rfl := List.mem_singleton.mp hm
      cases hshown : s.pages page with
      | none =>
        refine absurd ?_ hguard
        rw [show request.accepts = true from ha, hshown]
        rfl
      | some q => exact ⟨q, rfl, h.pages page q hshown⟩

theorem inv_deliver (h : Inv s) (i : Nat) : Inv (step s (.deliver i)) := by
  unfold step
  dsimp only
  cases hi : s.answers[i]? with
  | none => exact h
  | some x =>
    obtain ⟨page, answer⟩ := x
    have hmem : (page, answer) ∈ s.answers := List.mem_of_getElem? hi
    have hrest : ∀ x ∈ s.answers.eraseIdx i, x ∈ s.answers := fun x => List.mem_of_mem_eraseIdx
    refine ⟨⟨h.asked, fun p q hq => ?_, fun x hx => h.answers x (hrest x hx), h.accepts⟩, h.quit, h.threads, h.starts⟩
    cases answer with
    | error e => exact h.pages p q hq
    | ok st =>
      dsimp only at hq
      by_cases hp : p = page
      · rw [hp, Function.update_self] at hq
        exact h.answers _ hmem st rfl q hq
      · rw [Function.update_of_ne hp] at hq
        exact h.pages p q hq

/-- What the worker's thread does. -/
theorem inv_reported (h : Inv s) (change : Worker → Worker) {threads : Nat}
    (hthreads : ∀ w, s.app.job = some w → w.result = none → threads = (change w).result.isNone.toNat)
    (hidle : running s.app = false → threads = s.threads) :
    Inv { s with app := reported s.app change, threads := threads } := by
  unfold reported
  cases hjob : s.app.job with
  | none =>
    have hnone : running s.app = false := by rw [running, hjob]; rfl
    rw [hidle hnone]
    exact h
  | some w =>
    dsimp only
    split
    · next hdone =>
      have hnone : running s.app = false := by
        rw [running, hjob, Option.any_some, ← Option.not_isSome, hdone]
        rfl
      rw [hidle hnone]
      exact h
    · next hlive =>
      have hresult : w.result = none := Option.not_isSome_iff_eq_none.mp hlive
      have htold : Told { s with app := { s.app with job := some (change w) } } := told_kept h.toTold (.inl rfl)
      refine ⟨⟨htold.asked, htold.pages, htold.answers, htold.accepts⟩, fun hquit _ => ?_, hthreads w hjob hresult, h.starts⟩
      refine h.quit hquit ?_
      rw [hjob]
      rintro ⟨⟩

/-- A calm step keeps what is shown, carried and started in step with the question. -/
theorem step_inv (h : Inv s) (e : Event F) (hcalm : Calm s e) : Inv (step s e) := by
  cases e with
  | send page request => exact inv_send h page request
  | serve i o =>
    unfold step
    dsimp only
    cases hi : s.requests[i]? with
    | none => exact h
    | some m =>
      have hrest : ∀ m ∈ s.requests.eraseIdx i, m ∈ s.requests := fun m => List.mem_of_mem_eraseIdx
      have hfewer := inv_fewer h hrest fun x hx => hx
      refine inv_serve hfewer o (fun path body hrequest => ?_) (h.accepts m (List.mem_of_getElem? hi))
      obtain ⟨hfresh, hlaunches⟩ := hcalm m hi path body hrequest
      refine ⟨fun question hputs => ?_, hlaunches⟩
      have hquestion := hfresh question hputs
      exact ⟨hquestion.pages, hquestion.answers, fun m hm => hquestion.accepts m (hrest m hm)⟩
  | deliver i => exact inv_deliver h i
  | dropRequest i => exact inv_fewer h (fun m => List.mem_of_mem_eraseIdx) fun x hx => hx
  | dropAnswer i => exact inv_fewer h (fun m hm => hm) fun x => List.mem_of_mem_eraseIdx
  | tick => exact inv_polls h (polls_pollWorker s.app)
  | line text =>
    refine inv_reported h _ (fun w hjob hresult => ?_) fun _ => rfl
    rw [h.threads, running, hjob]
    rfl
  | done result =>
    refine inv_reported h _ (fun w hjob hresult => ?_) fun hnone => ?_
    · rw [h.threads, running, hjob, Option.any_some, hresult]
      rfl
    · rw [hnone]
      rfl

theorem run_inv (events : List (Event F)) (h : Inv s) (hcalm : CalmRun s events) : Inv (events.foldl step s) := by
  induction events generalizing s with
  | nil => exact h
  | cons e events ih => exact ih (step_inv h e hcalm.1) hcalm.2

theorem inv_init : Inv (State.init (F := F)) := by
  refine ⟨⟨?_, ?_, ?_, ?_⟩, ?_, rfl, ?_⟩
  · rintro p ⟨⟩
  · rintro p q ⟨⟩
  · intro x hx
    cases hx
  · intro m hm
    cases hm
  · rintro ⟨⟩
  · intro st hst
    cases hst

end ConfirmLemmas

open ConfirmLemmas

/-- In a calm run an accept only starts what its sender was shown, at most one job runs, and
a quit while one runs was granted by a page that showed the question. -/
theorem calm_run_safe {F : Type} (events : List (Event F)) (hcalm : CalmRun .init events) : Safe (run events) :=
  safe_of_inv (run_inv events inv_init hcalm)

/-- Nothing on the workstation, and threads to be had. -/
def outside : Outside := ⟨⟨fun _ => .missing, fun _ => .missing⟩, none⟩

def pressRestart : Request Empty := .post "/api/press" (.object [("slot", .string "restart")])
def pressReboot : Request Empty := .post "/api/press" (.object [("slot", .string "reboot")])
def answerWith (accept : Bool) : Request Empty := .post "/api/confirm" (.object [("accept", .bool accept)])

/-- One page presses and accepts. -/
def restartRun : List (Event Empty) :=
  [.send 0 pressRestart, .serve 0 outside, .deliver 0, .send 0 (answerWith true), .serve 0 outside]

theorem restart_run_safe : CalmRun .init restartRun ∧ Safe (run restartRun) := by
  have hcalm : CalmRun .init restartRun := by
    refine ⟨trivial, ?_, trivial, trivial, ?_, trivial⟩
    · intro m hm path body _
      obtain rfl := Option.some.inj hm
      refine ⟨fun question _ => ⟨?_, ?_, ?_⟩, fun _ => rfl⟩
      · rintro p q ⟨⟩
      · intro x hx
        cases hx
      · intro m hm ha
        obtain rfl := List.mem_singleton.mp hm
        cases ha
    · intro m hm path body hrequest
      have hpath : path = "/api/confirm" := by
        obtain rfl := Option.some.inj hm
        cases hrequest
        rfl
      refine ⟨fun question hputs => ?_, fun _ => by decide +kernel⟩
      rcases hputs with ⟨hpress, -⟩ | ⟨hquit, -⟩
      · exact absurd (hpath.symm.trans hpress.1) (by decide)
      · exact absurd (hpath.symm.trans hquit) (by decide)
  exact ⟨hcalm, calm_run_safe restartRun hcalm⟩

/-- The question that a page was shown is answered with no by another, which then presses a
button that asks another question, before the first page accepts. -/
def staleRun : List (Event Empty) :=
  [.send 0 pressRestart, .serve 0 outside, .deliver 0, .send 1 (.look 0), .serve 0 outside, .deliver 0,
    .send 1 (answerWith false), .serve 0 outside, .send 1 pressReboot, .serve 0 outside,
    .send 0 (answerWith true), .serve 0 outside]

theorem stale_accept_reboots : ¬ Safe (run staleRun) := by
  intro h
  have hstarts : (run staleRun).starts = [⟨.manage, .reboot, .accept (some "Restart the appliance container now?")⟩] := by
    decide +kernel
  rcases h.asked _ (by rw [hstarts]; exact List.mem_singleton_self _) with ⟨hpress, -⟩ | ⟨q, hcause, hprompt⟩
  · cases hpress
  · obtain rfl := Option.some.inj (Cause.accept.inj hcause)
    exact absurd hprompt (by decide)

end OmtClient.Gui.Confirm
