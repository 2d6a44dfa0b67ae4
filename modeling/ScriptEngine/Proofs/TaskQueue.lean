import ScriptEngine.Proofs.ClosedProperties
import ScriptEngine.Proofs.FuelStable
import ScriptEngine.Proofs.RegimeOfMachines
import ScriptEngine.Proofs.ShapeOfEvaluation

/-! # The queue of tasks

The journal tells when a task was put in the queue and when one was taken from it. At every moment
the tasks taken so far, followed by those in the queue, are the tasks that were in the queue at the
start followed by those put in since: no task is lost, called twice or moved to another place.
Programs and the calls of tasks only put tasks in; only the engine takes them, one for each call. A
moment of a run is what a machine leaves behind that is cut off there. -/

namespace ScriptEngine

/-! ### What the journal tells of tasks -/

def Event.queued? : Event → Option Value
  | .queued task => some task
  | _ => none

def Event.started? : Event → Option Value
  | .started task => some task
  | _ => none

/-- The tasks that were put in the queue, in order; the last of the events stands first. -/
def queuedIn (events : List Event) : List Value :=
  events.reverse.filterMap Event.queued?

/-- The tasks that were taken from the queue, in order; the last of the events stands first. -/
def startedIn (events : List Event) : List Value :=
  events.reverse.filterMap Event.started?

@[simp] theorem queuedIn_append (later earlier : List Event) :
    queuedIn (later ++ earlier) = queuedIn earlier ++ queuedIn later := by
  simp [queuedIn]

@[simp] theorem startedIn_append (later earlier : List Event) :
    startedIn (later ++ earlier) = startedIn earlier ++ startedIn later := by
  simp [startedIn]

@[simp] theorem queuedIn_nil : queuedIn [] = [] := rfl

@[simp] theorem startedIn_nil : startedIn [] = [] := rfl

theorem startedIn_suffix {earlier events : List Event} (hs : earlier <:+ events)
    (hn : startedIn events = []) : startedIn earlier = [] := by
  obtain ⟨later, rfl⟩ := hs
  rw [startedIn_append] at hn
  exact (List.append_eq_nil_iff.mp hn).1

/-! ### Computations that take no task -/

/-- Between the two worlds tasks were put in the queue, and none was taken. -/
structure Enqueues (w w' : World) (events : List Event) : Prop where
  journal : w'.journal = events ++ w.journal
  started : startedIn events = []
  tasks : w'.tasks = w.tasks ++ queuedIn events

/-- However the computation ends, and wherever it is cut off, it has taken no task. -/
def OnlyEnqueues (α : Type) (x : Run α) : Prop :=
  ∀ w, ∃ events, Enqueues w (x w).world events

namespace Enqueues

theorem of_same {w w' : World} (hj : w'.journal = w.journal) (ht : w'.tasks = w.tasks) :
    Enqueues w w' [] :=
  ⟨by simp [hj], rfl, by simp [ht]⟩

theorem trans {w₁ w₂ w₃ : World} {earlier later : List Event} (h₁ : Enqueues w₁ w₂ earlier)
    (h₂ : Enqueues w₂ w₃ later) : Enqueues w₁ w₃ (later ++ earlier) where
  journal := by rw [h₂.journal, h₁.journal, List.append_assoc]
  started := by rw [startedIn_append, h₁.started, h₂.started, List.append_nil]
  tasks := by rw [h₂.tasks, h₁.tasks, queuedIn_append, List.append_assoc]

theorem congr {w w' v v' : World} {events : List Event} (h : Enqueues w w' events)
    (hj : v.journal = w.journal) (ht : v.tasks = w.tasks) (hj' : v'.journal = w'.journal)
    (ht' : v'.tasks = w'.tasks) : Enqueues v v' events :=
  ⟨by rw [hj', hj, h.journal], h.started, by rw [ht', ht, h.tasks]⟩

end Enqueues

namespace OnlyEnqueues

open Run

variable {α β : Type}

theorem of_same {x : Run α}
    (hx : ∀ w, (x w).world.journal = w.journal ∧ (x w).world.tasks = w.tasks) :
    OnlyEnqueues α x :=
  fun w => ⟨[], .of_same (hx w).1 (hx w).2⟩

theorem bind {x : Run α} {f : α → Run β} (hx : OnlyEnqueues α x)
    (hf : ∀ a, OnlyEnqueues β (f a)) : OnlyEnqueues β (x >>= f) := by
  intro w
  obtain ⟨earlier, hearlier⟩ := hx w
  show ∃ events, Enqueues w (andThen x f w).world events
  simp only [andThen]
  cases hr : x w with
  | done a w₁ =>
    rw [hr] at hearlier
    obtain ⟨later, hlater⟩ := hf a w₁
    exact ⟨later ++ earlier, hearlier.trans hlater⟩
  | jumped j w₁ =>
    rw [hr] at hearlier
    exact ⟨earlier, hearlier⟩
  | failed d w₁ =>
    rw [hr] at hearlier
    exact ⟨earlier, hearlier⟩
  | exhausted w₁ =>
    rw [hr] at hearlier
    exact ⟨earlier, hearlier⟩

theorem onFailure (f : Diagnostic → Diagnostic) {x : Run α} (hx : OnlyEnqueues α x) :
    OnlyEnqueues α (onFailure f x) := by
  intro w
  have hrun := hx w
  simp only [Run.onFailure]
  cases hr : x w <;> rw [hr] at hrun <;> exact hrun

theorem catchJump {x : Run α} (hx : OnlyEnqueues α x) :
    OnlyEnqueues (Except Jump α) (catchJump x) := by
  intro w
  have hrun := hx w
  simp only [Run.catchJump]
  cases hr : x w <;> rw [hr] at hrun <;> exact hrun

theorem during (entry : TraceEntry) {x : Run α} (hx : OnlyEnqueues α x) :
    OnlyEnqueues α (during entry x) := by
  intro w
  obtain ⟨events, hrun⟩ := hx { w with calls := entry :: w.calls }
  refine ⟨events, ?_⟩
  simp only [Run.during]
  cases hr : x { w with calls := entry :: w.calls } <;> rw [hr] at hrun <;>
    exact hrun.congr rfl rfl rfl rfl

theorem withFrame {x : Run α} (hx : OnlyEnqueues α x) : OnlyEnqueues α (withFrame x) := by
  intro w
  simp only [Run.withFrame]
  by_cases hfull : w.maxDepth ≤ w.depth
  · rw [if_pos hfull]
    exact ⟨[], .of_same rfl rfl⟩
  · rw [if_neg hfull]
    obtain ⟨events, hrun⟩ := hx w.enter
    refine ⟨events, ?_⟩
    cases hr : x w.enter <;> rw [hr] at hrun <;> exact hrun.congr rfl rfl rfl rfl

theorem closed : Closed OnlyEnqueues where
  done _ := of_same fun _ => ⟨rfl, rfl⟩
  bind := bind
  observe _ := of_same fun _ => ⟨rfl, rfl⟩
  make _ := of_same fun _ => ⟨rfl, rfl⟩
  outside f g hg := of_same fun w => by
    show (g w).journal = w.journal ∧ (g w).tasks = w.tasks
    rw [hg w]
    exact ⟨rfl, rfl⟩
  noteRead name := fun w => ⟨[.read name], rfl, rfl, (List.append_nil w.tasks).symm⟩
  noteWrote e name value shown := fun w =>
    ⟨[.wrote e name value shown], rfl, rfl, (List.append_nil w.tasks).symm⟩
  spawn task := fun w => ⟨[.queued task], rfl, rfl, rfl⟩
  jump _ := of_same fun _ => ⟨rfl, rfl⟩
  fail _ := of_same fun _ => ⟨rfl, rfl⟩
  exhausted := of_same fun _ => ⟨rfl, rfl⟩
  onFailure := onFailure
  catchJump := catchJump
  withFrame := withFrame
  during := during

end OnlyEnqueues

/-! ### The account of the queue -/

/-- Between the two worlds the given events were noted. The tasks that were taken, followed by those
in the queue at the end, are those in the queue at the start, followed by those put in; and after
any of the events what was taken until then was the front of what was there to be taken. -/
structure Accounts (w w' : World) (events : List Event) : Prop where
  journal : w'.journal = events ++ w.journal
  balance : startedIn events ++ w'.tasks = w.tasks ++ queuedIn events
  meanwhile : ∀ earlier, earlier <:+ events → startedIn earlier <+: w.tasks ++ queuedIn earlier

namespace Accounts

theorem of_enqueues {w w' : World} {events : List Event} (h : Enqueues w w' events) :
    Accounts w w' events where
  journal := h.journal
  balance := by rw [h.started, h.tasks, List.nil_append]
  meanwhile := by
    intro earlier hs
    rw [startedIn_suffix hs h.started]
    exact List.nil_prefix

theorem trans {w₁ w₂ w₃ : World} {earlier later : List Event} (h₁ : Accounts w₁ w₂ earlier)
    (h₂ : Accounts w₂ w₃ later) : Accounts w₁ w₃ (later ++ earlier) where
  journal := by rw [h₂.journal, h₁.journal, List.append_assoc]
  balance := by
    calc startedIn (later ++ earlier) ++ w₃.tasks
        = startedIn earlier ++ (startedIn later ++ w₃.tasks) := by simp
      _ = startedIn earlier ++ w₂.tasks ++ queuedIn later := by rw [h₂.balance, List.append_assoc]
      _ = w₁.tasks ++ queuedIn (later ++ earlier) := by rw [h₁.balance]; simp
  meanwhile := by
    intro part hpart
    -- The events until then end inside the earlier part, or take in all of it.
    obtain ⟨after, hafter⟩ := hpart
    rcases List.append_eq_append_iff.mp hafter with ⟨begun, hlater, rfl⟩ | ⟨unseen, -, hearlier⟩
    · obtain ⟨left, hleft⟩ := h₂.meanwhile begun ⟨after, hlater.symm⟩
      refine ⟨left, ?_⟩
      calc startedIn (begun ++ earlier) ++ left
          = startedIn earlier ++ (startedIn begun ++ left) := by simp
        _ = startedIn earlier ++ w₂.tasks ++ queuedIn begun := by rw [hleft, List.append_assoc]
        _ = w₁.tasks ++ queuedIn (begun ++ earlier) := by rw [h₁.balance]; simp
    · exact h₁.meanwhile part ⟨unseen, hearlier.symm⟩

theorem take {w : World} {task : Value} {rest : List Value} (ht : w.tasks = task :: rest) :
    Accounts w { w with journal := .started task :: w.journal, tasks := rest }
      [.started task] where
  journal := rfl
  balance := by simp [ht, startedIn, queuedIn, Event.started?, Event.queued?]
  meanwhile := by
    intro earlier hs
    rcases List.suffix_cons_iff.mp hs with rfl | hnil
    · exact ⟨rest, by simp [ht, startedIn, queuedIn, Event.started?, Event.queued?]⟩
    · rw [List.suffix_nil.mp hnil]
      exact List.nil_prefix

end Accounts

/-! ### The tasks of an engine -/

/-- The first task of the queue has just been taken. -/
def World.taking (w : World) (task : Value) (rest : List Value) : World :=
  { w with journal := .started task :: w.journal, tasks := rest }

/-- The tasks were taken from the front of the queue one after the other, and each was called once,
from the globals and without arguments, before the next one was taken; every call succeeded. -/
inductive CalledInTurn (self : Machine) : List Value → World → World → Prop
  | none (w : World) : CalledInTurn self [] w w
  | next {task v : Value} {rest tasks : List Value} {w w₁ w₂ : World}
      (front : w.tasks = task :: rest)
      (called : self.call task [] w.globals (w.taking task rest) = .done v w₁)
      (more : CalledInTurn self tasks w₁ w₂) : CalledInTurn self (task :: tasks) w w₂

/-- How the tasks come to an end from a world, and which of them were taken. -/
inductive TasksEnd (self : Machine) (w : World) : List Value → Outcome Unit → Prop
  | finished {tasks : List Value} {w₁ : World} (before : CalledInTurn self tasks w w₁)
      (empty : w₁.tasks = []) : TasksEnd self w tasks (.done () w₁)
  | failed {tasks rest : List Value} {task : Value} {w₁ w₂ : World} {d : Diagnostic}
      (before : CalledInTurn self tasks w w₁) (front : w₁.tasks = task :: rest)
      (called : self.call task [] w₁.globals (w₁.taking task rest) = .failed d w₂) :
      TasksEnd self w (tasks ++ [task]) (.failed (d.withTrace ⟨w₁.heap.label task, none⟩) w₂)
  | jumped {tasks rest : List Value} {task : Value} {w₁ w₂ : World} {j : Jump}
      (before : CalledInTurn self tasks w w₁) (front : w₁.tasks = task :: rest)
      (called : self.call task [] w₁.globals (w₁.taking task rest) = .jumped j w₂) :
      TasksEnd self w (tasks ++ [task]) (.jumped j w₂)
  | cutInTask {tasks rest : List Value} {task : Value} {w₁ w₂ : World}
      (before : CalledInTurn self tasks w w₁) (front : w₁.tasks = task :: rest)
      (called : self.call task [] w₁.globals (w₁.taking task rest) = .exhausted w₂) :
      TasksEnd self w (tasks ++ [task]) (.exhausted w₂)
  | cut {tasks : List Value} {w₁ : World} (before : CalledInTurn self tasks w w₁) :
      TasksEnd self w tasks (.exhausted w₁)

theorem TasksEnd.after {self : Machine} {w w₁ : World} {task v : Value} {rest tasks : List Value}
    {o : Outcome Unit} (front : w.tasks = task :: rest)
    (called : self.call task [] w.globals (w.taking task rest) = .done v w₁)
    (h : TasksEnd self w₁ tasks o) : TasksEnd self w (task :: tasks) o := by
  cases h with
  | finished before empty => exact .finished (.next front called before) empty
  | failed before front' called' => exact .failed (.next front called before) front' called'
  | jumped before front' called' => exact .jumped (.next front called before) front' called'
  | cutInTask before front' called' => exact .cutInTask (.next front called before) front' called'
  | cut before => exact .cut (.next front called before)

theorem runTasks_empty (self : Machine) (rounds : Nat) {w : World} (ht : w.tasks = []) :
    Engine.runTasks self (rounds + 1) w = .done () w := by
  simp only [Engine.runTasks, Run.nextTask, Run.world, bind, Run.andThen, ht]
  rfl

theorem runTasks_next (self : Machine) (rounds : Nat) {w : World} {task : Value}
    {rest : List Value} (ht : w.tasks = task :: rest) :
    Engine.runTasks self (rounds + 1) w =
      match self.call task [] w.globals (w.taking task rest) with
      | .done _ w₁ => Engine.runTasks self rounds w₁
      | .jumped j w₁ => .jumped j w₁
      | .failed d w₁ => .failed (d.withTrace ⟨w.heap.label task, none⟩) w₁
      | .exhausted w₁ => .exhausted w₁ := by
  have hstep : Engine.runTasks self (rounds + 1) w =
      (((self.call task [] w.globals).onFailure
        (·.withTrace ⟨w.heap.label task, none⟩)).andThen fun _ => Run.done ()).andThen
          (fun _ => Engine.runTasks self rounds) (w.taking task rest) := by
    simp only [Engine.runTasks, Run.nextTask, Run.world, Run.note, Run.modify, bind, Run.andThen,
      ht]
    rfl
  rw [hstep]
  simp only [Run.andThen, Run.onFailure]
  cases self.call task [] w.globals (w.taking task rest) <;> rfl

/-- The engine calls the tasks in turn. What was taken is what the journal tells, and the queue is
accounted for however that ends. -/
theorem runTasks_ends {self : Machine} (hm : self.Has OnlyEnqueues) (rounds : Nat) (w : World) :
    ∃ events, Accounts w (Engine.runTasks self rounds w).world events ∧
      TasksEnd self w (startedIn events) (Engine.runTasks self rounds w) := by
  induction rounds generalizing w with
  | zero => exact ⟨[], .of_enqueues (.of_same rfl rfl), .cut (.none w)⟩
  | succ rounds ih =>
    cases ht : w.tasks with
    | nil =>
      rw [runTasks_empty _ _ ht]
      exact ⟨[], .of_enqueues (.of_same rfl rfl), .finished (.none w) ht⟩
    | cons task rest =>
      -- The call only puts tasks in, so that the account of the task is the one that was taken.
      obtain ⟨during, hduring⟩ := hm.call task [] w.globals (w.taking task rest)
      have haccount := (Accounts.take ht).trans (.of_enqueues hduring)
      have htaken : startedIn (during ++ [.started task]) = [task] := by
        rw [startedIn_append, hduring.started]
        rfl
      rw [runTasks_next _ _ ht]
      cases hr : self.call task [] w.globals (w.taking task rest) with
      | done v w₁ =>
        rw [hr] at haccount
        obtain ⟨later, hlater, hend⟩ := ih w₁
        refine ⟨later ++ (during ++ [.started task]), haccount.trans hlater, ?_⟩
        rw [startedIn_append, htaken]
        exact hend.after ht hr
      | jumped j w₁ =>
        rw [hr] at haccount
        refine ⟨_, haccount, ?_⟩
        rw [htaken]
        exact .jumped (.none w) ht hr
      | failed d w₁ =>
        rw [hr] at haccount
        refine ⟨_, haccount, ?_⟩
        rw [htaken]
        exact .failed (.none w) ht hr
      | exhausted w₁ =>
        rw [hr] at haccount
        refine ⟨_, haccount, ?_⟩
        rw [htaken]
        exact .cutInTask (.none w) ht hr

/-! ### Programs and their tasks -/

/-- The account of a program that started from `w` and of the tasks after it: `main` is how the
program ended, `whole` how the tasks did. -/
structure TaskAccount (m : Machine) (w : World) (main whole : Outcome Value)
    (events : List Event) : Prop where
  account : Accounts w whole.world events
  /-- The result is that of the program, and every task there was had its call. -/
  finished : ∀ value w', whole = .done value w' → w'.tasks = [] ∧
    ∃ w₁, main = .done value w₁ ∧ CalledInTurn m (startedIn events) w₁ w'
  /-- Without a result of the program there are no tasks. -/
  programFailed : ∀ d w', main = .failed d w' → whole = .failed d w' ∧ startedIn events = []
  /-- The task that failed is the last one that was taken; the others wait in order. -/
  taskFailed : ∀ value w₁ d w', main = .done value w₁ → whole = .failed d w' →
    ∃ tasks task rest w₂ d', CalledInTurn m tasks w₁ w₂ ∧ w₂.tasks = task :: rest ∧
      m.call task [] w₂.globals (w₂.taking task rest) = .failed d' w' ∧
      d = d'.withTrace ⟨w₂.heap.label task, none⟩ ∧ startedIn events = tasks ++ [task] ∧
      w'.tasks = (w.tasks ++ queuedIn events).drop (tasks.length + 1)

namespace TaskAccount

variable {m : Machine} {w w₁ : World} {value : Value} {events first later : List Event}

theorem of_program {o : Outcome Value} (h : Enqueues w o.world events)
    (hdone : ∀ value w', o ≠ .done value w') : TaskAccount m w o o events where
  account := .of_enqueues h
  finished value w' ho := absurd ho (hdone value w')
  programFailed _ _ ho := ⟨ho, h.started⟩
  taskFailed value w₁ _ _ ho _ := absurd ho (hdone value w₁)

theorem of_tasks {o : Outcome Unit} (hfirst : Enqueues w w₁ first)
    (hlater : Accounts w₁ o.world later) (hend : TasksEnd m w₁ (startedIn later) o) :
    TaskAccount m w (.done value w₁)
      (Run.andThen (fun _ => o) (fun _ => Run.done value) w₁) (later ++ first) := by
  have htaken : startedIn (later ++ first) = startedIn later := by
    rw [startedIn_append, hfirst.started, List.nil_append]
  have haccount := (Accounts.of_enqueues hfirst).trans hlater
  have hfailed : ∀ d w', Outcome.done value w₁ ≠ .failed d w' := fun d w' h => by cases h
  generalize hts : startedIn later = ts at hend
  cases hend with
  | @finished _ w₂ before empty =>
    refine ⟨haccount, ?_, fun d w' h => absurd h (hfailed d w'), ?_⟩
    · intro v w' h
      cases h
      rw [htaken, hts]
      exact ⟨empty, w₁, rfl, before⟩
    · intro v w' d w'' _ h
      cases h
  | @failed tasks rest task w₂ w₃ d before front called =>
    refine ⟨haccount, fun v w' h => (by cases h), fun d w' h => absurd h (hfailed d w'), ?_⟩
    intro v w' d' w'' hv h
    cases hv
    cases h
    refine ⟨tasks, task, rest, w₂, d, before, front, called, rfl, htaken.trans hts, ?_⟩
    -- What waits is what the balance leaves when the tasks that were taken are dropped.
    have hlength : (startedIn (later ++ first)).length = tasks.length + 1 := by
      rw [htaken, hts]
      simp
    rw [← haccount.balance, ← hlength, List.drop_left]
    rfl
  | jumped | cutInTask | cut =>
    exact ⟨haccount, fun v w' h => (by cases h), fun d w' h => absurd h (hfailed d w'),
      fun v w' d w'' _ h => by cases h⟩

theorem from_world {main whole : Outcome Value} (h : TaskAccount m w main whole events)
    (hj : w.journal = w₁.journal) (ht : w.tasks = w₁.tasks) :
    TaskAccount m w₁ main whole events where
  account := ⟨hj ▸ h.account.journal, ht ▸ h.account.balance, ht ▸ h.account.meanwhile⟩
  finished := h.finished
  programFailed := h.programFailed
  taskFailed := ht ▸ h.taskFailed

end TaskAccount

namespace Engine

/-- A program and then the tasks. To be told to stop is still a failure here. -/
def runAll (self : Machine) (source : String) (e : ScopeRef) (name : Option String) :
    Run Value := do
  let value ← Evaluation.runSource self source e name
  runTasks self self.rounds
  return value

theorem runAll_accounts {self : Machine} (hm : self.Has OnlyEnqueues) (source : String)
    (e : ScopeRef) (name : Option String) (w : World) :
    ∃ events, TaskAccount self w (Evaluation.runSource self source e name w)
      (runAll self source e name w) events := by
  obtain ⟨first, hfirst⟩ := OnlyEnqueues.closed.runSource hm source e name w
  simp only [runAll, bind, Run.andThen]
  cases hmain : Evaluation.runSource self source e name w with
  | done value w₁ =>
    rw [hmain] at hfirst
    obtain ⟨later, hlater, hend⟩ := runTasks_ends hm self.rounds w₁
    exact ⟨later ++ first, .of_tasks hfirst hlater hend⟩
  | jumped j w₁ =>
    rw [hmain] at hfirst
    exact ⟨first, .of_program hfirst fun v w' h => by cases h⟩
  | failed d w₁ =>
    rw [hmain] at hfirst
    exact ⟨first, .of_program hfirst fun v w' h => by cases h⟩
  | exhausted w₁ =>
    rw [hmain] at hfirst
    exact ⟨first, .of_program hfirst fun v w' h => by cases h⟩

/-- What the engine answers, where a stop counts as an end without a result. -/
def answer {α β : Type} (result : α → β) (stopped : β) : Outcome α → Outcome β
  | .done a w => .done (result a) w
  | .jumped j w => .jumped j w
  | .failed d w => if d.isStop then .done stopped w else .failed d w
  | .exhausted w => .exhausted w

theorem world_answer {α β : Type} (result : α → β) (stopped : β) (o : Outcome α) :
    (answer result stopped o).world = o.world := by
  cases o with
  | failed d w =>
    simp only [answer]
    split <;> rfl
  | _ => rfl

/-- The world in which the engine starts a program. -/
def restarted (w : World) : World :=
  { w with stopped := false, calls := [] }

/-- The world in which the engine starts a program in a scope that gets its name. -/
def restartedIn (e : ScopeRef) (name : Option String) (w : World) : World :=
  if name.isSome then
    { restarted w with heap := w.heap.modifyScope e fun s => { s with origin := name } }
  else restarted w

theorem restarted_accounts {self : Machine} (hm : self.Has OnlyEnqueues) (source : String)
    (w : World) :
    ∃ events, TaskAccount self w
      (Evaluation.runSource self source w.globals w.source (restarted w))
      (runAll self source w.globals w.source (restarted w)) events := by
  obtain ⟨events, haccount⟩ := runAll_accounts hm source w.globals w.source (restarted w)
  exact ⟨events, haccount.from_world rfl rfl⟩

theorem restartedIn_accounts {self : Machine} (hm : self.Has OnlyEnqueues) (source : String)
    (e : ScopeRef) (name : Option String) (w : World) :
    ∃ events, TaskAccount self w
      (Evaluation.runSource self source e name (restartedIn e name w))
      (runAll self source e name (restartedIn e name w)) events := by
  obtain ⟨events, haccount⟩ := runAll_accounts hm source e name (restartedIn e name w)
  have hsame : (restartedIn e name w).journal = w.journal ∧
      (restartedIn e name w).tasks = w.tasks := by
    unfold restartedIn
    split <;> exact ⟨rfl, rfl⟩
  exact ⟨events, haccount.from_world hsame.1 hsame.2⟩

theorem evalSource_eq (self : Machine) (source : String) (w : World) :
    evalSource self source w =
      answer id .null (runAll self source w.globals w.source (restarted w)) := by
  have hstart : evalSource self source w =
      unlessStopped .null (runAll self source w.globals w.source) (restarted w) := rfl
  rw [hstart, unlessStopped]
  cases runAll self source w.globals w.source (restarted w) <;> rfl

theorem runIn_eq (self : Machine) (source : String) (e : ScopeRef) (name : Option String)
    (w : World) :
    runIn self source e name w =
      answer (fun _ => ()) () (runAll self source e name (restartedIn e name w)) := by
  have hstart : runIn self source e name w = unlessStopped ()
      (((Evaluation.runSource self source e name).andThen fun _ => Run.done ()).andThen
        fun _ => runTasks self self.rounds) (restartedIn e name w) := by
    unfold restartedIn
    cases name <;> rfl
  rw [hstart, unlessStopped]
  simp only [runAll, bind, Run.andThen]
  cases Evaluation.runSource self source e name (restartedIn e name w) with
  | done v w₁ =>
    simp only [Run.done]
    cases runTasks self self.rounds w₁ <;> rfl
  | _ => rfl

end Engine

/-! ### How a run may end, and where it may be cut off -/

namespace Evaluation

theorem machine_serves_free (n r : Nat) : (machine n).Serves .free r where
  body _ _ _ hb := (machine_keeps n).1 hb.1 (fun _ hk => hb.leaves hk) trivial
  call _ _ := (machine_keeps n).2 trivial
  load _ _ node := (machine_keeps n).1 (Regime.tree_free node) (fun _ _ => trivial) trivial
  host _ _ _ key args e := machine_host_keeps rfl n key args e

/-- No jump leaves the call of a task. -/
theorem call_ne_jumped (n : Nat) (task : Value) (e : ScopeRef) (w w' : World) (j : Jump) :
    (machine n).call task [] e w ≠ .jumped j w' := by
  intro h
  have hcalls : (machine n).Calls .free w.maxDepth := (machine_keeps n).2 trivial
  have hmeets := (hcalls (fun _ => False) task [] e (Regime.admits_free _)
    fun _ hv => absurd hv List.not_mem_nil).run w (Regime.admitsWorld_free w)
  rw [h] at hmeets
  exact hmeets.2.2

theorem runSource_ne_jumped (n : Nat) (source : String) (e : ScopeRef) (name : Option String)
    (w w' : World) (j : Jump) : runSource (machine n) source e name w ≠ .jumped j w' := by
  intro h
  have hmeets := (Run.Keeps.runSource (J := fun _ => False) rfl
    (machine_serves_free n w.maxDepth) source e name).run w (Regime.admitsWorld_free w)
  rw [h] at hmeets
  exact hmeets.2.2

theorem runTasks_ne_jumped (n rounds : Nat) (w w' : World) (j : Jump) :
    Engine.runTasks (machine n) rounds w ≠ .jumped j w' := by
  intro h
  obtain ⟨events, -, hend⟩ := runTasks_ends (OnlyEnqueues.closed.machine n) rounds w
  rw [h] at hend
  generalize startedIn events = tasks at hend
  cases hend with
  | jumped before front called => exact call_ne_jumped n _ _ _ _ _ called

theorem runAll_ne_jumped (n : Nat) (source : String) (e : ScopeRef) (name : Option String)
    (w w' : World) (j : Jump) : Engine.runAll (machine n) source e name w ≠ .jumped j w' := by
  intro h
  simp only [Engine.runAll, bind, Run.andThen] at h
  cases hmain : runSource (machine n) source e name w with
  | done value w₁ =>
    rw [hmain] at h
    cases htasks : Engine.runTasks (machine n) (machine n).rounds w₁ with
    | jumped j w₂ => exact runTasks_ne_jumped n _ _ _ _ htasks
    | _ =>
      simp only [htasks] at h
      cases h
  | jumped j w₁ => exact runSource_ne_jumped n source e name w w₁ j hmain
  | _ =>
    rw [hmain] at h
    cases h

/-- The machine with `n` units of fuel that is cut off where it comes to evaluate or to call
something in a world that `cut` picks. What it leaves behind is a moment of the run. -/
def machineUntil (cut : World → Bool) : Nat → Machine
  | 0 => idle
  | n + 1 => {
    rounds := n
    evaluate := fun node e w =>
      if cut w then .exhausted w else evalUnlessStopped (machineUntil cut n) node e w
    call := fun callee args e w =>
      if cut w then .exhausted w else callValue (machineUntil cut n) callee args e w
    host := fun key args e w => Callbacks.none key (machineUntil cut n) args e w }

/-- Until then it does what the machine does. -/
theorem machineUntil_approximates (cut : World → Bool) (n : Nat) :
    (machineUntil cut n).Approximates (machine n) := by
  have hcut : ∀ {x x' : Run Value}, x.Approximates x' →
      Run.Approximates (fun w => if cut w then .exhausted w else x w) x' := by
    intro x x' hx w
    dsimp only
    split
    · exact .inl ⟨w, rfl⟩
    · exact hx w
  induction n with
  | zero => exact ⟨Nat.le_refl _, fun _ _ => .refl _, fun _ _ _ => .refl _, fun _ _ _ => .refl _⟩
  | succ n ih =>
    exact ⟨Nat.le_refl _, fun node e => hcut (.evalUnlessStopped ih node e),
      fun callee args e => hcut (.callValue ih callee args e), fun _ _ _ => .refl _⟩

theorem machineUntil_enqueues (cut : World → Bool) (n : Nat) :
    (machineUntil cut n).Has OnlyEnqueues := by
  have hcut : ∀ x : Run Value, OnlyEnqueues Value x →
      OnlyEnqueues Value fun w => if cut w then .exhausted w else x w := by
    intro x hx w
    dsimp only
    split
    · exact ⟨[], .of_same rfl rfl⟩
    · exact hx w
  induction n with
  | zero => exact OnlyEnqueues.closed.machine 0
  | succ n ih =>
    exact ⟨fun node e => hcut _ (OnlyEnqueues.closed.evalUnlessStopped ih node e),
      fun callee args e => hcut _ (OnlyEnqueues.closed.callValue ih callee args e),
      fun _ _ _ => OnlyEnqueues.closed.raise _⟩

end Evaluation

/-- No task is lost, called twice or moved to another place, at whatever moment a call of the engine
is cut off, and up to there it is the call itself. If the program and its tasks end without a stop,
the queue is empty, every task was called once and the result is that of the program; if the program
fails no task was taken, and if a task fails it is the last one that was. -/
theorem tasks_conserved (n : Nat) (source : String) (w : World) :
    (∀ cut, (Evaluation.machineUntil cut n).Approximates (Evaluation.machine n)) ∧
    ((∃ whole events,
        Engine.evalSource (Evaluation.machine n) source w = Engine.answer id .null whole ∧
        (∀ j w', whole ≠ .jumped j w') ∧
        TaskAccount (Evaluation.machine n) w (Evaluation.runSource (Evaluation.machine n) source
          w.globals w.source (Engine.restarted w)) whole events) ∧
      ∀ cut, ∃ events,
        Accounts w (Engine.evalSource (Evaluation.machineUntil cut n) source w).world events) ∧
    ∀ e name,
      (∃ whole events,
        Engine.runIn (Evaluation.machine n) source e name w =
          Engine.answer (fun _ => ()) () whole ∧
        (∀ j w', whole ≠ .jumped j w') ∧
        TaskAccount (Evaluation.machine n) w (Evaluation.runSource (Evaluation.machine n) source
          e name (Engine.restartedIn e name w)) whole events) ∧
      ∀ cut, ∃ events,
        Accounts w (Engine.runIn (Evaluation.machineUntil cut n) source e name w).world events := by
  refine ⟨fun cut => Evaluation.machineUntil_approximates cut n, ⟨?_, fun cut => ?_⟩,
    fun e name => ⟨?_, fun cut => ?_⟩⟩
  · obtain ⟨events, haccount⟩ := Engine.restarted_accounts (OnlyEnqueues.closed.machine n) source w
    exact ⟨_, events, Engine.evalSource_eq _ _ _,
      fun j w' => Evaluation.runAll_ne_jumped n source _ _ _ w' j, haccount⟩
  · obtain ⟨events, haccount⟩ :=
      Engine.restarted_accounts (Evaluation.machineUntil_enqueues cut n) source w
    refine ⟨events, ?_⟩
    rw [Engine.evalSource_eq, Engine.world_answer]
    exact haccount.account
  · obtain ⟨events, haccount⟩ :=
      Engine.restartedIn_accounts (OnlyEnqueues.closed.machine n) source e name w
    exact ⟨_, events, Engine.runIn_eq _ _ _ _ _,
      fun j w' => Evaluation.runAll_ne_jumped n source _ _ _ w' j, haccount⟩
  · obtain ⟨events, haccount⟩ :=
      Engine.restartedIn_accounts (Evaluation.machineUntil_enqueues cut n) source e name w
    refine ⟨events, ?_⟩
    rw [Engine.runIn_eq, Engine.world_answer]
    exact haccount.account

theorem Heap.display_null (h : Heap) : h.display .null = "0" := by
  unfold display
  cases h.lists.size <;> rfl

/-- `a` queues `c`, which queues `b` once more. -/
def nestedTasks : String :=
  "function a(): async(c)\nfunction b(): 0\nfunction c(): async(b)\nasync(a)\nasync(b)\n7"

def World.calledTasks (w : World) : List String :=
  (startedIn w.journal).map w.heap.label

def World.waitingTasks (w : World) : List String :=
  w.tasks.map w.heap.label

/-- Two tasks have been taken. -/
def World.inSecondTask (w : World) : Bool :=
  w.calledTasks.length == 2

/-- In the end each task that was put in had its call. Cut off in the second one, the run has left
in the queue what the first one put there. -/
theorem tasks_conserved_nested :
    (∃ value w₁ w' events,
      Engine.evalSource (Evaluation.machine 12) nestedTasks (World.initial {}) = .done value w' ∧
      Accounts (World.initial {}) w' events ∧ w'.tasks = [] ∧
      CalledInTurn (Evaluation.machine 12) (startedIn events) w₁ w' ∧
      w'.calledTasks = ["a", "b", "c", "b"]) ∧
    ∃ events w', w' = (Engine.evalSource (Evaluation.machineUntil World.inSecondTask 12) nestedTasks
        (World.initial {})).world ∧
      Accounts (World.initial {}) w' events ∧ w'.calledTasks = ["a", "b"] ∧
      w'.waitingTasks = ["c"] := by
  obtain ⟨-, ⟨⟨whole, events, hanswer, -, haccount⟩, hcuts⟩, -⟩ :=
    tasks_conserved 12 nestedTasks (World.initial {})
  have hshown : (Engine.evalSource (Evaluation.machine 12) nestedTasks (World.initial {})).shown? =
      some "7" := by decide +kernel
  have hcalled : (Engine.evalSource (Evaluation.machine 12) nestedTasks
      (World.initial {})).world.calledTasks = ["a", "b", "c", "b"] := by decide +kernel
  constructor
  · rw [hanswer] at hshown hcalled
    cases whole with
    | done value w' =>
      obtain ⟨hempty, w₁, -, hturns⟩ := haccount.finished value w' rfl
      exact ⟨value, w₁, w', events, hanswer, haccount.account, hempty, hturns, hcalled⟩
    | failed d w' =>
      -- A run that was told to stop would have null as its result.
      cases hstop : d.isStop with
      | false => simp [Engine.answer, hstop, Outcome.shown?] at hshown
      | true => simp [Engine.answer, hstop, Outcome.shown?, Heap.display_null] at hshown
    | jumped | exhausted => cases hshown
  · obtain ⟨events, hcut⟩ := hcuts World.inSecondTask
    exact ⟨events, _, rfl, hcut, by decide +kernel, by decide +kernel⟩

end ScriptEngine
