import ScriptEngine.Proofs.ControlSignals
import ScriptEngine.Proofs.FuelStable
import ScriptEngine.Proofs.WatchedEvaluation
import ScriptEngine.Session

/-! # Setters of the host

Whatever a host did before, a program that includes nothing tells the setter of a name of the
globals of every write: each notification carries the value that has just been stored, and when the
program ends, in whatever way, the globals hold what the last notification told. -/

namespace ScriptEngine

/-! ### Machines that include nothing -/

namespace Evaluation

/-- The machine with `n` units of fuel that evaluates no include and that is cut off behind an
evaluation when `cut` picks the world there. What it leaves behind is a moment of the run. -/
def loneMachine (cut : World → Bool) : Nat → Machine
  | 0 => idle
  | n + 1 => {
    rounds := n
    evaluate := fun node e w =>
      if node.isInclude && !w.stopped then .exhausted w
      else
        let o := evalUnlessStopped (loneMachine cut n) node e w
        if cut o.world then .exhausted o.world else o
    call := fun callee args e w => callValue (loneMachine cut n) callee args e w
    host := fun key args e w => Callbacks.none key (loneMachine cut n) args e w }

/-- It does what the machine does until it is cut off or comes to an include. -/
theorem loneMachine_approximates (cut : World → Bool) (n : Nat) :
    (loneMachine cut n).Approximates (machine n) := by
  induction n with
  | zero => exact ⟨Nat.le_refl _, fun _ _ => .refl _, fun _ _ _ => .refl _, fun _ _ _ => .refl _⟩
  | succ n ih =>
    refine ⟨Nat.le_refl _, fun node e w => ?_, fun callee args e => .callValue ih callee args e,
      fun _ _ _ => .refl _⟩
    simp only [loneMachine]
    split
    · exact .inl ⟨w, rfl⟩
    · split
      · exact .inl ⟨_, rfl⟩
      · exact Run.Approximates.evalUnlessStopped ih node e w

end Evaluation

/-! ### Machines under a watch -/

open Evaluation

namespace Watch

variable {W : Watch}

/-- Where the notification has not just come, it is still waited for. -/
theorem Stored.open_of_ne {w : World} (hw : W.Stored w)
    (hne : ∀ x ∈ W.setter, w.journal ≠ x.moment W.globals) : W.Open w :=
  ⟨hw.accounted, fun x hx hs => hne x hx (hw.heard x hx hs).journal⟩

theorem meets_open {α : Type} {Q : α → Prop} {o : Outcome α}
    (ho : o.Meets (W.contract W.Stored) Q)
    (hne : ∀ x ∈ W.setter, o.world.journal ≠ x.moment W.globals) :
    o.Meets (W.contract W.Open) Q := by
  have hw := ho.of_world.open_of_ne hne
  cases o with
  | done | jumped | failed | exhausted => exact ⟨hw, ho.2⟩

theorem idle_follows : idle.Follows W idle :=
  ⟨rfl, fun _ _ => .exhausted, fun _ _ _ _ _ => .exhausted, fun _ _ _ _ => .exhausted⟩

/-- Without a setter every machine follows itself, also through includes. -/
theorem machine_follows (hW : W.setter = none) (n : Nat) : (machine n).Follows W (machine n) := by
  have hne : ∀ w : World, ∀ x ∈ W.setter, w.journal ≠ x.moment W.globals := fun w x hx => by
    rw [hW] at hx
    cases hx
  induction n with
  | zero => exact idle_follows
  | succ n ih =>
    refine ⟨rfl, fun node e => ⟨fun w hw => ?_⟩,
      fun callee args e hc ha => Run.Follows.callValue ih hc ha e,
      fun _ _ _ _ => .same (Run.Discreet.raise _)⟩
    exact (Run.Follows.evalUnlessStopped ih node e hw fun _ _ => hW).imp_left
      fun ⟨heq, hmeets⟩ => ⟨heq, meets_open hmeets (hne _)⟩

/-- A machine that is cut off at the notification follows the one that is not. -/
theorem loneMachine_follows {x : Setter} (hx : W.setter = some x) {cut : World → Bool}
    (hcut : ∀ w, cut w = true ↔ w.journal = x.moment W.globals) (n : Nat) :
    (loneMachine (fun _ => false) n).Follows W (loneMachine cut n) := by
  induction n with
  | zero => exact idle_follows
  | succ n ih =>
    refine ⟨rfl, fun node e => ⟨fun w hw => ?_⟩,
      fun callee args e hc ha => Run.Follows.callValue ih hc ha e,
      fun _ _ _ _ => .same (Run.Discreet.raise _)⟩
    simp only [loneMachine, Bool.false_eq_true, if_false]
    by_cases hinclude : (node.isInclude && !w.stopped) = true
    · rw [if_pos hinclude, if_pos hinclude]
      exact .inl ⟨rfl, hw, trivial⟩
    · rw [if_neg hinclude, if_neg hinclude]
      have hfree : node.isInclude = true → w.stopped = false → W.setter = none :=
        fun hi hs => absurd (by rw [hi, hs]; rfl) hinclude
      rcases Run.Follows.evalUnlessStopped ih node e hw hfree with
        ⟨heq, hmeets⟩ | ⟨v, hrun, hheard⟩
      · rw [heq]
        by_cases hnow : cut (Evaluation.evalUnlessStopped (loneMachine (fun _ => false) n)
            node e w).world = true
        · -- The rule has just noted the notification.
          have hjournal := (hcut _).mp hnow
          rw [if_pos hnow]
          refine .inr ⟨_, rfl, x, hx, hmeets.of_world.heard x hx ?_⟩
          exact hjournal ▸ List.suffix_refl _
        · rw [if_neg hnow]
          refine .inl ⟨rfl, meets_open hmeets fun y hy heq => hnow ((hcut _).mpr ?_)⟩
          rw [hx] at hy
          cases hy
          exact heq
      · rw [hrun]
        exact .inr ⟨v, by split <;> rfl, hheard⟩

end Watch

/-! ### The engine under a watch -/

namespace Run.Follows

variable {W : Watch} {α : Type} {Q : α → Prop} {m m' : Machine}

theorem unlessStopped {fallback : α} (hf : Q fallback) {x x' : Run α}
    (hx : Follows W W.Open Q x x') :
    Follows W W.Open Q (Engine.unlessStopped fallback x) (Engine.unlessStopped fallback x') :=
  hx.around _ id (fun _ _ => rfl) (fun _ _ => rfl) (fun _ hw => hw) fun _ hy =>
    Meets.unlessStopped hf hy

theorem runTasks (hm : m.Follows W m') (rounds : Nat) :
    Follows W W.Open Whatever (Engine.runTasks m rounds) (Engine.runTasks m' rounds) := by
  induction rounds with
  | zero => exact exhausted
  | succ rounds ih =>
    refine after .nextTask fun next hnext => ?_
    split
    · exact same (.done trivial)
    · rename_i task
      exact after .world fun w _ => bind
        (discard (onFailure (·.fault_withTrace _)
          (hm.call task [] w.globals (hnext task rfl) .nil))) fun _ _ => ih

theorem evalSource (hm : m.Follows W m') (source : String) :
    Follows W W.Open (Value.Apart W.globals) (Engine.evalSource m source)
      (Engine.evalSource m' source) := by
  refine after (.modify fun _ => ⟨rfl, rfl, rfl, rfl⟩) fun _ _ =>
    unlessStopped trivial (after .world fun w _ => ?_)
  rw [hm.rounds]
  exact bind (runSource hm source _ _) fun value hv =>
    before (runTasks hm _) fun _ _ => .done hv

theorem runIn (hm : m.Follows W m') (source : String) (e : ScopeRef) (name : Option String) :
    Follows W W.Open Whatever (Engine.runIn m source e name)
      (Engine.runIn m' source e name) := by
  refine after (.modify fun _ => ⟨rfl, rfl, rfl, rfl⟩) fun _ _ => ?_
  have hrun : Follows W W.Open Whatever
      (Engine.unlessStopped () do
        Functor.discard (Evaluation.runSource m source e name)
        Engine.runTasks m m.rounds)
      (Engine.unlessStopped () do
        Functor.discard (Evaluation.runSource m' source e name)
        Engine.runTasks m' m'.rounds) := by
    rw [hm.rounds]
    exact unlessStopped trivial (bind (discard (runSource hm source e name)) fun _ _ =>
      runTasks hm _)
  split
  · exact after (.setOrigin e name) fun _ _ => hrun
  · exact hrun

theorem evaluateIn (hm : m.Follows W m') (source : String) (e : ScopeRef)
    (name : Option String) :
    Follows W W.Open (CaughtApart W.globals) (Engine.evaluateIn m source e name)
      (Engine.evaluateIn m' source e name) :=
  after (.ofExcept _) fun root _ => catchJump (hm.evaluate root e)

end Run.Follows

/-! ### The steps of a session under a watch -/

/-- The step runs a program. -/
def Step.isProgram : Step → Bool
  | .eval _ | .run _ _ | .execute _ _ | .evaluate _ _ => true
  | _ => false

namespace Run.Discreet

variable {W : Watch}

theorem reportStopped : Discreet W Whatever Session.reportStopped :=
  world.bind fun _ _ => .done trivial

theorem reportPending : Discreet W Whatever Session.reportPending :=
  world.bind fun _ _ => .done trivial

theorem tell {α : Type} {Q : α → Prop} {x : Run α} (hx : Discreet W Q x) (f : α → Report) :
    Discreet W Whatever (x >>= fun a => pure (f a)) :=
  hx.bind fun _ _ => .done trivial

/-- A host that tracks a name or binds one itself does so outside of programs. -/
theorem track (hW : W.setter = none) (e : ScopeRef) (name : String) (value : HostValue)
    (watch : Bool) : Discreet W Whatever (Session.track e name value watch) := by
  refine .bind (modify fun _ => ⟨rfl, rfl, rfl, rfl⟩) fun _ _ => ?_
  refine (readCell name).bind fun v hv =>
    (define (Watch.unwatched_of_none hW e) name hv).bind fun _ _ => ?_
  refine modifyHeap fun h hh =>
    ⟨hh.modifyScope ?_, .modifyScope (Watch.unwatched_of_none hW e) h _⟩
  cases watch with
  | true => exact hh.bindings e
  | false => exact hh.bindings e

/-- Without a setter a write is like any other change. -/
theorem setUnheard (hW : W.setter = none) (e : ScopeRef) (name : String) {v : Value}
    (hv : v.Apart W.globals) : Discreet W Whatever (Run.set e name v) := by
  refine ⟨fun w hw => ?_⟩
  rw [Run.set_eq]
  refine ⟨⟨hw.accounted.write e name hv, fun x hx => ?_⟩, trivial⟩
  rw [hW] at hx
  cases hx

end Run.Discreet

namespace Run.Follows

open Session

variable {W : Watch} {m m' : Machine}

theorem tell {α : Type} {Q : α → Prop} {x x' : Run α} (hx : Follows W W.Open Q x x')
    (f : α → Report) :
    Follows W W.Open Whatever (x >>= fun a => pure (f a)) (x' >>= fun a => pure (f a)) :=
  before hx fun _ _ => .done trivial

theorem operand (hm : m.Follows W m') (e : ScopeRef) (o : Operand) :
    Follows W W.Open (Discreet.FoundApart W.globals) (Session.operand m e o)
      (Session.operand m' e o) := by
  cases o with
  | host v =>
    exact same ((Discreet.fromHost v).bind fun _ hv => .done fun _ ha => Option.some.inj ha ▸ hv)
  | source code =>
    exact before (runSource hm code e none) fun _ hv => .done fun _ ha => Option.some.inj ha ▸ hv
  | name name => exact same (.get e name)

theorem withOperand (hm : m.Follows W m') (e : ScopeRef) (o : Operand)
    {next next' : Value → Run Report}
    (hn : ∀ v, v.Apart W.globals → Follows W W.Open Whatever (next v) (next' v)) :
    Follows W W.Open Whatever (Session.withOperand m e o next)
      (Session.withOperand m' e o next') := by
  refine bind (operand hm e o) fun found hfound => ?_
  split
  · exact hn _ (hfound _ rfl)
  · exact same (.done trivial)

theorem withOperands (hm : m.Follows W m') (e : ScopeRef) (os : List Operand)
    {next next' : List Value → Run Report}
    (hn : ∀ vs, ValuesApart W.globals vs → Follows W W.Open Whatever (next vs) (next' vs)) :
    Follows W W.Open Whatever (Session.withOperands m e os next)
      (Session.withOperands m' e os next') := by
  induction os generalizing next next' with
  | nil => exact hn [] .nil
  | cons o more ih =>
    exact withOperand hm e o fun v hv => ih fun vs hvs => hn (v :: vs) (.cons hv hvs)

theorem makeScope (hm : m.Follows W m') (scopes : List (String × ScopeRef)) (e : ScopeRef)
    (what : NewScope) :
    Follows W W.Open Whatever (Session.makeScope m scopes e what)
      (Session.makeScope m' scopes e what) := by
  cases what with
  | detached name => exact same (Discreet.tell (.newScope .nil) _)
  | named name => exact same (Discreet.tell (.newScope .nil) _)
  | inner => exact same (Discreet.tell (.innerScope e) _)
  | view receiver =>
    simp only [Session.makeScope]
    split
    · exact same (Discreet.tell (.memberView _ e) _)
    · exact same (.done trivial)
  | ofInstance o => exact withOperand hm e o fun _ _ => same (.done trivial)

/-- A program may be followed for a setter; whatever else a host does is followed without one. -/
theorem perform (hm : m.Follows W m') (scopes : List (String × ScopeRef)) (e : ScopeRef)
    (step : Step) (hW : step.isProgram = false → W.setter = none) :
    Follows W W.Open Whatever (Session.perform m scopes e step)
      (Session.perform m' scopes e step) := by
  cases step with
  | eval source => exact tell (evalSource hm source) _
  | run source name => exact tell (runIn hm source e name) _
  | execute source name => exact tell (runSource hm source e name) _
  | evaluate source name => exact tell (evaluateIn hm source e name) _
  | runTasks =>
    simp only [Session.perform]
    rw [hm.rounds]
    exact before (runTasks hm _) fun _ _ => .reportPending
  | countTasks => exact same .reportPending
  | spawn task =>
    exact withOperand hm e task fun v hv => same ((Discreet.spawn hv).bind fun _ _ =>
      Discreet.reportPending)
  | stop =>
    exact same (.bind (Discreet.modify fun _ => ⟨rfl, rfl, rfl, rfl⟩) fun _ _ =>
      Discreet.reportStopped)
  | reset =>
    exact same (.bind (Discreet.modify fun _ => ⟨rfl, rfl, rfl, rfl⟩) fun _ _ =>
      Discreet.reportStopped)
  | askStopped => exact same .reportStopped
  | native name params behavior =>
    refine same (.bind (Discreet.newNative fun _ => ?_) fun v hv =>
      Discreet.tell (.define (Watch.unwatched_of_none (hW rfl) e) name hv) _)
    trivial
  | call callee args =>
    exact withOperand hm e callee fun f hf => withOperands hm e args fun vs hvs =>
      tell (hm.call f vs e hf hvs) _
  | instantiate cls args =>
    exact withOperand hm e cls fun c _ => withOperands hm e args fun vs hvs =>
      tell (instantiateValue hm c hvs e) _
  | binary op left right =>
    exact withOperand hm e left fun a _ => withOperand hm e right fun b hb =>
      tell (binary hm op a hb) _
  | update op left right =>
    exact withOperand hm e left fun a _ => withOperand hm e right fun b hb =>
      tell (arithmetic hm op a hb) _
  | unary op value => exact withOperand hm e value fun a ha => tell (unary hm op ha) _
  | equals left right =>
    exact withOperand hm e left fun a _ => withOperand hm e right fun b _ =>
      same (Discreet.tell .heap _)
  | inspect value => exact withOperand hm e value fun _ _ => same (.done trivial)
  | members value =>
    exact withOperand hm e value fun v _ => same (Discreet.tell (.memberScope v) _)
  | create id what => exact makeScope hm scopes e what
  | parent => exact same (Discreet.tell .heap _)
  | owner name => exact same (Discreet.tell (.owner e name) _)
  | storage => exact same (Discreet.tell (.storage e) _)
  | root => exact same (Discreet.tell .heap _)
  | define name value =>
    exact withOperand hm e value fun v hv =>
      same (Discreet.tell (.define (Watch.unwatched_of_none (hW rfl) e) name hv) _)
  | set name value =>
    exact withOperand hm e value fun v hv =>
      same (Discreet.tell (.setUnheard (hW rfl) e name hv) _)
  | get name => exact same (Discreet.tell (.get e name) _)
  | getOwn name => exact same (Discreet.tell .heap _)
  | remove name =>
    exact same (Discreet.heap.bind fun _ _ => Discreet.tell (.remove e name) _)
  | contains name => exact same (Discreet.tell .heap _)
  | mergeInto source =>
    simp only [Session.perform]
    split
    · exact same (Discreet.tell (.mergeInto (Watch.unwatched_of_none (hW rfl) e) _) _)
    · exact same (.done trivial)
  | mergeMissing source =>
    simp only [Session.perform]
    split
    · exact same (Discreet.tell (.mergeMissing (Watch.unwatched_of_none (hW rfl) e) _) _)
    · exact same (.done trivial)
  | setOrigin path => exact same (Discreet.tell (.setOrigin e (some path)) _)
  | origin => exact same (Discreet.tell .heap _)
  | dump => exact same (.done trivial)
  | track name value watch => exact same (Discreet.tell (.track (hW rfl) e name value watch) _)
  | setCell name value =>
    refine same (Discreet.tell (.modify fun _ => ?_) _)
    exact ⟨rfl, rfl, rfl, rfl⟩
  | watch name =>
    refine same (Discreet.tell (.modifyHeap fun h hh => ?_) _)
    exact ⟨hh.modifyScope (hh.bindings e), .modifyScope (Watch.unwatched_of_none (hW rfl) e) h _⟩

end Run.Follows

/-! ### Sessions -/

namespace Watch

/-- The globals that every session starts with, without a setter. -/
def unset : Watch :=
  { globals := ⟨0⟩, setter := none }

theorem Open.unset {w : World} (hg : w.globals = ⟨0⟩) (hh : w.heap.Apart ⟨0⟩)
    (ht : ValuesApart ⟨0⟩ w.tasks) : Watch.unset.Open w :=
  ⟨⟨hg, hh, ht, fun _ hx => by cases hx⟩, fun _ hx => by cases hx⟩

theorem open_bare (c : Config) : unset.Open (World.bare c) := by
  refine .unset rfl ⟨Nat.zero_lt_one, fun e => ?_, fun l => .nil⟩ .nil
  show EntriesApart _ ((Heap.empty.newScope _).2.scope e).bindings
  rw [Heap.scope_newScope]
  split
  · exact .nil
  · exact .nil

theorem standardBindings_discreet (W : Watch) :
    Run.Discreet W (EntriesApart W.globals) Builtins.standardBindings := by
  have hbuiltins : ∀ bs : List Builtin, Run.Discreet W (EntriesApart W.globals)
      (Methods.bound (bs.map .builtin)) :=
    fun bs => .boundMethods bs fun _ _ => trivial
  refine (hbuiltins _).bind fun core hcore => ?_
  refine (Run.Discreet.newClass _ _ _ _).bind fun object hobject => ?_
  refine (Run.Discreet.newNumber _).bind fun pi hpi => ?_
  refine (Run.Discreet.newNumber _).bind fun phi hphi => ?_
  refine (hbuiltins _).bind fun math hmath => ?_
  refine (Run.Discreet.newClass _ _ _ _).bind fun file hfile => ?_
  refine (hbuiltins _).bind fun scanner hscanner => Run.Meets.done fun entry hm => ?_
  simp only [List.mem_append, List.mem_cons, List.not_mem_nil, or_false] at hm
  obtain (((hm | rfl | rfl | rfl) | hm) | rfl) | hm := hm
  · exact hcore entry hm
  · exact hobject
  · exact hpi
  · exact hphi
  · exact hmath entry hm
  · exact hfile
  · exact hscanner entry hm

theorem Open.install {W : Watch} (hW : W.setter = none) {w : World} (hw : W.Open w) :
    W.Open w.install := by
  have hbindings := standardBindings_discreet W
  unfold World.install
  generalize Builtins.standardBindings = x at hbindings ⊢
  have hmeets := hbindings.run w hw
  cases hx : x w with
  | done entries w₁ =>
    rw [hx] at hmeets
    exact hmeets.1.withHeap (hmeets.1.accounted.heap.defineAll _ hmeets.2)
      (.modifyScope (unwatched_of_none hW _) _ _)
  | jumped | failed | exhausted => exact hw

theorem open_initial (c : Config) : unset.Open (World.initial c) := by
  unfold World.initial
  split
  · exact (open_bare c).install rfl
  · exact open_bare c

end Watch

namespace Session

/-- The sessions that a host gets to from a start, step by step. -/
inductive Reached (c : Config) : Session → Prop where
  | start : Reached c (start c)
  | step {s : Session} (n : Nat) (id : String) (step : Step) : Reached c s →
      Reached c (s.step (machine n) id step).2

/-- The world that the next step starts in. -/
def opened (s : Session) : World :=
  { s.world with output := "", journal := [], calls := [] }

theorem world_record (s : Session) (step : Step) (report : Report) :
    (s.record step report).world = s.world := by
  unfold record
  split <;> rfl

/-- A step leaves the world of what it did, or that of before if it does not answer. -/
theorem world_step (m : Machine) (s : Session) (id : String) (step : Step) :
    (s.step m id step).2.world = s.world ∨
      ∃ e, (s.step m id step).2.world = (perform m s.scopes e step s.opened).world := by
  unfold Session.step
  split
  · exact .inl rfl
  · rename_i e _
    rw [← opened]
    cases hrun : perform m s.scopes e step s.opened with
    | exhausted w => exact .inl rfl
    | done report w => exact .inr ⟨e, by rw [hrun, world_record]; rfl⟩
    | jumped j w => exact .inr ⟨e, by rw [hrun]; rfl⟩
    | failed d w => exact .inr ⟨e, by rw [hrun]; rfl⟩

theorem Reached.unset {c : Config} {s : Session} (hs : Reached c s) : Watch.unset.Open s.world := by
  induction hs with
  | start => exact Watch.open_initial c
  | @step s n id step _ ih =>
    rcases world_step (machine n) s id step with heq | ⟨e, heq⟩
    · rw [heq]
      exact ih
    · have hopened : Watch.unset.Open s.opened :=
        .unset ih.accounted.globals ih.accounted.heap ih.accounted.tasks
      have hstep := Run.Follows.perform (W := Watch.unset) (Watch.machine_follows rfl n)
        s.scopes e step fun _ => rfl
      rw [heq]
      rcases hstep.run s.opened hopened with ⟨-, hmeets⟩ | ⟨v, -, x, hx, -⟩
      · exact hmeets.of_world
      · cases hx

/-! ### Programs in a session -/

/-- No include is evaluated while the step runs: a machine that evaluates none gets as far. -/
def IncludesNothing (s : Session) (n : Nat) (e : ScopeRef) (step : Step) : Prop :=
  perform (loneMachine (fun _ => false) n) s.scopes e step s.opened =
    perform (machine n) s.scopes e step s.opened

theorem perform_approximates {m m' : Machine} (hm : m.Approximates m')
    (scopes : List (String × ScopeRef)) (e : ScopeRef) {step : Step}
    (hs : step.isProgram = true) :
    (perform m scopes e step).Approximates (perform m' scopes e step) := by
  cases step with
  | eval source => exact .before (Engine.evalSource_approximates hm source) _
  | run source name => exact .before (Engine.runIn_approximates hm source e name) _
  | execute source name => exact .before (.runSource hm source e name) _
  | evaluate source name => exact .before (Engine.evaluateIn_approximates hm source e name) _
  | _ => cases hs

/-- A machine that evaluates no include and ends the step by itself shows that there is none. -/
theorem IncludesNothing.of_ended {s : Session} {n : Nat} {e : ScopeRef} {step : Step}
    (hs : step.isProgram = true)
    (h : ∀ w, perform (loneMachine (fun _ => false) n) s.scopes e step s.opened ≠ .exhausted w) :
    s.IncludesNothing n e step := by
  rcases perform_approximates (loneMachine_approximates (fun _ => false) n) s.scopes e hs s.opened
    with ⟨w, hcut⟩ | heq
  · exact absurd hcut (h w)
  · exact heq.symm

/-- The name in the globals, followed from the start of a step to a notification. -/
def setter (s : Session) (name : String) (value : Value) (shown : String)
    (earlier : List Event) : Setter :=
  { name := name, journal := [], before := (s.world.heap.scope s.world.globals).bindings.get? name,
    value := value, shown := shown, earlier := earlier }

theorem Reached.watched {c : Config} {s : Session} (hs : Reached c s) (name : String)
    (value : Value) (shown : String) (earlier : List Event) :
    Watch.Open ⟨s.world.globals, some (s.setter name value shown earlier)⟩ s.opened where
  accounted := {
    globals := rfl
    heap := hs.unset.accounted.globals ▸ hs.unset.accounted.heap
    tasks := hs.unset.accounted.globals ▸ hs.unset.accounted.tasks
    account := fun x hx => by
      cases hx
      exact ⟨[], rfl, fun _ => rfl⟩ }
  waiting x hx hsuffix := by
    cases hx
    cases List.suffix_nil.mp hsuffix

open Classical in
/-- Up to a notification a program does the same under a machine that is cut off there. -/
theorem Reached.follows {c : Config} {s : Session} (hs : Reached c s) {n : Nat} {e : ScopeRef}
    {step : Step} (hstep : step.isProgram = true) (hnone : s.IncludesNothing n e step)
    (name : String) (value : Value) (shown : String) (earlier : List Event) :
    let x := s.setter name value shown earlier
    Watch.Open ⟨s.world.globals, some x⟩ (perform (machine n) s.scopes e step s.opened).world ∨
      ∃ cut w, perform (loneMachine cut n) s.scopes e step s.opened = .exhausted w ∧
        x.Heard s.world.globals w := by
  intro x
  let cut : World → Bool := fun w => decide (w.journal = x.moment s.world.globals)
  have hmachine : (loneMachine (fun _ => false) n).Follows ⟨s.world.globals, some x⟩
      (loneMachine cut n) :=
    Watch.loneMachine_follows rfl (fun _ => decide_eq_true_iff) n
  have hfollows := Run.Follows.perform hmachine s.scopes e step fun h => by
    rw [hstep] at h
    cases h
  rcases hfollows.run s.opened (hs.watched name value shown earlier) with
    ⟨-, hmeets⟩ | ⟨w, hcut, y, hy, hheard⟩
  · exact .inl (hnone ▸ hmeets.of_world)
  · cases hy
    exact .inr ⟨cut, w, hcut, hheard⟩

/-- Whatever the host did before, a program that includes nothing tells the setter of a name of the
globals of every write. Each notification comes at a moment of the run at which its value has just
been stored; and when the run ends, in whatever way, and the setter is still registered, the own
binding of the name is the value of the last notification, or as before if there was none. -/
theorem setter_hears_every_write {c : Config} {s : Session} (hs : Reached c s) (n : Nat)
    (e : ScopeRef) (step : Step) (hstep : step.isProgram = true)
    (hnone : s.IncludesNothing n e step) (name : String) :
    (∀ cut, (perform (loneMachine cut n) s.scopes e step).Approximates
      (perform (machine n) s.scopes e step)) ∧
    (∀ later value shown earlier,
      (perform (machine n) s.scopes e step s.opened).world.journal =
        later ++ .wrote s.world.globals name value shown :: earlier →
      ∃ cut w, perform (loneMachine cut n) s.scopes e step s.opened = .exhausted w ∧
        w.journal = .wrote s.world.globals name value shown :: earlier ∧
        (w.heap.scope s.world.globals).bindings.get? name = some value ∧
        w.heap.display value = shown) ∧
    ∀ w, (perform (machine n) s.scopes e step s.opened).world = w →
      (w.heap.scope s.world.globals).watched.contains name = true →
      (w.heap.scope s.world.globals).bindings.get? name =
        (notified s.world.globals name w.journal).head?.or
          ((s.world.heap.scope s.world.globals).bindings.get? name) := by
  refine ⟨fun cut => perform_approximates (loneMachine_approximates cut n) s.scopes e hstep,
    fun later value shown earlier hjournal => ?_, ?_⟩
  · rcases hs.follows hstep hnone name value shown earlier with hopen | ⟨cut, w, hcut, hheard⟩
    · exact absurd ⟨later, hjournal.symm⟩ (hopen.waiting _ rfl)
    · exact ⟨cut, w, hcut, hheard.journal, hheard.stored, hheard.shown⟩
  · rintro w rfl hwatched
    -- Null is shown as zero, so that a notification that shows nothing for it does not come.
    rcases hs.follows hstep hnone name .null "" [] with hopen | ⟨cut, w, -, hheard⟩
    · obtain ⟨events, hjournal, haccount⟩ := hopen.accounted.account _ rfl
      have hevents := hjournal.trans (List.append_nil events)
      rw [hevents]
      exact haccount hwatched
    · have hshown : w.heap.display .null = "" := hheard.shown
      simp [Heap.display, Heap.write, Heap.displayAtom] at hshown

/-- A session in which the host listens to the writes of `x`. -/
def listening : Session :=
  ((start {}).step (machine 1) globalsId (.watch "x")).2

/-- The writes of a name that a journal tells of, as they are shown. -/
def shownWrites (journal : List Event) : List (ScopeRef × String × String) :=
  journal.filterMap fun
    | .wrote e name _ shown => some (e, name, shown)
    | _ => none

theorem mem_of_shownWrites {journal : List Event} {e : ScopeRef} {name shown : String}
    (h : shownWrites journal = [(e, name, shown)]) :
    ∃ later value earlier, journal = later ++ .wrote e name value shown :: earlier := by
  obtain ⟨later, event, earlier, rfl, -, hevent, -⟩ := List.filterMap_eq_cons_iff.mp h
  cases event with
  | wrote e' name' value shown' =>
    cases hevent
    exact ⟨later, value, earlier, rfl⟩
  | _ => cases hevent

/-- The world that the assignment leaves. -/
def assigned : World :=
  (perform (machine 4) listening.scopes ⟨0⟩ (.eval "x = 5") listening.opened).world

/-- The setter is told of an assignment when it was made, and nothing is stored after that. -/
theorem setter_hears_assignment :
    Reached {} listening ∧ listening.IncludesNothing 4 ⟨0⟩ (.eval "x = 5") ∧
      (∃ cut w value, perform (loneMachine cut 4) listening.scopes ⟨0⟩ (.eval "x = 5")
          listening.opened = .exhausted w ∧
        (w.heap.scope ⟨0⟩).bindings.get? "x" = some value ∧ w.heap.display value = "5") ∧
      (assigned.heap.scope ⟨0⟩).bindings.get? "x" =
        (notified ⟨0⟩ "x" assigned.journal).head?.or
          ((listening.world.heap.scope ⟨0⟩).bindings.get? "x") := by
  have hreached : Reached {} listening := .step 1 globalsId (.watch "x") .start
  have hglobals : listening.world.globals = ⟨0⟩ := by decide +kernel
  have hended : (match perform (loneMachine (fun _ => false) 4) listening.scopes ⟨0⟩
      (.eval "x = 5") listening.opened with | .exhausted _ => false | _ => true) = true := by
    decide +kernel
  have hnone : listening.IncludesNothing 4 ⟨0⟩ (.eval "x = 5") :=
    .of_ended rfl fun w h => by
      rw [h] at hended
      cases hended
  have hwrites : shownWrites assigned.journal = [(⟨0⟩, "x", "5")] := by decide +kernel
  have hwatched : (assigned.heap.scope ⟨0⟩).watched.contains "x" = true := by decide +kernel
  obtain ⟨later, value, earlier, hjournal⟩ := mem_of_shownWrites hwrites
  obtain ⟨-, hheard, hlast⟩ := setter_hears_every_write hreached 4 ⟨0⟩ (.eval "x = 5") rfl hnone "x"
  rw [hglobals] at hheard hlast
  obtain ⟨cut, w, hcut, -, hstored, hshown⟩ := hheard later value "5" earlier hjournal
  exact ⟨hreached, hnone, ⟨cut, w, value, hcut, hstored, hshown⟩, hlast assigned rfl hwatched⟩

end Session

end ScriptEngine
