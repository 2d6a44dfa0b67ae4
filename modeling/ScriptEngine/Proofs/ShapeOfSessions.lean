import ScriptEngine.Proofs.HostSetters
import ScriptEngine.Proofs.ShapeOfEvaluation

/-! # The shape of the heap in sessions

A host works in scopes that it has given names to. It can make views of views and bind names in a
view, but every scope that it gets to exists, and what a scope refers to never changes; so the heap
of a session stays well shaped but for its views. -/

namespace ScriptEngine

attribute [local instance] Views.ofHosts

theorem Heap.Allocated.plain {h : Heap} {e : ScopeRef} (he : h.Allocated e) : h.Plain e :=
  ⟨he, False.elim⟩

/-- A scope that is reported exists. -/
def SoundReport (h : Heap) : Report → Prop
  | .scope (some e) => h.Allocated e
  | _ => True

theorem SoundReport.mono {h g : Heap} {report : Report} (hx : h.Extends g)
    (hr : SoundReport h report) : SoundReport g report := by
  unfold SoundReport at hr ⊢
  split
  · exact hx.allocated hr
  · trivial

theorem Session.allocated_of_lookup {h : Heap} {scopes : List (String × ScopeRef)}
    (hscopes : ∀ entry ∈ scopes, h.Allocated entry.2) {id : String} {e : ScopeRef}
    (he : lookup scopes id = some e) : h.Allocated e := by
  obtain ⟨entry, hfound, rfl⟩ := Option.map_eq_some_iff.mp he
  exact hscopes entry (List.mem_of_find?_eq_some hfound)

namespace KeepsShape

open Run

variable {α : Type} {h : Heap} {Q : Heap → α → Prop} {self : Machine} {e : ScopeRef}

/-! ### Operands -/

theorem tell {x : Run α} (hx : KeepsShape h Q x) {f : α → Report}
    (hf : ∀ g a, Q g a → SoundReport g (f a)) :
    KeepsShape h SoundReport (x >>= fun a => pure (f a)) :=
  hx.bind fun _ _ _ ha => done fun _ hk => (hf _ _ ha).mono hk

theorem evaluateIn (hm : self.KeepsShape) (source : String) (he : h.Allocated e)
    (name : Option String) : KeepsShape h SoundCaught (Engine.evaluateIn self source e name) :=
  (ofExcept (Q := Anything) fun _ _ _ => trivial).bind fun g root hx _ =>
    catchJump (hm.evaluate g root e (hx.allocated he))

theorem operand (hm : self.KeepsShape) (he : h.Allocated e) (o : Operand) :
    KeepsShape h SoundOption (Session.operand self e o) := by
  have hfound : ∀ g (v : Value), v.Sound g →
      KeepsShape g SoundOption (Run.done (some v)) := fun g v hv => done fun _ hk a ha => by
    cases ha
    exact hv.mono hk
  cases o with
  | host v => exact (fromHost h v).bind fun g v _ hv => hfound g v hv
  | source code => exact (runSource hm code he none).bind fun g v _ hv => hfound g v hv
  | name name => exact get e name

theorem withOperand (hm : self.KeepsShape) (he : h.Allocated e) (o : Operand)
    {next : Value → Run Report}
    (hnext : ∀ g v, h.Extends g → v.Sound g → KeepsShape g SoundReport (next v)) :
    KeepsShape h SoundReport (Session.withOperand self e o next) := by
  refine (operand hm he o).bind fun g found hg hfound => ?_
  split
  · exact hnext g _ hg (hfound _ rfl)
  · exact done fun _ _ => trivial

theorem withOperands (hm : self.KeepsShape) (he : h.Allocated e) (os : List Operand)
    {next : List Value → Run Report}
    (hnext : ∀ g vs, h.Extends g → AllSound g vs → KeepsShape g SoundReport (next vs)) :
    KeepsShape h SoundReport (Session.withOperands self e os next) := by
  induction os generalizing h next with
  | nil => exact hnext h [] (.refl h) fun _ hv => absurd hv List.not_mem_nil
  | cons o more ih =>
    refine withOperand hm he o fun g v hg hv => ih (hg.allocated he) fun k vs hk hvs => ?_
    exact hnext k (v :: vs) (hg.trans hk) (List.forall_mem_cons.mpr ⟨hv.mono hk, hvs⟩)

/-! ### Steps -/

theorem makeScope (hm : self.KeepsShape) {scopes : List (String × ScopeRef)}
    (hscopes : ∀ entry ∈ scopes, h.Allocated entry.2) (he : h.Allocated e) (what : NewScope) :
    KeepsShape h SoundReport (Session.makeScope self scopes e what) := by
  cases what with
  | detached name =>
    have hscope : KeepsShape h Heap.Plain (Run.newScope (.fresh name none none)) :=
      newScope rfl (fun _ hp => nomatch hp) fun _ hm => absurd hm List.not_mem_nil
    exact tell hscope fun _ _ hs => hs.allocated
  | named name => exact tell (newInside name he) fun _ _ hs => hs.allocated
  | inner => exact tell (innerScope he) fun _ _ hs => hs.allocated
  | view receiver =>
    simp only [Session.makeScope]
    split
    · rename_i r hr
      exact tell (memberView (Session.allocated_of_lookup hscopes hr).plain he) fun _ _ hs => hs
    · exact done fun _ _ => trivial
  | ofInstance o =>
    refine withOperand hm he o fun g v _ hv => done fun k hk => ?_
    cases v with
    | instance_ e => exact hk.allocated hv.allocated
    | _ => trivial

theorem track (he : h.Allocated e) (name : String) (value : HostValue) (watch : Bool) :
    KeepsShape h Anything (Session.track e name value watch) := by
  refine bind (modify fun _ => ⟨rfl, rfl, rfl⟩) fun _ _ h₁ _ => (readCell name).bind
    fun _ v h₂ hv => ?_
  have he₂ := h₂.allocated (h₁.allocated he)
  refine (define he₂.plain name hv).bind fun _ _ h₃ _ => modifyScope (h₃.allocated he₂)
    fun g hx hs => ?_
  have hplain := (hx.allocated (h₃.allocated he₂)).plain
  cases watch with
  | true => exact hplain.refits rfl rfl (hs.bindings e)
  | false => exact hplain.refits rfl rfl (hs.bindings e)

theorem reportStopped : KeepsShape h SoundReport Session.reportStopped :=
  tell world fun _ _ _ => trivial

theorem reportPending : KeepsShape h SoundReport Session.reportPending :=
  tell world fun _ _ _ => trivial

theorem setStopped (stopped : Bool) :
    KeepsShape h Anything (Run.modify fun w => { w with stopped := stopped }) :=
  modify fun _ => ⟨rfl, rfl, rfl⟩

/-- Every step of a host keeps the shape of the heap, if the scopes exist that it knows. -/
theorem perform (hm : self.KeepsShape) {scopes : List (String × ScopeRef)}
    (hscopes : ∀ entry ∈ scopes, h.Allocated entry.2) (he : h.Allocated e) (step : Step) :
    KeepsShape h SoundReport (Session.perform self scopes e step) := by
  cases step with
  | eval source => exact tell (evalSource hm source) fun _ _ _ => trivial
  | run source name => exact tell (runIn hm source he name) fun _ _ _ => trivial
  | execute source name => exact tell (runSource hm source he name) fun _ _ _ => trivial
  | evaluate source name => exact tell (evaluateIn hm source he name) fun _ _ _ => trivial
  | runTasks => exact (runTasks hm _).bind fun _ _ _ _ => reportPending
  | countTasks => exact reportPending
  | spawn task =>
    exact withOperand hm he task fun _ _ _ hv => (spawn hv).bind fun _ _ _ _ => reportPending
  | stop => exact (setStopped true).bind fun _ _ _ _ => reportStopped
  | reset => exact (setStopped false).bind fun _ _ _ _ => reportStopped
  | askStopped => exact reportStopped
  | native name params behavior =>
    exact (newNative (n := .host name params behavior) fun _ => trivial).bind fun _ _ hx hv =>
      tell (define (hx.allocated he).plain name hv) fun _ _ _ => trivial
  | call callee args =>
    exact withOperand hm he callee fun _ _ h₁ hf => withOperands hm (h₁.allocated he) args
      fun g vs h₂ hvs => tell (hm.call g _ vs e (hf.mono h₂) hvs (h₂.allocated (h₁.allocated he)))
        fun _ _ _ => trivial
  | instantiate cls args =>
    exact withOperand hm he cls fun _ c h₁ _ => withOperands hm (h₁.allocated he) args
      fun _ _ h₂ hvs => tell (instantiateValue hm c hvs (h₂.allocated (h₁.allocated he)))
        fun _ _ _ => trivial
  | binary op left right =>
    exact withOperand hm he left fun _ _ h₁ ha => withOperand hm (h₁.allocated he) right
      fun _ _ h₂ hb => tell (binary hm op (ha.mono h₂) hb) fun _ _ _ => trivial
  | update op left right =>
    exact withOperand hm he left fun _ _ h₁ ha => withOperand hm (h₁.allocated he) right
      fun _ _ h₂ hb => tell (arithmetic hm op (ha.mono h₂) hb) fun _ _ _ => trivial
  | unary op value =>
    exact withOperand hm he value fun _ _ _ ha => tell (unary hm op ha) fun _ _ _ => trivial
  | equals left right =>
    exact withOperand hm he left fun _ _ h₁ _ => withOperand hm (h₁.allocated he) right
      fun _ _ _ _ => tell heap fun _ _ _ => trivial
  | inspect value => exact withOperand hm he value fun _ _ _ _ => done fun _ _ => trivial
  | members value =>
    exact withOperand hm he value fun _ _ _ hv => tell (memberScope hv) fun _ _ _ => trivial
  | create id what => exact makeScope hm hscopes he what
  | parent => exact tell heap fun _ _ _ => trivial
  | owner name => exact tell (owner he name) fun _ _ ht => ht.allocated
  | storage => exact tell (storage he) fun _ _ ht => ht.allocated
  | root =>
    refine heap.bind fun _ _ hx hg => ?_
    obtain ⟨rfl, hs⟩ := hg
    exact done fun _ hk => hk.allocated (hs.root_plain (hx.allocated he)).allocated
  | define name value =>
    exact withOperand hm he value fun _ _ hx hv =>
      tell (define (hx.allocated he).plain name hv) fun _ _ _ => trivial
  | set name value =>
    exact withOperand hm he value fun _ _ hx hv =>
      tell (set (hx.allocated he).plain name hv) fun _ _ _ => trivial
  | get name => exact tell (get e name) fun _ _ _ => trivial
  | getOwn name => exact tell heap fun _ _ _ => trivial
  | remove name =>
    exact heap.bind fun _ _ hx _ => (remove (hx.allocated he).plain name).bind
      fun _ _ _ _ => done fun _ _ => trivial
  | contains name => exact tell heap fun _ _ _ => trivial
  | mergeInto source =>
    simp only [Session.perform]
    split
    · exact tell (mergeInto he.plain _) fun _ _ _ => trivial
    · exact done fun _ _ => trivial
  | mergeMissing source =>
    simp only [Session.perform]
    split
    · exact tell (mergeMissing he.plain _) fun _ _ _ => trivial
    · exact done fun _ _ => trivial
  | setOrigin path =>
    exact tell (modifyScope he fun _ _ hs => hs.sound_origin e _) fun _ _ _ => trivial
  | origin => exact tell heap fun _ _ _ => trivial
  | dump => exact done fun _ _ => trivial
  | track name value watch => exact tell (track he name value watch) fun _ _ _ => trivial
  | setCell name value =>
    refine tell (modify ?_) fun _ _ _ => trivial
    exact fun _ => ⟨rfl, rfl, rfl⟩
  | watch name =>
    have hwatch : KeepsShape h Anything (Run.modifyHeap (·.modifyScope e (·.watch name))) :=
      modifyScope he fun _ hx hs => (hx.allocated he).plain.refits rfl rfl (hs.bindings e)
    exact tell hwatch fun _ _ _ => trivial

end KeepsShape

/-! ### Sessions -/

namespace Session

/-- The heap is well shaped, and the scopes exist that the host gave names to. -/
structure Shaped (s : Session) : Prop where
  world : s.world.Shaped
  scopes : ∀ entry ∈ s.scopes, s.world.heap.Allocated entry.2

theorem Shaped.grown {s : Session} (hs : s.Shaped) {w : World} (hw : s.opened.GrewTo w) :
    { s with world := w }.Shaped :=
  ⟨hw.shaped, fun entry hm => hw.grows.allocated (hs.scopes entry hm)⟩

theorem Shaped.record {s : Session} (hs : s.Shaped) (step : Step) {report : Report}
    (hr : SoundReport s.world.heap report) : (s.record step report).Shaped := by
  unfold Session.record
  split
  · refine ⟨hs.world, fun entry hm => ?_⟩
    rcases List.mem_append.mp hm with hold | hnew
    · exact hs.scopes entry (List.mem_of_mem_filter hold)
    · rw [List.mem_singleton.mp hnew]
      exact hr
  · exact hs

theorem Shaped.step {s : Session} (hs : s.Shaped) (n : Nat) (id : String) (step : Step) :
    (s.step (Evaluation.machine n) id step).2.Shaped := by
  unfold Session.step
  split
  · exact hs
  · rename_i e he
    have hopened : s.opened.Shaped := ⟨hs.world.heap, hs.world.globals, hs.world.tasks⟩
    have hrun := (KeepsShape.perform (KeepsShape.machine n) hs.scopes
      (allocated_of_lookup hs.scopes he) step).from_world s.opened hopened (.refl _)
    rw [← opened]
    generalize perform (Evaluation.machine n) s.scopes e step s.opened = o at hrun
    cases o with
    | done report w => exact (hs.grown hrun.1).record step hrun.2
    | failed d w => exact hs.grown hrun
    | jumped j w => exact hs.grown hrun.1
    | exhausted w => exact hs

theorem Reached.shaped {c : Config} {s : Session} (hs : Reached c s) : s.Shaped := by
  induction hs with
  | start =>
    have hw := World.shaped_initial c
    exact ⟨hw, fun entry hm => by
      rw [List.mem_singleton.mp hm]
      exact hw.globals.allocated⟩
  | step n id step _ ih => exact ih.step n id step

/-- Whatever a host did so far, parents and receivers were made before the scopes that refer to
them. -/
theorem Reached.ordered {c : Config} {s : Session} (hs : Reached c s) : s.world.heap.Ordered :=
  hs.shaped.world.heap.ordered

end Session

end ScriptEngine
