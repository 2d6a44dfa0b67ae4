import ScriptEngine.Session
import ScriptEngine.Proofs.LikeEvaluation

/-! # Sessions in lockstep

What a host does with two alike worlds leaves them alike. A main program starts without calls under
way and may end by a stop that arose below any calls, so the frame is not always restored; nothing
is to be said of failures then, since the likeness would judge them by the calls before. -/

namespace ScriptEngine

/-- Host functions may fail with anything, and nothing is said of a failure. -/
structure Likeness.Silent (L : Likeness) : Prop where
  host : ∀ d, L.host d
  failure : ∀ c d c', L.failure c d c'

/-- From alike worlds the computations come to alike ends, in whatever frame. -/
structure Run.Alongside (L : Likeness) (n : Extent) {α : Type} (R : Extent → α → α → Prop)
    (x x' : Run α) : Prop where
  run : ∀ {w w' : World}, w.Alike L w' → n ≤ w.heap.extent →
    ∃ c, (x w).Alike L c w.heap.extent R (x' w')

/-- Whether the step runs a main program, which starts in a frame of its own. -/
def Step.startsMain : Step → Bool
  | .eval _ | .run _ _ => true
  | _ => false

/-- Results of which nothing is asked. -/
abbrev Unrelated {α : Type} (_ : Extent) (_ _ : α) : Prop :=
  True

variable {L : Likeness} {n : Extent} {m m' : Machine}

/-! ### Main programs and tasks -/

namespace Run

variable {α β : Type} {R : Extent → α → α → Prop} {S : Extent → β → β → Prop}

theorem Lockstep.alongside {x x' : Run α} (hx : ∀ c, Lockstep L c n R x x') :
    Alongside L n R x x' :=
  ⟨fun {w _} hw hn => ⟨w.frame, (hx w.frame).run hw rfl hn⟩⟩

/-- Where nothing is said of failures, they may be amended. -/
theorem Lockstep.onFailure (hL : L.Silent) {c : Frame} {f : Diagnostic → Diagnostic}
    (hf : ∀ d d' : Diagnostic, d.Alike L d' → (f d).Alike L (f d')) {x x' : Run α}
    (hx : Lockstep L c n R x x') : Lockstep L c n R (onFailure f x) (onFailure f x') := by
  refine ⟨fun {w w'} hw hc hn => ?_⟩
  have hrun := hx.run hw hc hn
  simp only [Run.onFailure]
  generalize x w = o, x' w' = o' at hrun
  cases hrun with
  | done ha hv hc hk => exact .done ha hv hc hk
  | jumped hj hv hc hk => exact .jumped hj hv hc hk
  | failed hd hv _ hk => exact .failed (hf _ _ hd) hv (hL.failure _ _ _) hk
  | exhausted hv hk => exact .exhausted hv hk

theorem Lockstep.runTasks (hL : L.Silent) {c : Frame} (hm : m.Lockstep L c m') (rounds : Nat) :
    Lockstep L c n Identical (Engine.runTasks m rounds) (Engine.runTasks m' rounds) := by
  induction rounds generalizing n with
  | zero => exact exhausted
  | succ rounds ih =>
    refine nextTask.bind fun k _ task task' htask => ?_
    cases htask with
    | none => exact same ()
    | some hv =>
      refine world fun w w' hw hn => ?_
      rw [hw.globals, hw.heap.label (hv.mono hn)]
      have hcall := hm.call _ w.globals (hv.mono hn) .nil
      exact (onFailure hL (fun _ _ hd => hd.withTrace (.mk _ .none)) hcall).discard.andThen
        fun _ _ _ => ih

/-- A program and then the tasks; the result is that of the program. -/
theorem Lockstep.thenTasks (hL : L.Silent) {c : Frame} (hm : m.Lockstep L c m')
    {x x' : Run Value} (hx : Lockstep L c n (Value.Alike L) x x') :
    Lockstep L c n (Value.Alike L)
      (x >>= fun v => Engine.runTasks m m.rounds >>= fun _ => pure v)
      (x' >>= fun v => Engine.runTasks m' m'.rounds >>= fun _ => pure v) := by
  rw [hm.rounds]
  exact hx.bind fun _ _ _ _ hv => (runTasks hL hm _).andThen fun _ hk _ => value (hv.mono hk)

namespace Alongside

theorem bind {x x' : Run α} {f f' : α → Run β} (hx : Alongside L n R x x')
    (hf : ∀ k, n ≤ k → ∀ a a', R k a a' → Alongside L k S (f a) (f' a')) :
    Alongside L n S (x >>= f) (x' >>= f') := by
  refine ⟨fun {w w'} hw hn => ?_⟩
  obtain ⟨c, hfirst⟩ := hx.run hw hn
  show ∃ c, (andThen x f w).Alike L c w.heap.extent S (andThen x' f' w')
  simp only [andThen]
  generalize x w = o, x' w' = o' at hfirst
  cases hfirst with
  | done ha hv _ hk =>
    obtain ⟨d, hrest⟩ := (hf _ (hn.trans hk) _ _ ha).run hv le_rfl
    exact ⟨d, hrest.weaken hk⟩
  | jumped hj hv hc hk => exact ⟨c, .jumped hj hv hc hk⟩
  | failed hd hv hf hk => exact ⟨c, .failed hd hv hf hk⟩
  | exhausted hv hk => exact ⟨c, .exhausted hv hk⟩

theorem reset : Alongside L n Identical Engine.reset Engine.reset := by
  refine ⟨fun {w w'} hw _ => ⟨_, .done rfl ?_ rfl le_rfl⟩⟩
  exact (hw.withCalls .nil).aside (f := fun w => { w with stopped := false }) fun _ _ => rfl

theorem unlessStopped {fallback : α} (hf : ∀ k, R k fallback fallback) {x x' : Run α}
    (hx : Alongside L n R x x') :
    Alongside L n R (Engine.unlessStopped fallback x) (Engine.unlessStopped fallback x') := by
  refine ⟨fun {w w'} hw hn => ?_⟩
  obtain ⟨c, hrun⟩ := hx.run hw hn
  simp only [Engine.unlessStopped]
  generalize x w = o, x' w' = o' at hrun
  cases hrun with
  | done ha hv hc hk => exact ⟨c, .done ha hv hc hk⟩
  | jumped hj hv hc hk => exact ⟨c, .jumped hj hv hc hk⟩
  | failed hd hv hfailure hk =>
    simp only [hd.isStop]
    split
    · exact ⟨_, .done (hf _) hv rfl hk⟩
    · exact ⟨c, .failed hd hv hfailure hk⟩
  | exhausted hv hk => exact ⟨c, .exhausted hv hk⟩

theorem evalSource (hL : L.Silent) (hm : ∀ c, m.Lockstep L c m') (source : String) :
    Alongside L n (Value.Alike L) (Engine.evalSource m source) (Engine.evalSource m' source) := by
  refine reset.bind fun k _ _ _ _ => unlessStopped (fun _ => .null) (Lockstep.alongside fun c => ?_)
  refine Lockstep.world fun w w' hw _ => ?_
  rw [hw.globals, hw.source]
  exact Lockstep.thenTasks hL (hm c) (Lockstep.runSource (hm c) source _ _)

end Alongside

theorem Lockstep.setOrigin {c : Frame} (e : ScopeRef) (origin : Option String) :
    Lockstep L c n Identical
      (Run.modifyHeap (·.modifyScope e fun s => { s with origin := origin }))
      (Run.modifyHeap (·.modifyScope e fun s => { s with origin := origin })) :=
  modifyScope e fun _ _ _ _ hs => hs.withOrigin origin

theorem Alongside.runIn (hL : L.Silent) (hm : ∀ c, m.Lockstep L c m') (source : String)
    (e : ScopeRef) (name : Option String) :
    Alongside L n Identical (Engine.runIn m source e name) (Engine.runIn m' source e name) := by
  have hrun : ∀ k, Alongside L k Identical
      (Engine.unlessStopped () do
        Functor.discard (Evaluation.runSource m source e name)
        Engine.runTasks m m.rounds)
      (Engine.unlessStopped () do
        Functor.discard (Evaluation.runSource m' source e name)
        Engine.runTasks m' m'.rounds) := by
    intro k
    refine unlessStopped (fun _ => rfl) (Lockstep.alongside fun c => ?_)
    rw [(hm c).rounds]
    exact (Lockstep.runSource (hm c) source e name).discard.andThen
      fun _ _ _ => Lockstep.runTasks hL (hm c) _
  refine reset.bind fun k _ _ _ _ => ?_
  split
  · exact (Lockstep.alongside fun _ => Lockstep.setOrigin e name).bind fun _ _ _ _ _ => hrun _
  · exact hrun _

/-! ### The steps of a session -/

namespace Lockstep

variable {c : Frame}

theorem evaluateIn (hm : m.Lockstep L c m') (source : String) (e : ScopeRef)
    (name : Option String) :
    Lockstep L c n (Caught.Alike L (Value.Alike L)) (Engine.evaluateIn m source e name)
      (Engine.evaluateIn m' source e name) := by
  refine (ofExcept fun d hd => ?_).andThen fun k _ root =>
    catchJump (hm.evaluate k e (L.node_refl root))
  obtain ⟨fault, pos, rfl⟩ := parseProgram_error hd
  rfl

theorem reportStopped :
    Lockstep L c n Unrelated Session.reportStopped Session.reportStopped :=
  world fun _ _ _ _ => done fun _ _ => trivial

theorem reportPending :
    Lockstep L c n Unrelated Session.reportPending Session.reportPending :=
  world fun _ _ _ _ => done fun _ _ => trivial

theorem tell {x x' : Run α} (hx : Lockstep L c n R x x') (f : α → Report) :
    Lockstep L c n Unrelated (x >>= fun a => pure (f a)) (x' >>= fun a => pure (f a)) :=
  hx.bind fun _ _ _ _ _ => done fun _ _ => trivial

theorem tellHeap (f : Heap → Report) :
    Lockstep L c n Unrelated (Run.heap >>= fun h => pure (f h))
      (Run.heap >>= fun h => pure (f h)) :=
  heap fun _ _ _ _ => done fun _ _ => trivial

theorem operand (hm : m.Lockstep L c m') (e : ScopeRef) (o : Operand) :
    Lockstep L c n (Found L) (Session.operand m e o) (Session.operand m' e o) := by
  cases o with
  | host v => exact (fromHost n v).bind fun _ _ _ _ hv => done fun _ hk => .some (hv.mono hk)
  | source code =>
    exact (runSource hm code e none).bind fun _ _ _ _ hv => done fun _ hk => .some (hv.mono hk)
  | name name => exact get e name

theorem withOperand (hm : m.Lockstep L c m') (e : ScopeRef) (o : Operand)
    {next next' : Value → Run Report}
    (hnext : ∀ k v v', n ≤ k → v.Alike L k v' → Lockstep L c k Unrelated (next v) (next' v')) :
    Lockstep L c n Unrelated (Session.withOperand m e o next)
      (Session.withOperand m' e o next') := by
  refine (operand hm e o).bind fun k hk found found' hfound => ?_
  cases hfound with
  | none => exact done fun _ _ => trivial
  | some hv => exact hnext k _ _ hk hv

theorem withOperands (hm : m.Lockstep L c m') (e : ScopeRef) (os : List Operand)
    {next next' : List Value → Run Report}
    (hnext : ∀ k vs vs', n ≤ k → Values.Alike L k vs vs' →
      Lockstep L c k Unrelated (next vs) (next' vs')) :
    Lockstep L c n Unrelated (Session.withOperands m e os next)
      (Session.withOperands m' e os next') := by
  induction os generalizing n next next' with
  | nil => exact hnext n [] [] le_rfl .nil
  | cons o more ih =>
    exact withOperand hm e o fun k v v' hk hv => ih fun l vs vs' hl hvs =>
      hnext l (v :: vs) (v' :: vs') (hk.trans hl) (.cons (hv.mono hl) hvs)

theorem makeScope (hm : m.Lockstep L c m') (scopes : List (String × ScopeRef)) (e : ScopeRef)
    (what : NewScope) :
    Lockstep L c n Unrelated (Session.makeScope m scopes e what)
      (Session.makeScope m' scopes e what) := by
  cases what with
  | detached name => exact tell (newScope (.fresh name none none)) _
  | named name => exact tell (newScope (.fresh name (some e) none)) _
  | inner => exact tell (innerScope e) _
  | view receiver =>
    simp only [Session.makeScope]
    split
    · exact tell (memberView _ e) _
    · exact done fun _ _ => trivial
  | ofInstance o => exact withOperand hm e o fun _ _ _ _ _ => done fun _ _ => trivial

theorem track (e : ScopeRef) (name : String) (value : HostValue) (watch : Bool) :
    Lockstep L c n Identical (Session.track e name value watch)
      (Session.track e name value watch) := by
  refine Lockstep.andThen (aside (fun _ _ => rfl) fun _ => rfl) fun _ _ _ =>
    (readCell name).bind fun _ _ _ _ hv => (define e name hv).andThen fun _ _ _ =>
      modifyScope e fun _ s s' _ hs => ?_
  cases watch with
  | true => exact ⟨hs.bindings, by rw [hs.rest]; rfl⟩
  | false => exact ⟨hs.bindings, by rw [hs.rest]; rfl⟩

theorem perform (hL : L.Silent) (hm : m.Lockstep L c m') (hinside : m.LockstepInside L c m')
    (scopes : List (String × ScopeRef)) (e : ScopeRef) {step : Step}
    (hstep : step.startsMain = false) :
    Lockstep L c n Unrelated (Session.perform m scopes e step)
      (Session.perform m' scopes e step) := by
  cases step with
  | eval source => cases hstep
  | run source name => cases hstep
  | execute source name => exact tell (runSource hm source e name) _
  | evaluate source name => exact tell (evaluateIn hm source e name) _
  | runTasks =>
    simp only [Session.perform]
    rw [hm.rounds]
    exact (runTasks hL hm _).andThen fun _ _ _ => reportPending
  | countTasks => exact reportPending
  | spawn task =>
    exact withOperand hm e task fun _ _ _ _ hv => (spawn hv).andThen fun _ _ _ => reportPending
  | stop =>
    exact Lockstep.andThen (aside (fun _ _ => rfl) fun _ => rfl) fun _ _ _ => reportStopped
  | reset =>
    exact Lockstep.andThen (aside (fun _ _ => rfl) fun _ => rfl) fun _ _ _ => reportStopped
  | askStopped => exact reportStopped
  | native name params behavior =>
    exact (newNative (.host name params behavior fun d _ => hL.host d)).bind fun _ _ _ _ hv =>
      tell (define e name hv) _
  | call callee args =>
    exact withOperand hm e callee fun _ _ _ _ hf => withOperands hm e args fun _ _ _ hk hvs =>
      tell (hm.call _ e (hf.mono hk) hvs) _
  | instantiate cls args =>
    exact withOperand hm e cls fun _ _ _ _ hc => withOperands hm e args fun _ _ _ hk hvs =>
      tell (instantiateValue hinside (hc.mono hk) hvs e) _
  | binary op left right =>
    exact withOperand hm e left fun _ _ _ _ ha => withOperand hm e right fun _ _ _ hk hb =>
      tell (binary hm op (ha.mono hk) hb) _
  | update op left right =>
    exact withOperand hm e left fun _ _ _ _ ha => withOperand hm e right fun _ _ _ hk hb =>
      tell (arithmetic hm op (ha.mono hk) hb) _
  | unary op value => exact withOperand hm e value fun _ _ _ _ ha => tell (unary hm op ha) _
  | equals left right =>
    exact withOperand hm e left fun _ _ _ _ _ => withOperand hm e right fun _ _ _ _ _ =>
      heap fun _ _ _ _ => done fun _ _ => trivial
  | inspect value => exact withOperand hm e value fun _ _ _ _ _ => done fun _ _ => trivial
  | members value =>
    exact withOperand hm e value fun _ _ _ _ hv => tell (memberScope hv) _
  | create id what => exact makeScope hm scopes e what
  | parent => exact tellHeap _
  | owner name => exact owner e name fun _ => done fun _ _ => trivial
  | storage => exact storage e fun _ => done fun _ _ => trivial
  | root => exact tellHeap _
  | define name value =>
    exact withOperand hm e value fun _ _ _ _ hv => tell (define e name hv) _
  | set name value => exact withOperand hm e value fun _ _ _ _ hv => tell (set e name hv) _
  | get name => exact tell (get e name) _
  | getOwn name => exact tellHeap _
  | remove name =>
    exact heap fun _ _ _ _ => (remove e name).andThen fun _ _ _ => done fun _ _ => trivial
  | contains name => exact tellHeap _
  | mergeInto source =>
    simp only [Session.perform]
    split
    · exact tell (mergeInto e _) _
    · exact done fun _ _ => trivial
  | mergeMissing source =>
    simp only [Session.perform]
    split
    · exact tell (mergeMissing e _) _
    · exact done fun _ _ => trivial
  | setOrigin path => exact tell (setOrigin e (some path)) _
  | origin => exact tellHeap _
  | dump => exact done fun _ _ => trivial
  | track name value watch => exact tell (track e name value watch) _
  | setCell name value =>
    have hcell : Lockstep L c n Identical
        (Run.modify fun w => { w with cells := w.cells.insert name value })
        (Run.modify fun w => { w with cells := w.cells.insert name value }) :=
      aside (fun _ _ => rfl) fun _ => rfl
    exact tell hcell _
  | watch name =>
    have hwatch : Lockstep L c n Identical (Run.modifyHeap (·.modifyScope e (·.watch name)))
        (Run.modifyHeap (·.modifyScope e (·.watch name))) :=
      modifyScope e fun _ _ _ _ hs => ⟨hs.bindings, by rw [hs.rest]; rfl⟩
    exact tell hwatch _

/-! ### The standard bindings -/

theorem standardBindings :
    Lockstep L c n (Entries.Alike L) Builtins.standardBindings Builtins.standardBindings := by
  have hbuiltins : ∀ (k : Extent) (bs : List Builtin),
      List.Forall₂ (Native.Alike L k) (bs.map .builtin) (bs.map .builtin) :=
    fun _ bs => methodsOf (fun b => .builtin b) bs
  refine (bound (hbuiltins _ _)).bind fun k₁ _ core core' hcore => ?_
  refine (newClass _ _ .object .none).bind fun k₂ hk₂ _ _ hobject => ?_
  refine (newNumber _).bind fun k₃ hk₃ _ _ hpi => ?_
  refine (newNumber _).bind fun k₄ hk₄ _ _ hphi => ?_
  refine (bound (hbuiltins _ _)).bind fun k₅ hk₅ math math' hmath => ?_
  refine (newClass _ _ .file .none).bind fun k₆ hk₆ _ _ hfile => ?_
  refine (bound (hbuiltins _ _)).bind fun k₇ hk₇ _ _ hscanner => done fun k hk => ?_
  have h₆ := hk₇.trans hk
  have h₅ := hk₆.trans h₆
  have h₄ := hk₅.trans h₅
  have h₃ := hk₄.trans h₄
  have h₂ := hk₃.trans h₃
  refine List.rel_append (List.rel_append (List.rel_append (List.rel_append ?_ ?_) ?_) ?_) ?_
  · exact Entries.Alike.mono hcore (hk₂.trans h₂)
  · exact .cons ⟨rfl, hobject.mono h₂⟩ (.cons ⟨rfl, hpi.mono h₃⟩ (.cons ⟨rfl, hphi.mono h₄⟩ .nil))
  · exact Entries.Alike.mono hmath h₅
  · exact .cons ⟨rfl, hfile.mono h₆⟩ .nil
  · exact Entries.Alike.mono hscanner hk

end Lockstep

theorem Alongside.tell {x x' : Run α} (hx : Alongside L n R x x') (f : α → Report) :
    Alongside L n Unrelated (x >>= fun a => pure (f a)) (x' >>= fun a => pure (f a)) :=
  hx.bind fun _ _ _ _ _ => Lockstep.alongside fun _ => .done fun _ _ => trivial

theorem Alongside.perform (hL : L.Silent) (hm : ∀ c, m.Lockstep L c m')
    (scopes : List (String × ScopeRef)) (e : ScopeRef) (step : Step) :
    Alongside L n Unrelated (Session.perform m scopes e step)
      (Session.perform m' scopes e step) := by
  cases step with
  | eval source => exact (evalSource hL hm source).tell _
  | run source name => exact (runIn hL hm source e name).tell _
  | _ => exact Lockstep.alongside fun c => .perform hL (hm c) (fun _ _ _ => hm _) scopes e rfl

end Run

end ScriptEngine
