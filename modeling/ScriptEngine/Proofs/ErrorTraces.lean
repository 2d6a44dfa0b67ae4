import ScriptEngine.Proofs.EqualRuns

/-! # The trace of an error is the call stack

A world knows the calls, constructions and inclusions under way, and a failure leaves them as they
stood when it arose. The trace of a failure is put together on its way out; it turns out to be the
part of that stack that the program pushed. What pushes is said beside it: evaluation refers to the
machine with the stack that it was started with, except inside an invocation. -/

namespace ScriptEngine

/-! ### The stack of a failure -/

/-- Equal runs, in which a failure that is no stop has for its trace the calls that were added. -/
def Likeness.traced : Likeness where
  toRenaming := .identity
  node := Eq
  place := Eq
  strict := False
  host d := d.trace = []
  failure c d c' := d.isStop = false → c' = d.trace ++ c
  node_refl _ := rfl
  place_refl _ := rfl
  node_resembles := Node.resembles_of_eq
  node_label := Node.label_of_eq
  level := Renaming.identity_level
  failure_raised c d hd _ := by
    rw [hd]
    rfl
  failure_host c d hd _ := by
    rw [hd]
    rfl
  failure_orPosition _ hf := hf
  failure_withTrace {c d c'} entry hf hstop := by
    have hkind : (d.withTrace entry).isStop = d.isStop := by
      simp only [Diagnostic.isStop, Diagnostic.kind, d.fault_withTrace entry]
    rw [hkind] at hstop
    have htrace : (d.withTrace entry).trace = d.trace ++ [entry] := by
      simp only [Diagnostic.withTrace, hstop, Bool.false_eq_true, if_false]
    rw [hf hstop, htrace, List.append_assoc, List.singleton_append]

/-- Whatever is evaluated, called, built or run, a failure that is no stop has for its trace what
the stack has grown by. -/
theorem Run.Lockstep.failed_calls {α : Type} {R : Extent → α → α → Prop} {x : Run α} {w w' : World}
    {d : Diagnostic} (hx : Run.Lockstep .traced w.frame w.heap.extent R x x)
    (hw : w.HostsFail (·.trace = [])) (hrun : x w = .failed d w') (hstop : d.isStop = false) :
    w'.calls = d.trace ++ w.calls := by
  have hends := hx.run (World.Alike.refl ⟨rfl, id⟩ hw) rfl le_rfl
  rw [hrun] at hends
  cases hends with
  | failed hd hw hf hn => exact hf hstop

/-- A callback has no failure of its own. -/
theorem World.answering_hostsFail (name : String) (params : List String) (P : Diagnostic → Prop) :
    (World.answering name params).HostsFail P := by
  intro v d hv hfails
  cases hv with
  | bound e bound hm =>
    obtain ⟨_ | i⟩ := e
    · obtain ⟨-, rfl⟩ := Prod.mk.inj (List.mem_singleton.mp hm)
      cases hfails
    · cases hm
  | item l hm => cases hm
  | task hm => cases hm
  | noted event hm => cases hm

/-! ### Where the stack stays -/

/-- A machine that does what `m` does with the calls `c` under way, and anything else with other
calls under way. -/
abbrev Machine.AgreesUnder (c : List TraceEntry) (other m : Machine) : Prop :=
  other.AgreesWhere (·.calls = c) m

namespace Evaluation

/-- What ends without a failure leaves the calls under way as they were. What is no invocation does
not look at what the machine does with other calls under way than those it was started with: so
neither do operators that instances define, functions that are applied to items, constructors of
parents or programs, unless they come to an invocation. -/
structure KeepsCalls (callbacks : Callbacks) (n : Nat) : Prop where
  done : ∀ {node e w v w'}, (machineWith callbacks n).evaluate node e w = .done v w' →
    w'.calls = w.calls
  jumped : ∀ {node e w j w'}, (machineWith callbacks n).evaluate node e w = .jumped j w' →
    w'.calls = w.calls
  node : ∀ {other : Machine} {w}, other.AgreesUnder w.calls (machineWith callbacks n) → ∀ a e,
    a.isInvocation = false → evalNode other a e w = evalNode (machineWith callbacks n) a e w
  nodes : ∀ {other : Machine} {w}, other.AgreesUnder w.calls (machineWith callbacks n) →
    ∀ nodes e, evalAll other nodes e w = evalAll (machineWith callbacks n) nodes e w
  call : ∀ {other : Machine} {w}, other.AgreesUnder w.calls (machineWith callbacks n) →
    ∀ f args e, callValue other f args e w = callValue (machineWith callbacks n) f args e w
  create : ∀ {other : Machine} {w}, other.AgreesUnder w.calls (machineWith callbacks n) →
    ∀ c args e, instantiate other c args e w = instantiate (machineWith callbacks n) c args e w
  source : ∀ {other : Machine} {w}, other.AgreesUnder w.calls (machineWith callbacks n) →
    ∀ source e name,
      runSource other source e name w = runSource (machineWith callbacks n) source e name w

section Stack

variable {callbacks : Callbacks} (hcallbacks : callbacks.Lockstep .exact) {n : Nat}
  {other : Machine} {w : World}
include hcallbacks

/-- The machines go in lockstep in every frame with the same calls under way. -/
theorem lockstep_under (hother : other.AgreesUnder w.calls (machineWith callbacks n)) {c : Frame}
    (hc : c.calls = w.calls) : (machineWith callbacks n).Lockstep .exact c other :=
  hother.lockstep hcallbacks fun _ hframe => (congrArg Frame.calls hframe).trans hc

theorem keepsCalls (n : Nat) : KeepsCalls callbacks n where
  done {node e w v w'} hrun := by
    have hsame := (Run.Lockstep.machineWith hcallbacks n w.frame).evaluate w.heap.extent e
      (rfl : node = node)
    have hends := hsame.run w.alike_exact rfl le_rfl
    rw [hrun] at hends
    cases hends with
    | done hv hw hc hn => exact congrArg Frame.calls hc
  jumped {node e w j w'} hrun := by
    have hsame := (Run.Lockstep.machineWith hcallbacks n w.frame).evaluate w.heap.extent e
      (rfl : node = node)
    have hends := hsame.run w.alike_exact rfl le_rfl
    rw [hrun] at hends
    cases hends with
    | jumped hj hw hc hn => exact congrArg Frame.calls hc
  node {other w} hother a e hplain := by
    -- An invocation would need the machine with another entry on the stack too.
    have hnode : Run.Lockstep .exact w.frame w.heap.extent _ _ _ :=
      .evalNode (lockstep_under hcallbacks hother rfl) (rfl : a = a)
        (fun hinvokes => absurd (hplain.symm.trans hinvokes) Bool.false_ne_true) e
    exact hnode.eq_of_exact fun _ _ _ hv => hv.eq
  nodes {other w} hother nodes e := by
    have hnodes : Run.Lockstep .exact w.frame w.heap.extent _ _ _ :=
      .evalAll (lockstep_under hcallbacks hother rfl) (forall₂_of_refl (fun _ => rfl) nodes) e
    exact hnodes.eq_of_exact fun _ _ _ hvs => Values.Alike.eq hvs
  call {other w} hother f args e := by
    have hcall : Run.Lockstep .exact w.frame w.heap.extent _ _ _ :=
      .callValue (fun _ _ _ => lockstep_under hcallbacks hother rfl) (f.alike_exact _)
        (forall₂_of_refl (Value.alike_exact _) args) e
    exact hcall.eq_of_exact fun _ _ _ hv => hv.eq
  create {other w} hother c args e := by
    have hcreate : Run.Lockstep .exact w.frame w.heap.extent _ _ _ :=
      .instantiate (fun _ _ _ => lockstep_under hcallbacks hother rfl)
        (.refl Likeness.exact_keepsIdentities _ c) (forall₂_of_refl (Value.alike_exact _) args) e
    exact hcreate.eq_of_exact fun _ _ _ hscope => hscope
  source {other w} hother source e name := by
    have hsource : Run.Lockstep .exact w.frame w.heap.extent _ _ _ :=
      .runSource (lockstep_under hcallbacks hother rfl) source e name
    exact hsource.eq_of_exact fun _ _ _ hv => hv.eq

end Stack

end Evaluation

/-! ### Where the stack grows -/

/-- The world inside an invocation. -/
def World.inside (w : World) (entry : TraceEntry) : World :=
  { w with calls := entry :: w.calls }

/-- The world in which a scope belongs to a source. -/
def World.namedAt (w : World) (e : ScopeRef) (source : String) : World :=
  { w with heap := w.heap.modifyScope e fun s => { s with origin := some source } }

namespace Run

variable {α β : Type} {x : Run α} {w w' : World} {d : Diagnostic}

theorem bind_failed {f : α → Run β} : (x >>= f) w = .failed d w' ↔
    x w = .failed d w' ∨ ∃ a w₁, x w = .done a w₁ ∧ f a w₁ = .failed d w' := by
  simp only [bind, andThen]
  cases x w <;> simp

theorem locatedAt_failed {p : Position} : locatedAt p x w = .failed d w' ↔
    ∃ d₀, x w = .failed d₀ w' ∧ d = d₀.orPosition p := by
  simp only [locatedAt, onFailure]
  cases x w <;> simp [eq_comm, and_comm]

theorem during_failed {entry : TraceEntry} : during entry x w = .failed d w' ↔
    ∃ d₀, x (w.inside entry) = .failed d₀ w' ∧ d = d₀.withTrace entry := by
  simp only [during, World.inside]
  cases x { w with calls := entry :: w.calls } <;> simp [eq_comm, and_comm]

theorem during_done {entry : TraceEntry} {a : α} : during entry x w = .done a w' ↔
    ∃ w₁, x (w.inside entry) = .done a w₁ ∧ w' = { w₁ with calls := w.calls } := by
  simp only [during, World.inside]
  cases x { w with calls := entry :: w.calls } <;> simp [eq_comm]

theorem discard_failed : (discard x : Run PUnit) w = .failed d w' ↔ x w = .failed d w' := by
  simp only [discard, Functor.discard, Functor.mapConst, Function.comp, Function.const, andThen]
  cases x w <;> simp [done]

theorem discard_done {u : PUnit} : (discard x : Run PUnit) w = .done u w' ↔
    ∃ a, x w = .done a w' := by
  simp only [discard, Functor.discard, Functor.mapConst, Function.comp, Function.const, andThen]
  cases x w <;> simp [done]

end Run

namespace Evaluation

open Run

/-- How a call fails: while its callee or its arguments are evaluated, with that failure as it is,
or as an invocation that is under way. -/
inductive CallFails (self : Machine) (pos : Position) (callee : Node) (args : List Node)
    (e : ScopeRef) (w : World) : Diagnostic → World → Prop
  | callee {d w'} (hcallee : self.evaluate callee e w = .failed d w') :
    CallFails self pos callee args e w d w'
  | argument {f w₁ d w'} (hcallee : self.evaluate callee e w = .done f w₁)
    (hcallable : f.isCallable = true) (hargs : evalAll self args e w₁ = .failed d w') :
    CallFails self pos callee args e w d w'
  | invoked {f w₁ values w₂ d w'} (hcallee : self.evaluate callee e w = .done f w₁)
    (hcallable : f.isCallable = true) (hargs : evalAll self args e w₁ = .done values w₂)
    (hcall : callValue self f values e (w₂.inside ⟨callee.label, some pos⟩) = .failed d w') :
    CallFails self pos callee args e w
      ((d.orPosition pos).withTrace ⟨callee.label, some pos⟩) w'

/-- How a construction fails. -/
inductive CreateFails (self : Machine) (pos : Position) (name : String) (args : List Node)
    (e : ScopeRef) (w : World) : Diagnostic → World → Prop
  | definition {d w'} (hclass : lookupClass name pos e w = .failed d w') :
    CreateFails self pos name args e w d w'
  | argument {c w₁ d w'} (hclass : lookupClass name pos e w = .done c w₁)
    (hargs : evalAll self args e w₁ = .failed d w') : CreateFails self pos name args e w d w'
  | invoked {c w₁ values w₂ d w'} (hclass : lookupClass name pos e w = .done c w₁)
    (hargs : evalAll self args e w₁ = .done values w₂)
    (hcreate : instantiate self c values e (w₂.inside ⟨name, some pos⟩) = .failed d w') :
    CreateFails self pos name args e w ((d.orPosition pos).withTrace ⟨name, some pos⟩) w'

/-- How the sources of one path fail: each is an invocation of its own. -/
inductive SourcesFail (self : Machine) (pos : Position) (path : String) (scope : ScopeRef) :
    List IncludedSource → World → Diagnostic → World → Prop
  | here {source more w d w'} (hsource : runSource self source.text scope (some source.name)
      ((w.namedAt scope source.name).inside ⟨"include " ++ path, some pos⟩) = .failed d w') :
    SourcesFail self pos path scope (source :: more) w
      (d.withTrace ⟨"include " ++ path, some pos⟩) w'
  | later {source more w v w₁ d w'} (hsource : runSource self source.text scope (some source.name)
      ((w.namedAt scope source.name).inside ⟨"include " ++ path, some pos⟩) = .done v w₁)
    (hmore : SourcesFail self pos path scope more { w₁ with calls := w.calls } d w') :
    SourcesFail self pos path scope (source :: more) w d w'

/-- How an inclusion fails: while a path is evaluated, when it names nothing, or in a source. -/
inductive IncludeFails (self : Machine) (pos : Position) (e : ScopeRef) :
    List Node → World → Diagnostic → World → Prop
  | path {node more w d w'} (hnode : self.evaluate node e w = .failed d w') :
    IncludeFails self pos e (node :: more) w d w'
  | unresolved {node more w v w₁ d} (hnode : self.evaluate node e w = .done v w₁)
    (hresolve : w₁.resolver.resolve w₁.files (w₁.heap.display v) (w₁.heap.origin e) = .error d) :
    IncludeFails self pos e (node :: more) w (d.orPosition pos) w₁
  | source {node more w v w₁ sources scope w₂ d w'}
    (hnode : self.evaluate node e w = .done v w₁)
    (hresolve : w₁.resolver.resolve w₁.files (w₁.heap.display v) (w₁.heap.origin e) =
      .ok sources)
    (hscope : newScope (.fresh (w₁.heap.display v) (some e) none) w₁ = .done scope w₂)
    (hsources : SourcesFail self pos (w₁.heap.display v) scope sources w₂ d w') :
    IncludeFails self pos e (node :: more) w d w'
  | later {node more w v w₁ included w₂ d w'} (hnode : self.evaluate node e w = .done v w₁)
    (hpath : includePath self pos (w₁.heap.display v) e w₁ = .done included w₂)
    (hmore : IncludeFails self pos e more w₂ d w') : IncludeFails self pos e (node :: more) w d w'

section Failures

variable {self : Machine} {pos : Position} {e : ScopeRef} {w w' : World} {d : Diagnostic}

theorem evalCall_failed {callee : Node} {args : List Node} :
    evalCall self callee args pos e w = .failed d w' ↔
      CallFails self pos callee args e w d w' := by
  constructor
  · intro hfails
    obtain hcallee | ⟨f, w₁, hcallee, hfails⟩ := bind_failed.mp hfails
    · exact .callee hcallee
    split at hfails
    · rename_i hcallable
      obtain hargs | ⟨values, w₂, hargs, hfails⟩ := bind_failed.mp hfails
      · exact .argument hcallee hcallable hargs
      obtain ⟨d₁, hlocated, rfl⟩ := during_failed.mp hfails
      obtain ⟨d₀, hcall, rfl⟩ := locatedAt_failed.mp hlocated
      exact .invoked hcallee hcallable hargs hcall
    · cases hfails
  · intro hfails
    cases hfails with
    | callee hcallee => exact bind_failed.mpr (.inl hcallee)
    | argument hcallee hcallable hargs =>
      refine bind_failed.mpr (.inr ⟨_, _, hcallee, ?_⟩)
      simp only [hcallable, if_true]
      exact bind_failed.mpr (.inl hargs)
    | invoked hcallee hcallable hargs hcall =>
      refine bind_failed.mpr (.inr ⟨_, _, hcallee, ?_⟩)
      simp only [hcallable, if_true]
      refine bind_failed.mpr (.inr ⟨_, _, hargs, ?_⟩)
      exact during_failed.mpr ⟨_, locatedAt_failed.mpr ⟨_, hcall, rfl⟩, rfl⟩

theorem evalCreate_failed {name : String} {args : List Node} :
    evalCreate self name args pos e w = .failed d w' ↔
      CreateFails self pos name args e w d w' := by
  constructor
  · intro hfails
    obtain hclass | ⟨c, w₁, hclass, hfails⟩ := bind_failed.mp hfails
    · exact .definition hclass
    obtain hargs | ⟨values, w₂, hargs, hfails⟩ := bind_failed.mp hfails
    · exact .argument hclass hargs
    obtain ⟨d₁, hlocated, rfl⟩ := during_failed.mp hfails
    obtain ⟨d₀, hbuilt, rfl⟩ := locatedAt_failed.mp hlocated
    obtain hcreate | ⟨scope, w₃, hscope, hfails⟩ := bind_failed.mp hbuilt
    · exact .invoked hclass hargs hcreate
    · cases hfails
  · intro hfails
    cases hfails with
    | definition hclass => exact bind_failed.mpr (.inl hclass)
    | argument hclass hargs =>
      exact bind_failed.mpr (.inr ⟨_, _, hclass, bind_failed.mpr (.inl hargs)⟩)
    | invoked hclass hargs hcreate =>
      refine bind_failed.mpr (.inr ⟨_, _, hclass, bind_failed.mpr (.inr ⟨_, _, hargs, ?_⟩)⟩)
      refine during_failed.mpr ⟨_, locatedAt_failed.mpr ⟨_, ?_, rfl⟩, rfl⟩
      exact bind_failed.mpr (.inl hcreate)

theorem runIncluded_failed {path : String} {scope : ScopeRef} {sources : List IncludedSource} :
    runIncluded self pos path scope sources w = .failed d w' ↔
      SourcesFail self pos path scope sources w d w' := by
  induction sources generalizing w with
  | nil => constructor <;> intro hfails <;> cases hfails
  | cons source more ih =>
    constructor
    · intro hfails
      obtain hrun | ⟨_, w₂, hrun, hfails⟩ := (bind_failed (x := discard _)).mp hfails
      · obtain ⟨d₀, hsource, rfl⟩ := during_failed.mp (discard_failed.mp hrun)
        exact .here hsource
      · obtain ⟨v, hduring⟩ := discard_done.mp hrun
        obtain ⟨w₁, hsource, rfl⟩ := during_done.mp hduring
        exact .later hsource (ih.mp hfails)
    · intro hfails
      cases hfails with
      | here hsource =>
        have hrun := discard_failed.mpr (during_failed.mpr ⟨_, hsource, rfl⟩)
        exact (bind_failed (x := discard _)).mpr (.inl hrun)
      | later hsource hmore =>
        have hrun := during_done.mpr ⟨_, hsource, rfl⟩
        refine (bind_failed (x := discard _)).mpr (.inr ⟨⟨⟩, _, ?_, ih.mpr hmore⟩)
        exact discard_done.mpr ⟨_, hrun⟩

theorem includePath_failed {path : String} :
    includePath self pos path e w = .failed d w' ↔
      (∃ d₀, w.resolver.resolve w.files path (w.heap.origin e) = .error d₀ ∧
        d = d₀.orPosition pos ∧ w' = w) ∨
      ∃ sources scope w₂, w.resolver.resolve w.files path (w.heap.origin e) = .ok sources ∧
        newScope (.fresh path (some e) none) w = .done scope w₂ ∧
        SourcesFail self pos path scope sources w₂ d w' := by
  have hrun : includePath self pos path e w = (do
      let sources ← locatedAt pos (Run.ofExcept
        (w.resolver.resolve w.files path (w.heap.origin e)))
      let scope ← newScope (.fresh path (some e) none)
      runIncluded self pos path scope sources
      let target ← storage e
      modifyHeap (·.mergeInto target scope)
      return .instance_ scope : Run Value) w := rfl
  cases hresolve : w.resolver.resolve w.files path (w.heap.origin e) with
  | error d₀ =>
    rw [hresolve] at hrun
    have hfailed : includePath self pos path e w = .failed (d₀.orPosition pos) w := hrun
    simp [hfailed, eq_comm]
  | ok sources =>
    rw [hresolve] at hrun
    obtain ⟨scope, w₂, hscope⟩ : ∃ scope w₂,
        newScope (.fresh path (some e) none) w = .done scope w₂ := ⟨_, _, rfl⟩
    have hincluded : includePath self pos path e w = (do
        runIncluded self pos path scope sources
        let target ← storage e
        modifyHeap (·.mergeInto target scope)
        return .instance_ scope : Run Value) w₂ := by
      cases hscope
      exact hrun
    have hmerge : ∀ w₃, (do
        let target ← storage e
        modifyHeap (·.mergeInto target scope)
        return .instance_ scope : Run Value) w₃ ≠ .failed d w' := by
      intro w₃ hfails
      cases hfails
    rw [hincluded, bind_failed, runIncluded_failed]
    simp [hmerge, hscope]

theorem evalInclude_failed {paths : List Node} {last : Value} :
    evalInclude self pos e paths last w = .failed d w' ↔
      IncludeFails self pos e paths w d w' := by
  induction paths generalizing w last with
  | nil => constructor <;> intro hfails <;> cases hfails
  | cons node more ih =>
    have hrun : evalInclude self pos e (node :: more) last = (self.evaluate node e >>= fun v w₁ =>
        (includePath self pos (w₁.heap.display v) e >>= evalInclude self pos e more) w₁) := rfl
    rw [hrun]
    constructor
    · intro hfails
      obtain hnode | ⟨v, w₁, hnode, hfails⟩ := bind_failed.mp hfails
      · exact .path hnode
      obtain hpath | ⟨included, w₂, hpath, hmore⟩ := bind_failed.mp hfails
      · obtain ⟨d₀, hresolve, rfl, rfl⟩ | ⟨sources, scope, w₂, hresolve, hscope, hsources⟩ :=
          includePath_failed.mp hpath
        · exact .unresolved hnode hresolve
        · exact .source hnode hresolve hscope hsources
      · exact .later hnode hpath (ih.mp hmore)
    · intro hfails
      cases hfails with
      | path hnode => exact bind_failed.mpr (.inl hnode)
      | unresolved hnode hresolve =>
        refine bind_failed.mpr (.inr ⟨_, _, hnode, bind_failed.mpr (.inl ?_)⟩)
        exact includePath_failed.mpr (.inl ⟨_, hresolve, rfl, rfl⟩)
      | source hnode hresolve hscope hsources =>
        refine bind_failed.mpr (.inr ⟨_, _, hnode, bind_failed.mpr (.inl ?_)⟩)
        exact includePath_failed.mpr (.inr ⟨_, _, _, hresolve, hscope, hsources⟩)
      | later hnode hpath hmore =>
        refine bind_failed.mpr (.inr ⟨_, _, hnode, bind_failed.mpr (.inr ⟨_, _, hpath, ?_⟩)⟩)
        exact ih.mpr hmore

end Failures

/-- A failure that is no stop has for its trace, innermost first, the invocations that the program
was in when it arose. These are the calls, constructions and included sources that got past their
callee, arguments and path; nothing else puts an entry on the stack or into a trace. The callbacks
of the host put none there but through the machine: what they fail with by themselves has no
trace. -/
theorem error_trace_is_call_stack (callbacks : Callbacks) (htraced : callbacks.Lockstep .traced)
    (hexact : callbacks.Lockstep .exact) (n : Nat) :
    (∀ source e name w d w', w.HostsFail (·.trace = []) →
      runSource (machineWith callbacks n) source e name w = .failed d w' → d.kind ≠ .stop →
        w'.calls = d.trace ++ w.calls) ∧
    KeepsCalls callbacks n ∧
    (∀ self pos callee args e w d w', evalNode self (.call pos callee args) e w = .failed d w' ↔
      CallFails self pos callee args e w d w') ∧
    (∀ self pos name args e w d w', evalNode self (.create pos name args) e w = .failed d w' ↔
      CreateFails self pos name args e w d w') ∧
    ∀ self pos paths e w d w', evalNode self (.include_ pos paths) e w = .failed d w' ↔
      IncludeFails self pos e paths w d w' := by
  refine ⟨fun source e name w d w' hw hrun hkind => ?_, keepsCalls hexact n,
    fun _ _ _ _ _ _ _ _ => evalCall_failed, fun _ _ _ _ _ _ _ _ => evalCreate_failed,
    fun _ _ _ _ _ _ _ => evalInclude_failed⟩
  have hstop : d.isStop = false := by
    simp only [Diagnostic.isStop, beq_eq_false_iff_ne, ne_eq, hkind, not_false_eq_true]
  have hsource := Run.Lockstep.runSource (n := w.heap.extent)
    (Run.Lockstep.machineWith htraced n w.frame) source e name
  exact hsource.failed_calls hw hrun hstop

/-- Two calls are under way when the name is not found: that of `g` and that of the host. It is the
host that calls `f`. -/
theorem error_trace_is_call_stack_nested : ∃ d w',
    runSource (machineWith .twice 9) "function f(): x\nfunction g(): h(f)\ng()" ⟨0⟩ none
        (.answering "h" ["f"]) = .failed d w' ∧
      d.kind ≠ .stop ∧ d.trace.map (·.label) = ["h", "g"] ∧ w'.calls = d.trace := by
  have hfails : (runSource (machineWith .twice 9) "function f(): x\nfunction g(): h(f)\ng()" ⟨0⟩
      none (.answering "h" ["f"])).diagnostic?.any (fun d =>
        decide (d.kind ≠ .stop ∧ d.trace.map (·.label) = ["h", "g"])) = true := by decide +kernel
  obtain ⟨d, hd, hdecide⟩ := (Option.any_eq_true _ _).mp hfails
  obtain ⟨w', hrun⟩ := Outcome.failed_of_diagnostic hd
  obtain ⟨hkind, hlabels⟩ := of_decide_eq_true hdecide
  have hhosts := World.answering_hostsFail "h" ["f"] (·.trace = [])
  have hcalls := (error_trace_is_call_stack .twice (Callbacks.lockstep_twice .traced)
    (Callbacks.lockstep_twice .exact) 9).1 _ _ _ _ d w' hhosts hrun hkind
  exact ⟨d, w', hrun, hkind, hlabels, hcalls.trans (List.append_nil _)⟩

end Evaluation

end ScriptEngine
