import ScriptEngine.Proofs.LikeOperators
import ScriptEngine.Proofs.LocatedErrors

/-! # Evaluation in lockstep

Every rule of evaluation goes in lockstep on alike trees and values. Most of them refer to the
machines in the very frame that they were started in. A call and a construction refer to them in
deeper frames only, and these and an inclusion with one more invocation under way. -/

namespace ScriptEngine

/-- The node calls a value, builds an instance or runs other sources. -/
def Node.isInvocation : Node → Bool
  | .call _ _ _ | .create _ _ _ | .include_ _ _ => true
  | _ => false

namespace Resolver

variable {tree : FileTree} {path : String} {d : Diagnostic}

theorem readSource_error {file : String} (h : readSource tree file path = .error d) :
    d.trace = [] := by
  simp only [readSource, notFound] at h
  split at h
  · cases h
  · cases h
    rfl

-- Sealed, since unfolding what reads a file of an unknown tree does not come to an end.
seal readSource in
theorem readSources_cons (directory name : String) (more : List String) :
    readSources tree directory path (name :: more) =
      match readSource tree (Path.join directory name) path with
      | .error d => .error d
      | .ok source =>
        match readSources tree directory path more with
        | .error d => .error d
        | .ok sources => .ok (source :: sources) :=
  rfl

theorem readSources_error {directory : String} {names : List String}
    (h : readSources tree directory path names = .error d) : d.trace = [] := by
  induction names with
  | nil => nomatch h
  | cons name more ih =>
    rw [readSources_cons] at h
    split at h
    · rename_i hfirst
      cases h
      exact readSource_error hfirst
    · split at h
      · rename_i hmore
        cases h
        exact ih hmore
      · cases h

/-- A source that cannot be found is the only error of a resolver. -/
theorem resolve_error {r : Resolver} {origin : Option String}
    (h : r.resolve tree path origin = .error d) : d.trace = [] := by
  cases r with
  | table sources =>
    simp only [resolve, resolveTable, notFound] at h
    split at h
    · split at h
      · cases h
        rfl
      · cases h
    · split at h
      · cases h
      · cases h
        rfl
  | files base =>
    simp only [resolve, resolveFiles, notFound] at h
    split at h
    · split at h
      · exact readSources_error h
      · cases h
        rfl
    · split at h
      · cases h
      · rename_i hfirst
        cases h
        exact readSource_error hfirst

end Resolver

/-- The machines go in lockstep in every frame that calls from `c` can enter: more calls are active
there, and not more than may be. -/
def Machine.LockstepInside (L : Likeness) (c : Frame) (m m' : Machine) : Prop :=
  ∀ d, c.depth < d → d ≤ c.limit → m.Lockstep L { c with depth := d } m'

namespace Machine.LockstepInside

variable {L : Likeness} {c : Frame} {m m' : Machine}

theorem enter (hm : m.LockstepInside L c m') (hroom : c.depth < c.limit) :
    m.Lockstep L c.enter m' :=
  hm (c.depth + 1) (Nat.lt_succ_self _) hroom

theorem deeper (hm : m.LockstepInside L c m') : m.LockstepInside L c.enter m' :=
  fun d hd => hm d (Nat.lt_of_succ_lt hd)

end Machine.LockstepInside

variable {L : Likeness} {n : Extent}

theorem Heap.Alike.awaitsParent {h h' : Heap} (hh : h.Alike L h') (scope : ScopeRef) :
    Evaluation.awaitsParent h' scope = Evaluation.awaitsParent h scope := by
  have hmember := Table.Related.get? (hh.scope scope).bindings "super"
  unfold Evaluation.awaitsParent
  generalize (h.scope scope).bindings.get? "super" = o,
    (h'.scope scope).bindings.get? "super" = o' at hmember
  cases hmember with
  | none => rfl
  | some hv => cases hv <;> rfl

theorem Heap.Alike.describeScope {h h' : Heap} (hh : h.Alike L h') (scope : ScopeRef) :
    Builtins.describeScope h' scope = Builtins.describeScope h scope := by
  have hentries := forall₂_map_eq (hh.scope scope).bindings
    (f := fun e => e.1 ++ "=" ++ h.display e.2) (g := fun e => e.1 ++ "=" ++ h'.display e.2)
    fun a b hab => by rw [hh.display hab.2, hab.1]
  simp only [Builtins.describeScope, hentries, (hh.scope scope).name, (hh.scope scope).parent,
    (hh.scope _).name]

theorem Heap.Alike.caller {h h' : Heap} (hh : h.Alike L h') (scope : ScopeRef) :
    Builtins.caller h' scope = Builtins.caller h scope := by
  simp only [Builtins.caller, (hh.scope scope).parent]

namespace Run.Lockstep

variable {c : Frame} {m m' : Machine}

/-! ### Programs -/

theorem runStatements (hm : m.Lockstep L c m') (e : ScopeRef) {statements statements' : List Node}
    (hs : List.Forall₂ L.node statements statements') {last last' : Value}
    (hlast : last.Alike L n last') :
    Lockstep L c n (Value.Alike L) (Evaluation.runStatements m e statements last)
      (Evaluation.runStatements m' e statements' last') := by
  induction hs generalizing n last last' with
  | nil => exact value hlast
  | cons hstatement _ ih =>
    have hpos := (L.node_resembles hstatement).pos
    refine (hm.evaluate n e hstatement).catchJump.bind fun k _ result result' hresult => ?_
    cases hresult with
    | ok hv => exact ih hv
    | error hj =>
      cases hj with
      | return_ hv => exact value hv
      | break_ => exact failAt _ hpos
      | continue_ => exact failAt _ hpos

theorem runProgram (hm : m.Lockstep L c m') {root root' : Node} (hroot : L.node root root')
    (e : ScopeRef) :
    Lockstep L c n (Value.Alike L) (Evaluation.runProgram m root e)
      (Evaluation.runProgram m' root' e) := by
  have hsingle := runStatements (n := n) hm e (.cons hroot .nil) Value.Alike.null
  cases L.node_resembles hroot with
  | sequence hp hstatements => exact runStatements hm e hstatements .null
  | _ => exact hsingle

theorem runSource (hm : m.Lockstep L c m') (source : String) (e : ScopeRef)
    (name : Option String) :
    Lockstep L c n (Value.Alike L) (Evaluation.runSource m source e name)
      (Evaluation.runSource m' source e name) := by
  refine (ofExcept fun d hd => ?_).andThen fun _ _ root => runProgram hm (L.node_refl root) e
  obtain ⟨fault, pos, rfl⟩ := parseProgram_error hd
  rfl

/-! ### Instances -/

theorem checkArity (name : String) (params : List String) {args args' : List Value}
    (hargs : Values.Alike L n args args') :
    Lockstep L c n Identical (Evaluation.checkArity name params args)
      (Evaluation.checkArity name params args') := by
  unfold Evaluation.checkArity
  rw [← hargs.length_eq]
  split
  · exact same ()
  · exact raise _

theorem openInstance {k k' : Class} (hk : k.Alike L n k') {args args' : List Value}
    (hargs : Values.Alike L n args args') (e : ScopeRef) :
    Lockstep L c n Identical (Evaluation.openInstance k args e)
      (Evaluation.openInstance k' args' e) := by
  have hparams : ∀ r, n ≤ r → ∀ scope, Lockstep L c r Identical
      (Run.modifyHeap (·.modifyScope scope (·.defineAll (k.params.zip args))) >>= fun _ =>
        pure scope)
      (Run.modifyHeap (·.modifyScope scope (·.defineAll (k'.params.zip args'))) >>= fun _ =>
        pure scope) := by
    intro r hr scope
    rw [hk.params]
    exact (defineAll scope (Table.Related.zip _ (Values.Alike.mono hargs hr))).andThen
      fun _ _ _ => same scope
  unfold Evaluation.openInstance
  rw [hk.name]
  refine (newScope (.fresh _ _ _)).andThen fun r hr scope => ?_
  refine (define scope "type" (.cls (hk.mono hr))).andThen fun l hl _ => ?_
  have hafter := hr.trans hl
  cases hk with
  | base hs hbody => exact hparams l hafter scope
  | derived hs hbody hparent =>
    refine (newNative (.superCall (hparent.mono hafter)
      ((Class.Alike.derived hs hbody hparent).mono hafter) scope)).bind fun r hr v v' hv => ?_
    exact (define scope "super" hv).andThen fun _ hx _ => hparams _ ((hafter.trans hr).trans hx) scope

theorem runBody (hm : m.Lockstep L c m') {k k' : Class} (hk : k.Alike L n k')
    {args args' : List Value} (hargs : Values.Alike L n args args') (scope : ScopeRef) :
    Lockstep L c n Identical (Evaluation.runBody m k args scope)
      (Evaluation.runBody m' k' args' scope) := by
  have hbody := hk.body
  unfold Evaluation.runBody
  generalize k.body = body, k'.body = body' at hbody
  cases hbody with
  | object => exact same ()
  | file =>
    refine display (Values.Alike.headD hargs) fun path => ?_
    exact (bound (methodsOf (fun method => .fileMethod method path) _)).bind fun _ _ _ _ ht =>
      defineAll scope ht
  | script hnode =>
    rw [hk.name]
    refine (hm.evaluate n scope hnode).catchJump.bind fun _ _ result result' hresult => ?_
    cases hresult with
    | ok hv => exact same ()
    | error hj =>
      cases hj with
      | return_ hv => exact same ()
      | break_ => exact raise _
      | continue_ => exact raise _

theorem adopt {k k' : Class} (hk : k.Alike L n k') (scope parentScope : ScopeRef) :
    Lockstep L c n Identical (Evaluation.adopt k scope parentScope)
      (Evaluation.adopt k' scope parentScope) :=
  (define scope "type" (.cls hk)).andThen fun _ _ _ =>
    define scope "super" (.instance_ parentScope)

theorem mergeInto (target source : ScopeRef) :
    Lockstep L c n Identical (Run.modifyHeap (·.mergeInto target source))
      (Run.modifyHeap (·.mergeInto target source)) := by
  refine merge (fun _ _ hh => hh.mergeInto target source) fun h => ?_
  unfold Heap.mergeInto
  split
  · exact le_rfl
  · exact le_refl h.extent

theorem mergeMissing (target source : ScopeRef) :
    Lockstep L c n Identical (Run.modifyHeap (·.mergeMissing target source))
      (Run.modifyHeap (·.mergeMissing target source)) := by
  refine merge (fun _ _ hh => hh.mergeMissing target source) fun h => ?_
  unfold Heap.mergeMissing
  split
  · exact le_rfl
  · exact le_refl h.extent

theorem implicitParent {build build' : List Value → ScopeRef → Run ScopeRef}
    {k k' parent parent' : Class} (hk : k.Alike L n k') (hparent : parent.Alike L n parent')
    {args args' : List Value} (hargs : Values.Alike L n args args') (scope : ScopeRef)
    (hbuild : ∀ r, n ≤ r → Lockstep L c r Identical (build args scope) (build' args' scope)) :
    Lockstep L c n Identical (Evaluation.implicitParent build k parent args scope)
      (Evaluation.implicitParent build' k' parent' args' scope) := by
  refine heap fun h h' hh hn => ?_
  rw [hh.awaitsParent scope, hparent.params, hargs.length_eq]
  split
  · split
    · refine (hbuild _ hn).andThen fun r hr parentScope => ?_
      exact (mergeMissing scope parentScope).andThen fun l hl _ =>
        adopt (hk.mono ((hn.trans hr).trans hl)) scope parentScope
    · exact remove scope "super"
  · exact same ()

theorem instantiate (hm : m.LockstepInside L c m') {k k' : Class} (hk : k.Alike L n k')
    {args args' : List Value} (hargs : Values.Alike L n args args') (e : ScopeRef) :
    Lockstep L c n Identical (Evaluation.instantiate m k args e)
      (Evaluation.instantiate m' k' args' e) := by
  induction hk generalizing c args args' e with
  | @base stamp name params body body' hs hbody =>
    have hk : Class.Alike L n ⟨stamp, name, params, body, none⟩
        ⟨L.stamp stamp, name, params, body', none⟩ := .base hs hbody
    refine (checkArity _ _ hargs).andThen fun r hr _ => withFrame fun hroom => ?_
    refine (openInstance (hk.mono hr) (Values.Alike.mono hargs hr) e).andThen fun l hl scope => ?_
    exact (runBody (hm.enter hroom) (hk.mono (hr.trans hl)) (Values.Alike.mono hargs (hr.trans hl))
      scope).andThen fun _ _ _ => same scope
  | @derived stamp name params body body' parent parent' hs hbody hparent ih =>
    have hk : Class.Alike L n ⟨stamp, name, params, body, some parent⟩
        ⟨L.stamp stamp, name, params, body', some parent'⟩ := .derived hs hbody hparent
    refine (checkArity _ _ hargs).andThen fun r hr _ => withFrame fun hroom => ?_
    refine (openInstance (hk.mono hr) (Values.Alike.mono hargs hr) e).andThen fun l hl scope => ?_
    have hl := hr.trans hl
    refine (runBody (hm.enter hroom) (hk.mono hl) (Values.Alike.mono hargs hl) scope).andThen
      fun x hx _ => ?_
    have hx := hl.trans hx
    exact (implicitParent (hk.mono hx) (hparent.mono hx) (Values.Alike.mono hargs hx) scope
      fun _ hy => (ih hm.deeper hargs scope).mono (hx.trans hy)).andThen fun _ _ _ => same scope

theorem buildParent (hm : m.LockstepInside L c m') {parent parent' child child' : Class}
    (hparent : parent.Alike L n parent') (hchild : child.Alike L n child')
    (target : ScopeRef) {args args' : List Value} (hargs : Values.Alike L n args args') :
    Lockstep L c n (Value.Alike L) (Evaluation.buildParent m parent child target args)
      (Evaluation.buildParent m' parent' child' target args') := by
  refine isFreed.andThen fun k hk freed => ?_
  split
  · exact raise _
  · exact (instantiate hm (hparent.mono hk) (Values.Alike.mono hargs hk) target).andThen
      fun _ hl parentScope => (mergeInto target parentScope).andThen fun _ hr _ =>
        (adopt (hchild.mono ((hk.trans hl).trans hr)) target parentScope).andThen
          fun _ _ _ => value .null

/-! ### Inclusion -/

/-- The sources run with the inclusion under way. -/
theorem runIncluded {p q : Position} (hp : L.place p q) (path : String)
    (hm : m.Lockstep L (c.invoke ⟨"include " ++ path, some p⟩) m') (scope : ScopeRef)
    (sources : List IncludedSource) :
    Lockstep L c n Identical (Evaluation.runIncluded m p path scope sources)
      (Evaluation.runIncluded m' q path scope sources) := by
  induction sources generalizing n with
  | nil => exact same ()
  | cons source more ih =>
    have horigin : Lockstep L c n Identical
        (Run.modifyHeap (·.modifyScope scope fun s => { s with origin := some source.name }))
        (Run.modifyHeap (·.modifyScope scope fun s => { s with origin := some source.name })) :=
      modifyScope scope fun _ _ _ _ hs => hs.withOrigin _
    have hsource := fun k => runSource (n := k) hm source.text scope (some source.name)
    exact horigin.andThen fun k _ _ =>
      (during (.mk _ (.some hp)) (hsource k)).discard.andThen fun _ _ _ => ih

theorem includePath {p q : Position} (hp : L.place p q) (path : String)
    (hm : m.Lockstep L (c.invoke ⟨"include " ++ path, some p⟩) m') (e : ScopeRef) :
    Lockstep L c n (Value.Alike L) (Evaluation.includePath m p path e)
      (Evaluation.includePath m' q path e) := by
  refine world fun w w' hw _ => ?_
  rw [hw.resolver, hw.files, hw.heap.origin e]
  have hresolve : Lockstep L c w.heap.extent Identical
      (Run.ofExcept (w.resolver.resolve w.files path (w.heap.origin e)))
      (Run.ofExcept (w.resolver.resolve w.files path (w.heap.origin e))) :=
    ofExcept fun _ hd => Resolver.resolve_error hd
  exact (locatedAt hp hresolve).andThen fun _ _ sources =>
    (newScope (.fresh _ _ _)).andThen fun _ _ scope =>
      (runIncluded hp path hm scope sources).andThen fun _ _ _ => storage e fun target =>
        (mergeInto target scope).andThen fun _ _ _ => value (.instance_ scope)

/-! ### Functions that are not written in the language -/

theorem numberArg (function : String) {v v' : Value} (hv : v.Alike L n v') :
    Lockstep L c n Identical (Builtins.numberArg function v) (Builtins.numberArg function v') := by
  unfold Builtins.numberArg
  rw [hv.number?]
  split
  · exact same _
  · exact display hv fun _ => raise _

theorem randomBetween (low high : Single) :
    Lockstep L c n Identical (Builtins.randomBetween low high) (Builtins.randomBetween low high) := by
  unfold Builtins.randomBetween
  dsimp only
  split
  · exact same _
  · exact (draw _).andThen fun _ _ _ => same _

theorem readLine : Lockstep L c n Identical Builtins.readLine Builtins.readLine := by
  refine (print _).andThen fun _ _ _ => world fun w w' hw _ => ?_
  rw [hw.input]
  refine Lockstep.andThen (aside (fun _ _ => rfl) fun _ => rfl) fun _ _ _ => ?_
  split
  · exact same _
  · exact raise _

theorem programText {v v' : Value} (hv : v.Alike L n v') :
    Lockstep L c n Identical (Builtins.programText v) (Builtins.programText v') := by
  refine heap fun h h' hh hn => ?_
  have hother : Lockstep L c h.extent (Identical (α := String))
      (Run.raise (.illegalArgument (h.display v) Builtin.interpret.name))
      (Run.raise (.illegalArgument (h'.display v') Builtin.interpret.name)) := by
    rw [hh.display (hv.mono hn)]
    exact raise _
  cases hv with
  | text hs code => exact same code
  | list => exact done fun _ _ => by rw [Identical, hh.displayAll (hh.items _)]
  | _ => exact hother

theorem compute (b : Builtin) {args args' : List Value} (hargs : Values.Alike L n args args') :
    Lockstep L c n (Value.Alike L)
      (do match Builtins.compute b (← Run.mapAll (Builtins.numberArg b.name) args) with
        | some result => Run.newNumber (← Operators.ofFault result)
        | none => return .null)
      (do match Builtins.compute b (← Run.mapAll (Builtins.numberArg b.name) args') with
        | some result => Run.newNumber (← Operators.ofFault result)
        | none => return .null) := by
  refine (mapAll (S := Identical) (fun _ _ _ _ _ hx => hx)
    (fun _ _ _ hk hv => numberArg b.name (hv.mono hk)) hargs).bind fun _ _ numbers numbers' hn => ?_
  rw [List.forall₂_eq_eq_eq] at hn
  rw [← hn]
  split
  · exact (ofFault _).andThen fun _ _ _ => newNumber _
  · exact value .null

theorem builtin (hm : m.Lockstep L c m') (b : Builtin) {args args' : List Value}
    (hargs : Values.Alike L n args args') (scope : ScopeRef) :
    Lockstep L c n (Value.Alike L) (Builtins.run m b args scope)
      (Builtins.run m' b args' scope) := by
  have hcompute := compute (c := c) b hargs
  cases b with
  | print =>
    obtain _ | ⟨hv, _ | _⟩ := hargs
    · exact hcompute
    · exact display hv fun _ => (print _).andThen fun _ _ _ => value .null
    · exact hcompute
  | wait =>
    obtain _ | ⟨hv, _ | _⟩ := hargs
    · exact hcompute
    · exact (numberArg _ hv).andThen fun _ _ _ => Lockstep.andThen (aside (fun _ _ => rfl) fun _ => rfl) fun _ _ _ =>
        value .null
    · exact hcompute
  | interpret =>
    obtain _ | ⟨hv, _ | _⟩ := hargs
    · exact hcompute
    · refine (programText hv).andThen fun _ _ code => heap fun h h' hh _ => ?_
      dsimp only
      rw [hh.caller, hh.origin]
      exact runSource hm code _ _
    · exact hcompute
  | dAlloc =>
    obtain _ | ⟨hv, _ | _⟩ := hargs
    · exact hcompute
    · refine heap fun h h' hh hn => ?_
      dsimp only
      rw [hh.caller, hh.owner, hh.display (hv.mono hn)]
      exact (remove _ _).andThen fun _ _ _ => value .null
    · exact hcompute
  | async =>
    obtain _ | ⟨hv, _ | _⟩ := hargs
    · exact hcompute
    · have hspawn := (spawn hv).andThen (S := Value.Alike L) fun k _ _ =>
        (value .null : Lockstep L c k (Value.Alike L) (Run.done .null) (Run.done .null))
      rename_i v v'
      have hother : Lockstep L c n (Value.Alike L)
          (do Run.raise (.illegalArgument (← Run.display v) "async"))
          (do Run.raise (.illegalArgument (← Run.display v') "async")) :=
        display hv fun _ => raise _
      cases hv with
      | function hs f e => exact hspawn
      | native hs hn => exact hspawn
      | _ => exact hother
    · exact hcompute
  | random => exact (draw _).andThen fun _ _ _ => newNumber _
  | randomBetween =>
    obtain _ | ⟨hlow, _ | ⟨hhigh, _ | _⟩⟩ := hargs
    · exact hcompute
    · exact hcompute
    · exact (numberArg _ hlow).andThen fun _ hk _ => (numberArg _ (hhigh.mono hk)).andThen
        fun _ _ _ => (randomBetween _ _).andThen fun _ _ _ => newNumber _
    · exact hcompute
  | readString => exact readLine.andThen fun _ _ _ => newText _
  | readNumber =>
    refine readLine.andThen fun _ _ line => ?_
    dsimp only
    split
    · exact newNumber _
    · exact raise _
  | _ => exact hcompute

theorem instantiateValue (hm : m.LockstepInside L c m') {v v' : Value} (hv : v.Alike L n v')
    {args args' : List Value} (hargs : Values.Alike L n args args') (e : ScopeRef) :
    Lockstep L c n Identical (Builtins.instantiateValue m v args e)
      (Builtins.instantiateValue m' v' args' e) := by
  have hother : Lockstep L c n (Identical (α := ScopeRef))
      (do Run.raise (.notAnObject (← Run.display v)))
      (do Run.raise (.notAnObject (← Run.display v'))) :=
    display hv fun _ => raise _
  cases hv with
  | cls hk => exact instantiate hm hk hargs e
  | _ => exact hother

theorem runHost (hm : m.Lockstep L c m') (hin : m.LockstepInside L c m') (behavior : HostBehavior)
    (hfail : ∀ d, behavior = .fail d → L.host d) {args args' : List Value}
    (hargs : Values.Alike L n args args') (scope : ScopeRef) :
    Lockstep L c n (Value.Alike L) (Builtins.runHost m behavior args scope)
      (Builtins.runHost m' behavior args' scope) := by
  have hfirst := Values.Alike.headD hargs
  cases behavior with
  | echo => exact newList hargs
  | first => exact value hfirst
  | null => exact value .null
  | sum =>
    unfold Builtins.runHost
    dsimp only
    rw [Values.Alike.sum hargs]
    exact newNumber _
  | stop => exact Lockstep.andThen (aside (fun _ _ => rfl) fun _ => rfl) fun _ _ _ => value .null
  | fail d => exact fail (.refl d) (L.failure_host _ d (hfail d rfl))
  | type =>
    unfold Builtins.runHost
    dsimp only
    rw [hfirst.typeName]
    exact newText _
  | spawn =>
    refine (spawn hfirst).andThen fun _ _ _ => world fun w w' hw _ => ?_
    rw [← hw.tasks.length_eq]
    exact newNumber _
  | call => exact hm.call n scope hfirst (Values.Alike.tail hargs)
  | instantiate =>
    exact (instantiateValue hin hfirst (Values.Alike.tail hargs) scope).andThen fun _ _ e =>
      value (.instance_ e)
  | scope =>
    refine heap fun h h' hh _ => ?_
    rw [hh.describeScope scope]
    exact newTexts _
  | origin =>
    refine heap fun h h' hh _ => ?_
    rw [hh.origin scope]
    split
    · exact newText _
    · exact value .null
  | callback key => exact hm.host n key scope hargs

/-! ### Calls -/

theorem callFunction (hm : m.LockstepInside L c m') {name : Option String} {params : List String}
    {braced : Bool} {body body' : Node} (hbody : L.node body body') (closure : ScopeRef)
    {args args' : List Value} (hargs : Values.Alike L n args args') :
    Lockstep L c n (Value.Alike L)
      (Evaluation.callFunction m ⟨name, params, braced, body⟩ closure args)
      (Evaluation.callFunction m' ⟨name, params, braced, body'⟩ closure args') := by
  refine (checkArity _ _ hargs).andThen fun k hk _ =>
    (newFrame _ closure _ (Values.Alike.mono hargs hk)).andThen fun l _ scope => ?_
  refine (withFrame fun hroom => ((hm.enter hroom).evaluate l scope hbody).catchJump).bind
    fun _ _ result result' hresult => ?_
  cases hresult with
  | ok hv =>
    cases braced with
    | true => exact value .null
    | false => exact value hv
  | error hj =>
    cases hj with
    | return_ hv => exact value hv
    | break_ => exact raise _
    | continue_ => exact raise _

theorem runNative (hm : m.Lockstep L c m') (hin : m.LockstepInside L c m') {f f' : Native}
    (hf : f.Alike L n f') {args args' : List Value} (hargs : Values.Alike L n args args')
    (scope : ScopeRef) :
    Lockstep L c n (Value.Alike L) (Evaluation.runNative m f args scope)
      (Evaluation.runNative m' f' args' scope) := by
  cases hf with
  | builtin b => exact builtin hm b hargs scope
  | textMethod method s => exact textMethod method s hargs
  | listMethod method hl => exact listMethod hm method _ hargs scope
  | fileMethod method path => exact fileMethod method path hargs
  | superCall hparent hchild target => exact buildParent hin hparent hchild target hargs
  | host name params behavior hfail => exact runHost hm hin behavior hfail hargs scope

/-- What a call runs, it runs in a frame that was entered for it. -/
theorem callValue (hm : m.LockstepInside L c m') {f f' : Value} (hf : f.Alike L n f')
    {args args' : List Value} (hargs : Values.Alike L n args args') (e : ScopeRef) :
    Lockstep L c n (Value.Alike L) (Evaluation.callValue m f args e)
      (Evaluation.callValue m' f' args' e) := by
  cases hf with
  | function hs hbody closure => exact callFunction hm hbody closure hargs
  | native hs hnative =>
    simp only [Evaluation.callValue, Evaluation.callNative, hnative.name, hnative.params]
    exact (checkArity _ _ hargs).andThen fun k hk _ =>
      (newFrame _ e _ (Values.Alike.mono hargs hk)).andThen fun l hl scope =>
        withFrame fun hroom => runNative (hm.enter hroom) hm.deeper (hnative.mono (hk.trans hl))
          (Values.Alike.mono hargs (hk.trans hl)) scope
  | cls hk => exact (instantiate hm hk hargs e).andThen fun _ _ scope => value (.instance_ scope)
  | null => exact value .null
  | number hs x => exact value (.number hs x)
  | text hs s => exact value (.text hs s)
  | list hl => exact value (.list hl)
  | instance_ scope => exact value (.instance_ scope)

/-! ### Loops -/

inductive Round.Alike (L : Likeness) (n : Extent) : Evaluation.Round → Evaluation.Round → Prop
  | value {v v'} (hv : v.Alike L n v') : Alike L n (.value v) (.value v')
  | skipped : Alike L n .skipped .skipped
  | last : Alike L n .last .last

theorem loopResult (braced : Bool) {results results' : Array Value}
    (hr : Items.Alike L n results results') :
    Lockstep L c n (Value.Alike L) (Evaluation.loopResult braced results)
      (Evaluation.loopResult braced results') := by
  cases braced with
  | true => exact value .null
  | false => exact newList hr

theorem runRound {body body' : Run Value} (hb : Lockstep L c n (Value.Alike L) body body') :
    Lockstep L c n (Round.Alike L) (Evaluation.runRound body) (Evaluation.runRound body') := by
  refine hb.catchJump.bind fun _ _ result result' hresult => ?_
  cases hresult with
  | ok hv => exact done fun _ hk => .value (hv.mono hk)
  | error hj =>
    cases hj with
    | return_ hv => exact jump (.return_ hv)
    | break_ => exact done fun _ _ => .last
    | continue_ => exact done fun _ _ => .skipped

/-- What follows a round: the loop goes on with its result or without one, or it is over. -/
theorem afterRound {next next' : Array Value → Run (Array Value)} {round round' : Evaluation.Round}
    {results results' : Array Value} (hr : Items.Alike L n results results')
    (hnext : ∀ {rs rs' : Array Value}, Items.Alike L n rs rs' →
      Lockstep L c n (Items.Alike L) (next rs) (next' rs')) :
    Round.Alike L n round round' → Lockstep L c n (Items.Alike L)
      (match round with
        | .value v => next (results.push v)
        | .skipped => next results
        | .last => pure results)
      (match round' with
        | .value v => next' (results'.push v)
        | .skipped => next' results'
        | .last => pure results') := by
  intro hround
  cases hround with
  | value hv => exact hnext (forall₂_push hr hv)
  | skipped => exact hnext hr
  | last => exact done fun _ hk => Items.Alike.mono hr hk

theorem countRounds {body body' : Single → Run Value}
    (hb : ∀ k i, n ≤ k → Lockstep L c k (Value.Alike L) (body i) (body' i)) (r : Evaluation.Range)
    (rounds : Nat) (i : Single) {k : Extent} (hk : n ≤ k) {results results' : Array Value}
    (hr : Items.Alike L k results results') :
    Lockstep L c k (Items.Alike L) (Evaluation.countRounds body r rounds i results)
      (Evaluation.countRounds body' r rounds i results') := by
  induction rounds generalizing k i results results' with
  | zero => exact exhausted
  | succ rounds ih =>
    unfold Evaluation.countRounds
    split
    · refine (runRound (hb k i hk)).bind fun l hl round round' hround => ?_
      exact afterRound (Items.Alike.mono hr hl) (fun hrs => ih _ (hk.trans hl) hrs) hround
    · exact done fun _ hl => Items.Alike.mono hr hl

theorem eachRounds {body body' : Value → Run Value}
    (hb : ∀ k v v', n ≤ k → Value.Alike L k v v' →
      Lockstep L c k (Value.Alike L) (body v) (body' v'))
    (l : ListRef) (rounds i : Nat) {k : Extent} (hk : n ≤ k) {results results' : Array Value}
    (hr : Items.Alike L k results results') :
    Lockstep L c k (Items.Alike L) (Evaluation.eachRounds body l rounds i results)
      (Evaluation.eachRounds body' (L.ref l) rounds i results') := by
  induction rounds generalizing k i results results' with
  | zero => exact exhausted
  | succ rounds ih =>
    refine heap fun h h' hh hn => ?_
    have hitem := forall₂_arrayGetElem? (hh.items l) i
    generalize (h.items l)[i]? = o, (h'.items (L.ref l))[i]? = o' at hitem
    cases hitem with
    | none => exact done fun _ hx => Items.Alike.mono hr (hn.trans hx)
    | some hv =>
      have hbefore := hk.trans hn
      refine (runRound (hb _ _ _ hbefore hv)).bind fun x hx round round' hround => ?_
      exact afterRound (Items.Alike.mono hr (hn.trans hx))
        (fun hrs => ih _ (hbefore.trans hx) hrs) hround

theorem whileRounds {condition condition' body body' : Run Value}
    (hc : Lockstep L c n (Value.Alike L) condition condition')
    (hb : Lockstep L c n (Value.Alike L) body body') (rounds : Nat) {k : Extent} (hk : n ≤ k)
    {results results' : Array Value} (hr : Items.Alike L k results results') :
    Lockstep L c k (Items.Alike L) (Evaluation.whileRounds condition body rounds results)
      (Evaluation.whileRounds condition' body' rounds results') := by
  induction rounds generalizing k results results' with
  | zero => exact exhausted
  | succ rounds ih =>
    refine (hc.mono hk).bind fun l hl v v' hv => isTruthy hv fun truthy => ?_
    split
    · refine (runRound (hb.mono (hk.trans hl))).bind fun x hx round round' hround => ?_
      exact afterRound (Items.Alike.mono hr (hl.trans hx))
        (fun hrs => ih ((hk.trans hl).trans hx) hrs) hround
    · exact done fun _ hx => Items.Alike.mono hr (hl.trans hx)

theorem loopBound (hm : m.Lockstep L c m') (what : String) {a b : Node} (hab : L.node a b)
    (e : ScopeRef) :
    Lockstep L c n Identical (Evaluation.loopBound m what a e)
      (Evaluation.loopBound m' what b e) := by
  refine (hm.evaluate n e hab).bind fun _ _ v v' hv => ?_
  rw [hv.number?]
  split
  · exact same _
  · exact display hv fun _ => failAt _ (L.node_resembles hab).pos

theorem loopStep (hm : m.Lockstep L c m') (first last : Single) {step step' : Option Node}
    (hstep : Option.Rel L.node step step') (e : ScopeRef) :
    Lockstep L c n Identical (Evaluation.loopStep m first last step e)
      (Evaluation.loopStep m' first last step' e) := by
  cases hstep with
  | none => exact same _
  | some hnode => exact loopBound hm _ hnode e

theorem evalCount (hm : m.Lockstep L c m') (name : String)
    {start start' stop stop' body body' : Node} {step step' : Option Node}
    (hstart : L.node start start') (hstop : L.node stop stop')
    (hstep : Option.Rel L.node step step') (braced : Bool) (hbody : L.node body body')
    (e : ScopeRef) :
    Lockstep L c n (Value.Alike L) (Evaluation.evalCount m name start stop step braced body e)
      (Evaluation.evalCount m' name start' stop' step' braced body' e) := by
  have hpos : L.place (step.getD start).pos (step'.getD start').pos := by
    cases hstep with
    | none => exact (L.node_resembles hstart).pos
    | some hnode => exact (L.node_resembles hnode).pos
  refine (loopBound hm _ hstart e).andThen fun _ _ first =>
    (loopBound hm _ hstop e).andThen fun _ _ last =>
      (loopStep hm first last hstep e).andThen fun _ _ by_ => ?_
  split
  · exact failAt _ hpos
  · refine (innerScope e).andThen fun k _ scope => ?_
    dsimp only
    rw [hm.rounds]
    refine (countRounds (fun l i _ => ?_) _ _ _ le_rfl .nil).bind fun _ _ _ _ hr =>
      loopResult braced hr
    exact (newNumber i).bind fun _ _ _ _ hx => (define scope name hx).andThen fun _ _ _ =>
      hm.evaluate _ scope hbody

theorem evalEach (hm : m.Lockstep L c m') (name : String) {items items' body body' : Node}
    (hitems : L.node items items') (braced : Bool) (hbody : L.node body body') (e : ScopeRef) :
    Lockstep L c n (Value.Alike L) (Evaluation.evalEach m name items braced body e)
      (Evaluation.evalEach m' name items' braced body' e) := by
  refine (hm.evaluate n e hitems).bind fun k _ v v' hv => ?_
  have hother : Lockstep L c k (Value.Alike L)
      (do Run.fail (.located (.notAList (← Run.display v)) items.pos))
      (do Run.fail (.located (.notAList (← Run.display v')) items'.pos)) :=
    display hv fun _ => failAt _ (L.node_resembles hitems).pos
  cases hv with
  | list hl =>
    refine (innerScope e).andThen fun _ _ scope => ?_
    dsimp only
    rw [hm.rounds]
    refine (eachRounds (fun _ item item' _ hitem => ?_) _ _ _ le_rfl .nil).bind fun _ _ _ _ hr =>
      loopResult braced hr
    exact (define scope name hitem).andThen fun _ _ _ => hm.evaluate _ scope hbody
  | _ => exact hother

theorem evalWhile (hm : m.Lockstep L c m') {condition condition' body body' : Node}
    (hcondition : L.node condition condition') (braced : Bool) (hbody : L.node body body')
    (e : ScopeRef) :
    Lockstep L c n (Value.Alike L) (Evaluation.evalWhile m condition braced body e)
      (Evaluation.evalWhile m' condition' braced body' e) := by
  unfold Evaluation.evalWhile
  rw [hm.rounds]
  exact (innerScope e).andThen fun k _ scope =>
    (whileRounds (hm.evaluate k e hcondition) (hm.evaluate k scope hbody) _ le_rfl .nil).bind
      fun _ _ _ _ hr => loopResult braced hr

/-! ### Choices and names -/

theorem evalBranch (hm : m.Lockstep L c m') (braced : Bool) {body body' : Node}
    (hbody : L.node body body') (e : ScopeRef) :
    Lockstep L c n (Value.Alike L) (Evaluation.evalBranch m braced body e)
      (Evaluation.evalBranch m' braced body' e) := by
  refine (innerScope e).andThen fun k _ scope => (hm.evaluate k scope hbody).bind
    fun _ _ v v' hv => ?_
  cases braced with
  | true => exact value .null
  | false => exact value hv

theorem evalArms (hm : m.Lockstep L c m') {arms arms' : Arms} (harms : arms.Resembles L.node arms')
    (e : ScopeRef) :
    Lockstep L c n (Value.Alike L) (Evaluation.evalArms m e arms)
      (Evaluation.evalArms m' e arms') := by
  induction harms generalizing n with
  | done => exact value .null
  | otherwise braced hbody => exact evalBranch hm braced hbody e
  | arm braced hcondition hbody _ ih =>
    refine (hm.evaluate n e hcondition).bind fun k _ v v' hv => isTruthy hv fun truthy => ?_
    split
    · exact evalBranch hm braced hbody e
    · exact ih

theorem evalRead (name : String) {p q : Position} (hp : L.place p q) (e : ScopeRef) :
    Lockstep L c n (Value.Alike L) (Evaluation.evalRead name p e)
      (Evaluation.evalRead name q e) := by
  refine (get e name).bind fun k _ o o' ho => ?_
  cases ho with
  | none => exact failAt _ hp
  | some hv =>
    have hfound := value (c := c) hv
    cases hv with
    | null => exact failAt _ hp
    | _ => exact hfound

theorem lookupClass (name : String) {p q : Position} (hp : L.place p q) (e : ScopeRef) :
    Lockstep L c n (Class.Alike L) (Evaluation.lookupClass name p e)
      (Evaluation.lookupClass name q e) := by
  refine (get e name).bind fun k _ o o' ho => ?_
  cases ho with
  | none => exact failAt _ hp
  | some hv =>
    cases hv with
    | cls hk => exact done fun _ hl => hk.mono hl
    | _ => exact failAt _ hp

theorem evalUpdate (hm : m.Lockstep L c m') (name : String) (op : Arithmetic)
    {node node' : Node} (hnode : L.node node node') {p q : Position} (hp : L.place p q)
    (e : ScopeRef) :
    Lockstep L c n (Value.Alike L) (Evaluation.evalUpdate m name op node p e)
      (Evaluation.evalUpdate m' name op node' q e) := by
  refine (hm.evaluate n e hnode).bind fun k _ operand operand' hoperand =>
    owner e name fun target => (get target name).bind fun l hl o o' ho => ?_
  have hcurrent : (o.getD .null).Alike L l (o'.getD .null) := by
    cases ho with
    | none => exact .null
    | some hv => exact hv
  exact (locatedAt hp (arithmetic hm op hcurrent (hoperand.mono hl))).bind fun _ _ _ _ hresult =>
    (set target name hresult).andThen fun _ hx _ => value (hresult.mono hx)

theorem evalAll (hm : m.Lockstep L c m') {nodes nodes' : List Node}
    (hnodes : List.Forall₂ L.node nodes nodes') (e : ScopeRef) :
    Lockstep L c n (Values.Alike L) (Evaluation.evalAll m nodes e)
      (Evaluation.evalAll m' nodes' e) :=
  mapValues (fun k _ _ _ hnode => hm.evaluate k e hnode) hnodes

/-! ### Definitions -/

theorem store (e : ScopeRef) (name : String) {v v' : Value} (hv : v.Alike L n v') :
    Lockstep L c n (Value.Alike L)
      (Run.storage e >>= fun target => Run.set target name v >>= fun _ => pure v)
      (Run.storage e >>= fun target => Run.set target name v' >>= fun _ => pure v') :=
  storage e fun target => (set target name hv).andThen fun _ hk _ => value (hv.mono hk)

theorem evalFunction (name : Option String) (params : List String) (braced : Bool)
    {body body' : Node} (hbody : L.node body body') (e : ScopeRef) :
    Lockstep L c n (Value.Alike L) (Evaluation.evalFunction ⟨name, params, braced, body⟩ e)
      (Evaluation.evalFunction ⟨name, params, braced, body'⟩ e) := by
  refine (newFunction name params braced hbody e).bind fun _ _ v v' hv => ?_
  cases name with
  | none => exact value hv
  | some name => exact store e name hv

theorem evalObject (name : String) (params : List String) (parent : Option String)
    {body body' : Node} (hbody : L.node body body') {p q : Position} (hp : L.place p q)
    (e : ScopeRef) :
    Lockstep L c n (Value.Alike L) (Evaluation.evalObject name params parent body p e)
      (Evaluation.evalObject name params parent body' q e) := by
  cases parent with
  | none =>
    exact (newClass name params (.script hbody) .none).bind fun _ _ _ _ hv => store e name hv
  | some above =>
    exact (lookupClass above hp e).bind fun _ _ _ _ hk =>
      (newClass name params (.script hbody) (.some hk)).bind fun _ _ _ _ hv => store e name hv

/-! ### Invocations -/

theorem evalCall (hm : m.Lockstep L c m')
    (hinside : ∀ entry, m.LockstepInside L (c.invoke entry) m') {callee callee' : Node}
    {args args' : List Node} (hcallee : L.node callee callee')
    (hargs : List.Forall₂ L.node args args') {p q : Position} (hp : L.place p q) (e : ScopeRef) :
    Lockstep L c n (Value.Alike L) (Evaluation.evalCall m callee args p e)
      (Evaluation.evalCall m' callee' args' q e) := by
  refine (hm.evaluate n e hcallee).bind fun k _ f f' hf => ?_
  rw [hf.isCallable, L.node_label hcallee]
  split
  · exact (evalAll hm hargs e).bind fun _ hk values values' hvalues =>
      during (.mk _ (.some hp)) (locatedAt hp (callValue (hinside _) (hf.mono hk) hvalues e))
  · exact value hf

theorem evalCreate (hm : m.Lockstep L c m')
    (hinside : ∀ entry, m.LockstepInside L (c.invoke entry) m') (name : String)
    {args args' : List Node} (hargs : List.Forall₂ L.node args args') {p q : Position}
    (hp : L.place p q) (e : ScopeRef) :
    Lockstep L c n (Value.Alike L) (Evaluation.evalCreate m name args p e)
      (Evaluation.evalCreate m' name args' q e) := by
  refine (lookupClass name hp e).bind fun k _ cls cls' hk => (evalAll hm hargs e).bind
    fun _ hl values values' hvalues => during (.mk _ (.some hp)) (locatedAt hp ?_)
  exact (instantiate (hinside _) (hk.mono hl) hvalues e).andThen fun _ _ scope =>
    value (.instance_ scope)

theorem evalInclude (hm : m.Lockstep L c m') (hinvoked : ∀ entry, m.Lockstep L (c.invoke entry) m')
    {p q : Position} (hp : L.place p q) (e : ScopeRef) {paths paths' : List Node}
    (hpaths : List.Forall₂ L.node paths paths') {last last' : Value}
    (hlast : last.Alike L n last') :
    Lockstep L c n (Value.Alike L) (Evaluation.evalInclude m p e paths last)
      (Evaluation.evalInclude m' q e paths' last') := by
  induction hpaths generalizing n last last' with
  | nil => exact value hlast
  | cons hpath _ ih =>
    exact (hm.evaluate n e hpath).bind fun _ _ _ _ hv => display hv fun path =>
      (includePath hp path (hinvoked _) e).bind fun _ _ _ _ hnext => ih hnext

/-! ### Nodes -/

theorem evalSegments (hm : m.Lockstep L c m') {segments segments' : List Node}
    (hsegments : List.Forall₂ L.node segments segments') {v v' : Value} (hv : v.Alike L n v')
    (e : ScopeRef) :
    Lockstep L c n (Value.Alike L) (Evaluation.evalSegments m segments v e)
      (Evaluation.evalSegments m' segments' v' e) := by
  induction hsegments generalizing n v v' e with
  | nil => exact value hv
  | cons hsegment _ ih =>
    exact (memberScope hv).andThen fun _ _ members => (memberView members e).andThen
      fun k _ view => (hm.evaluate k view hsegment).bind fun _ _ _ _ hnext => ih hnext view

theorem evalSequence (hm : m.Lockstep L c m') (e : ScopeRef) {statements statements' : List Node}
    (hs : List.Forall₂ L.node statements statements') :
    Lockstep L c n Identical (Evaluation.evalSequence m e statements)
      (Evaluation.evalSequence m' e statements') := by
  induction hs generalizing n with
  | nil => exact same ()
  | cons hstatement _ ih =>
    exact (hm.evaluate n e hstatement).discard.andThen fun _ _ _ => ih

/-- Only an invocation refers to the machines in another frame. -/
theorem evalNode (hm : m.Lockstep L c m') {a b : Node} (hab : L.node a b)
    (hinvokes : a.isInvocation = true → ∀ k, m.Lockstep L k m') (e : ScopeRef) :
    Lockstep L c n (Value.Alike L) (Evaluation.evalNode m a e) (Evaluation.evalNode m' b e) := by
  cases L.node_resembles hab with
  | number hp x => exact newNumber x
  | text hp s => exact newText s
  | list hp hitems => exact (evalAll hm hitems e).bind fun _ _ _ _ hvs => newList hvs
  | binary hp op hleft hright =>
    exact (hm.evaluate n e hleft).bind fun k _ _ _ ha => (hm.evaluate k e hright).bind
      fun _ hk _ _ hb => locatedAt hp (binary hm op (ha.mono hk) hb)
  | unary hp op hoperand =>
    exact (hm.evaluate n e hoperand).bind fun _ _ _ _ ha => locatedAt hp (unary hm op ha)
  | read hp name => exact evalRead name hp e
  | this hp => exact storage e fun target => value (.instance_ target)
  | declare hp name hnode =>
    exact (hm.evaluate n e hnode).bind fun _ _ _ _ hv => store e name hv
  | assign hp name hnode =>
    exact (hm.evaluate n e hnode).bind fun _ _ _ _ hv => owner e name fun target =>
      (set target name hv).andThen fun _ hk _ => value (hv.mono hk)
  | update hp name op hnode => exact evalUpdate hm name op hnode hp e
  | choose hp harms => exact evalArms hm harms e
  | count hp name hstart hstop hstep braced hbody =>
    exact evalCount hm name hstart hstop hstep braced hbody e
  | each hp name hitems braced hbody => exact evalEach hm name hitems braced hbody e
  | loop hp hcondition braced hbody => exact evalWhile hm hcondition braced hbody e
  | function hp name params braced hbody => exact evalFunction name params braced hbody e
  | call hp hcallee hargs =>
    exact evalCall hm (fun _ _ _ _ => hinvokes rfl _) hcallee hargs hp e
  | sequence hp hstatements =>
    exact (evalSequence hm e hstatements).andThen fun _ _ _ => storage e fun target =>
      value (.instance_ target)
  | members hp hsegments =>
    cases hsegments with
    | nil => exact value .null
    | cons hfirst hmore =>
      exact (hm.evaluate n e hfirst).bind fun _ _ _ _ hv => evalSegments hm hmore hv e
  | object hp name params parent hbody => exact evalObject name params parent hbody hp e
  | create hp name hargs => exact evalCreate hm (fun _ _ _ _ => hinvokes rfl _) name hargs hp e
  | return_ hp hnode =>
    cases hnode with
    | none => exact jump (.return_ .null)
    | some hnode => exact (hm.evaluate n e hnode).bind fun _ _ _ _ hv => jump (.return_ hv)
  | continue_ hp => exact jump .continue_
  | break_ hp => exact jump .break_
  | include_ hp hpaths => exact evalInclude hm (fun _ => hinvokes rfl _) hp e hpaths .null

end Run.Lockstep

/-! ### Machines -/

/-- The callbacks of the host go in lockstep if the machines do that they evaluate and call with. -/
def Callbacks.Lockstep (L : Likeness) (callbacks : Callbacks) : Prop :=
  ∀ m m' : Machine, (∀ c, m.Lockstep L c m') → ∀ (c : Frame) (n : Extent) (key : String)
    {args args' : List Value} (e : ScopeRef), Values.Alike L n args args' →
      Run.Lockstep L c n (Value.Alike L) (callbacks key m args e) (callbacks key m' args' e)

theorem Callbacks.lockstep_none (L : Likeness) : Callbacks.none.Lockstep L :=
  fun _ _ _ _ _ _ _ _ _ _ => .raise _

/-- A host whose callbacks call their first argument, and that once more. -/
def Callbacks.twice : Callbacks :=
  fun _ self args e => do
    discard (self.call (args.headD .null) [] e)
    self.call (args.headD .null) [] e

theorem Callbacks.lockstep_twice (L : Likeness) : Callbacks.twice.Lockstep L :=
  fun _ _ hm c _ _ _ _ e hargs => ((hm c).call _ e (Values.Alike.headD hargs) .nil).discard.andThen
    fun k hk _ => (hm c).call k e ((Values.Alike.headD hargs).mono hk) .nil

namespace Run.Lockstep

/-- Every machine is in lockstep with itself, in every frame. -/
theorem machineWith {callbacks : Callbacks} (hcallbacks : callbacks.Lockstep L) (fuel : Nat)
    (c : Frame) :
    (Evaluation.machineWith callbacks fuel).Lockstep L c
      (Evaluation.machineWith callbacks fuel) := by
  induction fuel generalizing c with
  | zero =>
    exact ⟨rfl, fun _ _ _ _ _ => exhausted, fun _ _ _ _ _ _ _ _ => exhausted,
      fun _ _ _ _ _ _ => exhausted⟩
  | succ fuel ih =>
    refine ⟨rfl, fun n a b e hab => ⟨fun {w w'} hw hc hn => ?_⟩,
      fun n _ _ _ _ e hf hargs => callValue (fun _ _ _ => ih _) hf hargs e,
      fun n key _ _ e hargs => hcallbacks _ _ ih c n key e hargs⟩
    simp only [Evaluation.machineWith, Evaluation.evalUnlessStopped, hw.stopped]
    split
    · exact (raise .stopped).run hw hc le_rfl
    · exact (evalNode (ih c) hab (fun _ => ih) e).run hw hc le_rfl

theorem machine (L : Likeness) (fuel : Nat) (c : Frame) :
    (Evaluation.machine fuel).Lockstep L c (Evaluation.machine fuel) :=
  machineWith (Callbacks.lockstep_none L) fuel c

end Run.Lockstep

end ScriptEngine
