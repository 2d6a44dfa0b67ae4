import ScriptEngine.Proofs.LikeHeaps

/-! # Computations in lockstep

Two computations are in lockstep if from alike worlds they come to alike ends. Each of them has
restored the calls under way unless it failed or was cut off, and what a failure says is judged by
the calls before it and by those under way where it arose. What is known of values is known as of
what was made so far; that only grows, so it stays known whatever is made later. -/

namespace ScriptEngine

/-! ### Frames -/

/-- Where in a program a computation runs: the invocations under way, the calls that are active and
how many may be. -/
structure Frame where
  calls : List TraceEntry
  depth : Nat
  limit : Nat

def World.frame (w : World) : Frame :=
  ⟨w.calls, w.depth, w.maxDepth⟩

/-- One call deeper. -/
def Frame.enter (c : Frame) : Frame :=
  { c with depth := c.depth + 1 }

/-- Inside an invocation. -/
def Frame.invoke (c : Frame) (entry : TraceEntry) : Frame :=
  { c with calls := entry :: c.calls }

/-! ### Ends of two runs -/

/-- Outcomes of two runs that started in the frame `c`, where at least `n` was made before. -/
inductive Outcome.Alike (L : Likeness) (c : Frame) (n : Extent) {α : Type}
    (R : Extent → α → α → Prop) : Outcome α → Outcome α → Prop
  | done {a a' w w'} (ha : R w.heap.extent a a') (hw : w.Alike L w') (hc : w.frame = c)
    (hn : n ≤ w.heap.extent) : Alike L c n R (.done a w) (.done a' w')
  | jumped {j j' w w'} (hj : j.Alike L w.heap.extent j') (hw : w.Alike L w') (hc : w.frame = c)
    (hn : n ≤ w.heap.extent) : Alike L c n R (.jumped j w) (.jumped j' w')
  | failed {d d' w w'} (hd : d.Alike L d') (hw : w.Alike L w')
    (hf : L.failure c.calls d w.calls) (hn : n ≤ w.heap.extent) :
    Alike L c n R (.failed d w) (.failed d' w')
  | exhausted {w w'} (hw : w.Alike L w') (hn : n ≤ w.heap.extent) :
    Alike L c n R (.exhausted w) (.exhausted w')

structure Run.Lockstep (L : Likeness) (c : Frame) (n : Extent) {α : Type}
    (R : Extent → α → α → Prop) (x x' : Run α) : Prop where
  run : ∀ {w w' : World}, w.Alike L w' → w.frame = c → n ≤ w.heap.extent →
    (x w).Alike L c w.heap.extent R (x' w')

/-- Results that no likeness concerns. -/
abbrev Identical {α : Type} (_ : Extent) (a a' : α) : Prop :=
  a = a'

/-- Alike values, or no value. -/
abbrev Found (L : Likeness) (n : Extent) : Option Value → Option Value → Prop :=
  Option.Rel (Value.Alike L n)

/-- Results or the jumps that were caught instead. -/
inductive Caught.Alike (L : Likeness) {α : Type} (R : Extent → α → α → Prop) (n : Extent) :
    Except Jump α → Except Jump α → Prop
  | ok {a a'} (ha : R n a a') : Alike L R n (.ok a) (.ok a')
  | error {j j'} (hj : j.Alike L n j') : Alike L R n (.error j) (.error j')

theorem Outcome.Alike.weaken {L : Likeness} {c : Frame} {n k : Extent} {α : Type}
    {R : Extent → α → α → Prop} {o o' : Outcome α} (ho : o.Alike L c k R o') (hn : n ≤ k) :
    o.Alike L c n R o' := by
  cases ho with
  | done ha hw hc hk => exact .done ha hw hc (hn.trans hk)
  | jumped hj hw hc hk => exact .jumped hj hw hc (hn.trans hk)
  | failed hd hw hf hk => exact .failed hd hw hf (hn.trans hk)
  | exhausted hw hk => exact .exhausted hw (hn.trans hk)

namespace Run.Lockstep

variable {L : Likeness} {c : Frame} {n k : Extent} {α β : Type} {R : Extent → α → α → Prop}
  {S : Extent → β → β → Prop}

theorem mono {x x' : Run α} (hx : Lockstep L c n R x x') (hk : n ≤ k) : Lockstep L c k R x x' :=
  ⟨fun hw hc hn => hx.run hw hc (hk.trans hn)⟩

/-! ### Primitive computations -/

theorem done {a a' : α} (ha : ∀ k, n ≤ k → R k a a') :
    Lockstep L c n R (Run.done a) (Run.done a') :=
  ⟨fun hw hc hn => .done (ha _ hn) hw hc le_rfl⟩

theorem value {v v' : Value} (hv : v.Alike L n v') :
    Lockstep L c n (Value.Alike L) (Run.done v) (Run.done v') :=
  done fun _ hk => hv.mono hk

theorem same (a : α) : Lockstep L c n Identical (Run.done a) (Run.done a) :=
  done fun _ _ => rfl

theorem make {f f' : Heap → α × Heap} (hf : ∀ h h' : Heap, h.Alike L h' → n ≤ h.extent →
    R (f h).2.extent (f h).1 (f' h').1 ∧ (f h).2.Alike L (f' h').2 ∧
      h.extent ≤ (f h).2.extent) :
    Lockstep L c n R (Run.make f) (Run.make f') := by
  refine ⟨fun hw hc hn => ?_⟩
  obtain ⟨hresult, hheap, hx⟩ := hf _ _ hw.heap hn
  exact .done hresult (hw.withHeap hheap hx) hc hx

theorem modify {f f' : World → World}
    (hf : ∀ w w' : World, w.Alike L w' → n ≤ w.heap.extent → (f w).Alike L (f' w'))
    (hheap : ∀ w, (f w).heap = w.heap) (hframe : ∀ w, (f w).frame = w.frame) :
    Lockstep L c n Identical (Run.modify f) (Run.modify f') :=
  ⟨fun hw hc hn => .done rfl (hf _ _ hw hn) ((hframe _).trans hc) (by rw [hheap])⟩

theorem modifyHeap {f f' : Heap → Heap}
    (hf : ∀ h h' : Heap, h.Alike L h' → n ≤ h.extent → (f h).Alike L (f' h'))
    (hx : ∀ h, h.extent ≤ (f h).extent) :
    Lockstep L c n Identical (Run.modifyHeap f) (Run.modifyHeap f') :=
  ⟨fun hw hc hn => .done rfl (hw.withHeap (hf _ _ hw.heap hn) (hx _)) hc (hx _)⟩

theorem aside {f : World → World} (hf : ∀ w v, f (w.over v) = (f w).over v)
    (hframe : ∀ w, (f w).frame = w.frame) :
    Lockstep L c n Identical (Run.modify f) (Run.modify f) := by
  refine modify (fun _ _ hw _ => hw.aside hf) (fun w => ?_) hframe
  have hkeeps : f w = (f w).over w := hf w w
  rw [hkeeps]
  rfl

theorem jump {j j' : Jump} (hj : j.Alike L n j') :
    Lockstep L c n R (Run.jump j) (Run.jump j') :=
  ⟨fun hw hc hn => .jumped (hj.mono hn) hw hc le_rfl⟩

theorem fail {d d' : Diagnostic} (hd : d.Alike L d') (hf : L.failure c.calls d c.calls) :
    Lockstep L c n R (Run.fail d) (Run.fail d') := by
  refine ⟨fun {w w'} hw hc _ => .failed hd hw ?_ le_rfl⟩
  have hcalls : w.calls = c.calls := congrArg Frame.calls hc
  rwa [hcalls]

theorem raise (fault : Fault) : Lockstep L c n R (Run.raise fault) (Run.raise fault) :=
  fail (.refl _) (L.failure_raised _ _ rfl)

theorem failAt (fault : Fault) {p q : Position} (hp : L.place p q) :
    Lockstep L c n R (Run.fail (.located fault p)) (Run.fail (.located fault q)) :=
  fail (.located fault hp) (L.failure_raised _ _ rfl)

theorem exhausted : Lockstep L c n R Run.exhausted Run.exhausted :=
  ⟨fun hw _ _ => .exhausted hw le_rfl⟩

/-- Both runs take the same from outside, and what is an error there has no trace yet. -/
theorem ofExcept {result : Except Diagnostic α}
    (htrace : ∀ d, result = .error d → d.trace = []) :
    Lockstep L c n Identical (Run.ofExcept result) (Run.ofExcept result) := by
  cases result with
  | ok a => exact same a
  | error d => exact fail (.refl d) (L.failure_raised _ d (htrace d rfl))

/-! ### Composition -/

theorem bind {x x' : Run α} {f f' : α → Run β} (hx : Lockstep L c n R x x')
    (hf : ∀ k, n ≤ k → ∀ a a', R k a a' → Lockstep L c k S (f a) (f' a')) :
    Lockstep L c n S (x >>= f) (x' >>= f') := by
  refine ⟨fun {w w'} hw hc hn => ?_⟩
  have hfirst := hx.run hw hc hn
  show (andThen x f w).Alike L c w.heap.extent S (andThen x' f' w')
  simp only [andThen]
  generalize x w = o, x' w' = o' at hfirst
  cases hfirst with
  | done ha hv hc hk => exact ((hf _ (hn.trans hk) _ _ ha).run hv hc le_rfl).weaken hk
  | jumped hj hv hc hk => exact .jumped hj hv hc hk
  | failed hd hv hf hk => exact .failed hd hv hf hk
  | exhausted hv hk => exact .exhausted hv hk

theorem andThen {x x' : Run α} {f f' : α → Run β} (hx : Lockstep L c n Identical x x')
    (hf : ∀ k, n ≤ k → ∀ a, Lockstep L c k S (f a) (f' a)) :
    Lockstep L c n S (x >>= f) (x' >>= f') := by
  refine hx.bind fun k hk a a' ha => ?_
  rw [← ha]
  exact hf k hk a

theorem look {g g' : World → α}
    (hg : ∀ w w' : World, w.Alike L w' → n ≤ w.heap.extent → g' w' = g w)
    {f f' : α → Run β} (hf : ∀ a, Lockstep L c n S (f a) (f' a)) :
    Lockstep L c n S ((fun w => .done (g w) w) >>= f) ((fun w => .done (g' w) w) >>= f') := by
  refine ⟨fun {w w'} hw hc hn => ?_⟩
  show (f (g w) w).Alike L c w.heap.extent S (f' (g' w') w')
  rw [hg w w' hw hn]
  exact (hf _).run hw hc hn

theorem heap {f f' : Heap → Run β} (hf : ∀ h h' : Heap, h.Alike L h' → n ≤ h.extent →
    Lockstep L c h.extent S (f h) (f' h')) :
    Lockstep L c n S (Run.heap >>= f) (Run.heap >>= f') :=
  ⟨fun {w w'} hw hc hn => (hf w.heap w'.heap hw.heap hn).run hw hc le_rfl⟩

theorem world {f f' : World → Run β} (hf : ∀ w w' : World, w.Alike L w' →
    n ≤ w.heap.extent → Lockstep L c w.heap.extent S (f w) (f' w')) :
    Lockstep L c n S (Run.world >>= f) (Run.world >>= f') :=
  ⟨fun {w w'} hw hc hn => (hf w w' hw hn).run hw hc le_rfl⟩

theorem display {v v' : Value} (hv : v.Alike L n v') {f f' : String → Run β}
    (hf : ∀ s, Lockstep L c n S (f s) (f' s)) :
    Lockstep L c n S (Run.display v >>= f) (Run.display v' >>= f') :=
  look (fun _ _ hw hn => hw.heap.display (hv.mono hn)) hf

theorem isTruthy {v v' : Value} (hv : v.Alike L n v') {f f' : Bool → Run β}
    (hf : ∀ b, Lockstep L c n S (f b) (f' b)) :
    Lockstep L c n S (Run.isTruthy v >>= f) (Run.isTruthy v' >>= f') :=
  look (fun _ _ hw hn => hw.heap.isTruthy (hv.mono hn)) hf

theorem storage (e : ScopeRef) {f f' : ScopeRef → Run β}
    (hf : ∀ target, Lockstep L c n S (f target) (f' target)) :
    Lockstep L c n S (Run.storage e >>= f) (Run.storage e >>= f') :=
  look (fun _ _ hw _ => hw.heap.storage e) hf

theorem owner (e : ScopeRef) (name : String) {f f' : ScopeRef → Run β}
    (hf : ∀ target, Lockstep L c n S (f target) (f' target)) :
    Lockstep L c n S (Run.owner e name >>= f) (Run.owner e name >>= f') :=
  look (fun _ _ hw _ => hw.heap.owner e name) hf

theorem discard {x x' : Run α} (hx : Lockstep L c n R x x') :
    Lockstep L c n Identical (discard x) (discard x') :=
  hx.bind fun _ _ _ _ _ => same _

theorem mapAll {γ : Type} {Q : γ → γ → Prop} (hS : ∀ k m b b', k ≤ m → S k b b' → S m b b')
    {f f' : γ → Run β} (hf : ∀ k a a', n ≤ k → Q a a' → Lockstep L c k S (f a) (f' a'))
    {as as' : List γ} (has : List.Forall₂ Q as as') :
    Lockstep L c n (fun m => List.Forall₂ (S m)) (Run.mapAll f as) (Run.mapAll f' as') := by
  have hall : ∀ k, n ≤ k →
      Lockstep L c k (fun m => List.Forall₂ (S m)) (Run.mapAll f as) (Run.mapAll f' as') := by
    induction has with
    | nil => exact fun _ _ => done fun _ _ => .nil
    | cons ha _ ih =>
      intro k hk
      refine (hf k _ _ hk ha).bind fun l hl b b' hb => ?_
      refine (ih l (hk.trans hl)).bind fun m hm bs bs' hbs => done fun r hr => ?_
      exact .cons (hS _ _ _ _ (hm.trans hr) hb) (hbs.imp fun _ _ => hS _ _ _ _ hr)
  exact hall n le_rfl

theorem mapValues {γ : Type} {Q : γ → γ → Prop} {f f' : γ → Run Value}
    (hf : ∀ k a a', n ≤ k → Q a a' → Lockstep L c k (Value.Alike L) (f a) (f' a'))
    {as as' : List γ} (has : List.Forall₂ Q as as') :
    Lockstep L c n (Values.Alike L) (Run.mapAll f as) (Run.mapAll f' as') :=
  mapAll (fun _ _ _ _ hk hv => hv.mono hk) hf has

theorem catchJump {x x' : Run α} (hx : Lockstep L c n R x x') :
    Lockstep L c n (Caught.Alike L R) (Run.catchJump x) (Run.catchJump x') := by
  refine ⟨fun {w w'} hw hc hn => ?_⟩
  have hrun := hx.run hw hc hn
  simp only [Run.catchJump]
  generalize x w = o, x' w' = o' at hrun
  cases hrun with
  | done ha hv hc hk => exact .done (.ok ha) hv hc hk
  | jumped hj hv hc hk => exact .done (.error hj) hv hc hk
  | failed hd hv hf hk => exact .failed hd hv hf hk
  | exhausted hv hk => exact .exhausted hv hk

theorem locatedAt {p q : Position} (hp : L.place p q) {x x' : Run α}
    (hx : Lockstep L c n R x x') :
    Lockstep L c n R (Run.locatedAt p x) (Run.locatedAt q x') := by
  refine ⟨fun {w w'} hw hc hn => ?_⟩
  have hrun := hx.run hw hc hn
  simp only [Run.locatedAt, Run.onFailure]
  generalize x w = o, x' w' = o' at hrun
  cases hrun with
  | done ha hv hc hk => exact .done ha hv hc hk
  | jumped hj hv hc hk => exact .jumped hj hv hc hk
  | failed hd hv hf hk => exact .failed (hd.orPosition hp) hv (L.failure_orPosition p hf) hk
  | exhausted hv hk => exact .exhausted hv hk

/-- The body of a call runs one call deeper, if there is room for that. -/
theorem withFrame {x x' : Run α} (hx : c.depth < c.limit → Lockstep L c.enter n R x x') :
    Lockstep L c n R (Run.withFrame x) (Run.withFrame x') := by
  refine ⟨fun {w w'} hw hc hn => ?_⟩
  subst hc
  have hleave : ∀ {v v' : World}, v.Alike L v' → v.leave.Alike L v'.leave :=
    fun hv => hv.aside (f := World.leave) fun _ _ => rfl
  have hback : ∀ {v : World}, v.frame = w.frame.enter → v.leave.frame = w.frame := by
    intro v hv
    simp only [World.frame, Frame.enter, Frame.mk.injEq] at hv
    obtain ⟨hcalls, hdepth, hlimit⟩ := hv
    simp only [World.frame, World.leave, hcalls, hdepth, hlimit, Nat.add_sub_cancel]
  simp only [Run.withFrame, hw.maxDepth, hw.depth]
  split
  · exact .failed (.refl _) hw (L.failure_raised _ _ rfl) le_rfl
  · rename_i hroom
    have hrun := (hx (Nat.lt_of_not_le hroom)).run
      (hw.aside (f := World.enter) fun _ _ => rfl) rfl hn
    generalize x w.enter = o, x' w'.enter = o' at hrun
    cases hrun with
    | done ha hv hc hk => exact .done ha (hleave hv) (hback hc) hk
    | jumped hj hv hc hk => exact .jumped hj (hleave hv) (hback hc) hk
    | failed hd hv hf hk => exact .failed hd (hleave hv) hf hk
    | exhausted hv hk => exact .exhausted hv hk

/-- The body of an invocation runs with one more invocation under way. -/
theorem during {entry entry' : TraceEntry} (he : entry.Alike L entry') {x x' : Run α}
    (hx : Lockstep L (c.invoke entry) n R x x') :
    Lockstep L c n R (Run.during entry x) (Run.during entry' x') := by
  refine ⟨fun {w w'} hw hc hn => ?_⟩
  subst hc
  have hback : ∀ {v : World}, v.frame = w.frame.invoke entry →
      World.frame { v with calls := w.calls } = w.frame := by
    intro v hv
    simp only [World.frame, Frame.invoke, Frame.mk.injEq] at hv
    obtain ⟨-, hdepth, hlimit⟩ := hv
    simp only [World.frame, hdepth, hlimit]
  have hrun := hx.run (hw.withCalls (.cons he hw.calls)) rfl hn
  simp only [Run.during]
  generalize x { w with calls := entry :: w.calls } = o,
    x' { w' with calls := entry' :: w'.calls } = o' at hrun
  cases hrun with
  | done ha hv hc hk => exact .done ha (hv.withCalls hw.calls) (hback hc) hk
  | jumped hj hv hc hk => exact .jumped hj (hv.withCalls hw.calls) (hback hc) hk
  | failed hd hv hf hk => exact .failed (hd.withTrace he) hv (L.failure_withTrace entry hf) hk
  | exhausted hv hk => exact .exhausted hv hk

/-! ### Making values -/

theorem stamped (f f' : Nat → Value)
    (hf : ∀ (k : Extent) (s : Nat), n ≤ k → L.Stamped k s → (f s).Alike L k (f' (L.stamp s))) :
    Lockstep L c n (Value.Alike L) (Run.make fun h => (f h.stamps, h.newStamp.2))
      (Run.make fun h => (f' h.stamps, h.newStamp.2)) := by
  refine make fun h h' hh hn => ⟨?_, hh.newStamp, Heap.Alike.extent_newStamp h⟩
  rw [hh.stamp_next]
  exact hf _ _ (hn.trans (Heap.Alike.extent_newStamp h)) fun _ => Nat.lt_succ_self _

theorem newNumber (x : Single) :
    Lockstep L c n (Value.Alike L) (Run.newNumber x) (Run.newNumber x) :=
  stamped (.number · x) (.number · x) fun _ _ _ hs => .number hs x

theorem newBool (b : Bool) :
    Lockstep L c n (Value.Alike L) (Run.newBool b) (Run.newBool b) :=
  newNumber _

theorem newText (s : String) :
    Lockstep L c n (Value.Alike L) (Run.newText s) (Run.newText s) :=
  stamped (.text · s) (.text · s) fun _ _ _ hs => .text hs s

theorem newFunction (name : Option String) (params : List String) (braced : Bool)
    {body body' : Node} (hbody : L.node body body') (e : ScopeRef) :
    Lockstep L c n (Value.Alike L) (Run.newFunction ⟨name, params, braced, body⟩ e)
      (Run.newFunction ⟨name, params, braced, body'⟩ e) :=
  stamped (.function · ⟨name, params, braced, body⟩ e) (.function · ⟨name, params, braced, body'⟩ e)
    fun _ _ _ hs => .function hs hbody e

theorem newNative {m m' : Native} (hm : m.Alike L n m') :
    Lockstep L c n (Value.Alike L) (Run.newNative m) (Run.newNative m') :=
  stamped (.native · m) (.native · m') fun _ _ hk hs => .native hs (hm.mono hk)

theorem newClass (name : String) (params : List String) {body body' : ClassBody}
    (hbody : body.Alike L body') {parent parent' : Option Class}
    (hparent : Option.Rel (Class.Alike L n) parent parent') :
    Lockstep L c n (Value.Alike L) (Run.newClass name params body parent)
      (Run.newClass name params body' parent') := by
  refine stamped (fun stamp => .cls ⟨stamp, name, params, body, parent⟩)
    (fun stamp => .cls ⟨stamp, name, params, body', parent'⟩) fun k s hk hs => ?_
  cases hparent with
  | none => exact .cls (.base hs hbody)
  | some hparent => exact .cls (.derived hs hbody (hparent.mono hk))

theorem newList {items items' : Array Value} (hitems : Items.Alike L n items items') :
    Lockstep L c n (Value.Alike L) (Run.newList items) (Run.newList items') := by
  refine make fun h h' hh hn =>
    ⟨?_, hh.newList (Items.Alike.mono hitems hn), Heap.Alike.extent_newList h items⟩
  show Value.Alike L _ (.list (h.newList items).1) (.list (h'.newList items').1)
  have hnext : (h'.newList items').1 = L.ref (h.newList items).1 :=
    congrArg ListRef.mk hh.list_next
  rw [hnext]
  refine .list fun _ => ?_
  simp only [Heap.newList, Heap.extent, Array.size_push]
  exact Nat.lt_succ_self _

theorem newScope {s s' : Scope} (hs : s.Alike L n s') :
    Lockstep L c n Identical (Run.newScope s) (Run.newScope s') := by
  refine make fun h h' hh hn => ⟨?_, hh.newScope (hs.mono hn), le_refl h.extent⟩
  simp only [Heap.newScope, Identical, hh.scopes]

theorem newFrame (name : String) (parent : ScopeRef) (params : List String)
    {args args' : List Value} (hargs : Values.Alike L n args args') :
    Lockstep L c n Identical
      (Run.newScope ((Scope.fresh name (some parent) none).defineAll (params.zip args)))
      (Run.newScope ((Scope.fresh name (some parent) none).defineAll (params.zip args'))) :=
  newScope ((Scope.Alike.fresh name _ none).defineAll (Table.Related.zip params hargs))

theorem newTexts (texts : List String) :
    Lockstep L c n (Value.Alike L) (Run.newTexts texts) (Run.newTexts texts) :=
  (mapValues (Q := Eq) (fun _ s _ _ hs => hs ▸ newText s) (forall₂_of_refl (fun _ => rfl) texts)).bind
    fun _ _ _ _ hvs => newList hvs

mutual

theorem fromHost (n : Extent) : ∀ v : HostValue,
    Lockstep L c n (Value.Alike L) (Run.fromHost v) (Run.fromHost v)
  | .null => value .null
  | .bool b => newBool b
  | .number _ => newNumber _
  | .text s => newText s
  | .list items => (fromHosts n items).bind fun _ _ _ _ hvs => newList hvs

theorem fromHosts (n : Extent) : ∀ vs : List HostValue,
    Lockstep L c n (Values.Alike L) (Run.fromHosts vs) (Run.fromHosts vs)
  | [] => done fun _ _ => .nil
  | v :: vs => (fromHost n v).bind fun k _ _ _ hv => (fromHosts k vs).bind fun _ hm _ _ hvs =>
    done fun _ hl => .cons (hv.mono (hm.trans hl)) (hvs.mono hl)

end

/-! ### Scopes -/

theorem note {event event' : Event} (he : event.Alike L n event') :
    Lockstep L c n Identical (Run.note event) (Run.note event') :=
  modify (fun _ _ hw hn => hw.withEvent (he.mono hn)) (fun _ => rfl) fun _ => rfl

theorem modifyScope (e : ScopeRef) {f f' : Scope → Scope}
    (hf : ∀ k s s', n ≤ k → Scope.Alike L k s s' → (f s).Alike L k (f' s')) :
    Lockstep L c n Identical (Run.modifyHeap (·.modifyScope e f))
      (Run.modifyHeap (·.modifyScope e f')) :=
  modifyHeap (fun _ _ hh hn => hh.modifyScope e fun s s' hs => hf _ s s' hn hs)
    fun h => le_refl h.extent

theorem define (e : ScopeRef) (name : String) {v v' : Value} (hv : v.Alike L n v') :
    Lockstep L c n Identical (Run.define e name v) (Run.define e name v') :=
  modifyScope e fun _ _ _ hk hs => hs.define name (hv.mono hk)

theorem defineAll (e : ScopeRef) {t t' : Table Value} (ht : Entries.Alike L n t t') :
    Lockstep L c n Identical (Run.modifyHeap (·.modifyScope e (·.defineAll t)))
      (Run.modifyHeap (·.modifyScope e (·.defineAll t'))) :=
  modifyScope e fun _ _ _ hk hs => hs.defineAll (Entries.Alike.mono ht hk)

theorem remove (e : ScopeRef) (name : String) :
    Lockstep L c n Identical (Run.remove e name) (Run.remove e name) :=
  modifyScope e fun _ _ _ _ hs => hs.remove name

theorem merge {f : Heap → Heap} (hf : ∀ h h' : Heap, h.Alike L h' → (f h).Alike L (f h'))
    (hx : ∀ h, h.extent ≤ (f h).extent) :
    Lockstep L c n Identical (Run.modifyHeap f) (Run.modifyHeap f) :=
  modifyHeap (fun _ _ hh _ => hf _ _ hh) hx

theorem set (e : ScopeRef) (name : String) {v v' : Value} (hv : v.Alike L n v') :
    Lockstep L c n Identical (Run.set e name v) (Run.set e name v') := by
  refine (define e name hv).andThen fun k hk _ => heap fun h h' hh hn => ?_
  have hvalue := hv.mono (hk.trans hn)
  rw [(hh.scope e).watched]
  split
  · rw [hh.display hvalue]
    exact note (.wrote e name hvalue _)
  · exact same _

theorem readCell (name : String) :
    Lockstep L c n (Value.Alike L) (Run.readCell name) (Run.readCell name) := by
  refine (note (.read name)).andThen fun _ _ _ => world fun w w' hw _ => ?_
  rw [hw.cells]
  exact fromHost _ _

theorem getLocal (e : ScopeRef) (name : String) :
    Lockstep L c n (Found L) (Run.getLocal e name) (Run.getLocal e name) := by
  refine heap fun h h' hh _ => ?_
  dsimp only
  rw [(hh.scope e).tracked]
  split
  · exact (readCell name).bind fun _ _ _ _ hv => done fun _ hk => .some (hv.mono hk)
  · have hfound := Table.Related.get? (hh.scope e).bindings name
    generalize (h.scope e).bindings.get? name = o, (h'.scope e).bindings.get? name = o' at hfound
    cases hfound with
    | none => exact done fun _ _ => .none
    | some hv => exact done fun _ hk => .some (hv.mono hk)

theorem get (e : ScopeRef) (name : String) :
    Lockstep L c n (Found L) (Run.get e name) (Run.get e name) := by
  refine heap fun h h' hh _ => ?_
  rw [hh.locate e name]
  split
  · exact getLocal _ name
  · exact done fun _ _ => .none

theorem innerScope (e : ScopeRef) :
    Lockstep L c n Identical (Run.innerScope e) (Run.innerScope e) := by
  refine heap fun h h' hh _ => ?_
  rw [(hh.scope e).name]
  exact newScope (.fresh _ _ _)

theorem memberView (receiver outer : ScopeRef) :
    Lockstep L c n Identical (Run.memberView receiver outer) (Run.memberView receiver outer) := by
  refine heap fun h h' hh _ => ?_
  rw [(hh.scope receiver).name]
  exact newScope (.fresh _ _ _)

/-! ### Streams, random numbers and tasks -/

theorem print (s : String) : Lockstep L c n Identical (Run.print s) (Run.print s) :=
  aside (fun _ _ => rfl) fun _ => rfl

theorem draw (bound : Nat) : Lockstep L c n Identical (Run.draw bound) (Run.draw bound) := by
  refine ⟨fun {w w'} hw hc _ => ?_⟩
  -- The frame is compared before the state of the random numbers is known, which is a large term.
  have hframe : ∀ seed, World.frame { w with seed := seed } = c := fun _ => hc
  simp only [Run.draw, hw.seed]
  exact .done rfl (hw.aside (f := fun w => { w with seed := _ }) fun _ _ => rfl) (hframe _) le_rfl

theorem isFreed : Lockstep L c n Identical Run.isFreed Run.isFreed := by
  refine ⟨fun {w w'} hw hc _ => ?_⟩
  simp only [Run.isFreed, hw.freed]
  exact .done rfl (hw.aside (f := fun w => { w with freed := _ }) fun _ _ => rfl) hc le_rfl

theorem spawn {task task' : Value} (ht : task.Alike L n task') :
    Lockstep L c n Identical (Run.spawn task) (Run.spawn task') := by
  refine (note (.queued ht)).andThen fun _ hk _ => modify (fun _ _ hw hn => ?_)
    (fun _ => rfl) fun _ => rfl
  exact hw.withTasks (List.rel_append hw.tasks (.cons (ht.mono (hk.trans hn)) .nil))

theorem nextTask : Lockstep L c n (Found L) Run.nextTask Run.nextTask := by
  refine world fun w w' hw _ => ?_
  have htasks := hw.tasks
  generalize w.tasks = tasks, w'.tasks = tasks' at htasks
  cases htasks with
  | nil => exact done fun _ _ => .none
  | cons hv hrest =>
    refine (note (.started hv)).andThen fun k hk _ => Lockstep.andThen
      (modify (fun _ _ hw hn => hw.withTasks (Values.Alike.mono hrest (hk.trans hn)))
        (fun _ => rfl) fun _ => rfl) fun _ hl _ => done fun _ hm => ?_
    exact .some (hv.mono ((hk.trans hl).trans hm))

end Run.Lockstep

end ScriptEngine
