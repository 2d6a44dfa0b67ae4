import Mathlib
import ScriptEngine.Proofs.CompoundAssignment
import ScriptEngine.Proofs.RoundedSums
import ScriptEngine.Proofs.ShapeOfEvaluation

/-! # Counting loops

A counting loop goes through the numbers from its start that stand before its end, each the step
away from the one before it. Which numbers these are is settled by the bounds alone: the counter is
kept apart from the variable, which is bound anew for every round. Between integers that are held
exactly the numbers are an arithmetic progression. -/

namespace ScriptEngine

/-- The world in which a loop evaluates its body: the variable is bound to the number. -/
def World.counting (w : World) (scope : ScopeRef) (name : String) (i : Single) : World :=
  { w with
    heap := w.heap.newStamp.2.modifyScope scope (·.define name (.number w.heap.newStamp.1 i)) }

/-- The scope that `World.nested` makes. -/
def World.innermost (w : World) : ScopeRef :=
  ⟨w.heap.scopes.size⟩

/-- The world with a scope for a loop inside `e`. -/
def World.nested (w : World) (e : ScopeRef) : World :=
  { w with heap := (w.heap.newScope (.fresh (w.heap.scope e).name (some e) none)).2 }

/-- In a scope that exists the body finds the number under the name. -/
theorem World.bindings_counting {w : World} {scope : ScopeRef} (h : w.heap.Allocated scope)
    (name : String) (i : Single) :
    ((w.counting scope name i).heap.scope scope).bindings.get? name =
      some (.number w.heap.newStamp.1 i) := by
  have hstamp : w.heap.newStamp.2.Allocated scope := h
  simp [counting, Heap.scope_modifyScope_self _ _ _ hstamp, Scope.define, Table.get?_insert]

namespace Evaluation

open Run Number

/-! ### The numbers of a loop -/

/-- The numbers that the counter goes through from `i` on: each stands before the end, and the next
one is the step away. -/
inductive Range.Counters (r : Range) : Single → List Single → Prop
  | passed {i : Single} (h : r.admits i = false) : Counters r i []
  | next {i : Single} {more : List Single} (h : r.admits i = true)
    (hmore : Counters r (i.add r.step) more) : Counters r i (i :: more)

/-! ### The rounds of a loop -/

/-- How a loop is left. -/
inductive Ending where
  /-- No number is left, or the body broke the loop off. -/
  | finished
  | returned (value : Value)
  | failed (diagnostic : Diagnostic)
  /-- The body was cut off. -/
  | cut

/-- What a loop does that is left in this way and that otherwise finishes. -/
def Ending.leave {α : Type} (finish : Run α) : Ending → Run α
  | .finished => finish
  | .returned v => jump (.return_ v)
  | .failed d => fail d
  | .cut => exhausted

/-- Rounds for the numbers of a list, one after the other, up to the first that breaks, returns or
fails. The body is evaluated in the world that the round is entered with; the values are those of
the rounds that ended with one. -/
inductive Visits (body : Single → World → Outcome Value → Prop) (enter : World → Single → World) :
    List Single → World → List Value → Ending → World → Prop
  | none (w : World) : Visits body enter [] w [] .finished w
  | value {i : Single} {more : List Single} {w w₁ w' : World} {v : Value} {vs : List Value}
    {ending : Ending} (h : body i (enter w i) (.done v w₁))
    (hmore : Visits body enter more w₁ vs ending w') :
    Visits body enter (i :: more) w (v :: vs) ending w'
  | continued {i : Single} {more : List Single} {w w₁ w' : World} {vs : List Value}
    {ending : Ending} (h : body i (enter w i) (.jumped .continue_ w₁))
    (hmore : Visits body enter more w₁ vs ending w') :
    Visits body enter (i :: more) w vs ending w'
  | broken {i : Single} {more : List Single} {w w' : World}
    (h : body i (enter w i) (.jumped .break_ w')) :
    Visits body enter (i :: more) w [] .finished w'
  | returned {i : Single} {more : List Single} {w w' : World} {v : Value}
    (h : body i (enter w i) (.jumped (.return_ v) w')) :
    Visits body enter (i :: more) w [] (.returned v) w'
  | failed {i : Single} {more : List Single} {w w' : World} {d : Diagnostic}
    (h : body i (enter w i) (.failed d w')) :
    Visits body enter (i :: more) w [] (.failed d) w'
  | cut {i : Single} {more : List Single} {w w' : World}
    (h : body i (enter w i) (.exhausted w')) :
    Visits body enter (i :: more) w [] .cut w'

section Rounds

variable {body : Single → Run Value} {P Q : Single → World → Outcome Value → Prop}
  {enter : World → Single → World} {r : Range} {i : Single} {counters : List Single}
  {w w' : World} {values : List Value} {ending : Ending}

theorem countRounds_succ (h : r.admits i = true) (rounds : Nat) (results : Array Value) :
    countRounds body r (rounds + 1) i results w =
      match body i w with
      | .done v w₁ => countRounds body r rounds (i.add r.step) (results.push v) w₁
      | .jumped .continue_ w₁ => countRounds body r rounds (i.add r.step) results w₁
      | .jumped .break_ w₁ => .done results w₁
      | .jumped (.return_ v) w₁ => .jumped (.return_ v) w₁
      | .failed d w₁ => .failed d w₁
      | .exhausted w₁ => .exhausted w₁ := by
  simp only [countRounds, h, if_true, runRound, catchJump, Bind.bind, andThen]
  cases body i w with
  | jumped j w₁ => cases j <;> rfl
  | _ => rfl

theorem countRounds_passed (h : r.admits i = false) (rounds : Nat) (results : Array Value) :
    countRounds body r (rounds + 1) i results = Run.done results := by
  simp only [countRounds, h, Bool.false_eq_true, if_false]

/-- With a round for each number and one more the loop does what its rounds do. -/
theorem Visits.countRounds (hbody : ∀ i u o, P i (enter u i) o → body i u = o)
    (hv : Visits P enter counters w values ending w') (hc : r.Counters i counters) {rounds : Nat}
    (hr : counters.length < rounds) (results : Array Value) :
    Evaluation.countRounds body r rounds i results w =
      ending.leave (Run.done (results ++ values.toArray)) w' := by
  induction hv generalizing i rounds results with
  | none w =>
    obtain ⟨rounds, rfl⟩ := Nat.exists_eq_succ_of_ne_zero (Nat.ne_zero_of_lt hr)
    cases hc with
    | passed h =>
      rw [countRounds_passed h, Array.append_empty]
      rfl
  | @value i more w w₁ w' v vs ending h hmore ih =>
    obtain ⟨rounds, rfl⟩ := Nat.exists_eq_succ_of_ne_zero (Nat.ne_zero_of_lt hr)
    cases hc with
    | next hadmits hrest =>
      rw [countRounds_succ hadmits, hbody _ _ _ h]
      refine (ih hrest (Nat.lt_of_succ_lt_succ hr) (results.push v)).trans ?_
      simp
  | @continued i more w w₁ w' vs ending h hmore ih =>
    obtain ⟨rounds, rfl⟩ := Nat.exists_eq_succ_of_ne_zero (Nat.ne_zero_of_lt hr)
    cases hc with
    | next hadmits hrest =>
      rw [countRounds_succ hadmits, hbody _ _ _ h]
      exact ih hrest (Nat.lt_of_succ_lt_succ hr) results
  | broken h =>
    obtain ⟨rounds, rfl⟩ := Nat.exists_eq_succ_of_ne_zero (Nat.ne_zero_of_lt hr)
    cases hc with
    | next hadmits hrest =>
      rw [countRounds_succ hadmits, hbody _ _ _ h, Array.append_empty]
      rfl
  | returned h | failed h | cut h =>
    obtain ⟨rounds, rfl⟩ := Nat.exists_eq_succ_of_ne_zero (Nat.ne_zero_of_lt hr)
    cases hc with
    | next hadmits hrest =>
      rw [countRounds_succ hadmits, hbody _ _ _ h]
      rfl

/-- Where every evaluation of the body has an outcome, so do the rounds for any numbers. -/
theorem exists_visits (x : World → Outcome Value) (enter : World → Single → World)
    (counters : List Single) (w : World) : ∃ values ending w',
      Visits (fun _ u o => x u = o) enter counters w values ending w' := by
  induction counters generalizing w with
  | nil => exact ⟨_, _, _, .none w⟩
  | cons i more ih =>
    cases h : x (enter w i) with
    | done v w₁ =>
      obtain ⟨vs, ending, w', hmore⟩ := ih w₁
      exact ⟨_, _, _, .value h hmore⟩
    | jumped j w₁ =>
      cases j with
      | return_ v => exact ⟨_, _, _, .returned h⟩
      | break_ => exact ⟨_, _, _, .broken h⟩
      | continue_ =>
        obtain ⟨vs, ending, w', hmore⟩ := ih w₁
        exact ⟨_, _, _, .continued h hmore⟩
    | failed d w₁ => exact ⟨_, _, _, .failed h⟩
    | exhausted w₁ => exact ⟨_, _, _, .cut h⟩

theorem Visits.imp (hPQ : ∀ i u o, P i u o → Q i u o)
    (hv : Visits P enter counters w values ending w') :
    Visits Q enter counters w values ending w' := by
  induction hv with
  | none w => exact .none w
  | value h hmore ih => exact .value (hPQ _ _ _ h) ih
  | continued h hmore ih => exact .continued (hPQ _ _ _ h) ih
  | broken h => exact .broken (hPQ _ _ _ h)
  | returned h => exact .returned (hPQ _ _ _ h)
  | failed h => exact .failed (hPQ _ _ _ h)
  | cut h => exact .cut (hPQ _ _ _ h)

theorem Visits.uncut (hcut : ending ≠ .cut) (hv : Visits P enter counters w values ending w') :
    Visits (fun i u o => P i u o ∧ ∀ u', o ≠ .exhausted u') enter counters w values ending w' := by
  induction hv with
  | none w => exact .none w
  | value h hmore ih => exact .value ⟨h, nofun⟩ (ih hcut)
  | continued h hmore ih => exact .continued ⟨h, nofun⟩ (ih hcut)
  | broken h => exact .broken ⟨h, nofun⟩
  | returned h => exact .returned ⟨h, nofun⟩
  | failed h => exact .failed ⟨h, nofun⟩
  | cut h => exact absurd rfl hcut

end Rounds

/-! ### Bounds -/

/-- Evaluating the node gives the number. -/
def Gives (node : Node) (e : ScopeRef) (w : World) (x : Single) (w' : World) : Prop :=
  ∃ v, Ends (·.evaluate node e) w (.done v w') ∧ v.number? = some x

/-- Evaluating the bounds of a loop in order gives its start and its range. Without a step it goes
by one, up if the start stands below the end and down otherwise. -/
inductive Bounds (start stop : Node) (e : ScopeRef) (w : World) :
    Option Node → Single → Range → World → Prop
  | toward {first last : Single} {w₁ w₂ : World} (hstart : Gives start e w first w₁)
    (hstop : Gives stop e w₁ last w₂) :
    Bounds start stop e w none first
      { stop := last, step := if first.lt last then .ofNat 1 else .ofInt (-1) } w₂
  | given {step : Node} {first last by_ : Single} {w₁ w₂ w₃ : World}
    (hstart : Gives start e w first w₁) (hstop : Gives stop e w₁ last w₂)
    (hstep : Gives step e w₂ by_ w₃) :
    Bounds start stop e w (some step) first { stop := last, step := by_ } w₃

section Loops

variable {start stop body : Node} {step : Option Node} {e : ScopeRef} {name : String}
  {braced : Bool} {pos : Position} {w u w' : World} {first : Single} {r : Range}
  {counters : List Single} {values : List Value} {ending : Ending} {o : Outcome Value}

theorem loopBound_done {self : Machine} {what : String} {node : Node} {v : Value} {x : Single}
    (h : self.evaluate node e w = .done v w') (hx : v.number? = some x) :
    loopBound self what node e w = .done x w' := by
  rw [loopBound, bind_done h, hx]
  rfl

theorem Gives.loopBound {node : Node} {x : Single} (h : Gives node e w x w') (what : String) :
    ∃ fuel, ∀ n, fuel ≤ n → Evaluation.loopBound (machine n) what node e w = .done x w' := by
  obtain ⟨v, ⟨-, fuel, hn⟩, hx⟩ := h
  exact ⟨fuel, fun n hle => loopBound_done (hn n hle) hx⟩

theorem Gives.running {node : Node} {x : Single} (h : Gives node e w x w') :
    w.stopped = false := by
  obtain ⟨v, hends, -⟩ := h
  exact hends.running

theorem Bounds.running (hb : Bounds start stop e w step first r u) : w.stopped = false := by
  cases hb with
  | toward hstart hstop => exact hstart.running
  | given hstart hstop hstep => exact hstart.running

/-- The rounds of a loop inside `e`, in a world where its bounds have been evaluated. -/
def countFrom (self : Machine) (name : String) (braced : Bool) (body : Node) (e : ScopeRef)
    (first : Single) (r : Range) : Run Value := fun u =>
  (countRounds (fun i v => self.evaluate body u.innermost (v.counting u.innermost name i)) r
    self.rounds first #[] >>= loopResult braced) (u.nested e)

theorem evalCount_done {self : Machine} {last by_ : Single} {w₁ w₂ : World}
    (hstart : loopBound self "start" start e w = .done first w₁)
    (hstop : loopBound self "end" stop e w₁ = .done last w₂)
    (hstep : loopStep self first last step e w₂ = .done by_ u) (hz : by_.isZero = false) :
    evalCount self name start stop step braced body e w =
      countFrom self name braced body e first { stop := last, step := by_ } u := by
  rw [evalCount, bind_done hstart, bind_done hstop, bind_done hstep, hz]
  rfl

/-- Once there is enough fuel for the bounds, the loop consists of its rounds. -/
theorem Bounds.evaluate (hb : Bounds start stop e w step first r u) (hz : r.step.isZero = false)
    (pos : Position) (name : String) (braced : Bool) (body : Node) :
    ∃ fuel, ∀ n, fuel ≤ n →
      (machine (n + 1)).evaluate (.count pos name start stop step braced body) e w =
        countFrom (machine n) name braced body e first r u := by
  have hrunning := hb.running
  cases hb with
  | toward hstart hstop =>
    obtain ⟨k, hk⟩ := hstart.loopBound "start"
    obtain ⟨l, hl⟩ := hstop.loopBound "end"
    refine ⟨max k l, fun n hle => ?_⟩
    rw [evaluate_running n _ e w hrunning]
    exact evalCount_done (hk n (le_of_max_le_left hle)) (hl n (le_of_max_le_right hle)) rfl hz
  | given hstart hstop hstep =>
    obtain ⟨k, hk⟩ := hstart.loopBound "start"
    obtain ⟨l, hl⟩ := hstop.loopBound "end"
    obtain ⟨m, hm⟩ := hstep.loopBound "step"
    refine ⟨max k (max l m), fun n hle => ?_⟩
    have hrest := le_of_max_le_right hle
    rw [evaluate_running n _ e w hrunning]
    exact evalCount_done (hk n (le_of_max_le_left hle)) (hl n (le_of_max_le_left hrest))
      (hm n (le_of_max_le_right hrest)) hz

/-! ### Loops and their rounds -/

theorem Ending.leave_bind {α β : Type} (a : α) (f : α → Run β) (ending : Ending) (w : World) :
    (ending.leave (Run.done a) >>= f) w = ending.leave (f a) w := by
  cases ending <;> rfl

theorem Ending.leave_exhausted {α : Type} {finish : Run α}
    (h : ending.leave finish w = .exhausted w') (hfinish : finish w ≠ .exhausted w') :
    ending = .cut := by
  cases ending with
  | finished => exact absurd h hfinish
  | cut => rfl
  | returned | failed => cases h

theorem loopResult_ne_exhausted (results : Array Value) :
    loopResult braced results w ≠ .exhausted w' := by
  cases braced <;> exact nofun

/-- Evaluating the body from a world ends in this way, whatever the number is. -/
abbrev BodyEnds (body : Node) (scope : ScopeRef) (_ : Single) (u : World) (o : Outcome Value) :
    Prop :=
  Ends (·.evaluate body scope) u o

/-- Rounds that end by themselves do so together once there is enough fuel. -/
theorem Visits.exists_fuel {scope : ScopeRef} {enter : World → Single → World}
    (hv : Visits (BodyEnds body scope) enter counters w values ending w') :
    ending ≠ .cut ∧ ∃ fuel, ∀ n, fuel ≤ n →
      Visits (fun _ v o => (machine n).evaluate body scope v = o) enter counters w values ending
        w' := by
  induction hv with
  | none w => exact ⟨nofun, 0, fun _ _ => .none w⟩
  | value h hmore ih =>
    obtain ⟨hcut, k, hk⟩ := ih
    obtain ⟨-, l, hl⟩ := h
    exact ⟨hcut, max k l, fun n hle =>
      .value (hl n (le_of_max_le_right hle)) (hk n (le_of_max_le_left hle))⟩
  | continued h hmore ih =>
    obtain ⟨hcut, k, hk⟩ := ih
    obtain ⟨-, l, hl⟩ := h
    exact ⟨hcut, max k l, fun n hle =>
      .continued (hl n (le_of_max_le_right hle)) (hk n (le_of_max_le_left hle))⟩
  | broken h =>
    obtain ⟨-, l, hl⟩ := h
    exact ⟨nofun, l, fun n hle => .broken (hl n hle)⟩
  | returned h =>
    obtain ⟨-, l, hl⟩ := h
    exact ⟨nofun, l, fun n hle => .returned (hl n hle)⟩
  | failed h =>
    obtain ⟨-, l, hl⟩ := h
    exact ⟨nofun, l, fun n hle => .failed (hl n hle)⟩
  | cut h =>
    obtain ⟨hne, -⟩ := h
    exact absurd rfl (hne _)

theorem Visits.countFrom {n : Nat}
    (hv : Visits (fun _ v o => (machine n).evaluate body u.innermost v = o)
      (·.counting u.innermost name) counters (u.nested e) values ending w')
    (hc : r.Counters first counters) (hn : counters.length < (machine n).rounds) :
    Evaluation.countFrom (machine n) name braced body e first r u =
      ending.leave (loopResult braced values.toArray) w' := by
  have hrounds := hv.countRounds (r := r) (i := first) (fun _ _ _ h => h) hc hn #[]
  rw [Array.empty_append] at hrounds
  refine Eq.trans ?_ (Ending.leave_bind values.toArray (loopResult braced) ending w')
  simp only [Evaluation.countFrom, Bind.bind, andThen, hrounds]

/-- A loop ends just as its rounds for its numbers do, and has the values of these rounds if it
finishes. -/
theorem ends_count_iff_visits (hb : Bounds start stop e w step first r u)
    (hz : r.step.isZero = false) (hc : r.Counters first counters) :
    Ends (·.evaluate (.count pos name start stop step braced body) e) w o ↔
      ∃ values ending w', Visits (BodyEnds body u.innermost) (·.counting u.innermost name)
        counters (u.nested e) values ending w' ∧
        ending.leave (loopResult braced values.toArray) w' = o := by
  obtain ⟨fuel, heval⟩ := hb.evaluate hz pos name braced body
  constructor
  · rintro ⟨hne, enough, hends⟩
    let n := max fuel enough + counters.length + 1
    have hrounds : counters.length < (machine (n + 1)).rounds := by
      show _ < max fuel enough + counters.length + 1
      omega
    obtain ⟨values, ending, w', hv⟩ := exists_visits
      ((machine (n + 1)).evaluate body u.innermost) (·.counting u.innermost name) counters
      (u.nested e)
    have houtcome : ending.leave (loopResult braced values.toArray) w' = o :=
      (hv.countFrom hc hrounds).symm.trans
        ((heval (n + 1) (by omega)).symm.trans (hends (n + 2) (by omega)))
    have hcut : ending ≠ .cut := by
      rintro rfl
      exact hne _ houtcome.symm
    refine ⟨values, ending, w', (hv.uncut hcut).imp ?_, houtcome⟩
    rintro i v o ⟨rfl, hne⟩
    exact ends_of_not_exhausted (fun hm => hm.evaluate body _) hne
  · rintro ⟨values, ending, w', hv, rfl⟩
    obtain ⟨hcut, enough, hvisits⟩ := hv.exists_fuel
    refine ⟨fun v h => hcut (Ending.leave_exhausted h (loopResult_ne_exhausted _)),
      max fuel enough + counters.length + 3, fun n hle => ?_⟩
    obtain ⟨n, rfl⟩ : ∃ k, n = k + 2 := ⟨n - 2, by omega⟩
    refine (heval (n + 1) (by omega)).trans ((hvisits (n + 1) (by omega)).countFrom hc ?_)
    show _ < n
    omega

/-! ### What the body finds -/

attribute [local instance] Views.ofHosts

theorem Ends.grewTo {node : Node} (h : Ends (·.evaluate node e) w o) (hw : w.Shaped)
    (he : w.heap.Allocated e) : w.GrewTo o.world := by
  obtain ⟨-, n, hn⟩ := h
  have hkept : ShapeKept w SoundValue o :=
    hn n le_rfl ▸ ((KeepsShape.machine n).evaluate w.heap node e he).from_world w hw (.refl _)
  cases o with
  | done | jumped => exact hkept.1
  | failed | exhausted => exact hkept

theorem grewTo_counting {scope : ScopeRef} (hw : w.Shaped) (hs : w.heap.Plain scope)
    (name : String) (i : Single) : w.GrewTo (w.counting scope name i) :=
  (((KeepsShape.newNumber i).bind fun _ _ hx hv =>
    KeepsShape.define (hx.plain hs) name hv).from_world w hw (.refl _)).1

theorem BodyEnds.grewTo {scope : ScopeRef} {i : Single} (hw : w.Shaped) (hs : w.heap.Plain scope)
    (h : BodyEnds body scope i (w.counting scope name i) o) : w.GrewTo o.world := by
  have henter := grewTo_counting hw hs name i
  exact henter.trans (Ends.grewTo h henter.shaped (henter.grows.plain hs).allocated)

/-- In every round the body is evaluated with the number under the name, whatever the rounds before
it have bound. -/
theorem Visits.bound {scope : ScopeRef} (hw : w.Shaped) (hs : w.heap.Plain scope)
    (hv : Visits (BodyEnds body scope) (·.counting scope name) counters w values ending w') :
    Visits (fun i v o => BodyEnds body scope i v o ∧
      ∃ stamp, (v.heap.scope scope).bindings.get? name = some (.number stamp i))
      (·.counting scope name) counters w values ending w' := by
  induction hv with
  | none w => exact .none w
  | @value i more w w₁ w' v vs ending h hmore ih =>
    have hround := BodyEnds.grewTo hw hs h
    exact .value ⟨h, _, w.bindings_counting hs.allocated name i⟩
      (ih hround.shaped (hround.grows.plain hs))
  | @continued i more w w₁ w' vs ending h hmore ih =>
    have hround := BodyEnds.grewTo hw hs h
    exact .continued ⟨h, _, w.bindings_counting hs.allocated name i⟩
      (ih hround.shaped (hround.grows.plain hs))
  | @broken i more w w' h => exact .broken ⟨h, _, w.bindings_counting hs.allocated name i⟩
  | @returned i more w w' v h => exact .returned ⟨h, _, w.bindings_counting hs.allocated name i⟩
  | @failed i more w w' d h => exact .failed ⟨h, _, w.bindings_counting hs.allocated name i⟩
  | @cut i more w w' h => exact .cut ⟨h, _, w.bindings_counting hs.allocated name i⟩

/-- In the round for `i` the body is evaluated from `v` and ends in this way. If the loop was
entered from a world that is well shaped but for its views, the body finds `i` under the name. -/
structure CountedRound (u : World) (e : ScopeRef) (name : String) (body : Node) (i : Single)
    (v : World) (o : Outcome Value) : Prop where
  ends : BodyEnds body u.innermost i v o
  bound : u.Shaped → u.heap.Allocated e →
    ∃ stamp, (v.heap.scope u.innermost).bindings.get? name = some (.number stamp i)

theorem Visits.counted
    (hv : Visits (BodyEnds body u.innermost) (·.counting u.innermost name) counters (u.nested e)
      values ending w') :
    Visits (CountedRound u e name body) (·.counting u.innermost name) counters (u.nested e) values
      ending w' := by
  by_cases hshaped : u.Shaped ∧ u.heap.Allocated e
  · obtain ⟨hgrew, hplain⟩ :=
      (KeepsShape.innerScope hshaped.2).from_world u hshaped.1 (.refl _)
    exact (hv.bound hgrew.shaped hplain).imp fun _ _ _ h => ⟨h.1, fun _ _ => h.2⟩
  · exact hv.imp fun _ _ _ h => ⟨h, fun hu he => absurd ⟨hu, he⟩ hshaped⟩

end Loops

/-! ### Loops between integers -/

/-- Going on by `s` from `x`, `b` is still ahead. -/
def Ahead (s b x : Int) : Prop :=
  if 0 < s then x < b else b < x

instance (s b x : Int) : Decidable (Ahead s b x) :=
  inferInstanceAs (Decidable (if 0 < s then x < b else b < x))

/-- The numbers are `a`, `a + s`, `a + 2 * s` and so on, as far as `b` is ahead of them. -/
structure Progression (a b s : Int) (counters : List Single) : Prop where
  term : ∀ (k : Nat) i, counters[k]? = some i → i.IsInt (a + k * s)
  before : ∀ k : Nat, k < counters.length ↔ Ahead s b (a + k * s)

theorem Progression.none {a b s : Int} (h : ¬ Ahead s b a) : Progression a b s [] where
  term k i hi := nomatch hi
  before k := by
    refine iff_of_false (Nat.not_lt_zero k) fun hk => h ?_
    unfold Ahead at hk ⊢
    by_cases hup : 0 < s
    · rw [if_pos hup] at hk ⊢
      have := Int.mul_nonneg (Int.natCast_nonneg k) (Int.le_of_lt hup)
      omega
    · rw [if_neg hup] at hk ⊢
      have := Int.mul_nonneg (Int.natCast_nonneg k) (by omega : 0 ≤ -s)
      rw [Int.mul_neg] at this
      omega

theorem add_succ_mul (a s : Int) (k : Nat) : a + s + k * s = a + (k + 1 : Nat) * s := by
  push_cast
  ring

theorem Progression.next {a b s : Int} {i : Single} {more : List Single} (hi : i.IsInt a)
    (h : Ahead s b a) (hmore : Progression (a + s) b s more) : Progression a b s (i :: more) where
  term k j hj := by
    cases k with
    | zero =>
      obtain rfl : i = j := Option.some.inj hj
      simpa using hi
    | succ k =>
      exact add_succ_mul a s k ▸ hmore.term k j hj
  before k := by
    cases k with
    | zero => simpa using h
    | succ k =>
      rw [List.length_cons, Nat.succ_lt_succ_iff, hmore.before k, add_succ_mul]

/-- With a step other than zero the counter is compared in the direction of the step. -/
theorem Range.admits_finite {r : Range} {t : Bool} {n : Magnitude Format.single}
    (hstep : r.step = .finite t n) (hn : signed t n ≠ 0) (i : Single) :
    r.admits i = if 0 < signed t n then i.lt r.stop else r.stop.lt i := by
  have hzero : signed false (⟨0, Format.single.fits_zero⟩ : Magnitude Format.single) = 0 := rfl
  have hle : (Number.zero false).le r.step = decide (0 < signed t n) := by
    rw [hstep, Number.le, Number.zero, Number.lt, Number.equal, hzero]
    simp [Ne.symm hn]
  rw [Range.admits, hle]
  by_cases hup : 0 < signed t n <;> simp [hup]

section Integers

variable {first i : Single} {r : Range} {a b s x : Int}

theorem signed_pos_iff {t : Bool} {n : Magnitude Format.single}
    (hn : signed t n = s * (2 ^ Format.single.scale : Nat)) : 0 < signed t n ↔ 0 < s := by
  have hpos : (0 : Int) < (2 ^ Format.single.scale : Nat) := by decide
  rw [hn]
  exact mul_pos_iff_of_pos_right hpos

theorem Range.admits_iff_ahead (hstep : r.step.IsInt s) (hs : s ≠ 0) (hstop : r.stop.IsInt b)
    (hi : i.IsInt x) : r.admits i = true ↔ Ahead s b x := by
  obtain ⟨t, n, hfinite, hn⟩ := hstep
  have hne : signed t n ≠ 0 := by
    rw [hn]
    exact Int.mul_ne_zero hs (by decide)
  rw [r.admits_finite hfinite hne, Ahead]
  by_cases hup : 0 < s
  · rw [if_pos ((signed_pos_iff hn).mpr hup), if_pos hup, hi.lt_iff hstop]
  · rw [if_neg (mt (signed_pos_iff hn).mp hup), if_neg hup, hstop.lt_iff hi]

theorem isZero_of_isInt (hx : i.IsInt x) (h : x ≠ 0) : i.isZero = false := by
  obtain ⟨t, n, rfl, hn⟩ := hx
  have hne : signed t n ≠ 0 := by
    rw [hn]
    exact Int.mul_ne_zero h (by decide)
  exact beq_eq_false_iff_ne.mpr hne

/-- Between integers that are held exactly a loop goes through an arithmetic progression. -/
theorem exists_progression (hstep : r.step.IsInt s) (hs : s ≠ 0) (hstop : r.stop.IsInt b)
    (hb : b.natAbs + s.natAbs ≤ 2 ^ 24) (hfirst : first.IsInt a) (ha : a.natAbs ≤ 2 ^ 24) :
    ∃ counters, r.Counters first counters ∧ Progression a b s counters := by
  -- What is left to `b` shrinks with every step.
  induction hleft : (if 0 < s then b - a else a - b).toNat using Nat.strongRecOn
    generalizing first a with
  | ind left ih =>
    by_cases hahead : Ahead s b a
    · have hadmits := (r.admits_iff_ahead hstep hs hstop hfirst).mpr hahead
      have hsmall : (a + s).natAbs ≤ 2 ^ 24 := by
        unfold Ahead at hahead
        split at hahead <;> omega
      have hsum : (first.add r.step).IsInt (a + s) := by
        rw [hfirst.add hstep hs]
        exact isInt_ofInt (by decide) hsmall
      have hless : (if 0 < s then b - (a + s) else a + s - b).toNat < left := by
        unfold Ahead at hahead
        split at hahead <;> omega
      obtain ⟨more, hmore, hprogression⟩ := ih _ hless hsum hsmall rfl
      exact ⟨_, .next hadmits hmore, .next hfirst hahead hprogression⟩
    · have hadmits := mt (r.admits_iff_ahead hstep hs hstop hfirst).mp hahead
      exact ⟨_, .passed (Bool.eq_false_iff.mpr hadmits), .none hahead⟩

/-- Without a step a loop goes by one toward its end. -/
theorem Bounds.default_step {start stop : Node} {e : ScopeRef} {w u : World}
    (hb : Bounds start stop e w none first r u) (ha : first.IsInt a) (hstop : r.stop.IsInt b)
    (hstep : r.step.IsInt s) : s = if a < b then 1 else -1 := by
  cases hb with
  | @toward _ last _ _ =>
    have hlt : first.lt last = true ↔ a < b := ha.lt_iff hstop
    have hone : (ofInt 1 : Single).IsInt 1 := isInt_ofInt (by decide) (by decide)
    have hback : (ofInt (-1) : Single).IsInt (-1) := isInt_ofInt (by decide) (by decide)
    dsimp only at hstep
    by_cases hup : a < b
    · rw [if_pos (hlt.mpr hup)] at hstep
      rw [if_pos hup]
      exact hstep.unique hone
    · rw [if_neg (mt hlt.mp hup)] at hstep
      rw [if_neg hup]
      exact hstep.unique hback

/-- A loop from `a` to `b` by `s`, by default one step at a time toward `b`, evaluates its body for
`a`, `a + s`, `a + 2 * s` and so on, as long as `b` is ahead, whatever the body assigns. The body
ends the loop early if it breaks, returns or fails; a loop that finishes gives null if it is braced
and otherwise the list of the values of its rounds. -/
theorem count_visits_progression {start stop : Node} {step : Option Node} {e : ScopeRef}
    {w u : World} (pos : Position) (name : String) (braced : Bool) (body : Node)
    (hbounds : Bounds start stop e w step first r u) (ha : first.IsInt a) (hstop : r.stop.IsInt b)
    (hstep : r.step.IsInt s) (hs : s ≠ 0) (hasmall : a.natAbs ≤ 2 ^ 24)
    (hbsmall : b.natAbs + s.natAbs ≤ 2 ^ 24) :
    (step = none → s = if a < b then 1 else -1) ∧
      ∃ counters, Progression a b s counters ∧
        ∀ o, Ends (·.evaluate (.count pos name start stop step braced body) e) w o ↔
          ∃ values ending w', Visits (CountedRound u e name body) (·.counting u.innermost name)
            counters (u.nested e) values ending w' ∧
            ending.leave (if braced then Run.done .null else newList values.toArray) w' = o := by
  obtain ⟨counters, hcounters, hprogression⟩ :=
    exists_progression hstep hs hstop hbsmall ha hasmall
  refine ⟨?_, counters, hprogression, fun o => ?_⟩
  · rintro rfl
    exact hbounds.default_step ha hstop hstep
  · rw [ends_count_iff_visits hbounds (isZero_of_isInt hstep hs) hcounters]
    constructor
    · rintro ⟨values, ending, w', hv, hend⟩
      exact ⟨values, ending, w', hv.counted, hend⟩
    · rintro ⟨values, ending, w', hv, hend⟩
      exact ⟨values, ending, w', hv.imp fun _ _ _ h => h.ends, hend⟩

end Integers

/-- Assigns ten more to the variable. -/
def tenMore : Node :=
  .assign .none "i" (.binary .none (.arithmetic .add) (.read .none "i") (.number .none (.ofInt 10)))

/-- A loop from 0 to 3 by 1 whose body assigns to its variable. -/
def reassigning : Node :=
  .count .none "i" (.number .none (.ofInt 0)) (.number .none (.ofInt 3))
    (some (.number .none (.ofInt 1))) false tenMore

theorem gives_number {w : World} (hw : w.stopped = false) (pos : Position) (x : Single)
    (e : ScopeRef) : Gives (.number pos x) e w x (afterLiteral w) :=
  ⟨_, .of_done (evaluate_literal 0 _ e w _ hw rfl), rfl⟩

/-- The range of a loop to 3 by 1. -/
def toThree : Range where
  stop := .ofInt 3
  step := .ofInt 1

theorem isInt_toThree : toThree.stop.IsInt 3 ∧ toThree.step.IsInt 1 := by
  dsimp only [toThree]
  exact ⟨isInt_ofInt (by decide) (by decide), isInt_ofInt (by decide) (by decide)⟩

theorem bounds_toThree {w : World} (hw : w.stopped = false) (e : ScopeRef) :
    Bounds (.number .none (.ofInt 0)) (.number .none (.ofInt 3)) e w
      (some (.number .none (.ofInt 1))) (.ofInt 0) toThree
      (afterLiteral (afterLiteral (afterLiteral w))) :=
  .given (gives_number hw _ _ e) (gives_number (w := afterLiteral w) hw _ _ e)
    (gives_number (w := afterLiteral (afterLiteral w)) hw _ _ e)

/-- The loop still goes through 0, 1 and 2. -/
theorem count_visits_progression_reassigning :
    ∃ u counters v w', Progression 0 3 1 counters ∧
      Ends (·.evaluate reassigning ⟨0⟩) (.bare {}) (.done v w') ∧
      w'.heap.display v = "[10, 11, 12]" ∧
      ∃ values ending w'', Visits (CountedRound u ⟨0⟩ "i" tenMore) (·.counting u.innermost "i")
        counters (u.nested ⟨0⟩) values ending w'' := by
  obtain ⟨hstop, hstep⟩ := isInt_toThree
  have hfirst : (ofInt 0 : Single).IsInt 0 := isInt_ofInt (by decide) (by decide)
  obtain ⟨-, counters, hprogression, hends⟩ :=
    count_visits_progression .none "i" false tenMore (bounds_toThree (w := .bare {}) rfl ⟨0⟩) hfirst
      hstop hstep (by decide) (by decide) (by decide)
  obtain ⟨v, w', hdone, hshown⟩ : ∃ v w',
      (machine 6).evaluate reassigning ⟨0⟩ (.bare {}) = .done v w' ∧
        w'.heap.display v = "[10, 11, 12]" := Outcome.done_of_shown (by decide +kernel)
  have hloop : Ends (·.evaluate reassigning ⟨0⟩) (.bare {}) (.done v w') := .of_done hdone
  obtain ⟨values, ending, w'', hvisits, -⟩ := (hends _).mp hloop
  exact ⟨_, counters, v, w', hprogression, hloop, hshown, values, ending, w'', hvisits⟩

end Evaluation

end ScriptEngine
