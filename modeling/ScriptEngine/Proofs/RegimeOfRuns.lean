import ScriptEngine.Proofs.Contracts
import ScriptEngine.Proofs.Regimes

/-! # Computations in a regime

What a computation that starts in an admitted world may end with: an admitted world, a result of
which something is known, a jump of a kind that can be foreseen. A tame regime knows no failure of
loop control, and a bounded one does not use up its fuel. -/

namespace ScriptEngine

def Jump.AdmittedBy (R : Regime) : Jump → Prop
  | .return_ v => R.Admits v
  | .break_ => True
  | .continue_ => True

/-- A run in the regime with room for `r` further calls and with jumps of the kinds `J`. -/
@[reducible] def Regime.contract (R : Regime) (r : Nat) (J : JumpKind → Prop) : Contract where
  world := R.AdmitsWorld r
  jump j := j.AdmittedBy R ∧ J j.kind
  failure d := R = .tame → d.fault.isLoopControl = false
  cut := R.isBounded = false

theorem Regime.contract_untraced (R : Regime) (r : Nat) (J : JumpKind → Prop) :
    (R.contract r J).Untraced where
  calls _ _ hw := ⟨hw.heap, hw.tasks, hw.idle, hw.room⟩
  failure _ _ hfault hd hR := hfault ▸ hd hR

abbrev Run.Keeps {α : Type} (R : Regime) (r : Nat) (J : JumpKind → Prop) (Q : α → Prop)
    (x : Run α) : Prop :=
  x.Meets (R.contract r J) Q

/-- A result or the jump that was caught instead. -/
def Caught (R : Regime) (J : JumpKind → Prop) : Except Jump Value → Prop
  | .ok v => R.Admits v
  | .error j => j.AdmittedBy R ∧ J j.kind

namespace Run.Keeps

variable {R : Regime} {r : Nat} {J : JumpKind → Prop} {α β : Type} {Q : α → Prop} {S : β → Prop}

/-! ### Composition -/

theorem jumps {K : JumpKind → Prop} {x : Run α} (hx : Keeps R r J Q x) (hJ : ∀ k, J k → K k) :
    Keeps R r K Q x :=
  hx.weaken (fun _ hj => ⟨hj.1, hJ _ hj.2⟩) fun _ hq => hq

theorem heap : Keeps R r J R.AdmitsHeap Run.heap :=
  .observe fun _ hw => hw.heap

theorem world : Keeps R r J (R.AdmitsWorld r) Run.world :=
  .observe fun _ hw => hw

theorem display (v : Value) : Keeps R r J Whatever (display v) :=
  .observe fun _ _ => trivial

theorem isTruthy (v : Value) : Keeps R r J Whatever (isTruthy v) :=
  .observe fun _ _ => trivial

theorem storage (e : ScopeRef) : Keeps R r J Whatever (storage e) :=
  .observe fun _ _ => trivial

theorem owner (e : ScopeRef) (name : String) : Keeps R r J Whatever (owner e name) :=
  .observe fun _ _ => trivial

theorem make {f : Heap → α × Heap}
    (hf : ∀ h, R.AdmitsHeap h → R.AdmitsHeap (f h).2 ∧ Q (f h).1) : Keeps R r J Q (make f) :=
  ⟨fun w hw => ⟨hw.withHeap (hf w.heap hw.heap).1, (hf w.heap hw.heap).2⟩⟩

theorem modifyHeap {f : Heap → Heap} (hf : ∀ h, R.AdmitsHeap h → R.AdmitsHeap (f h)) :
    Keeps R r J Whatever (modifyHeap f) :=
  ⟨fun w hw => ⟨hw.withHeap (hf w.heap hw.heap), trivial⟩⟩

/-- A change outside the heap, the queue and the count of calls. -/
theorem modify {f : World → World}
    (hf : ∀ w, (f w).heap = w.heap ∧ (f w).tasks = w.tasks ∧ (f w).depth = w.depth ∧
      (f w).maxDepth = w.maxDepth) : Keeps R r J Whatever (modify f) := by
  refine ⟨fun w hw => ⟨⟨?_, ?_, ?_, ?_⟩, trivial⟩⟩
  · rw [(hf w).1]
    exact hw.heap
  · rw [(hf w).2.1]
    exact hw.tasks
  · rw [(hf w).2.1]
    exact hw.idle
  · rw [(hf w).2.2.1, (hf w).2.2.2]
    exact hw.room

theorem jump {j : Jump} (hj : j.AdmittedBy R) (hk : J j.kind) : Keeps R r J Q (jump j) :=
  Meets.jump ⟨hj, hk⟩

theorem raise {fault : Fault} (hf : fault.isLoopControl = false) :
    Keeps R r J Q (raise fault) :=
  .fail fun _ => hf

theorem failAt {fault : Fault} {pos : Position} (hf : fault.isLoopControl = false) :
    Keeps R r J Q (Run.fail (.located fault pos)) :=
  .fail fun _ => hf

/-- Failures that come from elsewhere are not those of a tame regime. -/
theorem ofExcept {result : Except Diagnostic α} (hR : R ≠ .tame)
    (hq : ∀ a, result = .ok a → Q a) : Keeps R r J Q (ofExcept result) := by
  cases result with
  | ok a => exact .done (hq a rfl)
  | error d => exact .fail fun h => absurd h hR

theorem locatedAt (p : Position) {x : Run α} (hx : Keeps R r J Q x) :
    Keeps R r J Q (locatedAt p x) :=
  Meets.locatedAt (R.contract_untraced r J) p hx

theorem during (entry : TraceEntry) {x : Run α} (hx : Keeps R r J Q x) :
    Keeps R r J Q (during entry x) :=
  Meets.during (R.contract_untraced r J) entry hx

/-- Whatever the body jumps to, the computation itself only gives results. -/
theorem catchJump {K : JumpKind → Prop} {x : Run Value} (hx : Keeps R r K R.Admits x) :
    Keeps R r J (Caught R K) (catchJump x) :=
  Meets.catchJump hx (fun _ hv => hv) fun _ hj => hj

/-- The body of a call runs with room for one call less; without room for it there is no call. -/
theorem withFrame {x : Run α} (hx : ∀ s < r, Keeps R s J Q x) :
    Keeps R r J Q (withFrame x) := by
  refine ⟨fun w hw => ?_⟩
  simp only [Run.withFrame]
  by_cases hfull : w.maxDepth ≤ w.depth
  · rw [if_pos hfull]
    exact ⟨hw, fun _ => rfl⟩
  · rw [if_neg hfull]
    have hroom := hw.room
    obtain ⟨s, rfl⟩ : ∃ s, r = s + 1 := ⟨r - 1, by omega⟩
    have hrun := (hx s (Nat.lt_succ_self s)).run w.enter hw.enter
    generalize x w.enter = o at hrun
    cases o with
    | done | jumped | failed => exact ⟨hrun.1.leave, hrun.2⟩
    | exhausted => exact ⟨hrun.1.mono (Nat.le_succ s), hrun.2⟩

/-! ### Values -/

theorem newNumber (n : Single) : Keeps R r J R.Admits (newNumber n) :=
  make fun _ hh => ⟨hh.newStamp, trivial⟩

theorem newBool (b : Bool) : Keeps R r J R.Admits (newBool b) :=
  newNumber _

theorem newText (s : String) : Keeps R r J R.Admits (newText s) :=
  make fun _ hh => ⟨hh.newStamp, trivial⟩

theorem newList {items : Array Value} (hi : R.AdmitsAll items.toList) :
    Keeps R r J R.Admits (newList items) :=
  make fun _ hh => ⟨hh.newList hi, trivial⟩

theorem newFunction {f : Lambda} (hf : R.Definition f.body) (e : ScopeRef) :
    Keeps R r J R.Admits (newFunction f e) :=
  make fun _ hh => ⟨hh.newStamp, hf⟩

theorem newNative (n : Native) :
    Keeps R r J (fun v => R.OfNative n → R.Admits v) (newNative n) :=
  make fun _ hh => ⟨hh.newStamp, fun hn => hn⟩

theorem newClass {name : String} {params : List String} {body : ClassBody}
    {parent : Option Class} (hb : R.OfBody body) (hp : ∀ c, parent = some c → R.OfClass c) :
    Keeps R r J R.Admits (newClass name params body parent) :=
  make fun _ hh => ⟨hh.newStamp, .mk hb hp⟩

theorem newTexts (texts : List String) : Keeps R r J R.Admits (newTexts texts) :=
  (Meets.mapAll fun s _ => newText s).bind fun _ hvs => newList hvs

mutual

theorem fromHost : ∀ v : HostValue, Keeps R r J R.Admits (fromHost v)
  | .null => .done trivial
  | .bool b => newBool b
  | .number _ => newNumber _
  | .text s => newText s
  | .list items => (fromHosts items).bind fun _ hvs => newList hvs

theorem fromHosts : ∀ vs : List HostValue, Keeps R r J R.AdmitsAll (fromHosts vs)
  | [] => .done .nil
  | v :: vs => (fromHost v).bind fun _ hv => (fromHosts vs).bind fun _ hvs => .done (.cons hv hvs)

end

/-! ### Scopes -/

theorem newScope {s : Scope} (hs : R.AdmitsEntries s.bindings) :
    Keeps R r J Whatever (newScope s) :=
  make fun _ hh => ⟨hh.newScope hs, trivial⟩

theorem newFrame {s : Scope} (hs : s.bindings = []) (params : List String) {args : List Value}
    (ha : R.AdmitsAll args) :
    Keeps R r J Whatever (Run.newScope (s.defineAll (params.zip args))) := by
  refine newScope ?_
  simp only [Scope.defineAll, hs]
  exact Regime.AdmitsEntries.nil.insertAll (.zip ha)

theorem innerScope (e : ScopeRef) : Keeps R r J Whatever (innerScope e) :=
  heap.bind fun _ _ => newScope .nil

theorem memberView (receiver outer : ScopeRef) :
    Keeps R r J Whatever (memberView receiver outer) :=
  heap.bind fun _ _ => newScope .nil

theorem define (e : ScopeRef) (name : String) {v : Value} (hv : R.Admits v) :
    Keeps R r J Whatever (define e name v) :=
  modifyHeap fun _ hh => hh.define e hv

theorem defineAll (e : ScopeRef) {entries : Table Value} (he : R.AdmitsEntries entries) :
    Keeps R r J Whatever (Run.modifyHeap (·.modifyScope e (·.defineAll entries))) :=
  modifyHeap fun _ hh => hh.defineAll e he

theorem remove (e : ScopeRef) (name : String) : Keeps R r J Whatever (remove e name) :=
  modifyHeap fun _ hh => hh.modifyScope ((hh.bindings e).erase name)

theorem note (event : Event) : Keeps R r J Whatever (note event) :=
  modify fun _ => ⟨rfl, rfl, rfl, rfl⟩

theorem reportWrite (e : ScopeRef) (name : String) (v : Value) :
    Keeps R r J Whatever (reportWrite e name v) := by
  refine heap.bind fun h _ => ?_
  split
  · exact note _
  · exact .done trivial

theorem set (e : ScopeRef) (name : String) {v : Value} (hv : R.Admits v) :
    Keeps R r J Whatever (set e name v) :=
  (define e name hv).bind fun _ _ => reportWrite e name v

theorem store (e : ScopeRef) (name : String) {v : Value} (hv : R.Admits v) :
    Keeps R r J R.Admits (Run.storage e >>= fun target => Run.set target name v >>= fun _ =>
      pure v) :=
  (storage e).bind fun target _ => (set target name hv).bind fun _ _ => .done hv

theorem readCell (name : String) : Keeps R r J R.Admits (readCell name) :=
  (note _).bind fun _ _ => world.bind fun _ _ => fromHost _

theorem getLocal (e : ScopeRef) {name : String} (hn : R.hides name = false) :
    Keeps R r J (fun v => ∀ a, v = some a → R.Admits a) (getLocal e name) := by
  refine heap.bind fun h hh => ?_
  dsimp only
  split
  · exact (readCell name).bind fun v hv => .done fun a ha => Option.some.inj ha ▸ hv
  · exact .done fun a ha => (hh.bindings e).of_get? hn ha

/-- A name that programs mention is bound to something that the regime admits. -/
theorem get (e : ScopeRef) {name : String} (hn : R.hides name = false) :
    Keeps R r J (fun v => ∀ a, v = some a → R.Admits a) (get e name) := by
  refine heap.bind fun h _ => ?_
  split
  · exact getLocal _ hn
  · exact .done fun a ha => by cases ha

theorem print (s : String) : Keeps R r J Whatever (print s) :=
  modify fun _ => ⟨rfl, rfl, rfl, rfl⟩

theorem draw (bound : Nat) : Keeps R r J Whatever (draw bound) :=
  ⟨fun _ hw => ⟨⟨hw.heap, hw.tasks, hw.idle, hw.room⟩, trivial⟩⟩

theorem isFreed : Keeps R r J Whatever isFreed :=
  ⟨fun _ hw => ⟨⟨hw.heap, hw.tasks, hw.idle, hw.room⟩, trivial⟩⟩

/-! ### Tasks -/

theorem spawn (hR : R.isBounded = false) {task : Value} (ht : R.Admits task) :
    Keeps R r J Whatever (spawn task) := by
  refine (note _).bind fun _ _ => ⟨fun w hw => ?_⟩
  refine ⟨⟨hw.heap, hw.tasks.append (.cons ht .nil), fun h => ?_, hw.room⟩, trivial⟩
  rw [hR] at h
  cases h

/-- Only a regime that is not bounded leaves a task behind. -/
theorem nextTask :
    Keeps R r J (fun next => ∀ task, next = some task → R.Admits task ∧ R.isBounded = false)
      nextTask := by
  refine ⟨fun w hw => ?_⟩
  cases htasks : w.tasks with
  | nil =>
    have hrun : Run.nextTask w = .done none w := by
      simp only [Run.nextTask, Bind.bind, andThen, Run.world, htasks]
      rfl
    rw [hrun]
    exact ⟨hw, fun task ht => by cases ht⟩
  | cons task rest =>
    have hall : R.AdmitsAll (task :: rest) := htasks ▸ hw.tasks
    obtain ⟨hfirst, hrest⟩ := List.forall_mem_cons.mp hall
    have hR : R.isBounded = false := by
      cases hb : R.isBounded with
      | false => rfl
      | true =>
        have hidle := hw.idle hb
        rw [htasks] at hidle
        cases hidle
    have hrun : Run.nextTask w = .done (some task)
        { w with journal := .started task :: w.journal, tasks := rest } := by
      simp only [Run.nextTask, Bind.bind, andThen, Run.world, htasks]
      rfl
    rw [hrun]
    refine ⟨⟨hw.heap, hrest, fun h => ?_, hw.room⟩, fun t ht => Option.some.inj ht ▸ ⟨hfirst, hR⟩⟩
    rw [hR] at h
    cases h

end Run.Keeps

end ScriptEngine
