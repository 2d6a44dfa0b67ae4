import ScriptEngine.Engine
import ScriptEngine.Proofs.Contracts
import ScriptEngine.Proofs.HeapShape

/-! # Watched writes

A host that registers a setter for a name of the globals hears of a write after the value was
stored. The evaluator also binds names without telling anybody: in scopes that it has just made, and
in an instance that calls the constructor of its parent. As no such constructor has the globals as
its instance, what is stored in the globals is always what the setter heard of last. -/

namespace ScriptEngine

/-! ### Values that leave a scope alone -/

/-- The value is not the constructor of a parent with the scope as its instance. -/
def Value.Apart (g : ScopeRef) : Value → Prop
  | .native _ (.superCall _ _ target) => target ≠ g
  | _ => True

def ValuesApart (g : ScopeRef) (vs : List Value) : Prop :=
  ∀ v ∈ vs, v.Apart g

def EntriesApart (g : ScopeRef) (entries : Table Value) : Prop :=
  ∀ entry ∈ entries, entry.2.Apart g

/-- The scope exists, and no value in the heap is its constructor. -/
structure Heap.Apart (g : ScopeRef) (h : Heap) : Prop where
  allocated : h.Allocated g
  bindings : ∀ e, EntriesApart g (h.scope e).bindings
  items : ∀ l, ValuesApart g (h.items l).toList

def Jump.Apart (g : ScopeRef) : Jump → Prop
  | .return_ v => v.Apart g
  | .break_ => True
  | .continue_ => True

variable {g : ScopeRef}

namespace ValuesApart

theorem nil : ValuesApart g [] :=
  fun _ hv => absurd hv List.not_mem_nil

theorem cons {v : Value} {vs : List Value} (hv : v.Apart g) (hvs : ValuesApart g vs) :
    ValuesApart g (v :: vs) :=
  List.forall_mem_cons.mpr ⟨hv, hvs⟩

theorem append {vs us : List Value} (hv : ValuesApart g vs) (hu : ValuesApart g us) :
    ValuesApart g (vs ++ us) :=
  List.forall_mem_append.mpr ⟨hv, hu⟩

theorem push {vs : Array Value} {v : Value} (hvs : ValuesApart g vs.toList) (hv : v.Apart g) :
    ValuesApart g (vs.push v).toList := by
  rw [Array.toList_push]
  exact hvs.append (.cons hv .nil)

theorem getD {vs : Array Value} (hvs : ValuesApart g vs.toList) (i : Nat) :
    (vs.getD i .null).Apart g := by
  rw [Array.getD_eq_getD_getElem?]
  cases hi : vs[i]? with
  | none => trivial
  | some v => exact hvs v (Array.mem_toList_iff.mpr (Array.mem_of_getElem? hi))

end ValuesApart

namespace EntriesApart

theorem nil : EntriesApart g [] :=
  fun _ hm => absurd hm List.not_mem_nil

theorem of_get? {entries : Table Value} (he : EntriesApart g entries) {name : String} {v : Value}
    (hv : entries.get? name = some v) : v.Apart g :=
  he (name, v) (Table.mem_of_get? hv)

theorem insert {entries : Table Value} (he : EntriesApart g entries) (name : String) {v : Value}
    (hv : v.Apart g) : EntriesApart g (entries.insert name v) := by
  intro entry hm
  rcases Table.mem_insert hm with rfl | hold
  · exact hv
  · exact he entry hold

theorem insertAll {entries more : Table Value} (he : EntriesApart g entries)
    (hm : EntriesApart g more) : EntriesApart g (entries.insertAll more) :=
  fun entry h => (Table.mem_insertAll h).elim (hm entry) (he entry)

theorem zip {names : List String} {vs : List Value} (hv : ValuesApart g vs) :
    EntriesApart g (names.zip vs) :=
  fun entry hm => hv entry.2 (List.of_mem_zip hm).2

theorem addMissing {s : Scope} {entries : Table Value} (hs : EntriesApart g s.bindings)
    (he : EntriesApart g entries) :
    EntriesApart g (entries.foldl
      (fun t e => if t.contains e.1 then t else t.define e.1 e.2) s).bindings :=
  fun entry hm => (Heap.mem_addMissing hm).elim (he entry) (hs entry)

end EntriesApart

namespace Heap.Apart

variable {h : Heap}

theorem newStamp (hh : h.Apart g) : h.newStamp.2.Apart g :=
  ⟨hh.allocated, hh.bindings, hh.items⟩

theorem newScope (hh : h.Apart g) {s : Scope} (hs : EntriesApart g s.bindings) :
    (h.newScope s).2.Apart g := by
  refine ⟨(extends_newScope h s).allocated hh.allocated, fun e => ?_, hh.items⟩
  rw [scope_newScope]
  split
  · exact hs
  · exact hh.bindings e

/-- A scope that is made is another one. -/
theorem newScope_ne (hh : h.Apart g) (s : Scope) : (h.newScope s).1 ≠ g := by
  rintro rfl
  exact Nat.lt_irrefl _ hh.allocated

theorem modifyScope (hh : h.Apart g) {e : ScopeRef} {f : Scope → Scope}
    (hf : EntriesApart g (f (h.scope e)).bindings) : (h.modifyScope e f).Apart g := by
  refine ⟨?_, fun q => ?_, hh.items⟩
  · rw [Allocated, size_modifyScope]
    exact hh.allocated
  · by_cases he : h.Allocated e
    · rw [scope_modifyScope h e q f he]
      split
      · exact hf
      · exact hh.bindings q
    · rw [scope_modifyScope_missing h e q f he]
      exact hh.bindings q

theorem define (hh : h.Apart g) (e : ScopeRef) (name : String) {v : Value} (hv : v.Apart g) :
    (h.modifyScope e (·.define name v)).Apart g :=
  hh.modifyScope ((hh.bindings e).insert name hv)

theorem defineAll (hh : h.Apart g) (e : ScopeRef) {entries : Table Value}
    (he : EntriesApart g entries) : (h.modifyScope e (·.defineAll entries)).Apart g :=
  hh.modifyScope ((hh.bindings e).insertAll he)

theorem remove (hh : h.Apart g) (e : ScopeRef) (name : String) :
    (h.modifyScope e (·.remove name)).Apart g :=
  hh.modifyScope fun entry hm => hh.bindings e entry (Table.mem_erase hm)

theorem mergeInto (hh : h.Apart g) (target source : ScopeRef) :
    (h.mergeInto target source).Apart g := by
  unfold Heap.mergeInto
  split
  · exact hh
  · exact hh.defineAll target (hh.bindings source)

theorem mergeMissing (hh : h.Apart g) (target source : ScopeRef) :
    (h.mergeMissing target source).Apart g := by
  unfold Heap.mergeMissing
  split
  · exact hh
  · exact hh.modifyScope ((hh.bindings target).addMissing (hh.bindings source))

theorem newList (hh : h.Apart g) {items : Array Value} (hi : ValuesApart g items.toList) :
    (h.newList items).2.Apart g := by
  refine ⟨hh.allocated, hh.bindings, fun l => ?_⟩
  rw [items_newList]
  split
  · exact hi
  · exact hh.items l

theorem modifyList (hh : h.Apart g) {l : ListRef} {f : Array Value → Array Value}
    (hf : ValuesApart g (f (h.items l)).toList) : (h.modifyList l f).Apart g :=
  ⟨hh.allocated, hh.bindings, fun k v hv =>
    (mem_items_modifyList hv).elim (hh.items k v) (hf v)⟩

end Heap.Apart

/-! ### What a host follows -/

/-- The value that the event tells the setter of the name. -/
def Event.notifies (g : ScopeRef) (name : String) : Event → Option Value
  | .wrote e written value _ => if e = g ∧ written = name then some value else none
  | _ => none

/-- The values that the setter of a name was told of; the last one stands first. -/
def notified (g : ScopeRef) (name : String) (events : List Event) : List Value :=
  events.filterMap (·.notifies g name)

/-- A name whose writes are followed from a moment on, with the journal and the own binding of the
name at that moment, and a notification that is waited for, with the journal before it. -/
structure Setter where
  name : String
  journal : List Event
  before : Option Value
  value : Value
  shown : String
  earlier : List Event

/-- The journal right after the notification. -/
def Setter.moment (x : Setter) (g : ScopeRef) : List Event :=
  .wrote g x.name x.value x.shown :: x.earlier

/-- The globals, perhaps with a setter. Programs that are followed for a setter include nothing. -/
structure Watch where
  globals : ScopeRef
  setter : Option Setter

/-- The notification that is waited for was just noted: its value is what is stored. -/
structure Setter.Heard (x : Setter) (g : ScopeRef) (w : World) : Prop where
  journal : w.journal = x.moment g
  stored : (w.heap.scope g).bindings.get? x.name = some x.value
  shown : w.heap.display x.value = x.shown

namespace Watch

/-- The globals are as the setter was told last, as long as it is registered. -/
structure Accounted (W : Watch) (w : World) : Prop where
  globals : w.globals = W.globals
  heap : w.heap.Apart W.globals
  tasks : ValuesApart W.globals w.tasks
  account : ∀ x ∈ W.setter, ∃ events, w.journal = events ++ x.journal ∧
    ((w.heap.scope W.globals).watched.contains x.name = true →
      (w.heap.scope W.globals).bindings.get? x.name =
        (notified W.globals x.name events).head?.or x.before)

/-- The notification that is waited for has not come yet. -/
structure Open (W : Watch) (w : World) : Prop where
  accounted : W.Accounted w
  waiting : ∀ x ∈ W.setter, ¬ x.moment W.globals <:+ w.journal

/-- The notification has not come yet, or just now. -/
structure Stored (W : Watch) (w : World) : Prop where
  accounted : W.Accounted w
  heard : ∀ x ∈ W.setter, x.moment W.globals <:+ w.journal → x.Heard W.globals w

/-- What is bound in the scope without telling the host is of no interest to a setter. -/
def Unwatched (W : Watch) (e : ScopeRef) : Prop :=
  e = W.globals → W.setter = none

/-- A change of the heap that tells the setter nothing and that it need not be told. -/
def Spares (W : Watch) (h h' : Heap) : Prop :=
  ∀ x ∈ W.setter, (h'.scope W.globals).watched.contains x.name = true →
    (h.scope W.globals).watched.contains x.name = true ∧
      (h'.scope W.globals).bindings.get? x.name = (h.scope W.globals).bindings.get? x.name

variable {W : Watch}

theorem unwatched_of_ne {e : ScopeRef} (he : e ≠ W.globals) : W.Unwatched e :=
  fun heq => absurd heq he

theorem unwatched_of_none (hW : W.setter = none) (e : ScopeRef) : W.Unwatched e :=
  fun _ => hW

/-! ### Changes that a setter is not told of -/

theorem Spares.of_scope {h h' : Heap} (hs : h'.scope W.globals = h.scope W.globals) :
    W.Spares h h' := by
  intro x _ hw
  rw [hs] at hw ⊢
  exact ⟨hw, rfl⟩

theorem Spares.newScope {h : Heap} (hh : h.Apart W.globals) (s : Scope) :
    W.Spares h (h.newScope s).2 :=
  .of_scope (Heap.scope_newScope_old h s _ hh.allocated)

theorem Spares.modifyScope {e : ScopeRef} (he : W.Unwatched e) (h : Heap) (f : Scope → Scope) :
    W.Spares h (h.modifyScope e f) := by
  by_cases heq : e = W.globals
  · intro x hx
    rw [he heq] at hx
    cases hx
  · exact .of_scope (Heap.scope_modifyScope_ne h e _ f (Ne.symm heq))

/-- A name that is removed has no setter any more. -/
theorem Spares.remove {h : Heap} (hh : h.Apart W.globals) (e : ScopeRef) (name : String) :
    W.Spares h (h.modifyScope e (·.remove name)) := by
  by_cases he : e = W.globals
  · subst he
    intro x _ hw
    rw [Heap.scope_modifyScope_self h _ _ hh.allocated] at hw ⊢
    simp only [Scope.remove, List.contains_iff_mem, List.mem_filter, decide_eq_true_eq] at hw ⊢
    exact ⟨hw.1, Table.get?_erase_ne _ _ _ (Ne.symm hw.2)⟩
  · exact .of_scope (Heap.scope_modifyScope_ne h e _ _ (Ne.symm he))

/-- Where a scope was loaded from is of no interest to a setter. -/
theorem Spares.setOrigin {h : Heap} (hh : h.Apart W.globals) (e : ScopeRef)
    (origin : Option String) :
    W.Spares h (h.modifyScope e fun s => { s with origin := origin }) := by
  intro x _ hw
  by_cases he : e = W.globals
  · subst he
    rw [Heap.scope_modifyScope_self h _ _ hh.allocated] at hw ⊢
    exact ⟨hw, rfl⟩
  · rw [Heap.scope_modifyScope_ne h e _ _ (Ne.symm he)] at hw ⊢
    exact ⟨hw, rfl⟩

theorem Spares.mergeInto {target : ScopeRef} (ht : W.Unwatched target) (h : Heap)
    (source : ScopeRef) : W.Spares h (h.mergeInto target source) := by
  unfold Heap.mergeInto
  split
  · exact .of_scope rfl
  · exact .modifyScope ht h _

theorem Spares.mergeMissing {target : ScopeRef} (ht : W.Unwatched target) (h : Heap)
    (source : ScopeRef) : W.Spares h (h.mergeMissing target source) := by
  unfold Heap.mergeMissing
  split
  · exact .of_scope rfl
  · exact .modifyScope ht h _

theorem Accounted.withHeap {w : World} (hw : W.Accounted w) {h : Heap} (hh : h.Apart W.globals)
    (hs : W.Spares w.heap h) : W.Accounted { w with heap := h } where
  globals := hw.globals
  heap := hh
  tasks := hw.tasks
  account x hx := by
    obtain ⟨events, hj, hb⟩ := hw.account x hx
    refine ⟨events, hj, fun hwatched => ?_⟩
    obtain ⟨hold, hsame⟩ := hs x hx hwatched
    exact hsame.trans (hb hold)

/-- A watch looks at the globals, the heap, the queue and the journal. -/
theorem Open.congr {w v : World} (hw : W.Open w) (hg : v.globals = w.globals)
    (hh : v.heap = w.heap) (ht : v.tasks = w.tasks) (hj : v.journal = w.journal) : W.Open v where
  accounted := {
    globals := hg.trans hw.accounted.globals
    heap := hh ▸ hw.accounted.heap
    tasks := ht ▸ hw.accounted.tasks
    account := by
      rw [hh, hj]
      exact hw.accounted.account }
  waiting := hj ▸ hw.waiting

theorem Open.withHeap {w : World} (hw : W.Open w) {h : Heap} (hh : h.Apart W.globals)
    (hs : W.Spares w.heap h) : W.Open { w with heap := h } :=
  ⟨hw.accounted.withHeap hh hs, hw.waiting⟩

/-- An event other than a write leaves the setter waiting. -/
theorem Open.note {w : World} (hw : W.Open w) {event : Event}
    (hevent : ∀ e name value shown, event ≠ .wrote e name value shown) :
    W.Open { w with journal := event :: w.journal } where
  accounted := {
    globals := hw.accounted.globals
    heap := hw.accounted.heap
    tasks := hw.accounted.tasks
    account := fun x hx => by
      obtain ⟨events, hj, hb⟩ := hw.accounted.account x hx
      refine ⟨event :: events, by rw [hj]; rfl, fun hwatched => ?_⟩
      have hsilent : event.notifies W.globals x.name = none := by
        cases event with
        | wrote e name value shown => exact absurd rfl (hevent e name value shown)
        | _ => rfl
      rw [hb hwatched, notified, notified, List.filterMap_cons_none hsilent] }
  waiting x hx hs := by
    rcases List.suffix_cons_iff.mp hs with heq | hold
    · exact hevent _ _ _ _ (List.cons.inj heq).1.symm
    · exact hw.waiting x hx hold

theorem Open.stored {w : World} (hw : W.Open w) : W.Stored w :=
  ⟨hw.accounted, fun x hx hs => absurd hs (hw.waiting x hx)⟩

/-! ### Writes that a setter is told of -/

end Watch

/-- The world after a binding of a scope was set. -/
def World.write (w : World) (e : ScopeRef) (name : String) (v : Value) : World :=
  let h := w.heap.modifyScope e (·.define name v)
  { w with
    heap := h
    journal := if (h.scope e).watched.contains name then .wrote e name v (h.display v) :: w.journal
      else w.journal }

theorem Run.set_eq (e : ScopeRef) (name : String) (v : Value) (w : World) :
    Run.set e name v w = .done () (w.write e name v) := by
  simp only [Run.set, Run.define, Run.reportWrite, Run.modifyHeap, Run.modify, Run.heap, Run.note,
    bind, Run.andThen, World.write]
  split <;> rfl

namespace Watch

variable {W : Watch}

theorem Accounted.write {w : World} (hw : W.Accounted w) (e : ScopeRef) (name : String) {v : Value}
    (hv : v.Apart W.globals) : W.Accounted (w.write e name v) where
  globals := hw.globals
  heap := hw.heap.define e name hv
  tasks := hw.tasks
  account x hx := by
    obtain ⟨events, hj, hb⟩ := hw.account x hx
    by_cases he : e = W.globals
    · subst he
      -- A write to the globals reports to the setter of the name that is written.
      simp only [World.write, Heap.scope_modifyScope_self _ _ _ hw.heap.allocated, Scope.define,
        Table.get?_insert]
      by_cases hname : name = x.name
      · subst hname
        by_cases hwatched : (w.heap.scope W.globals).watched.contains x.name = true
        · rw [if_pos hwatched]
          exact ⟨_ :: events, by rw [hj]; rfl, fun _ => by simp [notified, Event.notifies]⟩
        · rw [if_neg hwatched]
          exact ⟨events, hj, fun h => absurd h hwatched⟩
      · split
        · exact ⟨_ :: events, by rw [hj]; rfl, fun h => by
            simpa [notified, Event.notifies, hname] using hb h⟩
        · exact ⟨events, hj, fun h => by simpa [hname] using hb h⟩
    · simp only [World.write, Heap.scope_modifyScope_ne _ e W.globals _ (Ne.symm he)]
      split
      · exact ⟨_ :: events, by rw [hj]; rfl, fun h => by
          simpa [notified, Event.notifies, he] using hb h⟩
      · exact ⟨events, hj, hb⟩

/-- If the write is the one that is waited for, then its value is stored when it is noted. -/
theorem Open.write {w : World} (hw : W.Open w) (e : ScopeRef) (name : String) {v : Value}
    (hv : v.Apart W.globals) : W.Stored (w.write e name v) where
  accounted := hw.accounted.write e name hv
  heard x hx hs := by
    by_cases hwatched : ((w.heap.modifyScope e (·.define name v)).scope e).watched.contains name
    · have hjournal : (w.write e name v).journal =
          .wrote e name v ((w.write e name v).heap.display v) :: w.journal := if_pos hwatched
      rw [hjournal] at hs
      rcases List.suffix_cons_iff.mp hs with heq | hold
      · obtain ⟨hevent, -⟩ := List.cons.inj heq
        obtain ⟨rfl, rfl, rfl, hshown⟩ := Event.wrote.inj hevent
        refine ⟨hjournal.trans heq.symm, ?_, hshown.symm⟩
        simp only [World.write, Heap.scope_modifyScope_self _ _ _ hw.accounted.heap.allocated,
          Scope.define]
        exact Table.get?_insert_self _ _ _
      · exact absurd hold (hw.waiting x hx)
    · have hjournal : (w.write e name v).journal = w.journal := if_neg hwatched
      rw [hjournal] at hs
      exact absurd hs (hw.waiting x hx)

end Watch

end ScriptEngine
