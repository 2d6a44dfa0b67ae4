import ScriptEngine.Engine
import ScriptEngine.Proofs.HeapLaws

/-! # Scope chains as a store

A name is searched for in a scope, in its receiver, and then in the same way from its parent.
Reading and choosing the scope that a write goes to both stop at the first scope of that order that
contains the name, so that a value that is written is read again from where it was written, and
nothing else is read differently unless the search for it stops at the scope that was written to. -/

namespace ScriptEngine

/-! ### The order of the search -/

namespace Heap

/-- The scopes that a search from `e` looks at, in order. -/
def searchOrder (h : Heap) (e : ScopeRef) : List ScopeRef :=
  e :: (h.scope e).receiver.toList ++
    match (h.scope e).parent with
    | some p => if p.index < e.index then h.searchOrder p else []
    | none => []
termination_by e.index

/-- The first scope in the order of the search that contains the name. -/
def firstWith (h : Heap) (e : ScopeRef) (name : String) : Option ScopeRef :=
  (h.searchOrder e).find? fun q => (h.scope q).contains name

theorem searchOrder_eq {h : Heap} (ho : h.Ordered) (e : ScopeRef) :
    h.searchOrder e =
      e :: (h.scope e).receiver.toList ++ ((h.scope e).parent.map h.searchOrder).getD [] := by
  rw [searchOrder]
  cases hp : (h.scope e).parent with
  | none => rfl
  | some p => simp [ho.parent e p hp]

theorem locate_eq_firstWith (h : Heap) (e : ScopeRef) (name : String) :
    h.locate e name = h.firstWith e name := by
  obtain ⟨i⟩ := e
  induction i using Nat.strongRecOn with
  | ind i ih =>
    have hparent : ∀ p : ScopeRef, p.index < i → h.locate p name =
        (h.searchOrder p).find? fun q => (h.scope q).contains name :=
      fun p hlt => ih p.index hlt
    rw [firstWith, locate, searchOrder, List.cons_append, List.find?_cons, List.find?_append]
    cases hc : (h.scope ⟨i⟩).contains name with
    | true => rfl
    | false =>
      cases hr : (h.scope ⟨i⟩).receiver with
      | none =>
        cases hp : (h.scope ⟨i⟩).parent with
        | none => rfl
        | some p => by_cases hlt : p.index < i <;> simp [hlt, hparent p]
      | some r =>
        cases hrc : (h.scope r).contains name with
        | true => simp [Option.filter_some, hrc]
        | false =>
          cases hp : (h.scope ⟨i⟩).parent with
          | none => simp [Option.filter_some, hrc]
          | some p => by_cases hlt : p.index < i <;> simp [Option.filter_some, hrc, hlt, hparent p]

theorem mem_searchOrder_receiver {h : Heap} {e r : ScopeRef}
    (hr : (h.scope e).receiver = some r) : r ∈ h.searchOrder e := by
  rw [searchOrder]
  simp [hr]

theorem mem_searchOrder_root (h : Heap) (e : ScopeRef) : h.root e ∈ h.searchOrder e := by
  obtain ⟨i⟩ := e
  induction i using Nat.strongRecOn with
  | ind i ih =>
    rw [root, searchOrder]
    cases (h.scope ⟨i⟩).parent with
    | none => simp
    | some p =>
      by_cases hlt : p.index < i
      · simp [hlt, ih p.index hlt]
      · simp [hlt]

/-- Where no scope contains the name, a write goes to the receiver or else to the root. -/
theorem owner_of_firstWith_none {h : Heap} {e : ScopeRef} {name : String}
    (hn : h.firstWith e name = none) :
    h.owner e name = (h.scope e).receiver.getD (h.root e) := by
  rw [owner, locate_eq_firstWith, hn]

theorem owner_of_firstWith_some {h : Heap} {e q : ScopeRef} {name : String}
    (hq : h.firstWith e name = some q) : h.owner e name = q := by
  rw [owner, locate_eq_firstWith, hq]

theorem owner_mem_searchOrder (h : Heap) (e : ScopeRef) (name : String) :
    h.owner e name ∈ h.searchOrder e := by
  cases hf : h.firstWith e name with
  | some q =>
    rw [owner_of_firstWith_some hf]
    exact List.mem_of_find?_eq_some hf
  | none =>
    rw [owner_of_firstWith_none hf]
    cases hr : (h.scope e).receiver with
    | none => exact mem_searchOrder_root h e
    | some r => exact mem_searchOrder_receiver hr

theorem Ordered.searchOrder_allocated {h : Heap} (ho : h.Ordered) {e q : ScopeRef}
    (he : h.Allocated e) (hq : q ∈ h.searchOrder e) : h.Allocated q := by
  obtain ⟨i⟩ := e
  induction i using Nat.strongRecOn with
  | ind i ih =>
    rw [searchOrder_eq ho] at hq
    simp only [List.cons_append, List.mem_cons, List.mem_append, Option.mem_toList] at hq
    rcases hq with rfl | hr | hp
    · exact he
    · exact ho.receiver_allocated he hr
    · cases hparent : (h.scope ⟨i⟩).parent with
      | none => simp [hparent] at hp
      | some p =>
        simp only [hparent, Option.map_some, Option.getD_some] at hp
        exact ih p.index (ho.parent _ p hparent) (ho.parent_allocated he hparent) hp

/-! ### The search after a write -/

section Written

variable {h : Heap} {target : ScopeRef} {name : String} {value : Value}

/-- The heap with the name bound in one scope. -/
def written (h : Heap) (target : ScopeRef) (name : String) (value : Value) : Heap :=
  h.modifyScope target (·.define name value)

theorem scope_written (ht : h.Allocated target) (q : ScopeRef) :
    (h.written target name value).scope q =
      if q = target then (h.scope target).define name value else h.scope q :=
  scope_modifyScope h target q _ ht

theorem get?_written (ht : h.Allocated target) (q : ScopeRef) (m : String) :
    ((h.written target name value).scope q).bindings.get? m =
      if q = target ∧ name = m then some value else (h.scope q).bindings.get? m := by
  rw [scope_written ht]
  by_cases hq : q = target
  · subst hq
    simp [Scope.define, Table.get?_insert]
  · simp [hq]

theorem tracked_written (name : String) (value : Value) (ht : h.Allocated target) (q : ScopeRef) :
    ((h.written target name value).scope q).tracked = (h.scope q).tracked := by
  rw [scope_written ht]
  split
  · next hq => rw [hq]; rfl
  · rfl

theorem contains_written (ht : h.Allocated target) (q : ScopeRef) (m : String) :
    ((h.written target name value).scope q).contains m =
      (decide (q = target ∧ name = m) || (h.scope q).contains m) := by
  rw [Scope.contains, Scope.contains, Table.contains, Table.contains, get?_written ht,
    tracked_written name value ht]
  by_cases hq : q = target ∧ name = m <;> simp [hq]

theorem searchOrder_written (ht : h.Allocated target) (e : ScopeRef) :
    (h.written target name value).searchOrder e = h.searchOrder e := by
  have hlinks : ∀ q, ((h.written target name value).scope q).parent = (h.scope q).parent ∧
      ((h.written target name value).scope q).receiver = (h.scope q).receiver := by
    intro q
    rw [scope_written ht]
    split
    · next hq => rw [hq]; exact ⟨rfl, rfl⟩
    · exact ⟨rfl, rfl⟩
  obtain ⟨i⟩ := e
  induction i using Nat.strongRecOn with
  | ind i ih =>
    rw [searchOrder, searchOrder, (hlinks _).1, (hlinks _).2]
    cases (h.scope ⟨i⟩).parent with
    | none => rfl
    | some p =>
      by_cases hlt : p.index < i
      · simp [hlt, ih p.index hlt]
      · simp [hlt]

theorem firstWith_written_other (ht : h.Allocated target) (e : ScopeRef) {m : String}
    (hm : m ≠ name) :
    (h.written target name value).firstWith e m = h.firstWith e m := by
  have hcontains : ∀ q, ((h.written target name value).scope q).contains m =
      (h.scope q).contains m := by
    intro q
    simp [contains_written ht, Ne.symm hm]
  simp only [firstWith, searchOrder_written ht, hcontains]

/-- A search for the name that does not stop at the scope that was written to stops where it did
before. -/
theorem firstWith_written_same (ht : h.Allocated target) (e : ScopeRef)
    (hother : (h.written target name value).firstWith e name ≠ some target) :
    (h.written target name value).firstWith e name = h.firstWith e name := by
  have hcontains : ∀ q, q ≠ target → ((h.written target name value).scope q).contains name =
      (h.scope q).contains name := by
    intro q hq
    simp [contains_written ht, hq]
  have htarget : ((h.written target name value).scope target).contains name = true := by
    simp [contains_written ht]
  simp only [firstWith, searchOrder_written ht] at hother ⊢
  generalize h.searchOrder e = order at hother ⊢
  induction order with
  | nil => rfl
  | cons q rest ih =>
    by_cases hq : q = target
    · simp [hq, htarget] at hother
    · cases hc : (h.scope q).contains name with
      | true => simp [hcontains q hq, hc]
      | false =>
        simp only [List.find?_cons, hcontains q hq, hc] at hother ⊢
        exact ih hother

theorem firstWith_written_owner (e : ScopeRef) (ht : h.Allocated (h.owner e name)) :
    (h.written (h.owner e name) name value).firstWith e name = some (h.owner e name) := by
  -- A search that stops elsewhere stopped there before: at the owner, or nowhere at all.
  refine Decidable.byContradiction fun hother => ?_
  have hsame := firstWith_written_same ht e hother
  cases hf : h.firstWith e name with
  | some q =>
    rw [hsame, hf, owner_of_firstWith_some hf] at hother
    exact hother rfl
  | none =>
    rw [hf, firstWith, List.find?_eq_none] at hsame
    have hmem := owner_mem_searchOrder h e name
    rw [searchOrder_written ht] at hsame
    have hcontains := hsame _ hmem
    simp [contains_written ht] at hcontains

end Written

end Heap

/-! ### Values of the host -/

/-- The next value of each kind gets the same identity in both worlds. -/
structure World.SameNext (w w' : World) : Prop where
  stamps : w.heap.stamps = w'.heap.stamps
  lists : w.heap.lists.size = w'.heap.lists.size

namespace Run

/-- The two computations have the same result, and the worlds that they end in again make the same
values. -/
def SameResult {α : Type} (x : Run α) (w w' : World) : Prop :=
  ∃ a w₁ w₁', x w = .done a w₁ ∧ x w' = .done a w₁' ∧ w₁.SameNext w₁'

theorem SameResult.andThen {α β : Type} {x : Run α} {f : α → Run β} {w w' : World}
    (hx : SameResult x w w') (hf : ∀ a w₁ w₁', w₁.SameNext w₁' → SameResult (f a) w₁ w₁') :
    SameResult (x.andThen f) w w' := by
  obtain ⟨a, w₁, w₁', hw, hw', hnext⟩ := hx
  obtain ⟨b, w₂, w₂', hb, hb', hnext'⟩ := hf a w₁ w₁' hnext
  refine ⟨b, w₂, w₂', ?_, ?_, hnext'⟩
  · simp only [Run.andThen, hw, hb]
  · simp only [Run.andThen, hw', hb']

theorem SameResult.newNumber (n : Single) {w w' : World} (hn : w.SameNext w') :
    SameResult (newNumber n) w w' := by
  refine ⟨.number w.heap.stamps n, _, { w' with heap := w'.heap.newStamp.2 }, rfl, ?_, ?_⟩
  · rw [hn.stamps]
    rfl
  · exact ⟨congrArg (· + 1) hn.stamps, hn.lists⟩

theorem SameResult.newText (s : String) {w w' : World} (hn : w.SameNext w') :
    SameResult (newText s) w w' := by
  refine ⟨.text w.heap.stamps s, _, { w' with heap := w'.heap.newStamp.2 }, rfl, ?_, ?_⟩
  · rw [hn.stamps]
    rfl
  · exact ⟨congrArg (· + 1) hn.stamps, hn.lists⟩

theorem SameResult.newList (items : Array Value) {w w' : World} (hn : w.SameNext w') :
    SameResult (newList items) w w' := by
  refine ⟨.list ⟨w.heap.lists.size⟩, _, { w' with heap := (w'.heap.newList items).2 }, rfl, ?_, ?_⟩
  · rw [hn.lists]
    rfl
  · exact ⟨hn.stamps, by simp [Heap.newList, hn.lists]⟩

mutual

theorem SameResult.fromHost {w w' : World} (hn : w.SameNext w') :
    ∀ v : HostValue, SameResult (fromHost v) w w'
  | .null => ⟨.null, w, w', rfl, rfl, hn⟩
  | .bool _ => SameResult.newNumber _ hn
  | .number _ => SameResult.newNumber _ hn
  | .text s => SameResult.newText s hn
  | .list items =>
    (SameResult.fromHosts hn items).andThen fun _ _ _ hn => SameResult.newList _ hn

theorem SameResult.fromHosts {w w' : World} (hn : w.SameNext w') :
    ∀ vs : List HostValue, SameResult (fromHosts vs) w w'
  | [] => ⟨[], w, w', rfl, rfl, hn⟩
  | v :: vs =>
    (SameResult.fromHost hn v).andThen fun a _ _ hn =>
      (SameResult.fromHosts hn vs).andThen fun rest w₁ w₁' hn => ⟨a :: rest, w₁, w₁', rfl, rfl, hn⟩

end

/-! ### Reading -/

theorem get_of_firstWith_some {w : World} {e q : ScopeRef} {name : String}
    (hq : w.heap.firstWith e name = some q) : get e name w = getLocal q name w := by
  rw [← Heap.locate_eq_firstWith] at hq
  simp only [get, heap, Bind.bind, Run.andThen, hq]

theorem get_of_firstWith_none {w : World} {e : ScopeRef} {name : String}
    (hn : w.heap.firstWith e name = none) : get e name w = .done none w := by
  rw [← Heap.locate_eq_firstWith] at hn
  simp only [get, heap, Bind.bind, Run.andThen, hn]
  rfl

theorem getLocal_tracked {w : World} {q : ScopeRef} {name : String}
    (ht : (w.heap.scope q).tracked.contains name = true) :
    getLocal q name w = (readCell name).andThen (fun v => Run.done (some v)) w := by
  simp only [getLocal, heap, Bind.bind, Run.andThen, ht, if_true]
  rfl

theorem getLocal_untracked {w : World} {q : ScopeRef} {name : String}
    (ht : (w.heap.scope q).tracked.contains name = false) :
    getLocal q name w = .done ((w.heap.scope q).bindings.get? name) w := by
  simp only [getLocal, heap, Bind.bind, Run.andThen, ht]
  rfl

theorem getLocal_done (q : ScopeRef) (name : String) (w : World) :
    ∃ x w', getLocal q name w = .done x w' ∧ x.isSome = (w.heap.scope q).contains name := by
  cases ht : (w.heap.scope q).tracked.contains name with
  | true =>
    -- What the getter gives is made anew, but it is made.
    have hnext : World.SameNext { w with journal := .read name :: w.journal }
      { w with journal := .read name :: w.journal } := ⟨rfl, rfl⟩
    obtain ⟨a, w₁, _, ha, -, -⟩ := SameResult.fromHost hnext ((w.cells.get? name).getD .null)
    refine ⟨some a, w₁, ?_, ?_⟩
    · rw [getLocal_tracked ht]
      simp only [readCell, note, modify, world, Bind.bind, Run.andThen, ha]
      rfl
    · rw [Scope.contains, ht, Bool.or_true]
      rfl
  | false =>
    refine ⟨_, w, getLocal_untracked ht, ?_⟩
    rw [Scope.contains, Table.contains, ht, Bool.or_false]

theorem get_done (e : ScopeRef) (name : String) (w : World) :
    ∃ x w', get e name w = .done x w' ∧ x.isSome = (w.heap.firstWith e name).isSome := by
  cases hf : w.heap.firstWith e name with
  | none => exact ⟨none, w, get_of_firstWith_none hf, rfl⟩
  | some q =>
    obtain ⟨x, w', hx, hsome⟩ := getLocal_done q name w
    have hcontains : (w.heap.scope q).contains name = true := by
      simpa using List.find?_some hf
    exact ⟨x, w', by rw [get_of_firstWith_some hf, hx], by rw [hsome, hcontains]; rfl⟩

end Run

/-- What reading the name in the scope gives. -/
def World.reads (w : World) (e : ScopeRef) (name : String) : Option Value :=
  match Run.get e name w with
  | .done x _ => x
  | _ => none

namespace Run

theorem get_reads (e : ScopeRef) (name : String) (w : World) :
    ∃ w', get e name w = .done (w.reads e name) w' := by
  obtain ⟨x, w', hx, -⟩ := get_done e name w
  exact ⟨w', by rw [World.reads, hx]⟩

theorem isSome_reads (e : ScopeRef) (name : String) (w : World) :
    (w.reads e name).isSome = (w.heap.firstWith e name).isSome := by
  obtain ⟨x, w', hx, hsome⟩ := get_done e name w
  rw [World.reads, hx, hsome]

/-- The first of some scopes that gives a value for the name is read, one after the other. -/
def getFirst (name : String) : List ScopeRef → Run (Option Value)
  | [] => Run.done none
  | q :: rest => do
    match ← getLocal q name with
    | some v => return some v
    | none => getFirst name rest

/-- Reading tries the scopes one after the other; those that give nothing are not noticed. -/
theorem getFirst_eq (name : String) (order : List ScopeRef) (w : World) :
    getFirst name order w =
      match order.find? fun q => (w.heap.scope q).contains name with
      | some q => getLocal q name w
      | none => .done none w := by
  induction order with
  | nil => rfl
  | cons q rest ih =>
    cases hc : (w.heap.scope q).contains name with
    | true =>
      obtain ⟨x, w', hx, hsome⟩ := getLocal_done q name w
      rw [hc] at hsome
      obtain ⟨v, rfl⟩ := Option.isSome_iff_exists.mp hsome
      simp only [getFirst, Bind.bind, Run.andThen, List.find?_cons, hc, hx]
      rfl
    | false =>
      have htracked : (w.heap.scope q).tracked.contains name = false := by
        cases ht : (w.heap.scope q).tracked.contains name with
        | false => rfl
        | true => rw [Scope.contains, ht, Bool.or_true] at hc; cases hc
      have hnone : (w.heap.scope q).bindings.get? name = none := by
        rw [Scope.contains, htracked, Bool.or_false, Table.contains] at hc
        simpa using hc
      simp only [getFirst, Bind.bind, Run.andThen, List.find?_cons, hc,
        getLocal_untracked htracked, hnone]
      exact ih

theorem get_eq_getFirst (e : ScopeRef) (name : String) (w : World) :
    get e name w = getFirst name (w.heap.searchOrder e) w := by
  rw [getFirst_eq]
  cases hf : w.heap.firstWith e name with
  | some q =>
    rw [get_of_firstWith_some hf]
    rw [Heap.firstWith] at hf
    rw [hf]
  | none =>
    rw [get_of_firstWith_none hf]
    rw [Heap.firstWith] at hf
    rw [hf]

/-! ### Writing -/

theorem set_done (target : ScopeRef) (name : String) (value : Value) (w : World) :
    ∃ events, set target name value w =
      .done () { w with heap := w.heap.written target name value, journal := events } := by
  simp only [set, define, modifyHeap, modify, reportWrite, heap, Bind.bind, Run.andThen]
  split
  · exact ⟨_, rfl⟩
  · exact ⟨_, rfl⟩

end Run

section Written

variable {w : World} {target : ScopeRef} {name : String} {value : Value} {events : List Event}

/-- The world with the name bound in one scope, and perhaps a report of that. -/
abbrev World.written (w : World) (target : ScopeRef) (name : String) (value : Value)
    (events : List Event) : World :=
  { w with heap := w.heap.written target name value, journal := events }

theorem getLocal_written (ht : w.heap.Allocated target) (value : Value) (events : List Event)
    {q : ScopeRef} {m : String} (hother : q ≠ target ∨ m ≠ name) :
    ∃ x w₁ w₂, Run.getLocal q m w = .done x w₁ ∧
      Run.getLocal q m (w.written target name value events) = .done x w₂ := by
  have htracked := Heap.tracked_written name value ht q
  cases hc : (w.heap.scope q).tracked.contains m with
  | true =>
    have hnext : World.SameNext { w with journal := .read m :: w.journal }
        { w.written target name value events with journal := .read m :: events } := ⟨rfl, rfl⟩
    obtain ⟨a, w₁, w₂, ha, ha', -⟩ :=
      Run.SameResult.fromHost hnext ((w.cells.get? m).getD .null)
    refine ⟨some a, w₁, w₂, ?_, ?_⟩
    · rw [Run.getLocal_tracked hc]
      simp only [Run.readCell, Run.note, Run.modify, Run.world, Bind.bind, Run.andThen, ha]
      rfl
    · have hthere : ((w.written target name value events).heap.scope q).tracked.contains m =
          true := by
        rw [htracked, hc]
      rw [Run.getLocal_tracked hthere]
      simp only [Run.readCell, Run.note, Run.modify, Run.world, Bind.bind, Run.andThen, ha']
      rfl
  | false =>
    have hkept : ((w.heap.written target name value).scope q).bindings.get? m =
        (w.heap.scope q).bindings.get? m := by
      rw [Heap.get?_written ht, if_neg]
      rintro ⟨hq, hm⟩
      rcases hother with h | h
      · exact h hq
      · exact h hm.symm
    have hthere : ((w.written target name value events).heap.scope q).tracked.contains m =
        false := by
      rw [htracked, hc]
    refine ⟨_, w, w.written target name value events, Run.getLocal_untracked hc, ?_⟩
    rw [Run.getLocal_untracked hthere, hkept]

/-- A name is read as before where the search for it stops at the same scope, and something else is
read there. -/
theorem reads_written (ht : w.heap.Allocated target) {e : ScopeRef} {m : String}
    (hsame : (w.heap.written target name value).firstWith e m = w.heap.firstWith e m)
    (hother : (w.heap.written target name value).firstWith e m ≠ some target ∨ m ≠ name) :
    (w.written target name value events).reads e m = w.reads e m := by
  rw [World.reads, World.reads]
  have hthere : (w.written target name value events).heap.firstWith e m =
      w.heap.firstWith e m := hsame
  cases hf : w.heap.firstWith e m with
  | none =>
    rw [hf] at hthere
    rw [Run.get_of_firstWith_none hthere, Run.get_of_firstWith_none hf]
  | some q =>
    have hq : q ≠ target ∨ m ≠ name := by
      rcases hother with h | h
      · rw [hsame, hf] at h
        exact .inl fun hq => h (by rw [hq])
      · exact .inr h
    rw [hf] at hthere
    obtain ⟨x, w₁, w₂, hx, hx'⟩ := getLocal_written ht value events hq
    rw [Run.get_of_firstWith_some hthere, Run.get_of_firstWith_some hf, hx, hx']

end Written

/-- Chains of scopes are a store. Reading gives a value exactly if some scope in the order of the
search contains the name, and then that of the first one, which is also the one that a write goes
to; a name that none contains belongs to the receiver or else to the root. What is written there is
read again, no other name is read differently, and the name itself only where the search for it now
stops at the scope that was written to. Parents and receivers are older than the scopes that refer
to them, so that no chain has a cycle. -/
theorem scope_chain_laws (w : World) (e : ScopeRef) (name : String) (ho : w.heap.Ordered)
    (he : w.heap.Allocated e) :
    (w.heap.searchOrder e = e :: (w.heap.scope e).receiver.toList ++
      ((w.heap.scope e).parent.map w.heap.searchOrder).getD []) ∧
    Run.get e name w = Run.getFirst name (w.heap.searchOrder e) w ∧
    (∃ w', Run.get e name w = .done (w.reads e name) w') ∧
    ((w.reads e name).isSome = true ↔
      ∃ q ∈ w.heap.searchOrder e, (w.heap.scope q).contains name = true) ∧
    (∀ q, w.heap.firstWith e name = some q →
      Run.get e name w = Run.getLocal q name w ∧ w.heap.owner e name = q) ∧
    (w.heap.firstWith e name = none →
      w.heap.owner e name = (w.heap.scope e).receiver.getD (w.heap.root e)) ∧
    ∀ value, ∃ w', Run.set (w.heap.owner e name) name value w = .done () w' ∧
      ((w.heap.scope (w.heap.owner e name)).tracked.contains name = false →
        Run.get e name w' = .done (some value) w') ∧
      (∀ e' m, m ≠ name → w'.reads e' m = w.reads e' m) ∧
      (∀ e', w'.reads e' name ≠ w.reads e' name →
        w'.heap.firstWith e' name = some (w.heap.owner e name)) := by
  have howner : w.heap.Allocated (w.heap.owner e name) :=
    ho.searchOrder_allocated he (Heap.owner_mem_searchOrder _ _ _)
  refine ⟨Heap.searchOrder_eq ho e, Run.get_eq_getFirst e name w, Run.get_reads e name w, ?_, ?_,
    Heap.owner_of_firstWith_none, ?_⟩
  · rw [Run.isSome_reads]
    exact List.find?_isSome
  · intro q hq
    exact ⟨Run.get_of_firstWith_some hq, Heap.owner_of_firstWith_some hq⟩
  · intro value
    obtain ⟨events, hset⟩ := Run.set_done (w.heap.owner e name) name value w
    refine ⟨w.written (w.heap.owner e name) name value events, hset, ?_, ?_, ?_⟩
    · intro htracked
      have hfirst : (w.written (w.heap.owner e name) name value events).heap.firstWith e name =
          some (w.heap.owner e name) := Heap.firstWith_written_owner e howner
      rw [← Heap.tracked_written name value howner] at htracked
      rw [Run.get_of_firstWith_some hfirst, Run.getLocal_untracked htracked,
        Heap.get?_written howner]
      simp
    · intro e' m hm
      exact reads_written howner (Heap.firstWith_written_other howner e' hm) (.inr hm)
    · intro e' hchanged
      refine Decidable.byContradiction fun hother => hchanged ?_
      exact reads_written howner (Heap.firstWith_written_same howner e' hother) (.inl hother)

/-! ### A view in a view -/

/-- Two instances in the globals, a view of the first one and inside it a view of the second. -/
def nestedViews : World :=
  { World.bare {} with
    heap := {
      scopes := #[
        { Scope.fresh Scope.globalName none none with bindings := [("x", .text 0 "outer")] },
        { Scope.fresh "A" (some ⟨0⟩) none with bindings := [("y", .text 1 "first")] },
        Scope.fresh "A" (some ⟨0⟩) (some ⟨1⟩),
        Scope.fresh "B" (some ⟨0⟩) none,
        Scope.fresh "B" (some ⟨2⟩) (some ⟨3⟩)]
      lists := #[]
      stamps := 2 } }

theorem nestedViews_ordered : nestedViews.heap.Ordered := by
  constructor
  · rintro ⟨_ | _ | _ | _ | _ | i⟩ p hp <;> cases hp <;> decide
  · rintro ⟨_ | _ | _ | _ | _ | i⟩ r hr <;> cases hr <;> decide

theorem scope_chain_laws_nested :
    nestedViews.heap.Ordered ∧ nestedViews.heap.Allocated ⟨4⟩ ∧
      nestedViews.heap.owner ⟨4⟩ "y" = ⟨1⟩ ∧
      ∃ w', Run.set ⟨1⟩ "y" .null nestedViews = .done () w' ∧
        Run.get ⟨4⟩ "y" w' = .done (some .null) w' ∧
        w'.reads ⟨0⟩ "x" = nestedViews.reads ⟨0⟩ "x" := by
  have hallocated : nestedViews.heap.Allocated ⟨4⟩ := by decide
  have howner : nestedViews.heap.owner ⟨4⟩ "y" = ⟨1⟩ := by decide +kernel
  obtain ⟨-, -, -, -, -, -, hwrite⟩ :=
    scope_chain_laws nestedViews ⟨4⟩ "y" nestedViews_ordered hallocated
  obtain ⟨w', hset, hget, hother, -⟩ := hwrite .null
  rw [howner] at hset hget
  exact ⟨nestedViews_ordered, hallocated, howner, w', hset, hget (by decide),
    hother ⟨0⟩ "x" (by decide)⟩

end ScriptEngine
