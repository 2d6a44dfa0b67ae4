import ScriptEngine.Proofs.Likeness
import ScriptEngine.Proofs.OpenLists

/-! # Alike heaps

Alike heaps show the same texts, find the same names, and tell the same values apart; what is changed
in both of them in the same way leaves them alike. -/

namespace ScriptEngine

variable {L : Likeness} {n : Extent}

/-! ### Scopes -/

namespace Scope.Alike

variable {s s' : Scope}

theorem name (hs : s.Alike L n s') : s'.name = s.name := by
  rw [hs.rest]

theorem parent (hs : s.Alike L n s') : s'.parent = s.parent := by
  rw [hs.rest]

theorem receiver (hs : s.Alike L n s') : s'.receiver = s.receiver := by
  rw [hs.rest]

theorem origin (hs : s.Alike L n s') : s'.origin = s.origin := by
  rw [hs.rest]

theorem tracked (hs : s.Alike L n s') : s'.tracked = s.tracked := by
  rw [hs.rest]

theorem watched (hs : s.Alike L n s') : s'.watched = s.watched := by
  rw [hs.rest]

theorem contains (hs : s.Alike L n s') (name : String) :
    s'.contains name = s.contains name := by
  simp only [Scope.contains, Table.Related.contains hs.bindings, hs.tracked]

theorem rebound (hs : s.Alike L n s') {t t' : Table Value} (ht : Entries.Alike L n t t') :
    Scope.Alike L n { s with bindings := t } { s' with bindings := t' } :=
  ⟨ht, congrArg (fun r : Scope => { r with bindings := t' }) hs.rest⟩

theorem fresh (name : String) (parent receiver : Option ScopeRef) :
    (Scope.fresh name parent receiver).Alike L n (.fresh name parent receiver) :=
  ⟨.nil, rfl⟩

theorem define (hs : s.Alike L n s') (name : String) {v v' : Value} (hv : v.Alike L n v') :
    (s.define name v).Alike L n (s'.define name v') :=
  hs.rebound (Table.Related.insert hs.bindings name hv)

theorem defineAll (hs : s.Alike L n s') {t t' : Table Value} (ht : Entries.Alike L n t t') :
    (s.defineAll t).Alike L n (s'.defineAll t') :=
  hs.rebound (Table.Related.insertAll hs.bindings ht)

theorem remove (hs : s.Alike L n s') (name : String) :
    (s.remove name).Alike L n (s'.remove name) := by
  refine ⟨Table.Related.erase hs.bindings name, ?_⟩
  have hrest := congrArg (fun r : Scope => { r.remove name with
    bindings := s'.bindings.erase name }) hs.rest
  exact hrest

theorem withOrigin (hs : s.Alike L n s') (origin : Option String) :
    Scope.Alike L n { s with origin := origin } { s' with origin := origin } := by
  refine ⟨hs.bindings, ?_⟩
  have hrest := congrArg (fun r : Scope => { r with origin := origin }) hs.rest
  exact hrest

theorem addMissing (hs : s.Alike L n s') {t t' : Table Value} (ht : Entries.Alike L n t t') :
    Scope.Alike L n
      (t.foldl (fun s e => if s.contains e.1 then s else s.define e.1 e.2) s)
      (t'.foldl (fun s e => if s.contains e.1 then s else s.define e.1 e.2) s') := by
  induction ht generalizing s s' with
  | nil => exact hs
  | @cons a b rest rest' hab _ ih =>
    simp only [List.foldl_cons, ← hab.1, hs.contains]
    split
    · exact ih hs
    · exact ih (hs.define a.1 hab.2)

end Scope.Alike

/-! ### Changes of the heap -/

namespace Heap.Alike

variable {h h' : Heap}

/-- Another pair of heaps in which as much was made or more; scopes and lists that did not change
are related as before. -/
theorem remade (hh : h.Alike L h') {g g' : Heap} (hg : h.extent ≤ g.extent)
    (hscope : ∀ e, Scope.Alike L g.extent (h.scope e) (h'.scope e) →
      Scope.Alike L g.extent (g.scope e) (g'.scope e))
    (hscopes : g'.scopes.size = g.scopes.size)
    (hitems : ∀ l, Values.Alike L g.extent (h.items l).toList (h'.items (L.ref l)).toList →
      Values.Alike L g.extent (g.items l).toList (g'.items (L.ref l)).toList)
    (hothers : ∀ i, (∀ j, L.list j ≠ i) → g'.items ⟨i⟩ = h'.items ⟨i⟩)
    (hlists : g'.lists.size = g.lists.size + L.ahead.lists)
    (hstamps : g'.stamps = g.stamps + L.ahead.stamps) : g.Alike L g' where
  scope e := hscope e ((hh.scope e).mono hg)
  scopes := hscopes
  items l := hitems l ((hh.items l).mono hg)
  others i hi := (hothers i hi).trans (hh.others i hi)
  lists := hlists
  stamps := hstamps
  since := le_trans hh.since hg

theorem stamp_next (hh : h.Alike L h') : h'.stamps = L.stamp h.stamps := by
  rw [hh.stamps, L.stamp_later h.stamps hh.since.1]

theorem list_next (hh : h.Alike L h') : h'.lists.size = L.list h.lists.size := by
  rw [hh.lists, L.list_later h.lists.size hh.since.2]

theorem extent_newStamp (h : Heap) : h.extent ≤ h.newStamp.2.extent :=
  ⟨Nat.le_succ _, Nat.le_refl _⟩

theorem extent_newList (h : Heap) (xs : Array Value) : h.extent ≤ (h.newList xs).2.extent := by
  refine ⟨Nat.le_refl _, ?_⟩
  simp only [Heap.extent, Heap.newList, Array.size_push]
  exact Nat.le_succ _

theorem newStamp (hh : h.Alike L h') : h.newStamp.2.Alike L h'.newStamp.2 := by
  refine hh.remade (extent_newStamp h) (fun _ hs => hs) hh.scopes (fun _ hxs => hxs)
    (fun _ _ => rfl) hh.lists ?_
  simp only [Heap.newStamp, hh.stamps]
  omega

theorem newScope (hh : h.Alike L h') {s s' : Scope} (hs : s.Alike L h.extent s') :
    (h.newScope s).2.Alike L (h'.newScope s').2 := by
  refine hh.remade (le_refl h.extent) (fun e he => ?_) ?_ (fun _ hxs => hxs) (fun _ _ => rfl)
    hh.lists hh.stamps
  · rw [Heap.scope_newScope, Heap.scope_newScope, hh.scopes]
    split
    · exact hs
    · exact he
  · simp only [Heap.newScope, Array.size_push, hh.scopes]

theorem modifyScope (hh : h.Alike L h') (e : ScopeRef) {f f' : Scope → Scope}
    (hf : ∀ s s' : Scope, s.Alike L h.extent s' → (f s).Alike L h.extent (f' s')) :
    (h.modifyScope e f).Alike L (h'.modifyScope e f') := by
  refine hh.remade (le_refl h.extent) (fun q hq => ?_) ?_ (fun _ hxs => hxs) (fun _ _ => rfl)
    hh.lists hh.stamps
  · by_cases ha : h.Allocated e
    · have ha' : h'.Allocated e := by
        rw [Heap.Allocated, hh.scopes]
        exact ha
      rw [Heap.scope_modifyScope h e q f ha, Heap.scope_modifyScope h' e q f' ha']
      split
      · exact hf _ _ (hh.scope e)
      · exact hq
    · have ha' : ¬ h'.Allocated e := by
        rw [Heap.Allocated, hh.scopes]
        exact ha
      rw [Heap.scope_modifyScope_missing h e q f ha, Heap.scope_modifyScope_missing h' e q f' ha']
      exact hq
  · rw [Heap.size_modifyScope, Heap.size_modifyScope, hh.scopes]

theorem newList (hh : h.Alike L h') {xs xs' : Array Value}
    (hxs : Values.Alike L h.extent xs.toList xs'.toList) :
    (h.newList xs).2.Alike L (h'.newList xs').2 := by
  refine hh.remade (extent_newList h xs) (fun _ hs => hs) hh.scopes (fun l hl => ?_)
    (fun i hi => ?_) ?_ hh.stamps
  · have hnew : (L.ref l).index = h'.lists.size ↔ l.index = h.lists.size := by
      rw [hh.list_next]
      exact L.list_injective.eq_iff
    rw [Heap.items_newList, Heap.items_newList]
    by_cases hlast : l.index = h.lists.size
    · rw [if_pos hlast, if_pos (hnew.mpr hlast)]
      exact hxs.mono (extent_newList h xs)
    · rw [if_neg hlast, if_neg (mt hnew.mp hlast)]
      exact hl
  · rw [Heap.items_newList, if_neg]
    rw [hh.list_next]
    exact fun hc => hi _ hc.symm
  · simp only [Heap.newList, Array.size_push, hh.lists]
    omega

theorem modifyList (hh : h.Alike L h') (l : ListRef) {f f' : Array Value → Array Value}
    (hf : ∀ xs xs' : Array Value, Values.Alike L h.extent xs.toList xs'.toList →
      Values.Alike L h.extent (f xs).toList (f' xs').toList) :
    (h.modifyList l f).Alike L (h'.modifyList (L.ref l) f') := by
  have hextent : (h.modifyList l f).extent = h.extent := by
    simp only [Heap.extent, Heap.modifyList, Array.size_modify]
  have hexists : (L.ref l).index < h'.lists.size ↔ l.index < h.lists.size := by
    rw [hh.lists]
    exact L.list_lt_iff hh.since.2 l.index
  refine hh.remade (le_of_eq hextent.symm) (fun _ hs => hs) hh.scopes (fun k hk => ?_)
    (fun i hi => ?_) ?_ hh.stamps
  · have hsame : (L.ref k = L.ref l ∧ (L.ref l).index < h'.lists.size) ↔
        (k = l ∧ l.index < h.lists.size) := and_congr L.ref_injective.eq_iff hexists
    rw [Heap.items_modifyList, Heap.items_modifyList]
    by_cases hchanged : k = l ∧ l.index < h.lists.size
    · rw [if_pos hchanged, if_pos (hsame.mpr hchanged), hextent]
      exact hf _ _ (hh.items l)
    · rw [if_neg hchanged, if_neg (mt hsame.mp hchanged)]
      exact hk
  · rw [Heap.items_modifyList, if_neg]
    rintro ⟨hc, -⟩
    exact hi l.index (congrArg ListRef.index hc).symm
  · simp only [Heap.modifyList, Array.size_modify, hh.lists]

theorem mergeInto (hh : h.Alike L h') (target source : ScopeRef) :
    (h.mergeInto target source).Alike L (h'.mergeInto target source) := by
  unfold Heap.mergeInto
  split
  · exact hh
  · exact hh.modifyScope target fun _ _ hs => hs.defineAll (hh.scope source).bindings

theorem mergeMissing (hh : h.Alike L h') (target source : ScopeRef) :
    (h.mergeMissing target source).Alike L (h'.mergeMissing target source) := by
  unfold Heap.mergeMissing
  split
  · exact hh
  · exact hh.modifyScope target fun _ _ hs => hs.addMissing (hh.scope source).bindings

/-! ### Searches -/

/-- A search looks at nothing of a scope but which names it contains and where it leads to. -/
theorem locate (hh : h.Alike L h') (e : ScopeRef) (name : String) :
    h'.locate e name = h.locate e name := by
  have hcontains : ∀ q, (h'.scope q).contains name = (h.scope q).contains name :=
    fun q => (hh.scope q).contains name
  have hreceiver : ∀ q, (h'.scope q).receiver = (h.scope q).receiver :=
    fun q => (hh.scope q).receiver
  have hparent : ∀ q, (h'.scope q).parent = (h.scope q).parent := fun q => (hh.scope q).parent
  obtain ⟨i⟩ := e
  induction i using Nat.strongRecOn with
  | ind i ih =>
    rw [Heap.locate, Heap.locate]
    simp only [hcontains, hreceiver, hparent]
    cases (h.scope ⟨i⟩).parent with
    | none => rfl
    | some p =>
      obtain ⟨j⟩ := p
      by_cases hlt : j < i
      · simp only [hlt, if_true, ih j hlt]
      · simp only [hlt, if_false]

theorem root (hh : h.Alike L h') (e : ScopeRef) : h'.root e = h.root e := by
  obtain ⟨i⟩ := e
  induction i using Nat.strongRecOn with
  | ind i ih =>
    rw [Heap.root, Heap.root, (hh.scope ⟨i⟩).parent]
    cases (h.scope ⟨i⟩).parent with
    | none => rfl
    | some p =>
      obtain ⟨j⟩ := p
      by_cases hlt : j < i
      · simp only [hlt, if_true, ih j hlt]
      · simp only [hlt, if_false]

theorem origin (hh : h.Alike L h') (e : ScopeRef) : h'.origin e = h.origin e := by
  obtain ⟨i⟩ := e
  induction i using Nat.strongRecOn with
  | ind i ih =>
    rw [Heap.origin, Heap.origin]
    simp only [(hh.scope ⟨i⟩).parent, (hh.scope ⟨i⟩).origin]
    cases (h.scope ⟨i⟩).parent with
    | none => rfl
    | some p =>
      obtain ⟨j⟩ := p
      by_cases hlt : j < i
      · simp only [hlt, if_true, ih j hlt]
      · simp only [hlt, if_false]

theorem storage (hh : h.Alike L h') (e : ScopeRef) : h'.storage e = h.storage e := by
  simp only [Heap.storage, (hh.scope e).receiver]

theorem owner (hh : h.Alike L h') (e : ScopeRef) (name : String) :
    h'.owner e name = h.owner e name := by
  simp only [Heap.owner, hh.locate e name, hh.root e, (hh.scope e).receiver]

/-! ### Texts -/

theorem displayAtom (hh : h.Alike L h') {v v' : Value} (hv : v.Alike L n v') :
    h'.displayAtom v' = h.displayAtom v := by
  cases hv with
  | native hs hm => simp only [Heap.displayAtom, hm.name]
  | cls hc => simp only [Heap.displayAtom, hc.name]
  | instance_ scope => simp only [Heap.displayAtom, (hh.scope scope).name]
  | _ => rfl

/-- The second world may have lists that the first one lacks, which gives its text a greater depth.
No list is as deep as that, since every list that is open is another one that was made. -/
theorem write (hh : h.Alike L h') (depth : Nat) {opened : List ListRef}
    (hroom : L.strict → h.Opened depth opened) {v v' : Value} (hv : v.Alike L h.extent v') :
    h'.write h'.displayAtom (depth + L.ahead.lists) (opened.map L.ref) v' =
      h.write h.displayAtom depth opened v := by
  rw [Heap.write_eq_walk, Heap.write_eq_walk]
  induction depth generalizing opened v v' with
  | zero =>
    have hatom := hh.displayAtom hv
    cases hv with
    | @list l hl =>
      by_cases hopen : l ∈ opened
      · rw [Heap.walk_again hopen, Heap.walk_again (List.mem_map_of_mem hopen)]
      · have hloose : ¬ L.strict := fun hstrict => by
          obtain ⟨_, hd, -⟩ := (hroom hstrict).enter (hl hstrict) hopen
          cases hd
        rw [L.level hloose]
        rfl
    | _ => rw [Heap.walk_atom rfl, Heap.walk_atom rfl, hatom]
  | succ depth ih =>
    have hatom := hh.displayAtom hv
    cases hv with
    | @list l hl =>
      by_cases hopen : l ∈ opened
      · rw [Heap.walk_again hopen, Heap.walk_again (List.mem_map_of_mem hopen)]
      · have hopen' : L.ref l ∉ opened.map L.ref := by
          rwa [List.mem_map_of_injective L.ref_injective]
        have hentered : L.strict → h.Opened depth (l :: opened) := fun hstrict => by
          obtain ⟨_, hd, hentered⟩ := (hroom hstrict).enter (hl hstrict) hopen
          cases hd
          exact hentered
        have hitems := forall₂_map_eq (hh.items l) fun _ _ hx => ih hentered hx
        rw [Heap.walk_enter hopen, Nat.add_right_comm, Heap.walk_enter hopen', ← List.map_cons,
          hitems]
    | _ => rw [Heap.walk_atom rfl, Heap.walk_atom rfl, hatom]

theorem display (hh : h.Alike L h') {v v' : Value} (hv : v.Alike L h.extent v') :
    h'.display v' = h.display v := by
  simp only [Heap.display, hh.lists]
  exact hh.write _ (fun _ => .start h) hv

theorem displayAll (hh : h.Alike L h') {vs vs' : List Value}
    (hvs : Values.Alike L h.extent vs vs') : vs'.map h'.display = vs.map h.display :=
  forall₂_map_eq hvs fun _ _ hv => hh.display hv

theorem label (hh : h.Alike L h') {v v' : Value} (hv : v.Alike L h.extent v') :
    h'.label v' = h.label v := by
  have hshown := hh.display hv
  cases hv with
  | function hs hbody scope => rfl
  | native hs hm => exact hm.name
  | cls hc => exact hc.name
  | _ => exact hshown

theorem isTruthy (hh : h.Alike L h') {v v' : Value} (hv : v.Alike L h.extent v') :
    h'.isTruthy v' = h.isTruthy v := by
  cases hv with
  | list => simp only [Heap.isTruthy, Array.isEmpty, forall₂_size (hh.items _)]
  | _ => rfl

end Heap.Alike

/-! ### The world -/

namespace World.Alike

variable {w w' : World}

theorem globals (hw : w.Alike L w') : w'.globals = w.globals := by
  rw [hw.rest]
  rfl

theorem source (hw : w.Alike L w') : w'.source = w.source := by
  rw [hw.rest]
  rfl

theorem maxDepth (hw : w.Alike L w') : w'.maxDepth = w.maxDepth := by
  rw [hw.rest]
  rfl

theorem depth (hw : w.Alike L w') : w'.depth = w.depth := by
  rw [hw.rest]
  rfl

theorem stopped (hw : w.Alike L w') : w'.stopped = w.stopped := by
  rw [hw.rest]
  rfl

theorem resolver (hw : w.Alike L w') : w'.resolver = w.resolver := by
  rw [hw.rest]
  rfl

theorem files (hw : w.Alike L w') : w'.files = w.files := by
  rw [hw.rest]
  rfl

theorem input (hw : w.Alike L w') : w'.input = w.input := by
  rw [hw.rest]
  rfl

theorem cells (hw : w.Alike L w') : w'.cells = w.cells := by
  rw [hw.rest]
  rfl

theorem seed (hw : w.Alike L w') : w'.seed = w.seed := by
  rw [hw.rest]
  rfl

theorem freed (hw : w.Alike L w') : w'.freed = w.freed := by
  rw [hw.rest]
  rfl

theorem withHeap (hw : w.Alike L w') {h h' : Heap} (hh : h.Alike L h')
    (hx : w.heap.extent ≤ h.extent) :
    World.Alike L { w with heap := h } { w' with heap := h' } := by
  refine ⟨hh, hw.calls, hw.tasks.mono hx, hw.journal.mono hx, ?_⟩
  have hrest := congrArg (fun r : World => { r with heap := h' }) hw.rest
  exact hrest

theorem withCalls (hw : w.Alike L w') {calls calls' : List TraceEntry}
    (hcalls : List.Forall₂ (TraceEntry.Alike L) calls calls') :
    World.Alike L { w with calls := calls } { w' with calls := calls' } := by
  refine ⟨hw.heap, hcalls, hw.tasks, hw.journal, ?_⟩
  have hrest := congrArg (fun r : World => { r with calls := calls' }) hw.rest
  exact hrest

theorem withTasks (hw : w.Alike L w') {tasks tasks' : List Value}
    (htasks : Values.Alike L w.heap.extent tasks tasks') :
    World.Alike L { w with tasks := tasks } { w' with tasks := tasks' } := by
  refine ⟨hw.heap, hw.calls, htasks, hw.journal, ?_⟩
  have hrest := congrArg (fun r : World => { r with tasks := tasks' }) hw.rest
  exact hrest

theorem withEvent (hw : w.Alike L w') {event event' : Event}
    (he : event.Alike L w.heap.extent event') :
    World.Alike L { w with journal := event :: w.journal }
      { w' with journal := event' :: w'.journal } := by
  refine ⟨hw.heap, hw.calls, hw.tasks, hw.journal.cons he, ?_⟩
  have hrest := congrArg (fun r : World => { r with journal := event' :: w'.journal }) hw.rest
  exact hrest

/-- A change that neither reads nor writes what alike worlds may differ in. -/
theorem aside (hw : w.Alike L w') {f : World → World} (hf : ∀ w v, f (w.over v) = (f w).over v) :
    (f w).Alike L (f w') := by
  have hkeeps : ∀ w, f w = (f w).over w := fun w => hf w w
  rw [hkeeps w, hkeeps w']
  refine ⟨hw.heap, hw.calls, hw.tasks, hw.journal, ?_⟩
  calc (f w').over w' = f w' := (hkeeps w').symm
    _ = f (w.over w') := congrArg f hw.rest
    _ = (f w).over w' := hf w w'

end World.Alike

end ScriptEngine
