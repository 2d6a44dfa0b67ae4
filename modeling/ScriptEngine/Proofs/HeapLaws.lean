import ScriptEngine.Heap

/-! # Laws of the heap

What reading gives after a scope was made or changed, and where the search for a name ends. A heap
is *ordered* if every scope is younger than its parent and than its receiver; in an ordered heap
the search for a name sees no scope that is made later. -/

namespace ScriptEngine

namespace Heap

/-! ### Reading after writing -/

/-- The scope exists. -/
def Allocated (h : Heap) (e : ScopeRef) : Prop :=
  e.index < h.scopes.size

instance (h : Heap) (e : ScopeRef) : Decidable (h.Allocated e) :=
  inferInstanceAs (Decidable (e.index < h.scopes.size))

theorem scope_modifyScope (h : Heap) (e q : ScopeRef) (f : Scope → Scope) (he : h.Allocated e) :
    (h.modifyScope e f).scope q = if q = e then f (h.scope e) else h.scope q := by
  obtain ⟨i⟩ := e
  obtain ⟨j⟩ := q
  simp only [Allocated] at he
  simp only [scope, modifyScope, Array.getD_eq_getD_getElem?, Array.getElem?_modify,
    ScopeRef.mk.injEq]
  by_cases hij : j = i
  · subst hij
    simp [he]
  · simp [hij, Ne.symm hij]

theorem scope_modifyScope_self (h : Heap) (e : ScopeRef) (f : Scope → Scope)
    (he : h.Allocated e) : (h.modifyScope e f).scope e = f (h.scope e) := by
  simp [scope_modifyScope h e e f he]

theorem scope_modifyScope_ne (h : Heap) (e q : ScopeRef) (f : Scope → Scope) (hq : q ≠ e) :
    (h.modifyScope e f).scope q = h.scope q := by
  obtain ⟨i⟩ := e
  obtain ⟨j⟩ := q
  have hij : i ≠ j := fun hc => hq (by rw [hc])
  simp [scope, modifyScope, Array.getElem?_modify, hij]

/-- A scope that does not exist cannot be changed. -/
theorem scope_modifyScope_missing (h : Heap) (e q : ScopeRef) (f : Scope → Scope)
    (he : ¬ h.Allocated e) : (h.modifyScope e f).scope q = h.scope q := by
  obtain ⟨i⟩ := e
  simp only [Allocated, Nat.not_lt] at he
  simp only [scope, modifyScope, Array.getD_eq_getD_getElem?, Array.getElem?_modify]
  split
  · rename_i hi
    simp only [← hi, Array.getElem?_eq_none he, Option.map_none]
  · rfl

theorem size_modifyScope (h : Heap) (e : ScopeRef) (f : Scope → Scope) :
    (h.modifyScope e f).scopes.size = h.scopes.size := by
  simp [modifyScope]

theorem scope_newScope (h : Heap) (s : Scope) (q : ScopeRef) :
    (h.newScope s).2.scope q = if q.index = h.scopes.size then s else h.scope q := by
  simp only [scope, newScope, Array.getD_eq_getD_getElem?, Array.getElem?_push]
  split <;> rfl

theorem scope_newScope_old (h : Heap) (s : Scope) (q : ScopeRef) (hq : h.Allocated q) :
    (h.newScope s).2.scope q = h.scope q := by
  rw [scope_newScope, if_neg (Nat.ne_of_lt hq)]

theorem scope_unallocated (h : Heap) (q : ScopeRef) (hq : ¬ h.Allocated q) :
    h.scope q = default := by
  simp only [Allocated, Nat.not_lt] at hq
  simp [scope, Array.getElem?_eq_none hq]

/-- Adding what a scope does not contain yet brings in nothing else. -/
theorem mem_addMissing {s : Scope} {entries : Table Value} {entry : String × Value}
    (h : entry ∈ (entries.foldl
      (fun t e => if t.contains e.1 then t else t.define e.1 e.2) s).bindings) :
    entry ∈ entries ∨ entry ∈ s.bindings := by
  induction entries generalizing s with
  | nil => exact .inr h
  | cons first rest ih =>
    rcases ih h with hrest | hold
    · exact .inl (List.mem_cons_of_mem _ hrest)
    · dsimp only at hold
      split at hold
      · exact .inr hold
      · rcases Table.mem_insert hold with rfl | hs
        · exact .inl List.mem_cons_self
        · exact .inr hs

/-! ### Ordered heaps -/

/-- Every scope is younger than the scopes that it refers to. -/
structure Ordered (h : Heap) : Prop where
  parent : ∀ e p : ScopeRef, (h.scope e).parent = some p → p.index < e.index
  receiver : ∀ e r : ScopeRef, (h.scope e).receiver = some r → r.index < e.index

theorem Ordered.parent_allocated {h : Heap} (ho : h.Ordered) {e p : ScopeRef}
    (he : h.Allocated e) (hp : (h.scope e).parent = some p) : h.Allocated p :=
  Nat.lt_trans (ho.parent e p hp) he

theorem Ordered.receiver_allocated {h : Heap} (ho : h.Ordered) {e r : ScopeRef}
    (he : h.Allocated e) (hr : (h.scope e).receiver = some r) : h.Allocated r :=
  Nat.lt_trans (ho.receiver e r hr) he

/-! ### The search for a name -/

/-- The receiver that answers a search for the name in a scope. -/
def answering (h : Heap) (e : ScopeRef) (name : String) : Option ScopeRef :=
  (h.scope e).receiver.filter fun r => (h.scope r).contains name

theorem locate_eq (h : Heap) (e : ScopeRef) (name : String) (ho : h.Ordered) :
    h.locate e name =
      if (h.scope e).contains name then some e
      else match h.answering e name with
        | some r => some r
        | none => match (h.scope e).parent with
          | some p => h.locate p name
          | none => none := by
  rw [locate]
  cases ha : h.answering e name with
  | some r =>
    simp only [answering] at ha
    simp only [ha]
  | none =>
    simp only [answering] at ha
    cases hp : (h.scope e).parent with
    | none => simp only [ha]
    | some p => simp only [ha, ho.parent e p hp, if_true]

theorem answering_eq_some {h : Heap} {e r : ScopeRef} {name : String}
    (hr : h.answering e name = some r) :
    (h.scope e).receiver = some r ∧ (h.scope r).contains name = true := by
  simpa only [answering, Option.filter_eq_some_iff] using hr

/-- The search ends at a scope that contains the name. -/
theorem locate_contains {h : Heap} {name : String} {e found : ScopeRef}
    (hf : h.locate e name = some found) : (h.scope found).contains name = true := by
  induction e using locate.induct h name with
  | case1 e s hc =>
    rw [locate, if_pos hc] at hf
    cases hf
    exact hc
  | case2 e s hc r hr =>
    rw [locate, if_neg hc] at hf
    simp only [s, hr] at hf
    cases hf
    exact (Option.filter_eq_some_iff.mp hr).2
  | case3 e s hc hr p hp hlt ih =>
    rw [locate, if_neg hc] at hf
    simp only [s, hr, hp, hlt, if_true] at hf
    exact ih hf
  | case4 e s hc hr p hp hlt =>
    rw [locate, if_neg hc] at hf
    simp [s, hr, hp, hlt] at hf
  | case5 e s hc hr hp =>
    rw [locate, if_neg hc] at hf
    simp [s, hr, hp] at hf

theorem locate_newScope (h : Heap) (s : Scope) (name : String) (ho : h.Ordered) (e : ScopeRef)
    (he : h.Allocated e) : (h.newScope s).2.locate e name = h.locate e name := by
  obtain ⟨i⟩ := e
  induction i using Nat.strongRecOn with
  | ind i ih =>
    have hself := scope_newScope_old h s ⟨i⟩ he
    have hanswer : ((h.scope ⟨i⟩).receiver.filter fun r =>
        ((h.newScope s).2.scope r).contains name) = h.answering ⟨i⟩ name := by
      simp only [answering]
      cases hr : (h.scope ⟨i⟩).receiver with
      | none => rfl
      | some r =>
        simp only [Option.filter_some, scope_newScope_old h s r (ho.receiver_allocated he hr)]
    rw [locate, hself, hanswer, locate_eq h ⟨i⟩ name ho]
    cases hp : (h.scope ⟨i⟩).parent with
    | none => rfl
    | some p =>
      obtain ⟨j⟩ := p
      have hlt := ho.parent ⟨i⟩ ⟨j⟩ hp
      have hstep := ih j hlt (ho.parent_allocated he hp)
      simp only [hlt, if_true]
      exact hstep ▸ rfl

/-- The search looks at nothing but the scopes. -/
theorem locate_congr (h g : Heap) (name : String) (hs : ∀ q, g.scope q = h.scope q)
    (e : ScopeRef) : g.locate e name = h.locate e name := by
  obtain ⟨i⟩ := e
  induction i using Nat.strongRecOn with
  | ind i ih =>
    rw [locate, locate]
    simp only [hs]
    cases hp : (h.scope ⟨i⟩).parent with
    | none => rfl
    | some p =>
      obtain ⟨j⟩ := p
      by_cases hlt : j < i
      · simp only [hlt, if_true, ih j hlt]
      · simp only [hlt, if_false]

theorem root_congr (h g : Heap) (hs : ∀ q, g.scope q = h.scope q) (e : ScopeRef) :
    g.root e = h.root e := by
  obtain ⟨i⟩ := e
  induction i using Nat.strongRecOn with
  | ind i ih =>
    rw [root, root]
    simp only [hs]
    cases hp : (h.scope ⟨i⟩).parent with
    | none => rfl
    | some p =>
      obtain ⟨j⟩ := p
      by_cases hlt : j < i
      · simp only [hlt, if_true, ih j hlt]
      · simp only [hlt, if_false]

theorem owner_congr (h g : Heap) (name : String) (hs : ∀ q, g.scope q = h.scope q)
    (e : ScopeRef) : g.owner e name = h.owner e name := by
  simp only [owner, locate_congr h g name hs e, root_congr h g hs e, hs]

end Heap

end ScriptEngine
