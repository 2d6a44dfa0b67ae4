import ScriptEngine.Proofs.ExchangedWorlds
import ScriptEngine.Proofs.Inheritance
import ScriptEngine.Proofs.MemberWrite
import ScriptEngine.Proofs.NumberedSessions
import ScriptEngine.Proofs.PositionBlindness
import ScriptEngine.Proofs.ShapeOfSessions

/-! # Compound assignment

`x op= e` evaluates `e` before it reads `x`, and `x = x op e` reads `x` before it evaluates `e`. If
`e` leaves the world as it is, both compute the same value, though perhaps with other identities,
and assign it in the same scope. -/

namespace ScriptEngine

/-! ### Arithmetic -/

/-- The computation makes a value or fails, and changes nothing else. -/
def Run.MakesOrFails {α : Type} (x : Run α) : Prop :=
  ∀ w, (∃ a t, w.heap.stock.Grows t ∧ x w = .done a (w.grown t [])) ∨
    ∃ fault, x w = .failed (.of fault) w

namespace Run.MakesOrFails

variable {α β : Type}

theorem makes {x : Run α} (hx : Makes x) : MakesOrFails x := by
  intro w
  obtain ⟨a, t, ht, ha⟩ := hx w.heap.stock
  exact .inl ⟨a, t, ht, ha w⟩

theorem raise (fault : Fault) : MakesOrFails (raise fault : Run α) :=
  fun _ => .inr ⟨fault, rfl⟩

theorem look {g : World → α} {f : α → Run β} (hf : ∀ a, MakesOrFails (f a)) :
    MakesOrFails ((fun w => .done (g w) w) >>= f) :=
  fun w => hf (g w) w

theorem ofFault (result : Except Fault α) {f : α → Run β} (hf : ∀ a, MakesOrFails (f a)) :
    MakesOrFails (Operators.ofFault result >>= f) := by
  cases result with
  | ok a => exact hf a
  | error fault => exact raise fault

theorem illegal (operand : Value) : MakesOrFails (Operators.illegal operand : Run α) :=
  look fun _ => raise _

theorem concatenated (a b : Value) : MakesOrFails (Operators.concatenated a b) :=
  look fun _ => look fun _ => makes (.newText _)

theorem numberWith (op : Arithmetic) (x : Single) (a b : Value) :
    MakesOrFails (Operators.numberWith op x a b) := by
  have hillegal : MakesOrFails (Operators.illegal b : Run Value) := illegal b
  have htexts := concatenated a b
  cases b with
  | null => exact ofFault _ fun _ => makes (.newNumber _)
  | number stamp y => exact ofFault _ fun _ => makes (.newNumber _)
  | text stamp s =>
    cases op with
    | add => exact htexts
    | _ => exact hillegal
  | _ => exact hillegal

theorem listWith (op : Arithmetic) (l : ListRef) (b : Value) :
    MakesOrFails (Operators.listWith op l b) := by
  refine look fun h => ?_
  have hpush : MakesOrFails (newList ((h.items l).push b)) := makes (.newList _)
  have hillegal : MakesOrFails (Operators.illegal b : Run Value) := illegal b
  cases op with
  | add =>
    cases b with
    | list other => exact look fun _ => makes (.newList _)
    | _ => exact hpush
  | mul => exact hpush
  | sub => exact hillegal
  | div => exact hillegal

/-- Only instances call anything. -/
theorem arithmetic (m : Machine) (op : Arithmetic) {a : Value} (ha : a.instance? = none)
    (b : Value) : MakesOrFails (Operators.arithmetic m op a b) := by
  have htexts := concatenated a b
  cases a with
  | null => exact numberWith op _ .null b
  | number stamp x => exact numberWith op x _ b
  | list l => exact listWith op l b
  | instance_ e => cases ha
  | text | function | native | cls =>
    cases op with
    | add => exact htexts
    | _ => exact illegal b

end Run.MakesOrFails

theorem Operators.arithmetic_machine (m m' : Machine) (op : Arithmetic) {a : Value}
    (ha : a.instance? = none) (b : Value) : arithmetic m op a b = arithmetic m' op a b := by
  cases a with
  | instance_ e => cases ha
  | _ => rfl

/-! ### The two routes -/

namespace Evaluation

open Run

/-- Computes and assigns; a failure is placed at `pos`. -/
def computeInto (target : Run ScopeRef) (name : String) (op : Arithmetic) (pos : Position)
    (a b : Value) : Run Value := do
  let result ← locatedAt pos (Operators.arithmetic idle op a b)
  set (← target) name result
  return result

section Routes

variable {target : Run ScopeRef} {env q : ScopeRef} {name : String} {op : Arithmetic} {a b r : Value}
  {value : Node} {w w' w₁ u : World}

theorem computeInto_done (pos : Position) (hr : Operators.arithmetic idle op a b w = .done r u)
    (hq : target u = .done q u) :
    ∃ v, computeInto target name op pos a b w = .done r v ∧ set q name r u = .done () v := by
  obtain ⟨events, hset⟩ := set_done q name r u
  have hlocated : locatedAt pos (Operators.arithmetic idle op a b) w = .done r u := by
    simp only [locatedAt, onFailure, hr]
  refine ⟨_, ?_, hset⟩
  exact (bind_done hlocated).trans ((bind_done hq).trans (bind_done hset))

theorem computeInto_failed (pos : Position) {fault : Fault}
    (hr : Operators.arithmetic idle op a b w = .failed (.of fault) w) :
    computeInto target name op pos a b w = .failed (.located fault pos) w := by
  simp only [computeInto, Bind.bind, andThen, locatedAt, onFailure, hr]
  rfl

/-- The operand first, then the name through its owner. -/
theorem evaluate_update (pos : Position) {n : Nat} (hrun : w.stopped = false)
    (hvalue : (machine n).evaluate value env w = .done b w₁)
    (hname : get (w₁.heap.owner env name) name w₁ = .done (some a) u)
    (ha : a.instance? = none) :
    (machine (n + 1)).evaluate (.update pos name op value) env w =
      computeInto (Run.done (w₁.heap.owner env name)) name op pos a b u := by
  rw [evaluate_running n _ env w hrun]
  refine (bind_done hvalue).trans ((bind_done (rfl : owner env name w₁ = .done _ w₁)).trans
    ((bind_done hname).trans ?_))
  simp only [Option.getD_some]
  rw [Operators.arithmetic_machine (machine n) idle op ha b]
  rfl

/-- The name first, then the operand, and the owner last. -/
theorem evaluate_expansion (p₁ p₂ p₃ : Position) {n : Nat} (hrun : w.stopped = false)
    (hname : get env name w = .done (some a) w') (hnull : a ≠ .null) (ha : a.instance? = none)
    (hvalue : (machine (n + 1)).evaluate value env w' = .done b w₁) :
    (machine (n + 3)).evaluate
        (.assign p₁ name (.binary p₂ (.arithmetic op) (.read p₃ name) value)) env w =
      computeInto (owner env name) name op p₂ a b w₁ := by
  have hread : (machine (n + 1)).evaluate (.read p₃ name) env w = .done a w' := by
    rw [evaluate_running n _ env w hrun]
    refine (bind_done hname).trans ?_
    cases a with
    | null => exact absurd rfl hnull
    | _ => rfl
  have hbinary : (machine (n + 2)).evaluate
      (.binary p₂ (.arithmetic op) (.read p₃ name) value) env w =
        locatedAt p₂ (Operators.arithmetic idle op a b) w₁ := by
    rw [evaluate_running (n + 1) _ env w hrun]
    refine (bind_done hread).trans ((bind_done hvalue).trans ?_)
    rw [← Operators.arithmetic_machine (machine (n + 1)) idle op ha b]
    rfl
  rw [evaluate_running (n + 2) _ env w hrun]
  show ((machine (n + 2)).evaluate _ env >>= _) w = _
  simp only [computeInto, Bind.bind, andThen, hbinary]

end Routes

/-! ### The same in another world -/

theorem Ends.of_done {node : Node} {e : ScopeRef} {w w₁ : World} {v : Value} {n : Nat}
    (h : (machine n).evaluate node e w = .done v w₁) :
    Ends (·.evaluate node e) w (.done v w₁) :=
  h ▸ ends_of_not_exhausted (fun hm => hm.evaluate node e) fun _ hc => nomatch h.symm.trans hc

theorem Ends.mirrored {ρ : Renaming} {w w' w₁ : World} {node : Node} {e : ScopeRef} {v : Value}
    (hw : w.Alike ρ.likeness w') (he : Ends (·.evaluate node e) w (.done v w₁)) :
    ∃ v' w₁', Ends (·.evaluate node e) w' (.done v' w₁') ∧ v.Alike ρ.likeness w₁.heap.extent v' ∧
      w₁.Alike ρ.likeness w₁' ∧ w.heap.extent ≤ w₁.heap.extent := by
  obtain ⟨-, n, hn⟩ := he
  have hdone : (machine n).evaluate node e w = .done v w₁ := hn n le_rfl
  have hrun := ((Lockstep.machine ρ.likeness n w.frame).evaluate w.heap.extent e
    (rfl : node = node)).run hw rfl le_rfl
  rw [hdone] at hrun
  generalize hr : (machine n).evaluate node e w' = o at hrun
  cases hrun with
  | done hv hw₁ hc hx => exact ⟨_, _, .of_done hr, hv, hw₁, hx⟩

theorem Ends.running {node : Node} {e : ScopeRef} {w w₁ : World} {v : Value}
    (he : Ends (·.evaluate node e) w (.done v w₁)) : w.stopped = false := by
  obtain ⟨-, n, hn⟩ := he
  exact running_of_done (hn (n + 1) (Nat.le_succ n))

end Evaluation

/-- The renaming concerns only what was made after `w`, and both worlds made as much. -/
structure Renaming.Rearranges (π : Renaming) (w : World) : Prop where
  fixes : π.Fixes w.heap.extent
  ahead : π.ahead = ⟨0, 0⟩
  before : π.before = w.journal
  before' : π.before' = w.journal

/-- Two runs from `w` end in the same way: with the same value in the same world, up to the
identities of what they made, or with the same error, at whatever place, and then nothing that `w`
held has changed. -/
inductive World.SameEnd (w : World) : Outcome Value → Outcome Value → Prop
  | done {π : Renaming} {r r' : Value} {v v' : World} (hπ : π.Rearranges w)
    (hr : r.Alike π.likeness v.heap.extent r') (hv : v.Alike π.likeness v') :
    SameEnd w (.done r v) (.done r' v')
  | failed {π : Renaming} {v v' : World} (fault : Fault) (pos pos' : Position)
    (hπ : π.Rearranges w) (hv : v.Alike π.likeness v') (hkept : w.heap.Kept v.heap)
    (hkept' : w.heap.Kept v'.heap) :
    SameEnd w (.failed (.located fault pos) v) (.failed (.located fault pos') v')

/-- The same value in the same world, or the same error in it, at whatever place. -/
inductive Outcome.SameButPlace : Outcome Value → Outcome Value → Prop
  | done (r : Value) (v : World) : SameButPlace (.done r v) (.done r v)
  | failed (fault : Fault) (pos pos' : Position) (v : World) :
    SameButPlace (.failed (.located fault pos) v) (.failed (.located fault pos') v)

namespace Evaluation

open Run

section Ends

variable {w u v : World} {env q : ScopeRef} {name : String} {op : Arithmetic} {a a' b b' : Value}

theorem computeInto_ne_exhausted {target : Run ScopeRef} (pos : Position)
    (ha : a.instance? = none) (htarget : ∀ w, ∃ q, target w = .done q w) (w' : World) :
    computeInto target name op pos a b u ≠ .exhausted w' := by
  rcases MakesOrFails.arithmetic idle op ha b u with ⟨r, t, -, hr⟩ | ⟨fault, hfault⟩
  · obtain ⟨q, hq⟩ := htarget (u.grown t [])
    obtain ⟨z, hz, -⟩ := computeInto_done pos hr hq
    rw [hz]
    exact fun hc => nomatch hc
  · rw [computeInto_failed pos hfault]
    exact fun hc => nomatch hc

/-- From one world both targets lead to the same end. -/
theorem computeInto_same (pos pos' : Position) (ha : a.instance? = none)
    (hq : u.heap.owner env name = q) :
    (computeInto (Run.done q) name op pos a b u).SameButPlace
      (computeInto (owner env name) name op pos' a b u) := by
  rcases MakesOrFails.arithmetic idle op ha b u with ⟨r, t, -, hr⟩ | ⟨fault, hfault⟩
  · have howner : owner env name (u.grown t []) = .done q (u.grown t []) := by
      rw [owner, World.owner_grown, hq]
    obtain ⟨z, hz, hset⟩ := computeInto_done pos hr (rfl : Run.done q _ = .done q _)
    obtain ⟨z', hz', hset'⟩ := computeInto_done pos' hr howner
    cases hset.symm.trans hset'
    rw [hz, hz']
    exact .done r z
  · rw [computeInto_failed pos hfault, computeInto_failed pos' hfault]
    exact .failed fault pos pos' u

/-- Arithmetic without a call gives the same in a renamed world, or fails in the same way. -/
theorem arithmetic_mirrored (op : Arithmetic) {π : Renaming} (hu : u.Alike π.likeness v)
    (ha : a.Alike π.likeness u.heap.extent a') (hb : b.Alike π.likeness u.heap.extent b')
    (hinst : a.instance? = none) (hinst' : a'.instance? = none) :
    (∃ r r' t t', Operators.arithmetic idle op a b u = .done r (u.grown t []) ∧
      Operators.arithmetic idle op a' b' v = .done r' (v.grown t' []) ∧
      r.Alike π.likeness (u.grown t []).heap.extent r' ∧
      (u.grown t []).Alike π.likeness (v.grown t' [])) ∨
    ∃ fault, Operators.arithmetic idle op a b u = .failed (.of fault) u ∧
      Operators.arithmetic idle op a' b' v = .failed (.of fault) v := by
  have hrun : Outcome.Alike π.likeness u.frame _ _ (Operators.arithmetic idle op a b u)
      (Operators.arithmetic idle op a' b' v) :=
    (Lockstep.arithmetic (Lockstep.machine π.likeness 0 u.frame) op ha hb).run hu rfl le_rfl
  rcases MakesOrFails.arithmetic idle op hinst b u with ⟨r, t, -, hr⟩ | ⟨fault, hfault⟩ <;>
    rcases MakesOrFails.arithmetic idle op hinst' b' v with ⟨r', t', -, hr'⟩ | ⟨fault', hfault'⟩
  · rw [hr, hr'] at hrun
    cases hrun with
    | done hvalue hw hc hx => exact .inl ⟨r, r', t, t', hr, hr', hvalue, hw⟩
  · rw [hr, hfault'] at hrun
    cases hrun
  · rw [hfault, hr'] at hrun
    cases hrun
  · rw [hfault, hfault'] at hrun
    generalize hd : Diagnostic.of fault = d, hd' : Diagnostic.of fault' = d' at hrun
    cases hrun with
    | failed hfailed =>
      cases hfailed
      have hsame : fault' = fault :=
        (congrArg Diagnostic.fault hd').trans (congrArg Diagnostic.fault hd).symm
      exact .inr ⟨fault, hfault, hsame ▸ hfault'⟩

/-- So they do from worlds that are equal up to what was made since `w`. -/
theorem computeInto_mirrored {π : Renaming} (pos pos' : Position) (hπ : π.Rearranges w)
    (hu : u.Alike π.likeness v) (ha : a.Alike π.likeness u.heap.extent a')
    (hb : b.Alike π.likeness u.heap.extent b')
    (hinst : a.instance? = none) (hinst' : a'.instance? = none)
    (hq : u.heap.owner env name = q) (hkept : w.heap.Kept u.heap) (hkept' : w.heap.Kept v.heap) :
    w.SameEnd (computeInto (Run.done q) name op pos a b u)
      (computeInto (owner env name) name op pos' a' b' v) := by
  rcases arithmetic_mirrored op hu ha hb hinst hinst' with
    ⟨r, r', t, t', hr, hr', hvalue, hw⟩ | ⟨fault, hfault, hfault'⟩
  · have howner : owner env name (v.grown t' []) = .done q (v.grown t' []) := by
      rw [owner, World.owner_grown, hu.heap.owner, hq]
    obtain ⟨z, hz, hset⟩ := computeInto_done pos hr (rfl : Run.done q _ = .done q _)
    obtain ⟨z', hz', hset'⟩ := computeInto_done pos' hr' howner
    have hsets := (Lockstep.set q name hvalue).run hw rfl le_rfl
    rw [hset, hset'] at hsets
    cases hsets with
    | done _ hafter hc hx =>
      rw [hz, hz']
      exact .done hπ (hvalue.mono hx) hafter
  · rw [computeInto_failed pos hfault, computeInto_failed pos' hfault']
    exact .failed fault pos pos' hπ hu hkept hkept'

end Ends

/-! ### Compound assignment and its expansion -/

section Expansion

variable {w w' w₁ : World} {env : ScopeRef} {name : String} {a b : Value} {value : Node}

/-- Where a name is found, it is read through its owner as from outside. -/
theorem get_owner {u : World} (h : (u.heap.locate env name).isSome = true) :
    get (u.heap.owner env name) name u = get env name u := by
  obtain ⟨q, hq⟩ := Option.isSome_iff_exists.mp h
  have howner : u.heap.owner env name = q := by rw [Heap.owner, hq]
  have hself : u.heap.locate q name = some q := by
    rw [Heap.locate, if_pos (Heap.locate_contains hq)]
  rw [howner, get_of_firstWith_some (u.heap.locate_eq_firstWith q name ▸ hself),
    get_of_firstWith_some (u.heap.locate_eq_firstWith env name ▸ hq)]

theorem locate_isSome (h : get env name w = .done (some a) w') :
    (w.heap.locate env name).isSome = true := by
  rw [Heap.locate_eq_firstWith]
  cases hf : w.heap.firstWith env name with
  | some q => rfl
  | none => cases (get_of_firstWith_none hf).symm.trans h

theorem Ends.update {u : World} (op : Arithmetic) (pos : Position)
    (he : Ends (·.evaluate value env) w (.done b w₁))
    (hname : get (w₁.heap.owner env name) name w₁ = .done (some a) u) (ha : a.instance? = none) :
    Ends (·.evaluate (.update pos name op value) env) w
      (computeInto (Run.done (w₁.heap.owner env name)) name op pos a b u) := by
  obtain ⟨-, fuel, hfuel⟩ := id he
  refine ⟨computeInto_ne_exhausted pos ha fun _ => ⟨_, rfl⟩, fuel + 1, fun n hn => ?_⟩
  obtain ⟨n, rfl⟩ : ∃ k, n = k + 1 := ⟨n - 1, by omega⟩
  exact evaluate_update pos he.running (hfuel n (Nat.le_of_succ_le_succ hn)) hname ha

theorem Ends.expansion {v : World} (op : Arithmetic) (p₁ p₂ p₃ : Position)
    (hrun : w.stopped = false) (hname : get env name w = .done (some a) w') (hnull : a ≠ .null)
    (ha : a.instance? = none) (he : Ends (·.evaluate value env) w' (.done b v)) :
    Ends (·.evaluate (.assign p₁ name (.binary p₂ (.arithmetic op) (.read p₃ name) value)) env) w
      (computeInto (owner env name) name op p₂ a b v) := by
  obtain ⟨-, fuel, hfuel⟩ := he
  refine ⟨computeInto_ne_exhausted p₂ ha fun _ => ⟨_, rfl⟩, fuel + 3, fun n hn => ?_⟩
  obtain ⟨n, rfl⟩ : ∃ k, n = k + 3 := ⟨n - 3, by omega⟩
  exact evaluate_expansion p₁ p₂ p₃ hrun hname hnull ha (hfuel (n + 1) (by omega))

/-- `name` was read as `a` in `w` and `value` evaluated to `b` there. Whichever of the two comes
first, the values and the worlds behind both are the same up to what was made since. -/
def ReadsAlike (w : World) (env : ScopeRef) (name : String) (value : Node) (a b : Value)
    (w' w₁ : World) : Prop :=
  ∃ (π : Renaming) (a₁ : Value) (u : World) (b' : Value) (v : World),
    π.Rearranges w ∧ get env name w₁ = .done (some a₁) u ∧
    Ends (·.evaluate value env) w' (.done b' v) ∧ u.Alike π.likeness v ∧
    a₁.Alike π.likeness u.heap.extent a ∧ b.Alike π.likeness u.heap.extent b' ∧
    u.heap.owner env name = w₁.heap.owner env name ∧ w.heap.Kept u.heap ∧ w.heap.Kept v.heap

theorem read_exchanged (hnum : w.Numbered) (hord : w.heap.Ordered) (henv : w.heap.Allocated env)
    (hx : get env name w = .done (some a) w') (he : Ends (·.evaluate value env) w (.done b w₁))
    (hkept : w.Kept w₁) : ReadsAlike w env name value a b w' w₁ := by
  obtain ⟨-, -, -, -, -, hlater⟩ := he.mirrored hnum
  have hmade : w.heap.stock.Grows w₁.heap.stock := hkept.heap.grows hlater
  -- The same reading in `w`, in `w` with as much beside it as the evaluation makes, and in `w₁`.
  obtain ⟨o, t, events, ht, hfirst, -⟩ :=
    get_grows name w w rfl rfl hord (fun _ _ => rfl) henv
  have hcells := congrArg World.cells hkept.rest
  obtain ⟨o₁, t₁, events₁, ht₁, hbeside, hsecond⟩ :=
    get_grows name (w.grown w₁.heap.stock []) w₁ rfl hcells ⟨hord.parent, hord.receiver⟩
      hkept.heap.scope henv
  obtain ⟨rfl, rfl⟩ := Outcome.done.inj (hfirst.symm.trans hx)
  have hreads := (Lockstep.get env name).run (hnum.grown hmade []) rfl le_rfl
  rw [hfirst, hbeside] at hreads
  obtain ⟨a₁, rfl, ha, hboth⟩ : ∃ a₁, o₁ = some a₁ ∧
      a.Alike (w.besides w₁.heap.stock []).likeness t.extent a₁ ∧
      (w.grown t events).Alike (w.besides w₁.heap.stock []).likeness
        ((w.grown w₁.heap.stock []).grown t₁ events₁) := by
    cases hreads with
    | done hfound hboth hc hx =>
      cases hfound with
      | some ha => exact ⟨_, rfl, ha, hboth⟩
  obtain ⟨b', v, hafter, hb, heval, -⟩ := he.mirrored (hnum.grown ht events)
  have hworlds := World.Alike.exchanged hkept ht hmade ht₁ heval hboth
  have hextent := World.extent_exchanged ht hboth
  have hkeeps : w.heap.Kept (w₁.grown t₁ events₁).heap :=
    ⟨hkept.heap.scope, fun l hl =>
      (ht₁.kept.items l (Nat.lt_of_lt_of_le hl hlater.2)).trans (hkept.heap.items l hl)⟩
  have hfixes := Renaming.fixes_swap w.heap.extent (w₁.heap.stock.beyond w.heap.stock)
    (t.beyond w.heap.stock) w.journal fun i => v.heap.items ⟨i⟩
  exact ⟨_, a₁, _, b', v, ⟨hfixes, rfl, rfl, rfl⟩, hsecond, hafter, hworlds,
    ha.undo (World.exchange_undoes_besides ht hextent),
    (hb.agree (World.besides_agree_exchange hmade)).mono ht₁.extent,
    World.owner_grown _ _ _ _ _, hkeeps,
    hkeeps.renamed hnum.heap (hlater.trans ht₁.extent) hfixes hworlds.heap⟩

/-- What the host does not provide is read as it is bound, before and after. -/
theorem get_untracked (hord : w.heap.Ordered) (henv : w.heap.Allocated env)
    (hkept : w.heap.Kept w₁.heap) (hx : get env name w = .done (some a) w')
    (hu : (w.heap.scope (w.heap.owner env name)).tracked.contains name = false) :
    w' = w ∧ get env name w₁ = .done (some a) w₁ := by
  obtain ⟨q, hq⟩ := Option.isSome_iff_exists.mp (locate_isSome hx)
  have howner : w.heap.owner env name = q := by rw [Heap.owner, hq]
  have hq₁ : w₁.heap.locate env name = some q := (hkept.locate hord henv name).trans hq
  rw [Heap.locate_eq_firstWith] at hq hq₁
  have hallocated : w.heap.Allocated q :=
    hord.searchOrder_allocated henv (List.mem_of_find?_eq_some hq)
  rw [howner] at hu
  have hread : get env name w = .done ((w.heap.scope q).bindings.get? name) w :=
    (get_of_firstWith_some hq).trans (getLocal_untracked hu)
  obtain ⟨hbound, hsame⟩ := Outcome.done.inj (hread.symm.trans hx)
  refine ⟨hsame.symm, ?_⟩
  rw [get_of_firstWith_some hq₁, getLocal_untracked (by rw [hkept.scope q hallocated, hu]),
    hkept.scope q hallocated, hbound]

theorem Ends.unique {x : Machine → Run Value} {o o' : Outcome Value} (h : Ends x w o)
    (h' : Ends x w o') : o = o' := by
  obtain ⟨-, n, hn⟩ := h
  obtain ⟨-, n', hn'⟩ := h'
  exact (hn (max n n') (le_max_left n n')).symm.trans (hn' (max n n') (le_max_right n n'))

/-- `name op= value` and `name = name op value` end in the same way. Where the host does not provide
what the name is bound to, nothing is made by reading it, and not even identities differ. -/
def Expands (w : World) (env : ScopeRef) (name : String) (op : Arithmetic) (value : Node)
    (pos p₁ p₂ p₃ : Position) : Prop :=
  ∃ o o', Ends (·.evaluate (.update pos name op value) env) w o ∧
    Ends (·.evaluate
      (.assign p₁ name (.binary p₂ (.arithmetic op) (.read p₃ name) value)) env) w o' ∧
    w.SameEnd o o' ∧
    ((w.heap.scope (w.heap.owner env name)).tracked.contains name = false → o.SameButPlace o')

theorem ReadsAlike.expands (hreads : ReadsAlike w env name value a b w' w₁) (op : Arithmetic)
    (pos p₁ p₂ p₃ : Position) (hord : w.heap.Ordered) (henv : w.heap.Allocated env)
    (hx : get env name w = .done (some a) w') (hnull : a ≠ .null) (hinst : a.instance? = none)
    (he : Ends (·.evaluate value env) w (.done b w₁)) (hkept : w.Kept w₁) :
    Expands w env name op value pos p₁ p₂ p₃ := by
  obtain ⟨π, a₁, u, b', v, hπ, hname, hafter, hworlds, ha, hb, howner, hkeeps, hkeeps'⟩ := hreads
  have hinst₁ : a₁.instance? = none := by
    cases ha with
    | instance_ => cases hinst
    | _ => rfl
  have hthrough : get (w₁.heap.owner env name) name w₁ = .done (some a₁) u :=
    (get_owner (locate_isSome hname)).trans hname
  refine ⟨_, _, he.update op pos hthrough hinst₁,
    hafter.expansion op p₁ p₂ p₃ he.running hx hnull hinst,
    computeInto_mirrored pos p₂ hπ hworlds ha hb hinst₁ hinst howner hkeeps hkeeps',
    fun huntracked => ?_⟩
  -- Nothing is made by either reading, so both routes compute in `w₁`.
  obtain ⟨rfl, hagain⟩ := get_untracked hord henv hkept.heap hx huntracked
  obtain ⟨hbound, rfl⟩ := Outcome.done.inj (hagain.symm.trans hname)
  obtain rfl := Option.some.inj hbound
  obtain ⟨rfl, rfl⟩ := Outcome.done.inj (he.unique hafter)
  exact computeInto_same pos p₂ hinst rfl

/-- If evaluating `value` gives a value and leaves the world as it is, then `name op= value` and
`name = name op value` end in the same way. -/
theorem compound_assignment_expands (op : Arithmetic) (pos p₁ p₂ p₃ : Position)
    (hnum : w.Numbered) (hord : w.heap.Ordered) (henv : w.heap.Allocated env)
    (hx : get env name w = .done (some a) w') (hnull : a ≠ .null) (hinst : a.instance? = none)
    (he : Ends (·.evaluate value env) w (.done b w₁)) (hkept : w.Kept w₁) :
    Expands w env name op value pos p₁ p₂ p₃ :=
  have hreads := read_exchanged hnum hord henv hx he hkept
  hreads.expands op pos p₁ p₂ p₃ hord henv hx hnull hinst he hkept

/-- Whatever a host did so far, so it is in the world that the next step starts in. -/
theorem expands_in_session {c : Config} {s : Session} (hs : Session.Reached c s) (op : Arithmetic)
    (pos p₁ p₂ p₃ : Position) (henv : s.opened.heap.Allocated env)
    (hx : get env name s.opened = .done (some a) w') (hnull : a ≠ .null)
    (hinst : a.instance? = none) (he : Ends (·.evaluate value env) s.opened (.done b w₁))
    (hkept : s.opened.Kept w₁) : Expands s.opened env name op value pos p₁ p₂ p₃ :=
  have hreads := read_exchanged (Session.numbered_opened hs.numbered) hs.ordered henv hx he hkept
  hreads.expands op pos p₁ p₂ p₃ hs.ordered henv hx hnull hinst he hkept

end Expansion

/-! ### A list of the host -/

/-- Globals in which the host provides a list with one text as `x`, and is told of writes to it. -/
def providing : World :=
  { World.bare {} with
    heap := {
      scopes := #[{ Scope.fresh Scope.globalName none none with tracked := ["x"], watched := ["x"] }]
      lists := #[]
      stamps := 0 }
    cells := [("x", .list [.text "a"])] }

theorem providing_numbered : providing.Numbered := by
  refine ⟨⟨?_, rfl, fun _ => .nil, fun _ _ => rfl, rfl, rfl, le_refl _⟩, .nil, .nil, ?_, rfl⟩
  · rintro ⟨_ | i⟩ <;> exact ⟨.nil, rfl⟩
  · exact ⟨[], [], .nil, rfl, rfl⟩

theorem providing_ordered : providing.heap.Ordered := by
  constructor
  · rintro ⟨_ | i⟩ p hp <;> cases hp
  · rintro ⟨_ | i⟩ r hr <;> cases hr

/-- `x += "b"` makes the text before the list that it reads, `x = x + "b"` the list before the
text. -/
theorem compound_assignment_expands_providing :
    ∃ o o', Ends (·.evaluate (.update .none "x" .add (.text .none "b")) ⟨0⟩) providing o ∧
      Ends (·.evaluate (.assign .none "x"
        (.binary .none (.arithmetic .add) (.read .none "x") (.text .none "b"))) ⟨0⟩) providing o' ∧
      providing.SameEnd o o' ∧
      ∃ r v, o = .done r v ∧ v.heap.display r = "[a, b]" := by
  have hliteral : (machine 1).evaluate (.text .none "b") ⟨0⟩ providing =
      .done (.text 0 "b") (afterLiteral providing) := evaluate_literal 0 _ _ _ _ rfl rfl
  have hkept : providing.Kept (afterLiteral providing) := ⟨⟨fun _ _ => rfl, fun _ _ => rfl⟩, rfl⟩
  have hx : get ⟨0⟩ "x" providing = .done (some (.list ⟨0⟩))
      (providing.grown ⟨#[#[.text 0 "a"]], 1⟩ [.read "x"]) := by cbv
  obtain ⟨o, o', ho, ho', hsame, -⟩ := compound_assignment_expands .add .none .none .none .none
    providing_numbered providing_ordered (by decide) hx Value.noConfusion rfl
    (.of_done hliteral) hkept
  have hrun : ∃ r v, (machine 2).evaluate (.update .none "x" .add (.text .none "b")) ⟨0⟩ providing =
      .done r v ∧ v.heap.display r = "[a, b]" := ⟨_, _, by cbv, by cbv⟩
  obtain ⟨r, v, hdone, hshown⟩ := hrun
  exact ⟨o, o', ho, ho', hsame, r, v, ho.unique (.of_done hdone), hshown⟩

end Evaluation

end ScriptEngine
