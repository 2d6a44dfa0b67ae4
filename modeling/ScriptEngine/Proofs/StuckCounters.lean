import ScriptEngine.Proofs.CountingLoops

/-! # Counters that stand still

Each number of a counting loop is a rounded sum. Between finite bounds the counter gets nearer to
the end with every step that changes it, so the loop goes on forever only if it comes to a number
that the step does not change. A step that is not zero can be too small for that, in which case
nothing but the body ends the loop. -/

namespace ScriptEngine

/-- Neither infinite nor undefined. -/
def Number.IsFinite {f : Format} (x : Number f) : Prop :=
  ∃ s m, x = .finite s m

instance {f : Format} (x : Number f) : Decidable x.IsFinite :=
  match x with
  | .nan => isFalse (by rintro ⟨s, m, ⟨⟩⟩)
  | .infinite _ => isFalse (by rintro ⟨s, m, ⟨⟩⟩)
  | .finite s m => isTrue ⟨s, m, rfl⟩

theorem Number.IsInt.isFinite {f : Format} {x : Number f} {i : Int} (h : x.IsInt i) :
    x.IsFinite := by
  obtain ⟨s, m, hx, -⟩ := h
  exact ⟨s, m, hx⟩

namespace Evaluation

open Run Number

/-! ### The numbers that a counter comes to -/

/-- From `i` on, the counter comes to `j`, which stands before the end. -/
inductive Range.ComesTo (r : Range) : Single → Single → Prop
  | here {i : Single} (h : r.admits i = true) : ComesTo r i i
  | next {i j : Single} (h : r.admits i = true) (hmore : ComesTo r (i.add r.step) j) :
    ComesTo r i j

section Numbers

variable {r : Range} {i j : Single} {counters : List Single}

/-- A number that the step does not change is not among finitely many. -/
theorem Range.Counters.moves (hc : r.Counters i counters) (h : r.admits i = true) :
    i.add r.step ≠ i := by
  induction hc with
  | passed hpassed => exact absurd (hpassed.symm.trans h) (by decide)
  | next hadmits hmore ih =>
    intro hstuck
    rw [hstuck] at ih
    exact ih h hstuck

theorem Range.Counters.moves_later (hc : r.Counters i counters) (hj : r.ComesTo i j) :
    j.add r.step ≠ j := by
  induction hj generalizing counters with
  | here h => exact hc.moves h
  | next h hmore ih =>
    cases hc with
    | passed hpassed => exact absurd (hpassed.symm.trans h) (by decide)
    | next hadmits hrest => exact ih hrest

end Numbers

section Steps

variable {r : Range} {t c : Bool} {n k : Magnitude Format.single}

/-- How far the end is from a number, in the direction of the step. -/
def distance (step stop i : Int) : Nat :=
  (if 0 < step then stop - i else i - stop).toNat

/-- Before the end a step leaves the counter where it is, or takes it out of range and so past the
end, or brings it nearer to the end. -/
theorem Range.add_cases (hstep : r.step = .finite t n) (hn : signed t n ≠ 0)
    (hstop : r.stop = .finite c k) {s : Bool} {m : Magnitude Format.single}
    (h : r.admits (.finite s m) = true) :
    (Number.finite s m).add r.step = .finite s m ∨
      r.admits ((Number.finite s m).add r.step) = false ∨
      ∃ u l, (Number.finite s m).add r.step = .finite u l ∧
        distance (signed t n) (signed c k) (signed u l) <
          distance (signed t n) (signed c k) (signed s m) := by
  have hdirection := r.admits_finite hstep hn
  rw [hdirection, hstop] at h
  rcases add_finite s m hn with hinfinite | ⟨u, l, hsum, hmoved⟩
  · refine .inr (.inl ?_)
    rw [hdirection, hstep, hstop, hinfinite]
    by_cases hup : 0 < signed t n
    · have hdown : ¬ signed t n < 0 := by omega
      simp [hup, hdown, lt]
    · have hdown : signed t n < 0 := by omega
      simp [hup, hdown, lt]
  · rw [hstep, hsum]
    rcases hmoved with hsame | ⟨hup, hless⟩ | ⟨hdown, hless⟩
    · exact .inl hsame
    · refine .inr (.inr ⟨u, l, rfl, ?_⟩)
      rw [if_pos hup] at h
      have hbefore : signed s m < signed c k := of_decide_eq_true h
      rw [distance, distance, if_pos hup, if_pos hup]
      omega
    · refine .inr (.inr ⟨u, l, rfl, ?_⟩)
      have hnotup : ¬ 0 < signed t n := by omega
      rw [if_neg hnotup] at h
      have hbefore : signed c k < signed s m := of_decide_eq_true h
      rw [distance, distance, if_neg hnotup, if_neg hnotup]
      omega

/-- Between finite bounds, a counter that never stands still passes the end. -/
theorem Range.exists_counters (hstep : r.step = .finite t n) (hn : signed t n ≠ 0)
    (hstop : r.stop = .finite c k) {s : Bool} {m : Magnitude Format.single}
    (hmoves : ∀ j, r.ComesTo (.finite s m) j → j.add r.step ≠ j) :
    ∃ counters, r.Counters (.finite s m) counters := by
  induction hleft : distance (signed t n) (signed c k) (signed s m) using Nat.strongRecOn
    generalizing s m with
  | ind left ih =>
    cases hadmits : r.admits (.finite s m) with
    | false => exact ⟨_, .passed hadmits⟩
    | true =>
      rcases r.add_cases hstep hn hstop hadmits with hstuck | hpassed | ⟨u, l, hsum, hless⟩
      · exact absurd hstuck (hmoves _ (.here hadmits))
      · exact ⟨_, .next hadmits (.passed hpassed)⟩
      · obtain ⟨more, hmore⟩ := ih _ (hleft ▸ hless)
          (fun j hj => hmoves j (.next hadmits (hsum ▸ hj))) rfl
        exact ⟨_, .next hadmits (hsum ▸ hmore)⟩

end Steps

/-! ### Rounds that are reached -/

/-- From `i` and `w` on, the loop reaches the round for `j` in `v`; the rounds before it ended with
values. -/
inductive Reaches (body : Single → World → Outcome Value → Prop) (enter : World → Single → World)
    (r : Range) : Single → World → Single → World → Prop
  | here {i : Single} {w : World} (h : r.admits i = true) : Reaches body enter r i w i w
  | next {i j : Single} {w w₁ v : World} {x : Value} (h : r.admits i = true)
    (hround : body i (enter w i) (.done x w₁))
    (hmore : Reaches body enter r (i.add r.step) w₁ j v) : Reaches body enter r i w j v

/-- Every round that is reached ends with a value. -/
def Valued (body : Single → World → Outcome Value → Prop) (enter : World → Single → World)
    (r : Range) (i : Single) (w : World) : Prop :=
  ∀ j v, Reaches body enter r i w j v → ∃ x v', body j (enter v j) (.done x v')

section Rounds

variable {body : Single → Run Value} {P : Single → World → Outcome Value → Prop}
  {enter : World → Single → World} {r : Range} {i : Single} {counters : List Single} {w : World}

theorem Valued.next {x : Value} {w₁ : World} (hvalued : Valued P enter r i w)
    (h : r.admits i = true) (hround : P i (enter w i) (.done x w₁)) :
    Valued P enter r (i.add r.step) w₁ :=
  fun j v hj => hvalued j v (.next h hround hj)

/-- If there are finitely many numbers, the loop finishes. -/
theorem Valued.visits (hvalued : Valued P enter r i w) (hc : r.Counters i counters) :
    ∃ values w', Visits P enter counters w values .finished w' := by
  induction hc generalizing w with
  | passed h => exact ⟨_, _, .none w⟩
  | next h hmore ih =>
    obtain ⟨x, w₁, hround⟩ := hvalued _ _ (.here h)
    obtain ⟨values, w', hvisits⟩ := ih (hvalued.next h hround)
    exact ⟨_, _, .value hround hvisits⟩

/-- If there are not, no number of rounds is enough. -/
theorem Valued.exhausted (hvalued : Valued P enter r i w)
    (hbody : ∀ i u x u', P i (enter u i) (.done x u') →
      body i u = .done x u' ∨ ∃ v, body i u = .exhausted v)
    (hnone : ¬ ∃ counters, r.Counters i counters) (rounds : Nat) (results : Array Value) :
    ∃ w', countRounds body r rounds i results w = .exhausted w' := by
  induction rounds generalizing i w results with
  | zero => exact ⟨w, rfl⟩
  | succ rounds ih =>
    cases hadmits : r.admits i with
    | false => exact absurd ⟨_, .passed hadmits⟩ hnone
    | true =>
      have hrest : ¬ ∃ counters, r.Counters (i.add r.step) counters :=
        fun ⟨_, hmore⟩ => hnone ⟨_, .next hadmits hmore⟩
      obtain ⟨x, w₁, hround⟩ := hvalued _ _ (.here hadmits)
      rcases hbody _ _ _ _ hround with hdone | ⟨v, hcut⟩
      · obtain ⟨w', hmore⟩ := ih (hvalued.next hadmits hround) hrest (results.push x)
        refine ⟨w', ?_⟩
        rw [countRounds_succ hadmits, hdone]
        exact hmore
      · refine ⟨v, ?_⟩
        rw [countRounds_succ hadmits, hcut]

end Rounds

/-! ### Loops that end and loops that go on -/

/-- With too little fuel a computation that ends is cut off; with any other fuel it ends so. -/
theorem Ends.done_or_exhausted {node : Node} {e : ScopeRef} {w : World} {o : Outcome Value}
    (h : Ends (·.evaluate node e) w o) (n : Nat) :
    (machine n).evaluate node e w = o ∨ ∃ w', (machine n).evaluate node e w = .exhausted w' := by
  by_cases hcut : ∃ w', (machine n).evaluate node e w = .exhausted w'
  · exact .inr hcut
  · have hends := ends_of_not_exhausted (fun hm => hm.evaluate node e)
      fun w' hw' => hcut ⟨w', hw'⟩
    exact .inl (hends.unique h)

/-- A computation that is cut off with all fuels from one on is cut off with every fuel. -/
theorem diverges_of_exhausted {node : Node} {e : ScopeRef} {w : World} {fuel : Nat}
    (h : ∀ n, fuel ≤ n → ∃ w', (machine n).evaluate node e w = .exhausted w') :
    Diverges (·.evaluate node e) w := by
  intro n
  by_contra hno
  obtain ⟨hne, enough, hends⟩ := ends_of_not_exhausted (fun hm => hm.evaluate node e)
    fun w' hw' => hno ⟨w', hw'⟩
  obtain ⟨w', hcut⟩ := h (max fuel enough) (le_max_left _ _)
  exact hne w' ((hends _ (le_max_right _ _)).symm.trans hcut)

section Loops

variable {start stop body : Node} {step : Option Node} {e : ScopeRef} {name : String}
  {braced : Bool} {pos : Position} {w u : World} {first : Single} {r : Range}
  {counters : List Single}

/-- A loop through infinitely many numbers never ends by itself. -/
theorem diverges_of_no_counters (hb : Bounds start stop e w step first r u)
    (hz : r.step.isZero = false) (hnone : ¬ ∃ counters, r.Counters first counters)
    (hvalued : Valued (BodyEnds body u.innermost) (·.counting u.innermost name) r first
      (u.nested e)) :
    Diverges (·.evaluate (.count pos name start stop step braced body) e) w := by
  obtain ⟨fuel, heval⟩ := hb.evaluate hz pos name braced body
  refine diverges_of_exhausted fun n (hle : fuel + 1 ≤ n) => ?_
  obtain ⟨n, rfl⟩ : ∃ k, n = k + 1 := ⟨n - 1, by omega⟩
  have hbody (i : Single) (v : World) (x : Value) (v' : World)
      (h : BodyEnds body u.innermost i (v.counting u.innermost name i) (.done x v')) :=
    Ends.done_or_exhausted h n
  obtain ⟨w', hcut⟩ := hvalued.exhausted hbody hnone (machine n).rounds #[]
  refine ⟨w', (heval n (by omega)).trans ?_⟩
  simp only [countFrom, Bind.bind, andThen, hcut]

theorem not_diverges_of_ends {o : Outcome Value} {x : Machine → Run Value} (h : Ends x w o) :
    ¬ Diverges x w := by
  obtain ⟨hne, n, hn⟩ := h
  intro hdiverges
  obtain ⟨w', hcut⟩ := hdiverges n
  exact hne w' ((hn n le_rfl).symm.trans hcut)

/-- Without a step a loop goes by one, which is finite and not zero. -/
theorem Bounds.step_finite (hb : Bounds start stop e w step first r u)
    (hstep : step ≠ none → r.step.IsFinite ∧ r.step.isZero = false) :
    r.step.IsFinite ∧ r.step.isZero = false := by
  cases hb with
  | toward hstart hstop =>
    have hone {i : Int} (hi : i.natAbs = 1) :
        (ofInt i : Single).IsFinite ∧ (ofInt i : Single).isZero = false := by
      have hint : (ofInt i : Single).IsInt i := isInt_ofInt (by decide) (hi ▸ by decide)
      exact ⟨hint.isFinite, isZero_of_isInt hint (by omega)⟩
    dsimp only
    split
    · exact hone (i := 1) rfl
    · exact hone rfl
  | given => exact hstep nofun

/-- A loop with finite bounds and a finite step other than zero, all of whose rounds end with
values, ends with a value unless its counter comes to a number that the step does not change. In
that case it goes on forever. -/
theorem count_ends_iff_moves (pos : Position) (name : String) (braced : Bool) (body : Node)
    (hbounds : Bounds start stop e w step first r u) (hfirst : first.IsFinite)
    (hstop : r.stop.IsFinite) (hstep : step ≠ none → r.step.IsFinite ∧ r.step.isZero = false)
    (hvalued : Valued (BodyEnds body u.innermost) (·.counting u.innermost name) r first
      (u.nested e)) :
    ((∃ v w', Ends (·.evaluate (.count pos name start stop step braced body) e) w (.done v w')) ↔
      ∀ i, r.ComesTo first i → i.add r.step ≠ i) ∧
    ((∃ i, r.ComesTo first i ∧ i.add r.step = i) →
      Diverges (·.evaluate (.count pos name start stop step braced body) e) w) := by
  obtain ⟨⟨t, n, ht⟩, hz⟩ := hbounds.step_finite hstep
  have hdiverges (h : ∃ i, r.ComesTo first i ∧ i.add r.step = i) :
      Diverges (·.evaluate (.count pos name start stop step braced body) e) w := by
    obtain ⟨i, hi, hstuck⟩ := h
    refine diverges_of_no_counters hbounds hz ?_ hvalued
    rintro ⟨counters, hc⟩
    exact hc.moves_later hi hstuck
  refine ⟨⟨?_, fun hmoves => ?_⟩, hdiverges⟩
  · rintro ⟨v, w', hends⟩ i hi hstuck
    exact not_diverges_of_ends hends (hdiverges ⟨i, hi, hstuck⟩)
  · obtain ⟨s, m, rfl⟩ := hfirst
    obtain ⟨c, k, hk⟩ := hstop
    have hne : signed t n ≠ 0 := by
      rw [ht] at hz
      exact beq_eq_false_iff_ne.mp hz
    obtain ⟨counters, hc⟩ := r.exists_counters ht hne hk hmoves
    obtain ⟨values, w', hvisits⟩ := hvalued.visits hc
    obtain ⟨v, w'', hresult⟩ : ∃ v w'', loopResult braced values.toArray w' = .done v w'' := by
      cases braced <;> exact ⟨_, _, rfl⟩
    exact ⟨v, w'', (ends_count_iff_visits hbounds hz hc).mpr
      ⟨values, .finished, w', hvisits, hresult⟩⟩

end Loops

/-! ### A loop that goes on forever -/

section Literals

variable {e scope : ScopeRef} {name : String} {r : Range} {i j : Single} {w v : World}

/-- A literal has a value as long as the program is not told to stop, which literals do not do. -/
theorem Reaches.running {pos : Position} {x : Single}
    (h : Reaches (BodyEnds (.number pos x) scope) (·.counting scope name) r i w j v)
    (hw : w.stopped = false) : v.stopped = false := by
  induction h with
  | here _ => exact hw
  | @next i j w w₁ v y _ hround _ ih =>
    have hliteral : Ends (·.evaluate (.number pos x) scope) (w.counting scope name i)
        (.done _ (afterLiteral (w.counting scope name i))) :=
      .of_done (evaluate_literal 0 _ scope _ _ hw rfl)
    obtain ⟨-, rfl⟩ := Outcome.done.inj (hround.unique hliteral)
    exact ih hw

theorem valued_literal (pos : Position) (x : Single) (hw : w.stopped = false) :
    Valued (BodyEnds (.number pos x) scope) (·.counting scope name) r i w :=
  fun _ _ h => ⟨_, _, .of_done (evaluate_literal 0 _ scope _ _ (h.running hw) rfl)⟩

end Literals

/-- A loop from 0 to 3 by 1 that does nothing. -/
theorem count_ends_iff_moves_short :
    ∃ v w', Ends (·.evaluate (.count .none "i" (.number .none (.ofInt 0))
      (.number .none (.ofInt 3)) (some (.number .none (.ofInt 1))) true
      (.number .none (.ofInt 0))) ⟨0⟩) (.bare {}) (.done v w') := by
  obtain ⟨hstop, hstep⟩ := isInt_toThree
  have hfirst : (ofInt 0 : Single).IsInt 0 := isInt_ofInt (by decide) (by decide)
  obtain ⟨counters, hcounters, -⟩ :=
    exists_progression hstep (by decide) hstop (by decide) hfirst (by decide)
  exact (count_ends_iff_moves .none "i" true (.number .none (.ofInt 0))
    (bounds_toThree (w := .bare {}) rfl ⟨0⟩) hfirst.isFinite hstop.isFinite
    (fun _ => ⟨hstep.isFinite, isZero_of_isInt hstep (by decide)⟩)
    (valued_literal _ _ rfl)).1.mpr fun i hi => hcounters.moves_later hi

/-- From 16777216 by one: the sum 16777217 is rounded to 16777216. -/
def standing : Range where
  stop := .ofInt 16777220
  step := if (ofInt 16777216 : Single).lt (ofInt 16777220) then .ofNat 1 else .ofInt (-1)

/-- The bounds and the step are finite, the step is not zero, and the body always has a value, but
the loop never ends. -/
theorem not_count_ends_standing : ∃ u,
    Bounds (.number .none (.ofInt 16777216)) (.number .none (.ofInt 16777220)) ⟨0⟩ (.bare {}) none
      (.ofInt 16777216) standing u ∧
    (ofInt 16777216 : Single).IsFinite ∧ standing.stop.IsFinite ∧ standing.step.IsFinite ∧
    standing.step.isZero = false ∧
    Valued (BodyEnds (.number .none (.ofInt 0)) u.innermost) (·.counting u.innermost "i") standing
      (.ofInt 16777216) (u.nested ⟨0⟩) ∧
    Diverges (·.evaluate (.count .none "i" (.number .none (.ofInt 16777216))
      (.number .none (.ofInt 16777220)) none true (.number .none (.ofInt 0))) ⟨0⟩) (.bare {}) := by
  have hbounds : Bounds (.number .none (.ofInt 16777216)) (.number .none (.ofInt 16777220)) ⟨0⟩
      (.bare {}) none (.ofInt 16777216) standing (afterLiteral (afterLiteral (.bare {}))) :=
    .toward (gives_number rfl _ _ _) (gives_number (w := afterLiteral (.bare {})) rfl _ _ _)
  obtain ⟨hstep, hz⟩ := hbounds.step_finite (absurd rfl)
  have hfinite : (ofInt 16777216 : Single).IsFinite ∧ standing.stop.IsFinite := by decide +kernel
  have hadmits : standing.admits (ofInt 16777216) = true := by decide +kernel
  have hstands : (ofInt 16777216 : Single).add standing.step = ofInt 16777216 := by
    decide +kernel
  have hvalued : Valued (BodyEnds (.number .none (.ofInt 0)) _)
      (·.counting (afterLiteral (afterLiteral (.bare {}))).innermost "i") standing
      (.ofInt 16777216) ((afterLiteral (afterLiteral (.bare {}))).nested ⟨0⟩) :=
    valued_literal _ _ rfl
  refine ⟨_, hbounds, hfinite.1, hfinite.2, hstep, hz, hvalued,
    diverges_of_no_counters hbounds hz ?_ hvalued⟩
  rintro ⟨counters, hc⟩
  exact hc.moves hadmits hstands

end Evaluation

end ScriptEngine
