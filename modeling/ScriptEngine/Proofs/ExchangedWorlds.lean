import ScriptEngine.Proofs.NumberedWorlds

/-! # Things made in another order

A reading and an evaluation that do not disturb each other make the same things in whichever order
they take place. What comes first gets the lower numbers, so the worlds behind both are equal up to
the renaming that exchanges two neighbouring ranges of numbers. -/

namespace ScriptEngine

/-! ### Neighbouring ranges -/

instance : Add Extent :=
  ⟨fun m n => ⟨m.stamps + n.stamps, m.lists + n.lists⟩⟩

theorem Extent.add_right_comm (m n k : Extent) : m + n + k = m + k + n :=
  congrArg₂ Extent.mk (Nat.add_right_comm _ _ _) (Nat.add_right_comm _ _ _)

namespace Renaming

/-- The place of the `i`th thing if the `first` things and the `second` ones that were made from `n`
on are made in the other order. -/
def swapped (n first second i : Nat) : Nat :=
  if i < n then i
  else if i < n + first then i + second
  else if i < n + first + second then i - first
  else i

theorem swapped_injective (n first second : Nat) : (swapped n first second).Injective := by
  intro i j hij
  simp only [swapped] at hij
  grind

theorem swapped_lt {n first second i : Nat} (hi : i < n + first + second) :
    swapped n first second i < n + first + second := by
  simp only [swapped]
  grind

/-- The `second` things come before the `first` ones; otherwise both worlds are alike. -/
def swap (n first second : Extent) (before : List Event) (others : Nat → Array Value) :
    Renaming where
  stamp := swapped n.stamps first.stamps second.stamps
  list := swapped n.lists first.lists second.lists
  since := n + first + second
  ahead := ⟨0, 0⟩
  before := before
  before' := before
  others := others
  stamp_injective := swapped_injective _ _ _
  list_injective := swapped_injective _ _ _
  stamp_later i hi := by
    have hlate : n.stamps + first.stamps + second.stamps ≤ i := hi
    simp only [swapped]
    grind
  list_later i hi := by
    have hlate : n.lists + first.lists + second.lists ≤ i := hi
    simp only [swapped]
    grind
  list_within _ hi := swapped_lt hi

section Swap

variable (n first second : Extent) (before : List Event) (others : Nat → Array Value)

theorem fixes_swap : (swap n first second before others).Fixes n where
  stamp _ hi := if_pos hi
  list _ hi := if_pos hi

/-- The `first` things are only later in the second world. -/
theorem agree_swap (before₁ before₂ : List Event) (others₁ : Nat → Array Value) :
    (shift n second before₁ before₂ others₁).Agree (swap n first second before others)
      (n + first) where
  stamp i hi := by
    have hi : i < n.stamps + first.stamps := hi
    simp only [swap, shift, swapped]
    grind
  list i hi := by
    have hi : i < n.lists + first.lists := hi
    simp only [swap, shift, swapped]
    grind

/-- The `second` things are only later in the first world. -/
theorem undoes_swap (before₁ before₂ : List Event) (others₁ : Nat → Array Value) :
    (swap n first second before others).Undoes (shift n first before₁ before₂ others₁)
      (n + second) (n + first + second) where
  stamp i hi := by
    have hi : i < n.stamps + second.stamps := hi
    show _ < n.stamps + first.stamps + second.stamps ∧ _
    simp only [swap, shift, swapped]
    grind
  list i hi := by
    have hi : i < n.lists + second.lists := hi
    show _ < n.lists + first.lists + second.lists ∧ _
    simp only [swap, shift, swapped]
    grind

end Swap

end Renaming

theorem Event.Alike.undo {ρ θ : Renaming} {n k : Extent} {event event' : Event}
    (he : event.Alike ρ.likeness n event') (h : θ.Undoes ρ n k) : event'.Alike θ.likeness k event := by
  cases he with
  | read name => exact .read name
  | wrote e name hv shown => exact .wrote e name (hv.undo h) shown
  | queued hv => exact .queued (hv.undo h)
  | started hv => exact .started (hv.undo h)

/-! ### A reading before or after an evaluation -/

/-- The heap has as much as another one, and holds what that one held. -/
theorem Heap.Kept.grows {h g : Heap} (hg : h.Kept g) (hx : h.extent ≤ g.extent) :
    h.stock.Grows g.stock where
  extent := hx
  lists i hi := by
    have hi : i < h.lists.size := hi
    have hitems := hg.items ⟨i⟩ hi
    simp only [Heap.items, Array.getD_eq_getD_getElem?] at hitems
    show g.lists[i]? = h.lists[i]?
    rw [Array.getElem?_eq_getElem hi, Array.getElem?_eq_getElem (Nat.lt_of_lt_of_le hi hx.2)] at *
    exact congrArg some hitems

theorem Stock.Grows.extent_eq {s t : Stock} (h : s.Grows t) :
    t.extent = s.extent + t.beyond s :=
  congrArg₂ Extent.mk (Nat.add_sub_cancel' h.extent.1).symm (Nat.add_sub_cancel' h.extent.2).symm

namespace World

/-- From the world in which `made` was made before what `read` adds to the one in which it is the
other way round. -/
def exchange (w : World) (made read : Stock) (others : Nat → Array Value) : Renaming :=
  .swap w.heap.extent (made.beyond w.heap.stock) (read.beyond w.heap.stock) w.journal others

section Exchange

variable {w w₁ v : World} {made read t₁ : Stock} {events events₁ : List Event}
  {others : Nat → Array Value}

theorem besides_list (w : World) (t : Stock) (events : List Event) (i : Nat) :
    (w.besides t events).list i =
      if i < w.heap.lists.size then i else i + (t.lists.size - w.heap.lists.size) := rfl

theorem besides_agree_exchange (hmade : w.heap.stock.Grows made) :
    (w.besides read events).Agree (w.exchange made read others) made.extent := by
  rw [hmade.extent_eq]
  exact Renaming.agree_swap _ _ _ _ _ _ _ _

theorem exchange_undoes_besides (hread : w.heap.stock.Grows read) {k : Extent}
    (hk : k = w.heap.extent + made.beyond w.heap.stock + read.beyond w.heap.stock) :
    (w.exchange made read others).Undoes (w.besides made events) read.extent k := by
  rw [hread.extent_eq, hk]
  exact Renaming.undoes_swap _ _ _ _ _ _ _ _

/-- After a reading that follows an evaluation there is what both of them make. -/
theorem extent_exchanged (hread : w.heap.stock.Grows read)
    (hboth : (w.grown read events).Alike (w.besides made []).likeness
      ((w.grown made []).grown t₁ events₁)) :
    t₁.extent = w.heap.extent + made.beyond w.heap.stock + read.beyond w.heap.stock :=
  calc t₁.extent = read.extent + made.beyond w.heap.stock :=
        congrArg₂ Extent.mk hboth.heap.stamps hboth.heap.lists
    _ = w.heap.extent + read.beyond w.heap.stock + made.beyond w.heap.stock :=
        congrArg (· + made.beyond w.heap.stock) hread.extent_eq
    _ = w.heap.extent + made.beyond w.heap.stock + read.beyond w.heap.stock :=
        Extent.add_right_comm _ _ _

/-- What was noted by the reading is the same, up to the order in which things were made. -/
theorem journal_exchanged {π : Renaming} {k : Extent}
    (hundoes : π.Undoes (w.besides made []) read.extent k)
    (hbefore : π.before = w.journal) (hbefore' : π.before' = w.journal)
    (hkept : w₁.journal = w.journal) (heval : w₁.Alike (w.besides read events).likeness v)
    (hboth : (w.grown read events).Alike (w.besides made []).likeness
      ((w.grown made []).grown t₁ events₁)) :
    Journal.Alike π.likeness k (events₁ ++ w₁.journal) v.journal := by
  obtain ⟨new, new', hnew, hj, hj'⟩ := heval.journal
  obtain ⟨noted, noted', hnoted, hn, hn'⟩ := hboth.journal
  have hnone : new = [] := by
    have hsame : [] ++ w.journal = new ++ w.journal := hkept.symm.trans hj
    exact (List.append_cancel_right hsame).symm
  subst hnone
  cases hnew
  have hevents : events = noted := List.append_cancel_right hn
  have hevents₁ : events₁ = noted' := List.append_cancel_right hn'
  have hbefore : π.likeness.before = w.journal := hbefore
  have hbefore' : π.likeness.before' = w.journal := hbefore'
  refine ⟨events₁, events, ?_, by rw [hkept, hbefore], hj'.trans (by rw [hbefore']; rfl)⟩
  rw [hevents, hevents₁]
  exact hnoted.flip.imp fun _ _ he => he.undo hundoes

/-- A list of the reading, in the second world: none that the evaluation made stands for it. -/
theorem items_of_reading (heval : w₁.Alike (w.besides read events).likeness v) {l : ListRef}
    (hold : w.heap.lists.size ≤ l.index) (hl : l.index < read.lists.size) :
    v.heap.items l = (w.grown read events).heap.items l := by
  refine heval.heap.others l.index fun j hj => ?_
  have hj : (w.besides read events).list j = l.index := hj
  rw [besides_list] at hj
  split at hj <;> omega

theorem items_exchanged {π : Renaming}
    (hagree : (w.besides read events).Agree π w₁.heap.extent)
    (hundoes : π.Undoes (w.besides w₁.heap.stock []) read.extent t₁.extent)
    (hfar : ∀ i, t₁.lists.size ≤ i → π.list i = i) (hsame : v.heap.extent = t₁.extent)
    (hmade : w.heap.stock.Grows w₁.heap.stock) (hlater : w₁.heap.stock.Grows t₁)
    (heval : w₁.Alike (w.besides read events).likeness v)
    (hboth : (w.grown read events).Alike (w.besides w₁.heap.stock []).likeness
      ((w.grown w₁.heap.stock []).grown t₁ events₁)) (l : ListRef) :
    Values.Alike π.likeness t₁.extent ((w₁.grown t₁ events₁).heap.items l).toList
      (v.heap.items (π.ref l)).toList := by
  by_cases hl : l.index < w₁.heap.lists.size
  · have hitems : (w₁.grown t₁ events₁).heap.items l = w₁.heap.items l := hlater.kept.items l hl
    have href : π.ref l = (w.besides read events).ref l :=
      congrArg ListRef.mk (hagree.list l.index hl)
    rw [hitems, href]
    exact (Values.Alike.agree (heval.heap.items l) hagree).mono hlater.extent
  · by_cases hread : l.index < t₁.lists.size
    · -- The list was made by the reading: `k` is the same list if nothing is made before it.
      have hbefore : w.heap.lists.size ≤ w₁.heap.lists.size := hmade.extent.2
      have hsize : t₁.lists.size =
          read.lists.size + (w₁.heap.lists.size - w.heap.lists.size) := hboth.heap.lists
      obtain ⟨k, hold, hk, hl⟩ : ∃ k : ListRef, w.heap.lists.size ≤ k.index ∧
          k.index < read.lists.size ∧ (w.besides w₁.heap.stock []).list k.index = l.index := by
        refine ⟨⟨l.index - (w₁.heap.lists.size - w.heap.lists.size)⟩, ?_, ?_, ?_⟩
        · dsimp only
          omega
        · dsimp only
          omega
        · rw [besides_list, if_neg (by dsimp only; omega)]
          exact Nat.sub_add_cancel (by omega)
      have href : (w.besides w₁.heap.stock []).ref k = l := congrArg ListRef.mk hl
      have hback : π.ref l = k := by
        rw [← href]
        exact congrArg ListRef.mk (hundoes.list k.index hk).2
      have hitems : Values.Alike (w.besides w₁.heap.stock []).likeness read.extent _
          (((w.grown w₁.heap.stock []).grown t₁ events₁).heap.items
            ((w.besides w₁.heap.stock []).ref k)).toList := hboth.heap.items k
      rw [href] at hitems
      rw [hback, items_of_reading heval hold hk]
      exact hitems.flip.imp fun _ _ hv => hv.undo hundoes
    · have hnone : π.ref l = l := congrArg ListRef.mk (hfar l.index (Nat.not_lt.mp hread))
      have hsize : v.heap.lists.size = t₁.lists.size := congrArg Extent.lists hsame
      have hmissing : (w₁.grown t₁ events₁).heap.lists.size ≤ l.index := Nat.not_lt.mp hread
      rw [hnone, Heap.items_missing hmissing,
        Heap.items_missing (hsize ▸ Nat.not_lt.mp hread : v.heap.lists.size ≤ l.index)]
      exact .nil

/-- One world comes from evaluating something in `w`, which keeps it, and then reading a name; the
other one from reading the name first. -/
theorem Alike.exchanged (hkept : w.Kept w₁) (hread : w.heap.stock.Grows read)
    (hmade : w.heap.stock.Grows w₁.heap.stock) (hlater : w₁.heap.stock.Grows t₁)
    (heval : w₁.Alike (w.besides read events).likeness v)
    (hboth : (w.grown read events).Alike (w.besides w₁.heap.stock []).likeness
      ((w.grown w₁.heap.stock []).grown t₁ events₁)) :
    (w₁.grown t₁ events₁).Alike
      (w.exchange w₁.heap.stock read fun i => v.heap.items ⟨i⟩).likeness v := by
  have hextent := extent_exchanged hread hboth
  have hsame : v.heap.extent = t₁.extent :=
    calc v.heap.extent = w₁.heap.stock.extent + read.beyond w.heap.stock :=
          congrArg₂ Extent.mk heval.heap.stamps heval.heap.lists
      _ = t₁.extent := by rw [hmade.extent_eq, hextent]; rfl
  generalize hπ : (w.exchange w₁.heap.stock read fun i => v.heap.items ⟨i⟩) = π
  have hagree : (w.besides read events).Agree π w₁.heap.extent :=
    hπ ▸ besides_agree_exchange hmade
  have hundoes : π.Undoes (w.besides w₁.heap.stock []) read.extent t₁.extent :=
    hπ ▸ exchange_undoes_besides hread hextent
  have hx : w₁.heap.extent ≤ t₁.extent := hlater.extent
  have hjournal : w₁.journal = w.journal := by rw [hkept.rest]
  refine ⟨⟨fun e => ((heval.heap.scope e).agree hagree).mono hx, heval.heap.scopes, fun l => ?_,
    fun i _ => by rw [← hπ]; rfl, ?_, ?_, by rw [← hπ]; exact le_of_eq hextent.symm⟩,
    by rw [heval.calls_eq]; exact forall₂_of_refl TraceEntry.Alike.refl w₁.calls,
    (Values.Alike.agree heval.tasks hagree).mono hx,
    journal_exchanged hundoes (by rw [← hπ]; rfl) (by rw [← hπ]; rfl) hjournal heval hboth,
    heval.rest⟩
  · refine items_exchanged hagree hundoes (fun i hi => ?_) hsame hmade hlater heval hboth l
    have hsince : π.since.lists ≤ i := by
      rw [← hπ]
      exact le_of_eq_of_le (congrArg Extent.lists hextent.symm) hi
    rw [π.list_later i hsince, ← hπ]
    rfl
  · rw [← hπ]
    exact congrArg Extent.lists hsame
  · rw [← hπ]
    exact congrArg Extent.stamps hsame

end Exchange

end World

end ScriptEngine
