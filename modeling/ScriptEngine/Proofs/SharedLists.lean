import ScriptEngine.Proofs.DecimalText
import ScriptEngine.Proofs.HeapShape
import ScriptEngine.Proofs.OpenLists

/-! # Lists that are shared and lists that contain themselves

A traversal meets an open list exactly if it can reach a list that lies on a cycle. Where it meets
none, it goes through every list in full, however often that list occurs: text and host form are
those of the tree that the value unfolds to, and the host form becomes a value with the same tree. -/

namespace ScriptEngine

/-! ### Numbers across the boundary -/

/- Powers are those of core arithmetic. -/
attribute [local instance (high)] instPowNat

theorem Format.around_exact {f : Format} {units den : Nat} (hden : 0 < den) :
    f.Around units (units * den) den := by
  have hstep : 0 < 2 ^ f.excess units 1 * den := Nat.mul_pos (Nat.two_pow_pos _) hden
  constructor
  · omega
  · omega
  · intros
    omega
  · intros
    omega

namespace Number

variable {f g : Format}

/-- A quotient that the format can hold is not rounded. -/
theorem ofUnits_exact (negative : Bool) (m : Magnitude f) {den : Nat} (hden : 0 < den) :
    ofUnits negative (m.units * den) den = .finite negative m := by
  have hround := (Format.around_exact hden).round_eq m.fits hden
  obtain ⟨units, fits⟩ := m
  simp only [ofUnits, hround, dif_pos fits.1]

/-- What a format holds, a finer and wider one holds too, in smaller units. -/
theorem fits_finer {units : Nat} (h : f.Fits units) (hprecision : f.precision ≤ g.precision)
    {k : Nat} (hlimit : f.limit + k ≤ g.limit) : g.Fits (units * 2 ^ k) := by
  obtain ⟨hlt, m, s, hm, hunits⟩ := h
  refine ⟨?_, m, s + k, Nat.lt_of_lt_of_le hm (Nat.pow_le_pow_right (by decide) hprecision), ?_⟩
  · have hmul : units * 2 ^ k < 2 ^ f.limit * 2 ^ k :=
      Nat.mul_lt_mul_of_pos_right hlt (Nat.two_pow_pos k)
    rw [← Nat.pow_add] at hmul
    exact Nat.lt_of_lt_of_le hmul (Nat.pow_le_pow_right (by decide) hlimit)
  · rw [hunits, Nat.mul_assoc, ← Nat.pow_add]

/-- A turn through a finer and wider format changes no number. -/
theorem convert_convert (hprecision : f.precision ≤ g.precision) (hscale : f.scale ≤ g.scale)
    (hlimit : f.limit + (g.scale - f.scale) ≤ g.limit) (n : Number f) :
    ((n.convert : Number g).convert : Number f) = n := by
  cases n with
  | nan => rfl
  | infinite s => rfl
  | finite s m =>
    have hfits : g.Fits (m.units * 2 ^ (g.scale - f.scale)) := fits_finer m.fits hprecision hlimit
    have hunits : m.units * 2 ^ (g.scale - f.scale) * 2 ^ f.scale = m.units * 2 ^ g.scale := by
      rw [Nat.mul_assoc, ← Nat.pow_add, Nat.sub_add_cancel hscale]
    have hout : (convert (.finite s m) : Number g) = .finite s ⟨_, hfits⟩ := by
      rw [convert, ofRatio, ← hunits]
      exact ofUnits_exact s ⟨_, hfits⟩ (Nat.two_pow_pos f.scale)
    rw [hout, convert, ofRatio, hunits]
    exact ofUnits_exact s m (Nat.two_pow_pos g.scale)

end Number

/-! ### Meeting an open list -/

namespace Heap

variable {h : Heap} {depth : Nat} {opened : List ListRef} {v : Value} {l : ListRef}

/-- Whether the traversal meets a list that is open, and writes a placeholder for it. -/
def elidesWithin (h : Heap) : Nat → List ListRef → Value → Bool :=
  h.walk (fun _ => false) true (·.any id)

def elides (h : Heap) (v : Value) : Bool :=
  h.elidesWithin h.lists.size [] v

/-- The value reaches a list that lies on a cycle. -/
def ReachesCycle (h : Heap) (v : Value) : Prop :=
  ∃ l, h.Reaches v (.list l) ∧ h.OnCycle l

theorem not_contains_of_atom (hv : v.list? = none) {x : Value} : ¬ h.Contains v x := by
  rintro ⟨l, rfl, -⟩
  cases hv

theorem not_reaches_of_atom (hv : v.list? = none) : ¬ h.Reaches v (.list l) := by
  intro hreach
  obtain rfl | ⟨x, hx, -⟩ := hreach.cases_head
  · cases hv
  · exact not_contains_of_atom hv hx

/-- A list reaches what its items reach, and itself. -/
theorem reaches_list_iff {l' : ListRef} : h.Reaches (.list l) (.list l') ↔
    l = l' ∨ ∃ x ∈ (h.items l).toList, h.Reaches x (.list l') := by
  constructor
  · intro hreach
    obtain heq | ⟨x, ⟨_, heq, hx⟩, hrest⟩ := hreach.cases_head
    · exact .inl (Value.list.inj heq)
    · cases heq
      exact .inr ⟨x, hx, hrest⟩
  · rintro (rfl | ⟨x, hx, hrest⟩)
    · exact .refl
    · exact .head ⟨l, rfl, hx⟩ hrest

theorem onCycle_iff : h.OnCycle l ↔ ∃ x ∈ (h.items l).toList, h.Reaches x (.list l) := by
  constructor
  · intro hcycle
    obtain ⟨x, ⟨_, heq, hx⟩, hrest⟩ := Relation.TransGen.head'_iff.mp hcycle
    cases heq
    exact ⟨x, hx, hrest⟩
  · rintro ⟨x, hx, hrest⟩
    exact .head' ⟨l, rfl, hx⟩ hrest

/-- An open list is met if one is reached that was open before, or one that is on a cycle and so is
reached again from inside. -/
theorem elidesWithin_iff (ho : h.Opened depth opened) (hv : h.Closed v) :
    h.elidesWithin depth opened v = true ↔
      (∃ l ∈ opened, h.Reaches v (.list l)) ∨ h.ReachesCycle v := by
  refine Opened.induct (P := fun depth opened v => h.elidesWithin depth opened v = true ↔
    (∃ l ∈ opened, h.Reaches v (.list l)) ∨ h.ReachesCycle v) ?_ ?_ ?_ ho hv
  · intro depth opened v hatom
    rw [elidesWithin, walk_atom hatom]
    refine ⟨nofun, ?_⟩
    rintro (⟨l, -, hreach⟩ | ⟨l, hreach, -⟩)
    · exact absurd hreach (not_reaches_of_atom hatom)
    · exact absurd hreach (not_reaches_of_atom hatom)
  · intro depth opened l hl
    rw [elidesWithin, walk_again hl]
    exact ⟨fun _ => .inl ⟨l, hl, .refl⟩, fun _ => rfl⟩
  · intro depth opened l hl hitems
    have hany : h.elidesWithin (depth + 1) opened (.list l) = true ↔
        ∃ x ∈ (h.items l).toList, h.elidesWithin depth (l :: opened) x = true := by
      rw [elidesWithin, walk_enter hl, List.any_map, List.any_eq_true]
      rfl
    rw [hany]
    constructor
    · rintro ⟨x, hx, helides⟩
      rcases (hitems x hx).mp helides with ⟨l', hl', hreach⟩ | ⟨c, hreach, hcycle⟩
      · rcases List.mem_cons.mp hl' with rfl | hl'
        · exact .inr ⟨l', .refl, onCycle_iff.mpr ⟨x, hx, hreach⟩⟩
        · exact .inl ⟨l', hl', reaches_list_iff.mpr (.inr ⟨x, hx, hreach⟩)⟩
      · exact .inr ⟨c, reaches_list_iff.mpr (.inr ⟨x, hx, hreach⟩), hcycle⟩
    · rintro (⟨l', hl', hreach⟩ | ⟨c, hreach, hcycle⟩)
      · rcases reaches_list_iff.mp hreach with rfl | ⟨x, hx, hreach⟩
        · exact absurd hl' hl
        · exact ⟨x, hx, (hitems x hx).mpr (.inl ⟨l', List.mem_cons_of_mem l hl', hreach⟩)⟩
      · rcases reaches_list_iff.mp hreach with rfl | ⟨x, hx, hreach⟩
        · obtain ⟨x, hx, hback⟩ := onCycle_iff.mp hcycle
          exact ⟨x, hx, (hitems x hx).mpr (.inl ⟨l, List.mem_cons_self, hback⟩)⟩
        · exact ⟨x, hx, (hitems x hx).mpr (.inr ⟨c, hreach, hcycle⟩)⟩

theorem elides_iff (hv : h.Closed v) : h.elides v = true ↔ h.ReachesCycle v := by
  rw [elides, elidesWithin_iff (Opened.start h) hv]
  simp

/-! ### Host forms -/

/-- A list, or a value that has a host form. -/
def IsData : Value → Prop
  | .null | .number _ _ | .text _ _ | .list _ => True
  | _ => False

/-- Apart from lists, the value only reaches null, numbers and texts. -/
def ReachesData (h : Heap) (v : Value) : Prop :=
  ∀ x, h.Reaches v x → IsData x

theorem ReachesData.item (hd : h.ReachesData v) {x : Value} (hx : h.Contains v x) :
    h.ReachesData x :=
  fun y hy => hd y (.head hx hy)

theorem collect_eq_none_iff {α : Type} {os : List (Option α)} : collect os = none ↔ none ∈ os := by
  induction os with
  | nil => simp [collect]
  | cons o os ih => cases o <;> simp [collect, ih]

theorem forall₂_of_collect {α β : Type} {f : α → Option β} {R : α → β → Prop} {xs : List α}
    {ys : List β} (hf : ∀ x ∈ xs, ∀ y, f x = some y → R x y)
    (hcollect : collect (xs.map f) = some ys) : List.Forall₂ R xs ys := by
  induction xs generalizing ys with
  | nil =>
    cases hcollect
    exact .nil
  | cons x xs ih =>
    obtain ⟨hfirst, hrest⟩ := List.forall_mem_cons.mp hf
    cases hx : f x with
    | none => simp [collect, hx] at hcollect
    | some y =>
      rw [List.map_cons, hx, collect] at hcollect
      obtain ⟨rest, hys, rfl⟩ := Option.map_eq_some_iff.mp hcollect
      exact .cons (hfirst y hx) (ih hrest hys)

/-- What holds of atoms and their host forms, and of lists whenever it holds of their items, holds
of every value and its host form. -/
theorem toHost_induct {R : Value → HostValue → Prop}
    (atom : ∀ {v host}, v.list? = none → hostAtom v = some host → R v host)
    (list : ∀ {l hosts}, List.Forall₂ R (h.items l).toList hosts → R (.list l) (.list hosts))
    {host : HostValue} (hv : h.Closed v) (hhost : h.toHost v = some host) : R v host := by
  rw [toHost, toHostWithin_eq_walk] at hhost
  refine Opened.induct (P := fun depth opened v => ∀ host,
    h.walk hostAtom none (fun parts => (collect parts).map .list) depth opened v = some host →
      R v host) ?_ ?_ ?_ (Opened.start h) hv host hhost
  · intro depth opened v hatom host hhost
    rw [walk_atom hatom] at hhost
    exact atom hatom hhost
  · intro depth opened l hl host hhost
    rw [walk_again hl] at hhost
    cases hhost
  · intro depth opened l hl hitems host hhost
    rw [walk_enter hl] at hhost
    obtain ⟨parts, hparts, rfl⟩ := Option.map_eq_some_iff.mp hhost
    exact list (forall₂_of_collect hitems hparts)

/-- Data has no host form exactly if an open list is met in it. -/
theorem toHost_eq_none_iff (hv : h.Closed v) (hd : h.ReachesData v) :
    h.toHost v = none ↔ h.elides v = true := by
  rw [toHost, toHostWithin_eq_walk, elides, elidesWithin]
  refine Opened.induct (P := fun depth opened v => h.ReachesData v →
    (h.walk hostAtom none (fun parts => (collect parts).map .list) depth opened v = none ↔
      h.walk (fun _ => false) true (·.any id) depth opened v = true)) ?_ ?_ ?_
    (Opened.start h) hv hd
  · intro depth opened v hatom hd
    rw [walk_atom hatom, walk_atom hatom]
    have hdata := hd v .refl
    cases v <;> simp_all [IsData, hostAtom, Value.list?]
  · intro depth opened l hl _
    rw [walk_again hl, walk_again hl]
    simp
  · intro depth opened l hl hitems hd
    rw [walk_enter hl, walk_enter hl, Option.map_eq_none_iff, collect_eq_none_iff, List.mem_map,
      List.any_map, List.any_eq_true]
    refine exists_congr fun x => and_congr_right fun hx => ?_
    exact hitems x hx (hd.item ⟨l, rfl, hx⟩)

/-! ### Trees -/

/-- What the tree of a value is made to, with no regard to which lists are the same: `atom` gives
the leaves, and every list is expanded wherever it occurs. -/
inductive Expands {β : Type} (h : Heap) (atom : Value → β) (wrap : List β → β) :
    Value → β → Prop where
  | leaf {v : Value} (hv : v.list? = none) : Expands h atom wrap v (atom v)
  | list {l : ListRef} {parts : List β}
      (hparts : List.Forall₂ (Expands h atom wrap) (h.items l).toList parts) :
      Expands h atom wrap (.list l) (wrap parts)

/-- Where no open list is met, every list is expanded. -/
theorem expands_of_not_elides {β : Type} {atom : Value → β} {again : β} {wrap : List β → β}
    (hv : h.Closed v) (helides : h.elides v = false) :
    h.Expands atom wrap v (h.walk atom again wrap h.lists.size [] v) := by
  refine Opened.induct (P := fun depth opened v => h.elidesWithin depth opened v = false →
    h.Expands atom wrap v (h.walk atom again wrap depth opened v)) ?_ ?_ ?_
    (Opened.start h) hv helides
  · intro depth opened v hatom _
    rw [walk_atom hatom]
    exact .leaf hatom
  · intro depth opened l hl helides
    rw [elidesWithin, walk_again hl] at helides
    cases helides
  · intro depth opened l hl hitems helides
    rw [elidesWithin, walk_enter hl, List.any_map, List.any_eq_false] at helides
    rw [walk_enter hl]
    refine .list (List.forall₂_map_right_iff.mpr (List.forall₂_same.mpr fun x hx => ?_))
    exact hitems x hx (Bool.eq_false_iff.mpr (helides x hx))

/-- The host form of null, of a number or of a text. -/
def hostLeaf (v : Value) : HostValue :=
  (hostAtom v).getD .null

/-- A host form is the whole tree of the value. -/
theorem expands_toHost {host : HostValue} (hv : h.Closed v) (hhost : h.toHost v = some host) :
    h.Expands hostLeaf .list v host := by
  refine toHost_induct (fun {v host} hatom hhost => ?_) .list hv hhost
  have hleaf : hostLeaf v = host := by rw [hostLeaf, hhost, Option.getD_some]
  exact hleaf ▸ .leaf hatom

/-- The two values have the same tree, though their parts may be different objects. -/
inductive SameTree (h h' : Heap) : Value → Value → Prop where
  | null : SameTree h h' .null .null
  | number {s s' : Nat} {n : Single} : SameTree h h' (.number s n) (.number s' n)
  | text {s s' : Nat} {t : String} : SameTree h h' (.text s t) (.text s' t)
  | list {l l' : ListRef}
      (hitems : List.Forall₂ (SameTree h h') (h.items l).toList (h'.items l').toList) :
      SameTree h h' (.list l) (.list l')

/-- All lists are kept; there may be more. -/
def KeepsLists (h h' : Heap) : Prop :=
  h.lists.toList <+: h'.lists.toList

theorem KeepsLists.items {h h' : Heap} (hkeeps : h.KeepsLists h') (hl : l.index < h.lists.size) :
    h'.items l = h.items l := by
  obtain ⟨more, hmore⟩ := hkeeps
  have hlists : h'.lists = h.lists ++ more.toArray := by
    rw [← Array.toList_inj, ← hmore]
    simp
  simp [Heap.items, hlists, Array.getElem?_append_left hl]

/-- From the host form comes a value with the tree of `v`, in every later heap. -/
def Restores (h : Heap) (v : Value) (host : HostValue) : Prop :=
  ∀ w : World, ∃ v' w', Run.fromHost host w = .done v' w' ∧ w.heap.KeepsLists w'.heap ∧
    ∀ h', w'.heap.KeepsLists h' → SameTree h h' v v'

theorem restores_all {vs : List Value} {hosts : List HostValue}
    (hrestores : List.Forall₂ h.Restores vs hosts) (w : World) :
    ∃ vs' w', Run.fromHosts hosts w = .done vs' w' ∧ w.heap.KeepsLists w'.heap ∧
      ∀ h', w'.heap.KeepsLists h' → List.Forall₂ (SameTree h h') vs vs' := by
  induction hrestores generalizing w with
  | nil => exact ⟨[], w, rfl, List.prefix_refl _, fun _ _ => .nil⟩
  | cons hfirst _ ih =>
    obtain ⟨v', w₁, hrun, hkeeps, hsame⟩ := hfirst w
    obtain ⟨vs', w₂, hruns, hkeeps', hsames⟩ := ih w₁
    refine ⟨v' :: vs', w₂, ?_, hkeeps.trans hkeeps', fun h' hh' => ?_⟩
    · simp only [Run.fromHosts, Run.andThen, hrun, hruns]
      rfl
    · exact .cons (hsame h' (hkeeps'.trans hh')) (hsames h' hh')

theorem restores_atom {host : HostValue} (hhost : hostAtom v = some host) : h.Restores v host := by
  intro w
  cases v with
  | null =>
    cases hhost
    exact ⟨_, _, rfl, List.prefix_refl _, fun _ _ => .null⟩
  | number s n =>
    cases hhost
    refine ⟨_, _, rfl, List.prefix_refl _, fun _ _ => ?_⟩
    rw [Number.convert_convert (by decide) (by decide) (by decide)]
    exact .number
  | text s t =>
    cases hhost
    exact ⟨_, _, rfl, List.prefix_refl _, fun _ _ => .text⟩
  | _ => cases hhost

theorem restores_list {hosts : List HostValue}
    (hall : List.Forall₂ h.Restores (h.items l).toList hosts) : h.Restores (.list l) (.list hosts) := by
  intro w
  obtain ⟨vs, w₁, hruns, hkeeps, hsames⟩ := restores_all hall w
  have hgrown : w₁.heap.KeepsLists (w₁.heap.newList vs.toArray).2 := by
    rw [KeepsLists, newList, Array.toList_push]
    exact List.prefix_append _ _
  refine ⟨.list (w₁.heap.newList vs.toArray).1,
    { w₁ with heap := (w₁.heap.newList vs.toArray).2 }, ?_, hkeeps.trans hgrown, fun h' hh' => ?_⟩
  · simp only [Run.fromHost, Run.andThen, hruns]
    rfl
  · refine .list ?_
    have hnew : (w₁.heap.newList vs.toArray).1.index = w₁.heap.lists.size := rfl
    rw [hh'.items (Array.size_push _ ▸ Nat.lt_succ_self _), items_newList, if_pos hnew]
    exact hsames h' (hgrown.trans hh')

theorem restores_toHost {host : HostValue} (hv : h.Closed v) (hhost : h.toHost v = some host) :
    h.Restores v host :=
  toHost_induct (fun _ => restores_atom) restores_list hv hhost

/-- Writing and converting a value end, whatever its lists share and wherever they lead back. Data
has no host form exactly if it reaches a list on a cycle, and exactly then a placeholder is written;
otherwise text and host form are those of the whole tree, and the host form becomes a value with the
same tree. -/
theorem shared_lists_expand_unless_cyclic (h : Heap) (v : Value) (hv : h.Closed v) :
    ((h.writing h.displayAtom v).run [] = some (h.display v, []) ∧
      (h.writing h.debugAtom v).run [] = some (h.debug v, []) ∧
      (h.converting v).run [] = some (h.toHost v, [])) ∧
    (h.ReachesData v →
      (h.toHost v = none ↔ h.ReachesCycle v) ∧ (h.elides v = true ↔ h.ReachesCycle v) ∧
      (¬ h.ReachesCycle v →
        h.Expands h.displayAtom bracketed v (h.display v) ∧
        ∃ host, h.toHost v = some host ∧ h.Expands hostLeaf .list v host ∧
          ∀ w, ∃ v' w', Run.fromHost host w = .done v' w' ∧ SameTree h w'.heap v v')) := by
  refine ⟨⟨writing_eq _ (Opened.start h) hv, writing_eq _ (Opened.start h) hv,
    converting_eq (Opened.start h) hv⟩, fun hdata => ?_⟩
  have hcycle := elides_iff hv
  have hnone := (toHost_eq_none_iff hv hdata).trans hcycle
  refine ⟨hnone, hcycle, fun hacyclic => ?_⟩
  have helides : h.elides v = false := Bool.eq_false_iff.mpr fun htrue => hacyclic (hcycle.mp htrue)
  constructor
  · rw [display, write_eq_walk]
    exact expands_of_not_elides hv helides
  · obtain ⟨host, hhost⟩ := Option.ne_none_iff_exists'.mp fun hno => hacyclic (hnone.mp hno)
    refine ⟨host, hhost, expands_toHost hv hhost, fun w => ?_⟩
    obtain ⟨v', w', hrun, -, hsame⟩ := restores_toHost hv hhost w
    exact ⟨v', w', hrun, hsame _ (List.prefix_refl _)⟩

/-- A list of null twice in another list. -/
def twice : Heap :=
  { scopes := #[], lists := #[#[.null], #[.list ⟨0⟩, .list ⟨0⟩]], stamps := 0 }

theorem reaches_twice {v : Value} (hreach : twice.Reaches (.list ⟨1⟩) v) :
    v = .list ⟨1⟩ ∨ v = .list ⟨0⟩ ∨ v = .null := by
  induction hreach with
  | refl => exact .inl rfl
  | tail _ hstep ih =>
    obtain ⟨l, rfl, hx⟩ := hstep
    rcases ih with hl | hl | hl
    · cases hl
      simp_all [twice, items]
    · cases hl
      simp_all [twice, items]
    · cases hl

theorem shared_lists_expand_twice :
    twice.Closed (.list ⟨1⟩) ∧ twice.ReachesData (.list ⟨1⟩) ∧ ¬ twice.ReachesCycle (.list ⟨1⟩) ∧
      (twice.writing twice.displayAtom (.list ⟨1⟩)).run [] = some ("[[0], [0]]", []) ∧
      ∃ host, twice.toHost (.list ⟨1⟩) = some host ∧
        ∀ w, ∃ v' w', Run.fromHost host w = .done v' w' ∧
          SameTree twice w'.heap (.list ⟨1⟩) v' := by
  have hclosed : twice.Closed (.list ⟨1⟩) := by
    intro l hl
    rcases reaches_twice hl with hl | hl | hl <;> cases hl <;> decide
  have hdata : twice.ReachesData (.list ⟨1⟩) := by
    intro v hv
    rcases reaches_twice hv with rfl | rfl | rfl <;> exact trivial
  have hacyclic : ¬ twice.ReachesCycle (.list ⟨1⟩) := by
    rw [← elides_iff hclosed]
    decide
  obtain ⟨⟨htext, -, -⟩, hrest⟩ := shared_lists_expand_unless_cyclic twice (.list ⟨1⟩) hclosed
  obtain ⟨-, host, hhost, -, hback⟩ := (hrest hdata).2.2 hacyclic
  exact ⟨hclosed, hdata, hacyclic, htext, host, hhost, hback⟩

/-- A list that contains itself. -/
example : (Heap.mk #[] #[#[.null, .list ⟨0⟩]] 0).display (.list ⟨0⟩) = "[0, [...]]" := by
  decide

end Heap

end ScriptEngine
