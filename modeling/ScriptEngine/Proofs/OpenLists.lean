import ScriptEngine.World
import Mathlib.Logic.Relation
import Mathlib.Data.List.Nodup
import Mathlib.Data.List.Perm.Subperm

/-! # Lists that are open while a value is visited

Writing and converting a value keep a stack of the lists that they are inside of, and do not enter
one of these again. Here they are plain recursion with that stack as their state, where a run that
never ends has no result. They do end, since only lists that exist are entered and each at most once
on the way to any place; the bound on the depth in `Heap.write` and `Heap.toHostWithin` is never
met, and the stack is afterwards what it was before, also if an item could not be converted. -/

namespace ScriptEngine

/-- A computation with a stack of open lists, which may not end. -/
abbrev Visit := StateT (List ListRef) Option

namespace Heap

/-! ### The traversals as recursion -/

mutual

/-- The text of a value. A list is open while its items are written. -/
def writing (h : Heap) (atom : Value → String) (v : Value) : Visit String :=
  match v with
  | .list l => do
    if (← get).contains l then return "[...]"
    else
      modify (l :: ·)
      let parts ← h |>.writingAll atom (h.items l).toList
      modify List.tail
      return "[" ++ Text.joinStrings ", " parts ++ "]"
  | v => return atom v
partial_fixpoint

def writingAll (h : Heap) (atom : Value → String) (vs : List Value) : Visit (List String) :=
  match vs with
  | [] => return []
  | v :: vs => do
    let part ← h |>.writing atom v
    let parts ← h |>.writingAll atom vs
    return part :: parts
partial_fixpoint

end

mutual

/-- The host form of a value. The first item without one is the last that is looked at, and the list
is closed behind it. -/
def converting (h : Heap) (v : Value) : Visit (Option HostValue) :=
  match v with
  | .null => return some .null
  | .number _ n => return some (.number n.convert)
  | .text _ s => return some (.text s)
  | .list l => do
    if (← get).contains l then return none
    else
      modify (l :: ·)
      let converted ← h |>.convertingAll (h.items l).toList
      modify List.tail
      return converted.map .list
  | _ => return none
partial_fixpoint

def convertingAll (h : Heap) (vs : List Value) : Visit (Option (List HostValue)) :=
  match vs with
  | [] => return some []
  | v :: vs => do
    match ← h |>.converting v with
    | none => return none
    | some a =>
      let rest ← h |>.convertingAll vs
      return rest.map (a :: ·)
partial_fixpoint

end

/-! ### Lists that values reach -/

/-- The value is a list and has this item. -/
def Contains (h : Heap) (v x : Value) : Prop :=
  ∃ l, v = .list l ∧ x ∈ (h.items l).toList

/-- From the value one comes to the other through items of lists. -/
def Reaches (h : Heap) : Value → Value → Prop :=
  Relation.ReflTransGen h.Contains

/-- The list is reached from one of its own items. -/
def OnCycle (h : Heap) (l : ListRef) : Prop :=
  Relation.TransGen h.Contains (.list l) (.list l)

/-- All lists that the value reaches exist. -/
def Closed (h : Heap) (v : Value) : Prop :=
  ∀ l, h.Reaches v (.list l) → l.index < h.lists.size

variable {h : Heap} {depth : Nat} {opened : List ListRef} {v : Value} {l : ListRef}

theorem Closed.item (hv : h.Closed v) {x : Value} (hx : h.Contains v x) : h.Closed x :=
  fun l hl => hv l (.head hx hl)

/-- Lists that exist are open, each once, and the depth suffices for the others. -/
structure Opened (h : Heap) (depth : Nat) (opened : List ListRef) : Prop where
  nodup : opened.Nodup
  allocated : ∀ l ∈ opened, l.index < h.lists.size
  room : h.lists.size ≤ opened.length + depth

theorem Opened.start (h : Heap) : h.Opened h.lists.size [] :=
  ⟨List.nodup_nil, by simp, by simp⟩

/-- There are not more open lists than lists. -/
theorem Opened.length_le (ho : h.Opened depth opened) : opened.length ≤ h.lists.size := by
  have hnodup : (opened.map ListRef.index).Nodup :=
    ho.nodup.map fun _ _ hindex => congrArg ListRef.mk hindex
  have hsubset : opened.map ListRef.index ⊆ List.range h.lists.size := by
    intro i hi
    obtain ⟨l, hl, rfl⟩ := List.mem_map.mp hi
    exact List.mem_range.mpr (ho.allocated l hl)
  have hlength := (List.subperm_of_subset hnodup hsubset).length_le
  rwa [List.length_map, List.length_range] at hlength

/-- A list that is not open can be entered. -/
theorem Opened.enter (ho : h.Opened depth opened) (hl : l.index < h.lists.size)
    (hnot : l ∉ opened) : ∃ d, depth = d + 1 ∧ h.Opened d (l :: opened) := by
  have hentered : h.Opened depth (l :: opened) := by
    refine ⟨List.nodup_cons.mpr ⟨hnot, ho.nodup⟩, List.forall_mem_cons.mpr ⟨hl, ho.allocated⟩, ?_⟩
    have hroom := ho.room
    rw [List.length_cons]
    omega
  have hlength := hentered.length_le
  have hroom := ho.room
  rw [List.length_cons] at hlength
  cases depth with
  | zero => omega
  | succ d =>
    refine ⟨d, rfl, hentered.nodup, hentered.allocated, ?_⟩
    rw [List.length_cons]
    omega

/-- What holds of atoms, of open lists, and of a list whenever it holds of its items while it is
open, holds of every value. -/
theorem Opened.induct {P : Nat → List ListRef → Value → Prop}
    (atom : ∀ {depth opened v}, v.list? = none → P depth opened v)
    (again : ∀ {depth opened l}, l ∈ opened → P depth opened (.list l))
    (enter : ∀ {depth opened l}, l ∉ opened →
      (∀ x ∈ (h.items l).toList, P depth (l :: opened) x) → P (depth + 1) opened (.list l))
    (ho : h.Opened depth opened) (hv : h.Closed v) : P depth opened v := by
  induction depth generalizing opened v with
  | zero =>
    cases hlist : v.list? with
    | none => exact atom hlist
    | some l =>
      obtain rfl : v = .list l := by cases v <;> cases hlist; rfl
      by_cases hl : l ∈ opened
      · exact again hl
      · obtain ⟨_, hd, -⟩ := ho.enter (hv l .refl) hl
        cases hd
  | succ d ih =>
    cases hlist : v.list? with
    | none => exact atom hlist
    | some l =>
      obtain rfl : v = .list l := by cases v <;> cases hlist; rfl
      by_cases hl : l ∈ opened
      · exact again hl
      · obtain ⟨_, hd, hentered⟩ := ho.enter (hv l .refl) hl
        cases hd
        exact enter hl fun x hx => ih hentered (hv.item ⟨l, rfl, hx⟩)

/-! ### The bounded traversal -/

/-- The traversal with what it makes of an atom, of an open list and of the results for items. -/
def walk {β : Type} (h : Heap) (atom : Value → β) (again : β) (wrap : List β → β) :
    Nat → List ListRef → Value → β
  | 0, _, .list _ => again
  | depth + 1, opened, .list l =>
    if opened.contains l then again
    else wrap ((h.items l).toList.map (h.walk atom again wrap depth (l :: opened)))
  | _, _, v => atom v

section

variable {β : Type} {atom : Value → β} {again : β} {wrap : List β → β}

theorem walk_atom (hv : v.list? = none) : h.walk atom again wrap depth opened v = atom v := by
  cases v with
  | list _ => cases hv
  | _ => cases depth <;> rfl

theorem walk_again (hl : l ∈ opened) :
    h.walk atom again wrap depth opened (.list l) = again := by
  cases depth with
  | zero => rfl
  | succ depth => exact if_pos (List.contains_iff_mem.mpr hl)

theorem walk_enter (hl : l ∉ opened) : h.walk atom again wrap (depth + 1) opened (.list l) =
    wrap ((h.items l).toList.map (h.walk atom again wrap depth (l :: opened))) :=
  if_neg fun hmem => hl (List.contains_iff_mem.mp hmem)

end

/-- A list of texts in brackets. -/
def bracketed (parts : List String) : String :=
  "[" ++ Text.joinStrings ", " parts ++ "]"

theorem write_eq_walk (h : Heap) (atom : Value → String) (depth : Nat) (opened : List ListRef)
    (v : Value) : h.write atom depth opened v = h.walk atom "[...]" bracketed depth opened v := by
  induction depth generalizing opened v with
  | zero => cases v <;> rfl
  | succ depth ih =>
    cases v with
    | list l =>
      rw [write, walk, bracketed, List.map_congr_left fun x _ => ih (l :: opened) x]
    | _ => rfl

/-- The host form of a value that is not a list. -/
def hostAtom : Value → Option HostValue
  | .null => some .null
  | .number _ n => some (.number n.convert)
  | .text _ s => some (.text s)
  | _ => none

theorem toHostWithin_eq_walk (h : Heap) (depth : Nat) (opened : List ListRef) (v : Value) :
    h.toHostWithin depth opened v =
      h.walk hostAtom none (fun parts => (collect parts).map .list) depth opened v := by
  induction depth generalizing opened v with
  | zero => cases v <;> rfl
  | succ depth ih =>
    cases v with
    | list l =>
      rw [toHostWithin, walk, List.map_congr_left fun x _ => ih (l :: opened) x]
    | _ => rfl

/-! ### The traversals end -/

theorem writingAll_eq {atom : Value → String} {vs : List Value} {f : Value → String}
    (hvs : ∀ x ∈ vs, (h.writing atom x).run opened = some (f x, opened)) :
    (h.writingAll atom vs).run opened = some (vs.map f, opened) := by
  induction vs with
  | nil =>
    rw [writingAll]
    rfl
  | cons x vs ih =>
    obtain ⟨hx, hrest⟩ := List.forall_mem_cons.mp hvs
    rw [writingAll]
    simp [hx, ih hrest]

/-- Writing ends, and every list that it opens it closes. -/
theorem writing_eq (atom : Value → String) (ho : h.Opened depth opened) (hv : h.Closed v) :
    (h.writing atom v).run opened = some (h.write atom depth opened v, opened) := by
  rw [write_eq_walk]
  refine Opened.induct (P := fun depth opened v => (h.writing atom v).run opened =
    some (h.walk atom "[...]" bracketed depth opened v, opened)) ?_ ?_ ?_ ho hv
  · intro depth opened v hv
    rw [walk_atom hv]
    cases v with
    | list _ => cases hv
    | _ => simp [writing]
  · intro depth opened l hl
    rw [writing, walk_again hl]
    simp [hl]
  · intro depth opened l hl hitems
    rw [writing, walk_enter hl]
    have hall := writingAll_eq hitems
    simp [hl, hall, bracketed]

theorem convertingAll_eq {vs : List Value} {f : Value → Option HostValue}
    (hvs : ∀ x ∈ vs, (h.converting x).run opened = some (f x, opened)) :
    (h.convertingAll vs).run opened = some (collect (vs.map f), opened) := by
  induction vs with
  | nil =>
    rw [convertingAll]
    rfl
  | cons x vs ih =>
    obtain ⟨hx, hrest⟩ := List.forall_mem_cons.mp hvs
    rw [convertingAll, List.map_cons]
    cases hvalue : f x with
    | none => simp [hx, hvalue, collect]
    | some a => simp [hx, hvalue, ih hrest, collect]

theorem converting_eq (ho : h.Opened depth opened) (hv : h.Closed v) :
    (h.converting v).run opened = some (h.toHostWithin depth opened v, opened) := by
  rw [toHostWithin_eq_walk]
  refine Opened.induct (P := fun depth opened v => (h.converting v).run opened =
    some (h.walk hostAtom none (fun parts => (collect parts).map .list) depth opened v, opened))
    ?_ ?_ ?_ ho hv
  · intro depth opened v hv
    rw [walk_atom hv]
    cases v with
    | list _ => cases hv
    | _ => simp [converting, hostAtom]
  · intro depth opened l hl
    rw [converting, walk_again hl]
    simp [hl]
  · intro depth opened l hl hitems
    rw [converting, walk_enter hl]
    have hall := convertingAll_eq hitems
    simp [hl, hall]

end Heap

end ScriptEngine
