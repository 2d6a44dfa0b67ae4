import Mathlib.Data.List.Forall2
import ScriptEngine.Table

/-! # Related tables

Lists, arrays and tables whose entries are related one by one, by whatever relation. Searching gives
related entries at the same place, and every change that is made to both keeps them related. -/

namespace ScriptEngine

theorem optionRel_refl {α : Type} {R : α → α → Prop} (hR : ∀ a, R a a) (o : Option α) :
    Option.Rel R o o := by
  cases o with
  | none => exact .none
  | some a => exact .some (hR a)

theorem forall₂_of_refl {α : Type} {R : α → α → Prop} (hR : ∀ a, R a a) (as : List α) :
    List.Forall₂ R as as :=
  List.forall₂_same.mpr fun a _ => hR a

/-! ### Lists -/

section Lists

variable {α β : Type} {R : α → β → Prop} {xs : List α} {ys : List β}

theorem forall₂_getElem? (h : List.Forall₂ R xs ys) (i : Nat) :
    Option.Rel R xs[i]? ys[i]? := by
  induction h generalizing i with
  | nil => exact .none
  | cons hxy _ ih =>
    cases i with
    | zero => exact .some hxy
    | succ i => exact ih i

theorem forall₂_set (h : List.Forall₂ R xs ys) {a : α} {b : β} (hab : R a b) (i : Nat) :
    List.Forall₂ R (xs.set i a) (ys.set i b) := by
  induction h generalizing i with
  | nil => exact .nil
  | cons hxy h ih =>
    cases i with
    | zero => exact .cons hab h
    | succ i => exact .cons hxy (ih i)

theorem forall₂_insertIdx (h : List.Forall₂ R xs ys) {a : α} {b : β} (hab : R a b)
    (i : Nat) : List.Forall₂ R (xs.insertIdx i a) (ys.insertIdx i b) := by
  induction h generalizing i with
  | nil =>
    cases i with
    | zero => exact .cons hab .nil
    | succ i => exact .nil
  | cons hxy h ih =>
    cases i with
    | zero => exact .cons hab (.cons hxy h)
    | succ i => exact .cons hxy (ih i)

theorem forall₂_eraseIdx (h : List.Forall₂ R xs ys) (i : Nat) :
    List.Forall₂ R (xs.eraseIdx i) (ys.eraseIdx i) := by
  induction h generalizing i with
  | nil => exact .nil
  | cons hxy h ih =>
    cases i with
    | zero => exact h
    | succ i => exact .cons hxy (ih i)

theorem forall₂_dropLast (h : List.Forall₂ R xs ys) :
    List.Forall₂ R xs.dropLast ys.dropLast := by
  rw [List.dropLast_eq_take, List.dropLast_eq_take, ← h.length_eq]
  exact List.forall₂_take _ h

theorem forall₂_findIdx? (h : List.Forall₂ R xs ys) {p : α → Bool} {q : β → Bool}
    (hpq : ∀ a b, R a b → q b = p a) : ys.findIdx? q = xs.findIdx? p := by
  induction h with
  | nil => rfl
  | cons hxy _ ih => rw [List.findIdx?_cons, List.findIdx?_cons, hpq _ _ hxy, ih]

theorem forall₂_map_eq {γ : Type} (h : List.Forall₂ R xs ys) {f : α → γ} {g : β → γ}
    (hfg : ∀ a b, R a b → g b = f a) : ys.map g = xs.map f := by
  induction h with
  | nil => rfl
  | cons hxy _ ih => rw [List.map_cons, List.map_cons, hfg _ _ hxy, ih]

end Lists

/-- Arrays of one size whose items have the same image, also beyond their end. -/
theorem array_map_eq {α β : Type} {xs ys : Array α} {f : α → β} (a : α)
    (hsize : ys.size = xs.size) (hitem : ∀ i, f (xs.getD i a) = f (ys.getD i a)) :
    xs.map f = ys.map f := by
  refine Array.ext_getElem? fun i => ?_
  have hi := hitem i
  simp only [Array.getD_eq_getD_getElem?] at hi
  rw [Array.getElem?_map, Array.getElem?_map]
  by_cases hlt : i < xs.size
  · have hlt' : i < ys.size := hsize ▸ hlt
    rw [Array.getElem?_eq_getElem hlt, Array.getElem?_eq_getElem hlt'] at hi ⊢
    exact congrArg some hi
  · have hge : xs.size ≤ i := Nat.le_of_not_lt hlt
    have hge' : ys.size ≤ i := hsize ▸ hge
    rw [Array.getElem?_eq_none hge, Array.getElem?_eq_none hge']

section Arrays

variable {α β : Type} {R : α → β → Prop} {xs : Array α} {ys : Array β}

theorem forall₂_push (h : List.Forall₂ R xs.toList ys.toList) {a : α} {b : β} (hab : R a b) :
    List.Forall₂ R (xs.push a).toList (ys.push b).toList := by
  rw [Array.toList_push, Array.toList_push]
  exact List.rel_append h (.cons hab .nil)

theorem forall₂_size (h : List.Forall₂ R xs.toList ys.toList) : ys.size = xs.size := by
  have hlength := h.length_eq
  simp only [Array.length_toList] at hlength
  exact hlength.symm

theorem forall₂_setIfInBounds (h : List.Forall₂ R xs.toList ys.toList) {a : α} {b : β}
    (hab : R a b) (i : Nat) :
    List.Forall₂ R (xs.setIfInBounds i a).toList (ys.setIfInBounds i b).toList := by
  rw [Array.toList_setIfInBounds, Array.toList_setIfInBounds]
  exact forall₂_set h hab i

theorem forall₂_insertIdxIfInBounds (h : List.Forall₂ R xs.toList ys.toList) {a : α} {b : β}
    (hab : R a b) (i : Nat) :
    List.Forall₂ R (xs.insertIdxIfInBounds i a).toList (ys.insertIdxIfInBounds i b).toList := by
  simp only [Array.insertIdxIfInBounds, forall₂_size h]
  split
  · rw [Array.toList_insertIdx, Array.toList_insertIdx]
    exact forall₂_insertIdx h hab i
  · exact h

theorem forall₂_eraseIdxIfInBounds (h : List.Forall₂ R xs.toList ys.toList) (i : Nat) :
    List.Forall₂ R (xs.eraseIdxIfInBounds i).toList (ys.eraseIdxIfInBounds i).toList := by
  rw [Array.toList_eraseIdxIfInBounds, Array.toList_eraseIdxIfInBounds]
  exact forall₂_eraseIdx h i

theorem forall₂_pop (h : List.Forall₂ R xs.toList ys.toList) :
    List.Forall₂ R xs.pop.toList ys.pop.toList := by
  rw [Array.toList_pop, Array.toList_pop]
  exact forall₂_dropLast h

theorem forall₂_arrayGetElem? (h : List.Forall₂ R xs.toList ys.toList) (i : Nat) :
    Option.Rel R xs[i]? ys[i]? := by
  have hitem := forall₂_getElem? h i
  rwa [Array.getElem?_toList, Array.getElem?_toList] at hitem

theorem forall₂_back? (h : List.Forall₂ R xs.toList ys.toList) :
    Option.Rel R xs.back? ys.back? := by
  rw [Array.back?, Array.back?, forall₂_size h]
  exact forall₂_arrayGetElem? h (xs.size - 1)

theorem forall₂_getD (h : List.Forall₂ R xs.toList ys.toList) {a : α} {b : β} (hab : R a b)
    (i : Nat) : R (xs.getD i a) (ys.getD i b) := by
  have hitem := forall₂_arrayGetElem? h i
  rw [Array.getD_eq_getD_getElem?, Array.getD_eq_getD_getElem?]
  generalize xs[i]? = o, ys[i]? = o' at hitem
  cases hitem with
  | none => exact hab
  | some hv => exact hv

end Arrays

/-! ### Tables -/

namespace Table

variable {α β : Type} {R : α → β → Prop}

/-- The same names in the same order, with related entries. -/
abbrev Related (R : α → β → Prop) (t : Table α) (t' : Table β) : Prop :=
  List.Forall₂ (fun a b => a.1 = b.1 ∧ R a.2 b.2) t t'

namespace Related

variable {t : Table α} {t' : Table β}

theorem get? (ht : Related R t t') (name : String) :
    Option.Rel R (t.get? name) (t'.get? name) := by
  induction ht with
  | nil => exact .none
  | @cons a b rest rest' hab _ ih =>
    simp only [Table.get?, ← hab.1]
    split
    · exact .some hab.2
    · exact ih

theorem contains (ht : Related R t t') (name : String) : t'.contains name = t.contains name := by
  have hget := Related.get? ht name
  unfold Table.contains
  generalize t.get? name = o, t'.get? name = o' at hget
  cases hget <;> rfl

theorem insert (ht : Related R t t') (name : String) {a : α} {b : β} (hab : R a b) :
    Related R (t.insert name a) (t'.insert name b) := by
  induction ht with
  | nil => exact .cons ⟨rfl, hab⟩ .nil
  | @cons a b rest rest' hfirst hrest ih =>
    simp only [Table.insert, ← hfirst.1]
    split
    · exact .cons ⟨rfl, hab⟩ hrest
    · exact .cons ⟨rfl, hfirst.2⟩ ih

theorem insertAll (ht : Related R t t') {more : Table α} {more' : Table β}
    (hmore : Related R more more') : Related R (t.insertAll more) (t'.insertAll more') := by
  induction hmore generalizing t t' with
  | nil => exact ht
  | @cons a b rest rest' hab _ ih =>
    have hnext := Related.insert ht a.1 hab.2
    simp only [Table.insertAll, List.foldl_cons]
    rw [← hab.1]
    exact ih hnext

theorem erase (ht : Related R t t') (name : String) :
    Related R (t.erase name) (t'.erase name) := by
  induction ht with
  | nil => exact .nil
  | @cons a b rest rest' hab hrest ih =>
    simp only [Table.erase, ← hab.1]
    split
    · exact hrest
    · exact .cons ⟨rfl, hab.2⟩ ih

theorem zip (names : List String) {as : List α} {bs : List β} (h : List.Forall₂ R as bs) :
    Related R (names.zip as) (names.zip bs) := by
  induction h generalizing names with
  | nil => simp only [List.zip_nil_right]; exact .nil
  | cons hab _ ih =>
    cases names with
    | nil => exact .nil
    | cons name names => exact .cons ⟨rfl, hab⟩ (ih names)

end Related

end Table

end ScriptEngine
