/-! # Tables in insertion order

A table maps names to entries and remembers the order in which the names first came in. Writing a
name again keeps its place; erasing one closes the gap. -/

namespace ScriptEngine

/-- Names with their entries, in order. -/
abbrev Table (α : Type) := List (String × α)

namespace Table

variable {α : Type}

def get? : Table α → String → Option α
  | [], _ => none
  | (key, value) :: rest, name => if key = name then some value else get? rest name

def contains (t : Table α) (name : String) : Bool :=
  (t.get? name).isSome

def insert : Table α → String → α → Table α
  | [], name, new => [(name, new)]
  | (key, value) :: rest, name, new =>
    if key = name then (key, new) :: rest else (key, value) :: insert rest name new

def erase : Table α → String → Table α
  | [], _ => []
  | (key, value) :: rest, name => if key = name then rest else (key, value) :: erase rest name

/-- Inserts the entries one after the other. -/
def insertAll (t : Table α) (entries : List (String × α)) : Table α :=
  entries.foldl (fun t e => t.insert e.1 e.2) t

theorem get?_insert (t : Table α) (name other : String) (new : α) :
    (t.insert name new).get? other = if name = other then some new else t.get? other := by
  induction t with
  | nil => simp [insert, get?]
  | cons entry rest ih =>
    obtain ⟨key, value⟩ := entry
    by_cases h : key = name
    · subst h
      by_cases ho : key = other <;> simp [insert, get?, ho]
    · by_cases ho : key = other
      · subst ho
        simp [insert, get?, h, Ne.symm h]
      · simp [insert, get?, h, ho, ih]

theorem get?_insert_self (t : Table α) (name : String) (new : α) :
    (t.insert name new).get? name = some new := by
  simp [get?_insert]

theorem get?_erase_ne (t : Table α) (name other : String) (h : name ≠ other) :
    (t.erase name).get? other = t.get? other := by
  induction t with
  | nil => rfl
  | cons entry rest ih =>
    obtain ⟨key, value⟩ := entry
    by_cases hk : key = name
    · subst hk
      simp [erase, get?, h]
    · by_cases ho : key = other
      · subst ho
        simp [erase, get?, hk]
      · simp [erase, get?, hk, ho, ih]

theorem mem_of_get? {t : Table α} {name : String} {value : α} (h : t.get? name = some value) :
    (name, value) ∈ t := by
  induction t with
  | nil => cases h
  | cons entry rest ih =>
    obtain ⟨key, old⟩ := entry
    simp only [get?] at h
    split at h
    · rename_i hkey
      cases h
      exact hkey ▸ List.mem_cons_self
    · exact List.mem_cons_of_mem _ (ih h)

theorem mem_insert {t : Table α} {name : String} {new : α} {entry : String × α}
    (h : entry ∈ t.insert name new) : entry = (name, new) ∨ entry ∈ t := by
  induction t with
  | nil => exact .inl (List.mem_singleton.mp h)
  | cons first rest ih =>
    obtain ⟨key, old⟩ := first
    simp only [insert] at h
    split at h
    · rename_i hkey
      rcases List.mem_cons.mp h with rfl | hrest
      · exact .inl (hkey ▸ rfl)
      · exact .inr (List.mem_cons_of_mem _ hrest)
    · rcases List.mem_cons.mp h with rfl | hrest
      · exact .inr List.mem_cons_self
      · exact (ih hrest).imp_right (List.mem_cons_of_mem _)

theorem mem_insertAll {t : Table α} {entries : List (String × α)} {entry : String × α}
    (h : entry ∈ t.insertAll entries) : entry ∈ entries ∨ entry ∈ t := by
  induction entries generalizing t with
  | nil => exact .inr h
  | cons first rest ih =>
    rcases ih h with hrest | hold
    · exact .inl (List.mem_cons_of_mem _ hrest)
    · rcases mem_insert hold with rfl | ht
      · exact .inl List.mem_cons_self
      · exact .inr ht

theorem mem_erase {t : Table α} {name : String} {entry : String × α}
    (h : entry ∈ t.erase name) : entry ∈ t := by
  induction t with
  | nil => exact h
  | cons first rest ih =>
    simp only [erase] at h
    split at h
    · exact List.mem_cons_of_mem _ h
    · rcases List.mem_cons.mp h with rfl | hrest
      · exact List.mem_cons_self
      · exact List.mem_cons_of_mem _ (ih hrest)

end Table

end ScriptEngine
