import ScriptEngine.Proofs.HeapLaws

/-! # The shape of a heap

A heap is well shaped if every scope is younger than the scopes that it refers to, the receiver of
a view is not a view, a view holds nothing of its own and has a parent, and every value that is
held anywhere refers to scopes that exist, instances to scopes that are not views. Each change that
evaluation makes to a heap keeps it well shaped and only adds to it. A host can also make views of
views and bind names in a view; then the same is said without what concerns views. -/

namespace ScriptEngine

/-! ### Well-shaped heaps -/

/-- What is known of views. -/
class Views where
  /-- Whether they are used as evaluation uses them. -/
  regular : Prop

/-- Only programs run. -/
@[reducible] def Views.ofPrograms : Views := ⟨True⟩

/-- A host takes part. -/
@[reducible] def Views.ofHosts : Views := ⟨False⟩

/-- The scope exists and is not a view. -/
structure Heap.Plain [Views] (h : Heap) (e : ScopeRef) : Prop where
  allocated : h.Allocated e
  receiver : Views.regular → (h.scope e).receiver = none

/-- The scopes that the value refers to exist; those that it gives access to are not views. -/
def Value.Sound [Views] (h : Heap) : Value → Prop
  | .instance_ e => h.Plain e
  | .function _ _ closure => h.Allocated closure
  | .native _ (.superCall _ _ target) => h.Plain target
  | _ => True

/-- A view holds nothing of its own and has a parent. -/
structure Scope.EmptyView (s : Scope) : Prop where
  bindings : s.bindings = []
  tracked : s.tracked = []
  watched : s.watched = []
  parent : s.parent.isSome = true

structure Heap.Shaped [Views] (h : Heap) : Prop where
  ordered : h.Ordered
  receiver : Views.regular → ∀ e r, (h.scope e).receiver = some r → (h.scope r).receiver = none
  view : Views.regular → ∀ e, (h.scope e).isView = true → (h.scope e).EmptyView
  bindings : ∀ e, ∀ entry ∈ (h.scope e).bindings, entry.2.Sound h
  items : ∀ l, ∀ v ∈ (h.items l).toList, v.Sound h

/-- The heap `g` came from `h` by making scopes and by changes that keep parents and receivers. -/
structure Heap.Extends (h g : Heap) : Prop where
  size : h.scopes.size ≤ g.scopes.size
  parent : ∀ e, h.Allocated e → (g.scope e).parent = (h.scope e).parent
  receiver : ∀ e, h.Allocated e → (g.scope e).receiver = (h.scope e).receiver

namespace Heap

theorem Extends.refl (h : Heap) : h.Extends h :=
  ⟨Nat.le_refl _, fun _ _ => rfl, fun _ _ => rfl⟩

theorem Extends.allocated {h g : Heap} (hx : h.Extends g) {e : ScopeRef} (he : h.Allocated e) :
    g.Allocated e :=
  Nat.lt_of_lt_of_le he hx.size

theorem Extends.trans {h g k : Heap} (hg : h.Extends g) (hk : g.Extends k) : h.Extends k where
  size := Nat.le_trans hg.size hk.size
  parent e he := (hk.parent e (hg.allocated he)).trans (hg.parent e he)
  receiver e he := (hk.receiver e (hg.allocated he)).trans (hg.receiver e he)

theorem Extends.plain [Views] {h g : Heap} (hx : h.Extends g) {e : ScopeRef} (he : h.Plain e) :
    g.Plain e :=
  ⟨hx.allocated he.allocated, fun hv => (hx.receiver e he.allocated).trans (he.receiver hv)⟩

end Heap

section Values

variable [Views]

theorem Value.Sound.mono {h g : Heap} {v : Value} (hx : h.Extends g) (hv : v.Sound h) :
    v.Sound g := by
  cases v with
  | instance_ e => exact hx.plain hv
  | function stamp lambda closure => exact hx.allocated hv
  | native stamp n =>
    cases n with
    | superCall parent child target => exact hx.plain hv
    | _ => trivial
  | _ => trivial

/-- Every value of a list is sound. -/
def AllSound (h : Heap) (vs : List Value) : Prop :=
  ∀ v ∈ vs, v.Sound h

theorem AllSound.mono {h g : Heap} {vs : List Value} (hx : h.Extends g) (hv : AllSound h vs) :
    AllSound g vs :=
  fun v hm => (hv v hm).mono hx

/-- Every value of a table is sound. -/
def EntriesSound (h : Heap) (entries : Table Value) : Prop :=
  ∀ entry ∈ entries, entry.2.Sound h

theorem EntriesSound.mono {h g : Heap} {entries : Table Value} (hx : h.Extends g)
    (he : EntriesSound h entries) : EntriesSound g entries :=
  fun entry hm => (he entry hm).mono hx

/-! ### Tables of sound values -/

namespace EntriesSound

theorem of_get? {h : Heap} {entries : Table Value} (he : EntriesSound h entries) {name : String}
    {v : Value} (hg : entries.get? name = some v) : v.Sound h :=
  he (name, v) (Table.mem_of_get? hg)

theorem insert {h : Heap} {entries : Table Value} (he : EntriesSound h entries) (name : String)
    {v : Value} (hv : v.Sound h) : EntriesSound h (entries.insert name v) := by
  intro entry hm
  rcases Table.mem_insert hm with rfl | hold
  · exact hv
  · exact he entry hold

theorem insertAll {h : Heap} {entries more : Table Value} (he : EntriesSound h entries)
    (hm : EntriesSound h more) : EntriesSound h (entries.insertAll more) :=
  fun entry h => (Table.mem_insertAll h).elim (hm entry) (he entry)

theorem erase {h : Heap} {entries : Table Value} (he : EntriesSound h entries) (name : String) :
    EntriesSound h (entries.erase name) :=
  fun entry hm => he entry (Table.mem_erase hm)

theorem zip {h : Heap} {params : List String} {args : List Value} (ha : AllSound h args) :
    EntriesSound h (params.zip args) := by
  intro entry hm
  obtain ⟨name, value⟩ := entry
  exact ha value (List.of_mem_zip hm).2

end EntriesSound

/-- The scope can be added to the heap. -/
structure Scope.Fits (h : Heap) (s : Scope) : Prop where
  parent : ∀ p, s.parent = some p → h.Allocated p
  receiver : ∀ r, s.receiver = some r → h.Plain r
  view : Views.regular → s.isView = true → s.EmptyView
  bindings : EntriesSound h s.bindings

theorem Scope.Fits.of_inside {h : Heap} {s : Scope} (hr : s.receiver = none)
    (hp : ∀ p, s.parent = some p → h.Allocated p) (hb : EntriesSound h s.bindings) :
    s.Fits h where
  parent := hp
  receiver r hc := by
    rw [hr] at hc
    cases hc
  view _ hv := by
    rw [Scope.isView, hr] at hv
    cases hv
  bindings := hb

end Values

/-! ### Changes of one scope -/

namespace Heap

theorem extends_newScope (h : Heap) (s : Scope) : h.Extends (h.newScope s).2 where
  size := by
    simp only [newScope, Array.size_push]
    exact Nat.le_succ _
  parent e he := by rw [scope_newScope_old h s e he]
  receiver e he := by rw [scope_newScope_old h s e he]

theorem allocated_newScope (h : Heap) (s : Scope) : (h.newScope s).2.Allocated (h.newScope s).1 := by
  simp [Allocated, newScope]

theorem scope_newScope_self (h : Heap) (s : Scope) :
    (h.newScope s).2.scope (h.newScope s).1 = s := by
  rw [scope_newScope]
  exact if_pos rfl

theorem items_newScope (h : Heap) (s : Scope) (l : ListRef) :
    (h.newScope s).2.items l = h.items l := rfl

section Scopes

variable [Views]

theorem plain_newScope (h : Heap) (s : Scope) (hr : s.receiver = none) :
    (h.newScope s).2.Plain (h.newScope s).1 :=
  ⟨allocated_newScope h s, fun _ => by rw [scope_newScope_self]; exact hr⟩

theorem Shaped.newScope {h : Heap} (hs : h.Shaped) {s : Scope} (hf : s.Fits h) :
    (h.newScope s).2.Shaped := by
  have hx := extends_newScope h s
  -- A reference is either the new scope or refers to an old one, which has not changed.
  have hold : ∀ q : ScopeRef, q.index ≠ h.scopes.size →
      (h.newScope s).2.scope q = h.scope q := fun q hq => by
    rw [scope_newScope, if_neg hq]
  have hnew : ∀ q : ScopeRef, q.index = h.scopes.size →
      (h.newScope s).2.scope q = s := fun q hq => by
    rw [scope_newScope, if_pos hq]
  refine ⟨⟨?_, ?_⟩, ?_, ?_, ?_, ?_⟩
  · intro e p hp
    by_cases he : e.index = h.scopes.size
    · rw [hnew e he] at hp
      exact he ▸ hf.parent p hp
    · rw [hold e he] at hp
      exact hs.ordered.parent e p hp
  · intro e r hr
    by_cases he : e.index = h.scopes.size
    · rw [hnew e he] at hr
      exact he ▸ (hf.receiver r hr).allocated
    · rw [hold e he] at hr
      exact hs.ordered.receiver e r hr
  · intro hregular e r hr
    have hplain : h.Plain r := by
      by_cases he : e.index = h.scopes.size
      · rw [hnew e he] at hr
        exact hf.receiver r hr
      · rw [hold e he] at hr
        by_cases hea : h.Allocated e
        · exact ⟨hs.ordered.receiver_allocated hea hr, fun hv => hs.receiver hv e r hr⟩
        · rw [scope_unallocated h e hea] at hr
          cases hr
    exact (hx.plain hplain).receiver hregular
  · intro hregular e hv
    by_cases he : e.index = h.scopes.size
    · rw [hnew e he] at hv ⊢
      exact hf.view hregular hv
    · rw [hold e he] at hv ⊢
      exact hs.view hregular e hv
  · intro e entry hm
    by_cases he : e.index = h.scopes.size
    · rw [hnew e he] at hm
      exact (hf.bindings entry hm).mono hx
    · rw [hold e he] at hm
      exact (hs.bindings e entry hm).mono hx
  · intro l v hm
    rw [items_newScope] at hm
    exact (hs.items l v hm).mono hx

/-- A change of what a scope holds. -/
structure Refits (h : Heap) (s t : Scope) : Prop where
  parent : t.parent = s.parent
  receiver : t.receiver = s.receiver
  view : Views.regular → t.isView = true → t.EmptyView
  bindings : EntriesSound h t.bindings

theorem extends_modifyScope {h : Heap} {e : ScopeRef} {f : Scope → Scope} (he : h.Allocated e)
    (hf : h.Refits (h.scope e) (f (h.scope e))) : h.Extends (h.modifyScope e f) where
  size := Nat.le_of_eq (size_modifyScope h e f).symm
  parent q _ := by
    by_cases hq : q = e
    · subst hq
      rw [scope_modifyScope_self h q f he]
      exact hf.parent
    · rw [scope_modifyScope_ne h e q f hq]
  receiver q _ := by
    by_cases hq : q = e
    · subst hq
      rw [scope_modifyScope_self h q f he]
      exact hf.receiver
    · rw [scope_modifyScope_ne h e q f hq]

theorem receiver_modifyScope {h : Heap} {e : ScopeRef} {f : Scope → Scope} (he : h.Allocated e)
    (hf : h.Refits (h.scope e) (f (h.scope e))) (q : ScopeRef) :
    ((h.modifyScope e f).scope q).receiver = (h.scope q).receiver := by
  by_cases hq : q = e
  · subst hq
    rw [scope_modifyScope_self h q f he]
    exact hf.receiver
  · rw [scope_modifyScope_ne h e q f hq]

theorem Shaped.modifyScope {h : Heap} (hs : h.Shaped) {e : ScopeRef} {f : Scope → Scope}
    (he : h.Allocated e) (hf : h.Refits (h.scope e) (f (h.scope e))) :
    (h.modifyScope e f).Shaped := by
  have hx := extends_modifyScope he hf
  have hreceiver := receiver_modifyScope he hf
  have hself := scope_modifyScope_self h e f he
  have hother : ∀ q, q ≠ e → (h.modifyScope e f).scope q = h.scope q :=
    fun q hq => scope_modifyScope_ne h e q f hq
  refine ⟨⟨?_, ?_⟩, ?_, ?_, ?_, ?_⟩
  · intro q p hp
    by_cases hq : q = e
    · subst hq
      rw [hself, hf.parent] at hp
      exact hs.ordered.parent q p hp
    · rw [hother q hq] at hp
      exact hs.ordered.parent q p hp
  · intro q r hr
    rw [hreceiver] at hr
    exact hs.ordered.receiver q r hr
  · intro hregular q r hr
    rw [hreceiver] at hr ⊢
    exact hs.receiver hregular q r hr
  · intro hregular q hv
    by_cases hq : q = e
    · subst hq
      rw [hself] at hv ⊢
      exact hf.view hregular hv
    · rw [hother q hq] at hv ⊢
      exact hs.view hregular q hv
  · intro q entry hm
    by_cases hq : q = e
    · subst hq
      rw [hself] at hm
      exact (hf.bindings entry hm).mono hx
    · rw [hother q hq] at hm
      exact (hs.bindings q entry hm).mono hx
  · intro l v hm
    exact (hs.items l v hm).mono hx

/-- Whatever a scope that is not a view holds can be replaced by sound values. -/
theorem Plain.refits {h : Heap} {e : ScopeRef} (hp : h.Plain e) {t : Scope}
    (hparent : t.parent = (h.scope e).parent) (hreceiver : t.receiver = (h.scope e).receiver)
    (hb : EntriesSound h t.bindings) : h.Refits (h.scope e) t where
  parent := hparent
  receiver := hreceiver
  view hregular hv := by
    rw [Scope.isView, hreceiver, hp.receiver hregular] at hv
    cases hv
  bindings := hb

theorem Shaped.sound_define {h : Heap} (hs : h.Shaped) {e : ScopeRef} (hp : h.Plain e)
    (name : String) {v : Value} (hv : v.Sound h) :
    h.Refits (h.scope e) ((h.scope e).define name v) :=
  hp.refits rfl rfl (EntriesSound.insert (hs.bindings e) name hv)

theorem Shaped.sound_defineAll {h : Heap} (hs : h.Shaped) {e : ScopeRef} (hp : h.Plain e)
    {entries : Table Value} (he : EntriesSound h entries) :
    h.Refits (h.scope e) ((h.scope e).defineAll entries) :=
  hp.refits rfl rfl (EntriesSound.insertAll (hs.bindings e) he)

theorem Shaped.sound_remove {h : Heap} (hs : h.Shaped) {e : ScopeRef} (hp : h.Plain e)
    (name : String) : h.Refits (h.scope e) ((h.scope e).remove name) :=
  hp.refits rfl rfl (EntriesSound.erase (hs.bindings e) name)

/-- The origin of a scope says nothing about its shape. -/
theorem Shaped.sound_origin {h : Heap} (hs : h.Shaped) (e : ScopeRef) (origin : Option String) :
    h.Refits (h.scope e) { h.scope e with origin := origin } where
  parent := rfl
  receiver := rfl
  view hregular hv :=
    have hview := hs.view hregular e hv
    ⟨hview.bindings, hview.tracked, hview.watched, hview.parent⟩
  bindings := hs.bindings e

theorem entriesSound_addMissing {h : Heap} {s : Scope} {entries : Table Value}
    (hb : EntriesSound h s.bindings) (he : EntriesSound h entries) :
    EntriesSound h (entries.foldl
      (fun t e => if t.contains e.1 then t else t.define e.1 e.2) s).bindings :=
  fun entry hm => (mem_addMissing hm).elim (he entry) (hb entry)

omit [Views] in
theorem addMissing_links (s : Scope) (entries : Table Value) :
    let t := entries.foldl (fun t e => if t.contains e.1 then t else t.define e.1 e.2) s
    t.parent = s.parent ∧ t.receiver = s.receiver := by
  induction entries generalizing s with
  | nil => exact ⟨rfl, rfl⟩
  | cons entry rest ih =>
    simp only [List.foldl_cons]
    split
    · exact ih s
    · exact ih (s.define entry.1 entry.2)

theorem Shaped.sound_addMissing {h : Heap} (hs : h.Shaped) {e : ScopeRef} (hp : h.Plain e)
    {entries : Table Value} (he : EntriesSound h entries) :
    h.Refits (h.scope e) (entries.foldl
      (fun t e => if t.contains e.1 then t else t.define e.1 e.2) (h.scope e)) :=
  hp.refits (addMissing_links _ entries).1 (addMissing_links _ entries).2
    (entriesSound_addMissing (hs.bindings e) he)

end Scopes

/-! ### Changes of lists and stamps -/

theorem items_newList (h : Heap) (xs : Array Value) (l : ListRef) :
    (h.newList xs).2.items l = if l.index = h.lists.size then xs else h.items l := by
  simp only [items, newList, Array.getD_eq_getD_getElem?, Array.getElem?_push]
  split <;> rfl

theorem items_modifyList (h : Heap) (l k : ListRef) (f : Array Value → Array Value) :
    (h.modifyList l f).items k =
      if k = l ∧ l.index < h.lists.size then f (h.items l) else h.items k := by
  obtain ⟨i⟩ := l
  obtain ⟨j⟩ := k
  simp only [items, modifyList, Array.getD_eq_getD_getElem?, Array.getElem?_modify,
    ListRef.mk.injEq]
  by_cases hij : j = i
  · subst hij
    by_cases hj : j < h.lists.size
    · simp [hj]
    · simp [hj]
  · simp [hij, Ne.symm hij]

theorem mem_items_modifyList {h : Heap} {l k : ListRef} {f : Array Value → Array Value}
    {v : Value} (hm : v ∈ ((h.modifyList l f).items k).toList) :
    v ∈ (h.items k).toList ∨ v ∈ (f (h.items l)).toList := by
  simp only [items, modifyList, Array.getD_eq_getD_getElem?, Array.getElem?_modify] at hm ⊢
  by_cases hk : l.index = k.index
  · simp only [hk, if_true] at hm ⊢
    cases hc : h.lists[k.index]? with
    | none => simp [hc] at hm
    | some xs =>
      right
      simpa [hc] using hm
  · simp only [hk, if_false] at hm
    exact .inl hm

section Lists

variable [Views]

theorem Shaped.of_scopes {h g : Heap} (hs : h.Shaped) (hg : g.scopes = h.scopes)
    (hi : ∀ l, ∀ v ∈ (g.items l).toList, v.Sound h) : g.Shaped ∧ h.Extends g := by
  have hscope : ∀ e, g.scope e = h.scope e := fun e => by simp only [scope, hg]
  have hx : h.Extends g :=
    ⟨Nat.le_of_eq (by rw [hg]), fun e _ => by rw [hscope], fun e _ => by rw [hscope]⟩
  refine ⟨⟨⟨?_, ?_⟩, ?_, ?_, ?_, ?_⟩, hx⟩
  · intro e p hp
    rw [hscope] at hp
    exact hs.ordered.parent e p hp
  · intro e r hr
    rw [hscope] at hr
    exact hs.ordered.receiver e r hr
  · intro hregular e r hr
    rw [hscope] at hr ⊢
    exact hs.receiver hregular e r hr
  · intro hregular e hv
    rw [hscope] at hv ⊢
    exact hs.view hregular e hv
  · intro e entry hm
    rw [hscope] at hm
    exact (hs.bindings e entry hm).mono hx
  · intro l v hm
    exact (hi l v hm).mono hx

theorem Shaped.newStamp {h : Heap} (hs : h.Shaped) :
    h.newStamp.2.Shaped ∧ h.Extends h.newStamp.2 :=
  hs.of_scopes rfl hs.items

theorem Shaped.newList {h : Heap} (hs : h.Shaped) {xs : Array Value}
    (hxs : AllSound h xs.toList) : (h.newList xs).2.Shaped ∧ h.Extends (h.newList xs).2 := by
  refine hs.of_scopes rfl ?_
  intro l v hm
  rw [items_newList] at hm
  split at hm
  · exact hxs v hm
  · exact hs.items l v hm

theorem Shaped.modifyList {h : Heap} (hs : h.Shaped) (l : ListRef)
    {f : Array Value → Array Value} (hf : AllSound h (f (h.items l)).toList) :
    (h.modifyList l f).Shaped ∧ h.Extends (h.modifyList l f) := by
  refine hs.of_scopes rfl ?_
  intro k v hm
  rcases mem_items_modifyList hm with hm | hm
  · exact hs.items k v hm
  · exact hf v hm

end Lists

/-! ### Where a search ends -/

theorem locate_allocated {h : Heap} (ho : h.Ordered) {name : String} {e found : ScopeRef}
    (he : h.Allocated e) (hf : h.locate e name = some found) : h.Allocated found := by
  obtain ⟨i⟩ := e
  induction i using Nat.strongRecOn with
  | ind i ih =>
    rw [locate_eq h ⟨i⟩ name ho] at hf
    split at hf
    · cases hf
      exact he
    · cases ha : h.answering ⟨i⟩ name with
      | some r =>
        simp only [ha] at hf
        cases hf
        exact ho.receiver_allocated he (answering_eq_some ha).1
      | none =>
        simp only [ha] at hf
        cases hp : (h.scope ⟨i⟩).parent with
        | none => simp [hp] at hf
        | some p =>
          simp only [hp] at hf
          exact ih p.index (ho.parent ⟨i⟩ p hp) (ho.parent_allocated he hp) hf

section Searches

variable [Views]

/-- The root of a chain has no parent, so it is not a view. -/
theorem Shaped.root_plain {h : Heap} (hs : h.Shaped) {e : ScopeRef} (he : h.Allocated e) :
    h.Plain (h.root e) := by
  obtain ⟨i⟩ := e
  induction i using Nat.strongRecOn with
  | ind i ih =>
    rw [root]
    cases hp : (h.scope ⟨i⟩).parent with
    | some p =>
      have hlt := hs.ordered.parent ⟨i⟩ p hp
      simp only [hlt, if_true]
      exact ih p.index hlt (hs.ordered.parent_allocated he hp)
    | none =>
      refine ⟨he, fun hregular => ?_⟩
      cases hr : (h.scope ⟨i⟩).receiver with
      | none => rfl
      | some r =>
        have hparent := (hs.view hregular ⟨i⟩ (by simp [Scope.isView, hr])).parent
        rw [hp] at hparent
        cases hparent

theorem Shaped.receiver_plain {h : Heap} (hs : h.Shaped) {e r : ScopeRef} (he : h.Allocated e)
    (hr : (h.scope e).receiver = some r) : h.Plain r :=
  ⟨hs.ordered.receiver_allocated he hr, fun hregular => hs.receiver hregular e r hr⟩

theorem Shaped.storage_plain {h : Heap} (hs : h.Shaped) {e : ScopeRef} (he : h.Allocated e) :
    h.Plain (h.storage e) := by
  simp only [storage]
  cases hr : (h.scope e).receiver with
  | none => exact ⟨he, fun _ => hr⟩
  | some r => exact hs.receiver_plain he hr

/-- What contains a name is not a view. -/
theorem Shaped.locate_plain {h : Heap} (hs : h.Shaped) {name : String} {e found : ScopeRef}
    (he : h.Allocated e) (hf : h.locate e name = some found) : h.Plain found := by
  refine ⟨locate_allocated hs.ordered he hf, fun hregular => ?_⟩
  have hcontains := locate_contains hf
  cases hr : (h.scope found).receiver with
  | none => rfl
  | some r =>
    have hview := hs.view hregular found (by simp [Scope.isView, hr])
    simp [Scope.contains, Table.contains, Table.get?, hview.bindings, hview.tracked] at hcontains

theorem Shaped.owner_plain {h : Heap} (hs : h.Shaped) {e : ScopeRef} (he : h.Allocated e)
    (name : String) : h.Plain (h.owner e name) := by
  simp only [owner]
  cases hl : h.locate e name with
  | some found => exact hs.locate_plain he hl
  | none =>
    cases hr : (h.scope e).receiver with
    | none => exact hs.root_plain he
    | some r => exact hs.receiver_plain he hr

end Searches

end Heap

end ScriptEngine
