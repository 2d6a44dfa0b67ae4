import ScriptEngine.Proofs.EqualRuns
import ScriptEngine.Proofs.ScopeChains

/-! # Numbered worlds

In a numbered world every identity that occurs was given out. Such a world does not notice that
something else was made beside it: what is made afterwards only gets later numbers. -/

namespace ScriptEngine

/-! ### Renamings -/

namespace Renaming

/-- Equal runs up to a renaming, in which nothing occurs but what was made. -/
def likeness (ρ : Renaming) : Likeness where
  toRenaming := ρ
  node := Eq
  place := Eq
  strict := True
  host _ := True
  failure _ _ _ := True
  node_refl _ := rfl
  place_refl _ := rfl
  node_resembles := Node.resembles_of_eq
  node_label := Node.label_of_eq
  level hloose := absurd trivial hloose
  failure_raised _ _ _ := trivial
  failure_host _ _ _ := trivial
  failure_orPosition _ _ := trivial
  failure_withTrace _ _ := trivial

theorem functional (ρ : Renaming) : ρ.likeness.Functional :=
  ⟨fun _ _ _ h k => h.symm.trans k, fun _ _ _ h k => h.symm.trans k⟩

/-- What was made before `n` stands for the same under both. -/
structure Agree (ρ θ : Renaming) (n : Extent) : Prop where
  stamp : ∀ i, i < n.stamps → θ.stamp i = ρ.stamp i
  list : ∀ i, i < n.lists → θ.list i = ρ.list i

/-- What was made before `n` stands for itself. -/
abbrev Fixes (ρ : Renaming) (n : Extent) : Prop :=
  identity.Agree ρ n

/-- Back from what stands for something made before `n`, all of which was made before `k`. -/
structure Undoes (θ ρ : Renaming) (n k : Extent) : Prop where
  stamp : ∀ i, i < n.stamps → ρ.stamp i < k.stamps ∧ θ.stamp (ρ.stamp i) = i
  list : ∀ i, i < n.lists → ρ.list i < k.lists ∧ θ.list (ρ.list i) = i

end Renaming

section Comparison

variable {ρ θ : Renaming} {n k : Extent}

/-! ### Renamings that agree -/

theorem ClassBody.Alike.eq_renamed {body body' : ClassBody} (hb : body.Alike ρ.likeness body') :
    body = body' :=
  ClassBody.Alike.unique ρ.functional (.refl body) hb

theorem World.Alike.calls_eq {w w' : World} (hw : w.Alike ρ.likeness w') : w'.calls = w.calls := by
  have hentry : Relator.RightUnique (TraceEntry.Alike ρ.likeness) :=
    fun _ _ _ => TraceEntry.Alike.unique ρ.functional
  exact List.right_unique_forall₂' hentry hw.calls (forall₂_of_refl TraceEntry.Alike.refl w.calls)

namespace Renaming.Agree

variable (h : ρ.Agree θ n)
include h

theorem stamped {i : Nat} (hi : ρ.likeness.Stamped n i) :
    θ.likeness.Stamped n i ∧ θ.likeness.stamp i = ρ.likeness.stamp i :=
  ⟨hi, h.stamp i (hi trivial)⟩

theorem listed {l : ListRef} (hl : ρ.likeness.Listed n l) :
    θ.likeness.Listed n l ∧ θ.likeness.ref l = ρ.likeness.ref l :=
  ⟨hl, congrArg ListRef.mk (h.list l.index (hl trivial))⟩

end Renaming.Agree

theorem Class.Alike.agree {c c' : Class} (hc : c.Alike ρ.likeness n c') (h : ρ.Agree θ n) :
    c.Alike θ.likeness n c' := by
  induction hc with
  | base hs hbody =>
    obtain ⟨hmade, hsame⟩ := h.stamped hs
    rw [← hsame, hbody.eq_renamed]
    exact .base hmade (.refl _)
  | derived hs hbody _ ih =>
    obtain ⟨hmade, hsame⟩ := h.stamped hs
    rw [← hsame, hbody.eq_renamed]
    exact .derived hmade (.refl _) ih

theorem Native.Alike.agree {m m' : Native} (hm : m.Alike ρ.likeness n m') (h : ρ.Agree θ n) :
    m.Alike θ.likeness n m' := by
  cases hm with
  | builtin b => exact .builtin b
  | textMethod m s => exact .textMethod m s
  | listMethod m hl =>
    obtain ⟨hmade, hsame⟩ := h.listed hl
    rw [← hsame]
    exact .listMethod m hmade
  | fileMethod m path => exact .fileMethod m path
  | superCall hparent hchild target => exact .superCall (hparent.agree h) (hchild.agree h) target
  | host name params behavior hfail => exact .host name params behavior hfail

theorem Value.Alike.agree {v v' : Value} (hv : v.Alike ρ.likeness n v') (h : ρ.Agree θ n) :
    v.Alike θ.likeness n v' := by
  cases hv with
  | null => exact .null
  | number hs x =>
    obtain ⟨hmade, hsame⟩ := h.stamped hs
    rw [← hsame]
    exact .number hmade x
  | text hs s =>
    obtain ⟨hmade, hsame⟩ := h.stamped hs
    rw [← hsame]
    exact .text hmade s
  | list hl =>
    obtain ⟨hmade, hsame⟩ := h.listed hl
    rw [← hsame]
    exact .list hmade
  | function hs hbody scope =>
    obtain ⟨hmade, hsame⟩ := h.stamped hs
    rw [← hsame]
    exact .function hmade hbody scope
  | native hs hm =>
    obtain ⟨hmade, hsame⟩ := h.stamped hs
    rw [← hsame]
    exact .native hmade (hm.agree h)
  | cls hc => exact .cls (hc.agree h)
  | instance_ scope => exact .instance_ scope

theorem Values.Alike.agree {vs vs' : List Value} (hvs : Values.Alike ρ.likeness n vs vs')
    (h : ρ.Agree θ n) : Values.Alike θ.likeness n vs vs' :=
  hvs.imp fun _ _ hv => hv.agree h

theorem Scope.Alike.agree {s s' : Scope} (hs : s.Alike ρ.likeness n s') (h : ρ.Agree θ n) :
    s.Alike θ.likeness n s' :=
  ⟨List.Forall₂.imp (fun _ _ hab => ⟨hab.1, hab.2.agree h⟩) hs.bindings, hs.rest⟩

/-! ### The way back -/

namespace Renaming.Undoes

variable (h : θ.Undoes ρ n k)
include h

theorem stamped {i : Nat} (hi : ρ.likeness.Stamped n i) :
    θ.likeness.Stamped k (ρ.likeness.stamp i) ∧ θ.likeness.stamp (ρ.likeness.stamp i) = i :=
  ⟨fun _ => (h.stamp i (hi trivial)).1, (h.stamp i (hi trivial)).2⟩

theorem listed {l : ListRef} (hl : ρ.likeness.Listed n l) :
    θ.likeness.Listed k (ρ.likeness.ref l) ∧ θ.likeness.ref (ρ.likeness.ref l) = l :=
  ⟨fun _ => (h.list l.index (hl trivial)).1, congrArg ListRef.mk (h.list l.index (hl trivial)).2⟩

end Renaming.Undoes

theorem Class.Alike.undo {c c' : Class} (hc : c.Alike ρ.likeness n c') (h : θ.Undoes ρ n k) :
    c'.Alike θ.likeness k c := by
  induction hc with
  | @base stamp name params body body' hs hbody =>
    obtain rfl : body = body' := hbody.eq_renamed
    obtain ⟨hmade, hback⟩ := h.stamped hs
    have hbase : Class.Alike θ.likeness k ⟨ρ.likeness.stamp stamp, name, params, body, none⟩
        ⟨θ.likeness.stamp (ρ.likeness.stamp stamp), name, params, body, none⟩ :=
      .base hmade (.refl body)
    rwa [hback] at hbase
  | @derived stamp name params body body' parent parent' hs hbody _ ih =>
    obtain rfl : body = body' := hbody.eq_renamed
    obtain ⟨hmade, hback⟩ := h.stamped hs
    have hderived : Class.Alike θ.likeness k
        ⟨ρ.likeness.stamp stamp, name, params, body, some parent'⟩
        ⟨θ.likeness.stamp (ρ.likeness.stamp stamp), name, params, body, some parent⟩ :=
      .derived hmade (.refl body) ih
    rwa [hback] at hderived

theorem Native.Alike.undo {m m' : Native} (hm : m.Alike ρ.likeness n m') (h : θ.Undoes ρ n k) :
    m'.Alike θ.likeness k m := by
  cases hm with
  | builtin b => exact .builtin b
  | textMethod m s => exact .textMethod m s
  | listMethod m hl =>
    obtain ⟨hmade, hback⟩ := h.listed hl
    have hmethod := Native.Alike.listMethod m hmade
    rwa [hback] at hmethod
  | fileMethod m path => exact .fileMethod m path
  | superCall hparent hchild target => exact .superCall (hparent.undo h) (hchild.undo h) target
  | host name params behavior hfail => exact .host name params behavior hfail

theorem Value.Alike.undo {v v' : Value} (hv : v.Alike ρ.likeness n v') (h : θ.Undoes ρ n k) :
    v'.Alike θ.likeness k v := by
  cases hv with
  | null => exact .null
  | number hs x =>
    obtain ⟨hmade, hback⟩ := h.stamped hs
    have hnumber := Value.Alike.number (n := k) hmade x
    rwa [hback] at hnumber
  | text hs s =>
    obtain ⟨hmade, hback⟩ := h.stamped hs
    have htext := Value.Alike.text (n := k) hmade s
    rwa [hback] at htext
  | list hl =>
    obtain ⟨hmade, hback⟩ := h.listed hl
    have hlist := Value.Alike.list (n := k) hmade
    rwa [hback] at hlist
  | @function stamp name params braced body body' hs hbody scope =>
    obtain ⟨hmade, hback⟩ := h.stamped hs
    have hfunction : Value.Alike θ.likeness k (.function _ ⟨name, params, braced, body'⟩ scope)
        (.function _ ⟨name, params, braced, body⟩ scope) :=
      .function hmade (hbody : body = body').symm scope
    rwa [hback] at hfunction
  | native hs hm =>
    obtain ⟨hmade, hback⟩ := h.stamped hs
    have hnative := Value.Alike.native hmade (hm.undo h)
    rwa [hback] at hnative
  | cls hc => exact .cls (hc.undo h)
  | instance_ scope => exact .instance_ scope

end Comparison

/-! ### Numbered worlds -/

def Heap.Numbered (h : Heap) : Prop :=
  h.Alike Renaming.identity.likeness h

/-- Everything that the world holds was made in it: calling everything by its own name changes
nothing. -/
def World.Numbered (w : World) : Prop :=
  w.Alike Renaming.identity.likeness w

theorem Heap.items_missing {h : Heap} {l : ListRef} (hl : h.lists.size ≤ l.index) :
    h.items l = #[] := by
  simp only [items, Array.getD_eq_getD_getElem?]
  rw [Array.getElem?_eq_none hl]
  rfl

/-- What a heap held stays as it was. -/
structure Heap.Kept (h g : Heap) : Prop where
  scope : ∀ e, h.Allocated e → g.scope e = h.scope e
  items : ∀ l : ListRef, l.index < h.lists.size → g.items l = h.items l

/-- What the world held stays as it was, and nothing was noted, queued, printed or read. The most
calls that were active at once may have become more. -/
structure World.Kept (w v : World) : Prop where
  heap : w.heap.Kept v.heap
  rest : v = { w with heap := v.heap, deepest := v.deepest }

namespace Heap.Kept

variable {h g : Heap}

/-- A search for a name looks at old scopes only. -/
theorem locate (hg : h.Kept g) (ho : h.Ordered) {e : ScopeRef} (he : h.Allocated e)
    (name : String) : g.locate e name = h.locate e name := by
  obtain ⟨i⟩ := e
  induction i using Nat.strongRecOn with
  | ind i ih =>
    have hanswer : ((h.scope ⟨i⟩).receiver.filter fun r => (g.scope r).contains name) =
        (h.scope ⟨i⟩).receiver.filter fun r => (h.scope r).contains name := by
      cases hr : (h.scope ⟨i⟩).receiver with
      | none => rfl
      | some r => simp only [Option.filter_some, hg.scope r (ho.receiver_allocated he hr)]
    rw [Heap.locate, Heap.locate, hg.scope ⟨i⟩ he, hanswer]
    cases hp : (h.scope ⟨i⟩).parent with
    | none => rfl
    | some p =>
      obtain ⟨j⟩ := p
      have hlt := ho.parent ⟨i⟩ ⟨j⟩ hp
      simp only [hlt, if_true, ih j hlt (ho.parent_allocated he hp)]

/-- What a numbered heap held stays as it was in another heap too, where only later things have
other identities. -/
theorem renamed (hg : h.Kept g) (hn : h.Numbered) (hx : h.extent ≤ g.extent) {ρ : Renaming}
    (hρ : ρ.Fixes h.extent) {g' : Heap} (hr : g.Alike ρ.likeness g') : h.Kept g' where
  scope e he := by
    have hnow := hr.scope e
    rw [hg.scope e he] at hnow
    exact Scope.Alike.unique ρ.functional hnow (((hn.scope e).agree hρ).mono hx)
  items l hl := by
    have hnow := hr.items l
    have hsame : ρ.likeness.ref l = l := congrArg ListRef.mk (hρ.list l.index hl)
    rw [hg.items l hl, hsame] at hnow
    have hbefore := Values.Alike.mono (Values.Alike.agree (hn.items l) hρ) hx
    exact Array.toList_inj.mp (Values.Alike.unique ρ.functional hnow hbefore)

end Heap.Kept

/-! ### Making without looking -/

/-- What a heap holds apart from its scopes. -/
structure Stock where
  lists : Array (Array Value)
  stamps : Nat

def Heap.stock (h : Heap) : Stock :=
  ⟨h.lists, h.stamps⟩

def Heap.stocked (h : Heap) (s : Stock) : Heap :=
  { h with lists := s.lists, stamps := s.stamps }

def Stock.extent (s : Stock) : Extent :=
  ⟨s.stamps, s.lists.size⟩

/-- What a stock holds beyond another one. -/
def Stock.beyond (t s : Stock) : Extent :=
  ⟨t.stamps - s.stamps, t.lists.size - s.lists.size⟩

/-- More was made; the lists from before are as they were. -/
structure Stock.Grows (s t : Stock) : Prop where
  extent : s.extent ≤ t.extent
  lists : ∀ i, i < s.lists.size → t.lists[i]? = s.lists[i]?

namespace Stock.Grows

theorem refl (s : Stock) : s.Grows s :=
  ⟨le_refl _, fun _ _ => rfl⟩

theorem trans {r s t : Stock} (hs : r.Grows s) (ht : s.Grows t) : r.Grows t where
  extent := hs.extent.trans ht.extent
  lists i hi := (ht.lists i (Nat.lt_of_lt_of_le hi hs.extent.2)).trans (hs.lists i hi)

theorem newStamp (s : Stock) : s.Grows { s with stamps := s.stamps + 1 } :=
  ⟨⟨Nat.le_succ _, Nat.le_refl _⟩, fun _ _ => rfl⟩

theorem newList (s : Stock) (items : Array Value) :
    s.Grows { s with lists := s.lists.push items } where
  extent := ⟨Nat.le_refl _, by simp only [Stock.extent, Array.size_push]; exact Nat.le_succ _⟩
  lists i hi := by rw [Array.getElem?_push, if_neg (Nat.ne_of_lt hi)]

theorem kept {h : Heap} {t : Stock} (ht : h.stock.Grows t) : h.Kept (h.stocked t) where
  scope _ _ := rfl
  items l hl := by
    simp only [Heap.items, Heap.stocked, Array.getD_eq_getD_getElem?]
    rw [ht.lists l.index hl]
    rfl

end Stock.Grows

/-- The world in which so much was made and some more was noted. -/
def World.grown (w : World) (t : Stock) (events : List Event) : World :=
  { w with heap := w.heap.stocked t, journal := events ++ w.journal }

theorem World.owner_grown (w : World) (t : Stock) (events : List Event) (e : ScopeRef)
    (name : String) : (w.grown t events).heap.owner e name = w.heap.owner e name :=
  Heap.owner_congr w.heap (w.grown t events).heap name (fun _ => rfl) e

/-- The computation makes something and looks at nothing but what was made so far. -/
def Run.Makes {α : Type} (x : Run α) : Prop :=
  ∀ s, ∃ a t, s.Grows t ∧ ∀ w : World, x (w.grown s []) = .done a (w.grown t [])

namespace Run.Makes

variable {α β : Type}

theorem done (a : α) : Makes (Run.done a) :=
  fun s => ⟨a, s, .refl s, fun _ => rfl⟩

theorem bind {x : Run α} {f : α → Run β} (hx : Makes x) (hf : ∀ a, Makes (f a)) :
    Makes (x.andThen f) := by
  intro s
  obtain ⟨a, t, ht, ha⟩ := hx s
  obtain ⟨b, u, hu, hb⟩ := hf a t
  exact ⟨b, u, ht.trans hu, fun w => by simp only [andThen, ha, hb]⟩

theorem newNumber (x : Single) : Makes (newNumber x) :=
  fun s => ⟨.number s.stamps x, _, .newStamp s, fun _ => rfl⟩

theorem newText (text : String) : Makes (newText text) :=
  fun s => ⟨.text s.stamps text, _, .newStamp s, fun _ => rfl⟩

theorem newList (items : Array Value) : Makes (newList items) :=
  fun s => ⟨.list ⟨s.lists.size⟩, _, .newList s items, fun _ => rfl⟩

mutual

theorem fromHost : ∀ v : HostValue, Makes (fromHost v)
  | .null => done Value.null
  | .bool _ => newNumber _
  | .number _ => newNumber _
  | .text s => newText s
  | .list items => (fromHosts items).bind fun _ => newList _

theorem fromHosts : ∀ vs : List HostValue, Makes (fromHosts vs)
  | [] => done []
  | v :: vs => (fromHost v).bind fun _ => (fromHosts vs).bind fun _ => done _

end

end Run.Makes

/-! ### What is made beside a world -/

/-- Until `n` everything stands for itself, and what is made from there on for what is made as much
as `ahead` later. -/
def Renaming.shift (n ahead : Extent) (before before' : List Event) (others : Nat → Array Value) :
    Renaming where
  stamp i := if i < n.stamps then i else i + ahead.stamps
  list i := if i < n.lists then i else i + ahead.lists
  since := n
  ahead := ahead
  before := before
  before' := before'
  others := others
  stamp_injective i j hij := by dsimp only at hij; split at hij <;> split at hij <;> omega
  list_injective i j hij := by dsimp only at hij; split at hij <;> split at hij <;> omega
  stamp_later i hi := if_neg (Nat.not_lt.mpr hi)
  list_later i hi := if_neg (Nat.not_lt.mpr hi)
  list_within i hi := by
    rw [if_pos hi]
    exact Nat.lt_add_right _ hi

theorem Renaming.fixes_shift (n ahead : Extent) (before before' : List Event)
    (others : Nat → Array Value) : (shift n ahead before before' others).Fixes n where
  stamp _ hi := if_pos hi
  list _ hi := if_pos hi

namespace World

/-- From a world to the one in which so much was made and noted beside it. -/
def besides (w : World) (t : Stock) (events : List Event) : Renaming :=
  .shift w.heap.extent (t.beyond w.heap.stock) w.journal (events ++ w.journal)
    fun i => t.lists.getD i #[]

theorem Numbered.grown {w : World} (hw : w.Numbered) {t : Stock} (ht : w.heap.stock.Grows t)
    (events : List Event) : w.Alike (w.besides t events).likeness (w.grown t events) := by
  have hfixes : (w.besides t events).Fixes w.heap.extent := Renaming.fixes_shift _ _ _ _ _
  have hstamps : w.heap.stamps ≤ t.stamps := ht.extent.1
  have hlists : w.heap.lists.size ≤ t.lists.size := ht.extent.2
  refine ⟨⟨fun e => (hw.heap.scope e).agree hfixes, rfl, fun l => ?_, fun _ _ => rfl,
    (Nat.add_sub_cancel' hlists).symm, (Nat.add_sub_cancel' hstamps).symm, le_refl _⟩,
    forall₂_of_refl TraceEntry.Alike.refl w.calls, Values.Alike.agree hw.tasks hfixes,
    ⟨[], [], .nil, rfl, rfl⟩, rfl⟩
  by_cases hl : l.index < w.heap.lists.size
  · have hsame : (w.besides t events).likeness.ref l = l := congrArg ListRef.mk (if_pos hl)
    have hitems : (w.grown t events).heap.items l = w.heap.items l := ht.kept.items l hl
    rw [hsame, hitems]
    exact Values.Alike.agree (hw.heap.items l) hfixes
  · -- Neither world has such a list.
    have hlater : ((w.besides t events).likeness.ref l).index =
        l.index + (t.lists.size - w.heap.lists.size) := if_neg hl
    have hmissing : (w.grown t events).heap.lists.size ≤
        ((w.besides t events).likeness.ref l).index := by
      rw [hlater]
      show t.lists.size ≤ _
      omega
    rw [Heap.items_missing (Nat.not_lt.mp hl), Heap.items_missing hmissing]
    exact .nil

end World

namespace Run

/-- What reading a host variable makes depends on the variable and on what was made before. -/
theorem readCell_grows (name : String) (cell : HostValue) (s : Stock) :
    ∃ a t, s.Grows t ∧ ∀ w : World, w.heap.stock = s → (w.cells.get? name).getD .null = cell →
      readCell name w = .done a (w.grown t [.read name]) := by
  obtain ⟨a, t, ht, ha⟩ := Makes.fromHost cell s
  refine ⟨a, t, ht, fun w hs hc => ?_⟩
  subst hs hc
  exact ha { w with journal := .read name :: w.journal }

/-- Reading a name looks at the scopes of its search only. -/
theorem get_grows (name : String) (u v : World) (hs : v.heap.stock = u.heap.stock)
    (hc : v.cells = u.cells) (ho : u.heap.Ordered)
    (hk : ∀ q, u.heap.Allocated q → v.heap.scope q = u.heap.scope q) {e : ScopeRef}
    (he : u.heap.Allocated e) :
    ∃ o t events, u.heap.stock.Grows t ∧ get e name u = .done o (u.grown t events) ∧
      get e name v = .done o (v.grown t events) := by
  have hlists : v.heap.lists = u.heap.lists := congrArg Stock.lists hs
  have hkept : u.heap.Kept v.heap := ⟨hk, fun l _ => by rw [Heap.items, Heap.items, hlists]⟩
  have hgrown : v.grown u.heap.stock [] = v := by rw [← hs]; rfl
  have hlocate := hkept.locate ho he name
  rw [Heap.locate_eq_firstWith, Heap.locate_eq_firstWith] at hlocate
  cases hf : u.heap.firstWith e name with
  | none =>
    refine ⟨none, u.heap.stock, [], .refl _, get_of_firstWith_none hf, ?_⟩
    rw [hgrown]
    exact get_of_firstWith_none (hlocate.trans hf)
  | some q =>
    have hq : u.heap.Allocated q :=
      ho.searchOrder_allocated he (List.mem_of_find?_eq_some hf)
    rw [get_of_firstWith_some hf, get_of_firstWith_some (hlocate.trans hf)]
    cases ht : (u.heap.scope q).tracked.contains name with
    | false =>
      have ht' : (v.heap.scope q).tracked.contains name = false := by rw [hk q hq, ht]
      refine ⟨(u.heap.scope q).bindings.get? name, u.heap.stock, [], .refl _,
        getLocal_untracked ht, ?_⟩
      rw [getLocal_untracked ht', hgrown, hk q hq]
    | true =>
      have ht' : (v.heap.scope q).tracked.contains name = true := by rw [hk q hq, ht]
      obtain ⟨a, t, hgrows, hread⟩ :=
        readCell_grows name ((u.cells.get? name).getD .null) u.heap.stock
      refine ⟨some a, t, [.read name], hgrows, ?_, ?_⟩
      · rw [getLocal_tracked ht]
        simp only [andThen, hread u rfl rfl]
        rfl
      · rw [getLocal_tracked ht']
        simp only [andThen, hread v hs (by rw [hc])]
        rfl

end Run

end ScriptEngine
