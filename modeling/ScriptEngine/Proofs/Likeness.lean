import Mathlib.Order.Basic
import ScriptEngine.World
import ScriptEngine.Proofs.HeapShape
import ScriptEngine.Proofs.RelatedTables

/-! # Alike worlds

Two runs go in lockstep if they start with trees, values and worlds that are alike. What counts as
alike is a parameter: which trees and which places may stand in the two runs, which stamp and which
list of the first one stands for which of the second one, what host functions may fail with, and
what a failure may say. Stamps and lists are numbered in the order in which they are made, so they
differ where something else was made before. -/

namespace ScriptEngine

/-! ### Trees -/

section Trees

variable (N : Node → Node → Prop) (P : Position → Position → Prop)

inductive Arms.Resembles : Arms → Arms → Prop
  | done : Resembles .done .done
  | otherwise {body body' : Node} (braced : Bool) (hbody : N body body') :
    Resembles (.otherwise braced body) (.otherwise braced body')
  | arm {condition condition' body body' : Node} {more more' : Arms} (braced : Bool)
    (hcondition : N condition condition') (hbody : N body body') (hmore : Resembles more more') :
    Resembles (.arm condition braced body more) (.arm condition' braced body' more')

/-- Nodes of one kind, with related places and related parts. -/
inductive Node.Resembles : Node → Node → Prop
  | number {p q} (hp : P p q) (value : Single) : Resembles (.number p value) (.number q value)
  | text {p q} (hp : P p q) (value : String) : Resembles (.text p value) (.text q value)
  | list {p q items items'} (hp : P p q) (hitems : List.Forall₂ N items items') :
    Resembles (.list p items) (.list q items')
  | binary {p q left left' right right'} (hp : P p q) (op : BinaryOp) (hleft : N left left')
    (hright : N right right') : Resembles (.binary p op left right) (.binary q op left' right')
  | unary {p q operand operand'} (hp : P p q) (op : UnaryOp) (hoperand : N operand operand') :
    Resembles (.unary p op operand) (.unary q op operand')
  | read {p q} (hp : P p q) (name : String) : Resembles (.read p name) (.read q name)
  | this {p q} (hp : P p q) : Resembles (.this p) (.this q)
  | declare {p q value value'} (hp : P p q) (name : String) (hvalue : N value value') :
    Resembles (.declare p name value) (.declare q name value')
  | assign {p q value value'} (hp : P p q) (name : String) (hvalue : N value value') :
    Resembles (.assign p name value) (.assign q name value')
  | update {p q value value'} (hp : P p q) (name : String) (op : Arithmetic)
    (hvalue : N value value') : Resembles (.update p name op value) (.update q name op value')
  | choose {p q arms arms'} (hp : P p q) (harms : arms.Resembles N arms') :
    Resembles (.choose p arms) (.choose q arms')
  | count {p q start start' stop stop' step step' body body'} (hp : P p q) (name : String)
    (hstart : N start start') (hstop : N stop stop') (hstep : Option.Rel N step step')
    (braced : Bool) (hbody : N body body') :
    Resembles (.count p name start stop step braced body)
      (.count q name start' stop' step' braced body')
  | each {p q items items' body body'} (hp : P p q) (name : String) (hitems : N items items')
    (braced : Bool) (hbody : N body body') :
    Resembles (.each p name items braced body) (.each q name items' braced body')
  | loop {p q condition condition' body body'} (hp : P p q) (hcondition : N condition condition')
    (braced : Bool) (hbody : N body body') :
    Resembles (.loop p condition braced body) (.loop q condition' braced body')
  | function {p q body body'} (hp : P p q) (name : Option String) (params : List String)
    (braced : Bool) (hbody : N body body') :
    Resembles (.function p name params braced body) (.function q name params braced body')
  | call {p q callee callee' args args'} (hp : P p q) (hcallee : N callee callee')
    (hargs : List.Forall₂ N args args') : Resembles (.call p callee args) (.call q callee' args')
  | sequence {p q statements statements'} (hp : P p q)
    (hstatements : List.Forall₂ N statements statements') :
    Resembles (.sequence p statements) (.sequence q statements')
  | members {p q segments segments'} (hp : P p q) (hsegments : List.Forall₂ N segments segments') :
    Resembles (.members p segments) (.members q segments')
  | object {p q body body'} (hp : P p q) (name : String) (params : List String)
    (parent : Option String) (hbody : N body body') :
    Resembles (.object p name params parent body) (.object q name params parent body')
  | create {p q args args'} (hp : P p q) (name : String) (hargs : List.Forall₂ N args args') :
    Resembles (.create p name args) (.create q name args')
  | return_ {p q value value'} (hp : P p q) (hvalue : Option.Rel N value value') :
    Resembles (.return_ p value) (.return_ q value')
  | continue_ {p q} (hp : P p q) : Resembles (.continue_ p) (.continue_ q)
  | break_ {p q} (hp : P p q) : Resembles (.break_ p) (.break_ q)
  | include_ {p q paths paths'} (hp : P p q) (hpaths : List.Forall₂ N paths paths') :
    Resembles (.include_ p paths) (.include_ q paths')

end Trees

theorem Node.Resembles.pos {N : Node → Node → Prop} {P : Position → Position → Prop} {a b : Node}
    (h : a.Resembles N P b) : P a.pos b.pos := by
  cases h <;> assumption

/-! ### What was made so far -/

/-- How many stamps were given out and how many lists were made. -/
structure Extent where
  stamps : Nat
  lists : Nat

instance : Preorder Extent where
  le m n := m.stamps ≤ n.stamps ∧ m.lists ≤ n.lists
  le_refl _ := ⟨Nat.le_refl _, Nat.le_refl _⟩
  le_trans _ _ _ h k := ⟨Nat.le_trans h.1 k.1, Nat.le_trans h.2 k.2⟩

def Heap.extent (h : Heap) : Extent :=
  ⟨h.stamps, h.lists.size⟩

/-- Stands for every identity of a first world one of a second world. From `since` on both worlds
make the same things in the same order, the second one always by as much as `ahead` later. -/
structure Renaming where
  stamp : Nat → Nat
  list : Nat → Nat
  since : Extent
  ahead : Extent
  /-- What was noted before, in the first world and in the second one. -/
  before : List Event
  before' : List Event
  /-- Items of the lists of the second world that stand for no list of the first one. -/
  others : Nat → Array Value
  stamp_injective : stamp.Injective
  list_injective : list.Injective
  stamp_later : ∀ i, since.stamps ≤ i → stamp i = i + ahead.stamps
  list_later : ∀ i, since.lists ≤ i → list i = i + ahead.lists
  list_within : ∀ i, i < since.lists → list i < since.lists + ahead.lists

namespace Renaming

variable (ρ : Renaming)

def ref (l : ListRef) : ListRef :=
  ⟨ρ.list l.index⟩

theorem ref_injective : ρ.ref.Injective := by
  intro l k hlk
  have hindex : l.index = k.index := ρ.list_injective (congrArg ListRef.index hlk)
  exact congrArg ListRef.mk hindex

/-- A list exists in the first world exactly if the one that it stands for exists in the second. -/
theorem list_lt_iff {size : Nat} (hsize : ρ.since.lists ≤ size) (i : Nat) :
    ρ.list i < size + ρ.ahead.lists ↔ i < size := by
  by_cases hi : i < ρ.since.lists
  · have hwithin := ρ.list_within i hi
    omega
  · rw [ρ.list_later i (Nat.le_of_not_lt hi)]
    omega

/-- Everything stands for itself. -/
def identity : Renaming where
  stamp := id
  list := id
  since := ⟨0, 0⟩
  ahead := ⟨0, 0⟩
  before := []
  before' := []
  others _ := #[]
  stamp_injective := Function.injective_id
  list_injective := Function.injective_id
  stamp_later _ _ := rfl
  list_later _ _ := rfl
  list_within _ hi := hi

theorem identity_level {strict : Prop} (_ : ¬ strict) : identity.ahead.lists = 0 := rfl

end Renaming

/-! ### What counts as alike -/

structure Likeness extends Renaming where
  /-- Trees of the first run and of the second one. -/
  node : Node → Node → Prop
  place : Position → Position → Prop
  /-- Whether nothing occurs but what was made. -/
  strict : Prop
  /-- What host functions may fail with. -/
  host : Diagnostic → Prop
  /-- What may be said of a failure in the first run, from the calls under way before the
  computation and those under way where the failure arose. -/
  failure : List TraceEntry → Diagnostic → List TraceEntry → Prop
  node_refl : ∀ a, node a a
  place_refl : ∀ p, place p p
  node_resembles : ∀ {a b}, node a b → a.Resembles node place b
  node_label : ∀ {a b}, node a b → b.label = a.label
  level : ¬ strict → ahead.lists = 0
  failure_raised : ∀ c d, d.trace = [] → failure c d c
  failure_host : ∀ c d, host d → failure c d c
  failure_orPosition : ∀ {c d c'} p, failure c d c' → failure c (d.orPosition p) c'
  failure_withTrace : ∀ {c d c'} entry, failure (entry :: c) d c' →
    failure c (d.withTrace entry) c'

/-- The stamp may occur where `n` was made. -/
def Likeness.Stamped (L : Likeness) (n : Extent) (stamp : Nat) : Prop :=
  L.strict → stamp < n.stamps

/-- The list may occur where `n` was made. -/
def Likeness.Listed (L : Likeness) (n : Extent) (l : ListRef) : Prop :=
  L.strict → l.index < n.lists

section Relations

variable (L : Likeness) (n : Extent)

/-! ### Diagnostics -/

inductive TraceEntry.Alike : TraceEntry → TraceEntry → Prop
  | mk {p q} (label : String) (hp : Option.Rel L.place p q) : Alike ⟨label, p⟩ ⟨label, q⟩

inductive Diagnostic.Alike : Diagnostic → Diagnostic → Prop
  | mk {p q trace trace'} (fault : Fault) (hp : Option.Rel L.place p q)
    (htrace : List.Forall₂ (TraceEntry.Alike L) trace trace') :
    Alike ⟨fault, p, trace⟩ ⟨fault, q, trace'⟩

/-! ### Values -/

inductive ClassBody.Alike : ClassBody → ClassBody → Prop
  | script {body body' : Node} (hbody : L.node body body') : Alike (.script body) (.script body')
  | object : Alike .object .object
  | file : Alike .file .file

inductive Class.Alike : Class → Class → Prop
  | base {stamp name params body body'} (hs : L.Stamped n stamp)
    (hbody : ClassBody.Alike L body body') :
    Alike ⟨stamp, name, params, body, none⟩ ⟨L.stamp stamp, name, params, body', none⟩
  | derived {stamp name params body body' parent parent'} (hs : L.Stamped n stamp)
    (hbody : ClassBody.Alike L body body') (hparent : Alike parent parent') :
    Alike ⟨stamp, name, params, body, some parent⟩
      ⟨L.stamp stamp, name, params, body', some parent'⟩

inductive Native.Alike : Native → Native → Prop
  | builtin (b : Builtin) : Alike (.builtin b) (.builtin b)
  | textMethod (m : TextMethod) (s : String) : Alike (.textMethod m s) (.textMethod m s)
  | listMethod (m : ListMethod) {l : ListRef} (hl : L.Listed n l) :
    Alike (.listMethod m l) (.listMethod m (L.ref l))
  | fileMethod (m : FileMethod) (path : String) : Alike (.fileMethod m path) (.fileMethod m path)
  | superCall {parent parent' child child'} (hparent : Class.Alike L n parent parent')
    (hchild : Class.Alike L n child child') (target : ScopeRef) :
    Alike (.superCall parent child target) (.superCall parent' child' target)
  | host (name : String) (params : List String) (behavior : HostBehavior)
    (hfail : ∀ d, behavior = .fail d → L.host d) :
    Alike (.host name params behavior) (.host name params behavior)

/-- Values that may occur where `n` was made. -/
inductive Value.Alike : Value → Value → Prop
  | null : Alike .null .null
  | number {stamp} (hs : L.Stamped n stamp) (x : Single) :
    Alike (.number stamp x) (.number (L.stamp stamp) x)
  | text {stamp} (hs : L.Stamped n stamp) (s : String) :
    Alike (.text stamp s) (.text (L.stamp stamp) s)
  | list {l : ListRef} (hl : L.Listed n l) : Alike (.list l) (.list (L.ref l))
  | function {stamp name params braced body body'} (hs : L.Stamped n stamp)
    (hbody : L.node body body') (scope : ScopeRef) :
    Alike (.function stamp ⟨name, params, braced, body⟩ scope)
      (.function (L.stamp stamp) ⟨name, params, braced, body'⟩ scope)
  | native {stamp m m'} (hs : L.Stamped n stamp) (hm : Native.Alike L n m m') :
    Alike (.native stamp m) (.native (L.stamp stamp) m')
  | cls {c c'} (hc : Class.Alike L n c c') : Alike (.cls c) (.cls c')
  | instance_ (scope : ScopeRef) : Alike (.instance_ scope) (.instance_ scope)

abbrev Values.Alike (vs vs' : List Value) : Prop :=
  List.Forall₂ (Value.Alike L n) vs vs'

abbrev Items.Alike (vs vs' : Array Value) : Prop :=
  Values.Alike L n vs.toList vs'.toList

abbrev Entries.Alike (t t' : Table Value) : Prop :=
  Table.Related (Value.Alike L n) t t'

inductive Jump.Alike : Jump → Jump → Prop
  | return_ {v v'} (hv : Value.Alike L n v v') : Alike (.return_ v) (.return_ v')
  | break_ : Alike .break_ .break_
  | continue_ : Alike .continue_ .continue_

inductive Event.Alike : Event → Event → Prop
  | read (name : String) : Alike (.read name) (.read name)
  | wrote {v v'} (e : ScopeRef) (name : String) (hv : Value.Alike L n v v') (shown : String) :
    Alike (.wrote e name v shown) (.wrote e name v' shown)
  | queued {v v'} (hv : Value.Alike L n v v') : Alike (.queued v) (.queued v')
  | started {v v'} (hv : Value.Alike L n v v') : Alike (.started v) (.started v')

/-- What was noted on top of what had been noted before. -/
def Journal.Alike (journal journal' : List Event) : Prop :=
  ∃ new new', List.Forall₂ (Event.Alike L n) new new' ∧
    journal = new ++ L.before ∧ journal' = new' ++ L.before'

/-! ### The heap and the world -/

structure Scope.Alike (s s' : Scope) : Prop where
  bindings : Entries.Alike L n s.bindings s'.bindings
  rest : s' = { s with bindings := s'.bindings }

structure Heap.Alike (h h' : Heap) : Prop where
  scope : ∀ e, Scope.Alike L h.extent (h.scope e) (h'.scope e)
  scopes : h'.scopes.size = h.scopes.size
  items : ∀ l, Items.Alike L h.extent (h.items l) (h'.items (L.ref l))
  others : ∀ i, (∀ j, L.list j ≠ i) → h'.items ⟨i⟩ = L.others i
  lists : h'.lists.size = h.lists.size + L.ahead.lists
  stamps : h'.stamps = h.stamps + L.ahead.stamps
  since : L.since ≤ h.extent

/-- The world with the heap, the calls, the tasks and the journal of another one. -/
def World.over (w v : World) : World :=
  { w with heap := v.heap, calls := v.calls, tasks := v.tasks, journal := v.journal }

structure World.Alike (w w' : World) : Prop where
  heap : Heap.Alike L w.heap w'.heap
  calls : List.Forall₂ (TraceEntry.Alike L) w.calls w'.calls
  tasks : Values.Alike L w.heap.extent w.tasks w'.tasks
  journal : Journal.Alike L w.heap.extent w.journal w'.journal
  rest : w' = w.over w'

end Relations

variable {L : Likeness} {n k : Extent}

/-! ### What was made stays made -/

theorem Likeness.Stamped.mono {stamp : Nat} (hs : L.Stamped n stamp) (hk : n ≤ k) :
    L.Stamped k stamp :=
  fun hstrict => Nat.lt_of_lt_of_le (hs hstrict) hk.1

theorem Likeness.Listed.mono {l : ListRef} (hl : L.Listed n l) (hk : n ≤ k) : L.Listed k l :=
  fun hstrict => Nat.lt_of_lt_of_le (hl hstrict) hk.2

theorem Class.Alike.mono {c c' : Class} (hc : c.Alike L n c') (hk : n ≤ k) :
    c.Alike L k c' := by
  induction hc with
  | base hs hbody => exact .base (hs.mono hk) hbody
  | derived hs hbody _ ih => exact .derived (hs.mono hk) hbody ih

theorem Native.Alike.mono {m m' : Native} (hm : m.Alike L n m') (hk : n ≤ k) :
    m.Alike L k m' := by
  cases hm with
  | builtin b => exact .builtin b
  | textMethod m s => exact .textMethod m s
  | listMethod m hl => exact .listMethod m (hl.mono hk)
  | fileMethod m path => exact .fileMethod m path
  | superCall hparent hchild target => exact .superCall (hparent.mono hk) (hchild.mono hk) target
  | host name params behavior hfail => exact .host name params behavior hfail

theorem Value.Alike.mono {v v' : Value} (hv : v.Alike L n v') (hk : n ≤ k) :
    v.Alike L k v' := by
  cases hv with
  | null => exact .null
  | number hs x => exact .number (hs.mono hk) x
  | text hs s => exact .text (hs.mono hk) s
  | list hl => exact .list (hl.mono hk)
  | function hs hbody scope => exact .function (hs.mono hk) hbody scope
  | native hs hm => exact .native (hs.mono hk) (hm.mono hk)
  | cls hc => exact .cls (hc.mono hk)
  | instance_ scope => exact .instance_ scope

theorem Values.Alike.mono {vs vs' : List Value} (hvs : Values.Alike L n vs vs')
    (hk : n ≤ k) : Values.Alike L k vs vs' :=
  hvs.imp fun _ _ hv => hv.mono hk

theorem Items.Alike.mono {vs vs' : Array Value} (hvs : Items.Alike L n vs vs') (hk : n ≤ k) :
    Items.Alike L k vs vs' :=
  Values.Alike.mono hvs hk

theorem Entries.Alike.mono {t t' : Table Value} (ht : Entries.Alike L n t t')
    (hk : n ≤ k) : Entries.Alike L k t t' :=
  List.Forall₂.imp (fun _ _ hab => ⟨hab.1, hab.2.mono hk⟩) ht

theorem Jump.Alike.mono {j j' : Jump} (hj : j.Alike L n j') (hk : n ≤ k) :
    j.Alike L k j' := by
  cases hj with
  | return_ hv => exact .return_ (hv.mono hk)
  | break_ => exact .break_
  | continue_ => exact .continue_

theorem Event.Alike.mono {event event' : Event} (he : event.Alike L n event') (hk : n ≤ k) :
    event.Alike L k event' := by
  cases he with
  | read name => exact .read name
  | wrote e name hv shown => exact .wrote e name (hv.mono hk) shown
  | queued hv => exact .queued (hv.mono hk)
  | started hv => exact .started (hv.mono hk)

theorem Journal.Alike.mono {journal journal' : List Event}
    (hj : Journal.Alike L n journal journal') (hk : n ≤ k) :
    Journal.Alike L k journal journal' := by
  obtain ⟨new, new', hnew, hj, hj'⟩ := hj
  exact ⟨new, new', hnew.imp fun _ _ he => he.mono hk, hj, hj'⟩

theorem Journal.Alike.cons {journal journal' : List Event}
    (hj : Journal.Alike L n journal journal') {event event' : Event}
    (he : event.Alike L n event') :
    Journal.Alike L n (event :: journal) (event' :: journal') := by
  obtain ⟨new, new', hnew, rfl, rfl⟩ := hj
  exact ⟨event :: new, event' :: new', .cons he hnew, rfl, rfl⟩

theorem Scope.Alike.mono {s s' : Scope} (hs : s.Alike L n s') (hk : n ≤ k) :
    s.Alike L k s' :=
  ⟨Entries.Alike.mono hs.bindings hk, hs.rest⟩

/-! ### Diagnostics -/

theorem TraceEntry.Alike.refl (entry : TraceEntry) : entry.Alike L entry :=
  .mk entry.label (optionRel_refl L.place_refl entry.position)

theorem Diagnostic.Alike.refl (d : Diagnostic) : d.Alike L d :=
  .mk d.fault (optionRel_refl L.place_refl d.position)
    (forall₂_of_refl TraceEntry.Alike.refl d.trace)

theorem Diagnostic.Alike.located (fault : Fault) {p q : Position} (hp : L.place p q) :
    (Diagnostic.located fault p).Alike L (.located fault q) :=
  .mk fault (.some hp) .nil

theorem Diagnostic.Alike.orPosition {d d' : Diagnostic} (hd : d.Alike L d') {p q : Position}
    (hp : L.place p q) : (d.orPosition p).Alike L (d'.orPosition q) := by
  obtain ⟨fault, hplace, htrace⟩ := hd
  cases hplace with
  | none => exact .mk fault (.some hp) htrace
  | some hplace => exact .mk fault (.some hplace) htrace

theorem Diagnostic.Alike.isStop {d d' : Diagnostic} (hd : d.Alike L d') :
    d'.isStop = d.isStop := by
  cases hd
  rfl

theorem Diagnostic.Alike.withTrace {d d' : Diagnostic} (hd : d.Alike L d')
    {entry entry' : TraceEntry} (he : entry.Alike L entry') :
    (d.withTrace entry).Alike L (d'.withTrace entry') := by
  unfold Diagnostic.withTrace
  rw [hd.isStop]
  split
  · exact hd
  · obtain ⟨fault, hplace, htrace⟩ := hd
    exact .mk fault hplace (List.rel_append htrace (.cons he .nil))

/-! ### Views of a value -/

namespace Class.Alike

variable {c c' : Class}

theorem name (hc : c.Alike L n c') : c'.name = c.name := by
  cases hc <;> rfl

theorem params (hc : c.Alike L n c') : c'.params = c.params := by
  cases hc <;> rfl

theorem stamp (hc : c.Alike L n c') : c'.stamp = L.stamp c.stamp := by
  cases hc <;> rfl

theorem body (hc : c.Alike L n c') : c.body.Alike L c'.body := by
  cases hc <;> assumption

end Class.Alike

namespace Native.Alike

variable {m m' : Native}

theorem name (hm : m.Alike L n m') : m'.name = m.name := by
  cases hm <;> rfl

theorem params (hm : m.Alike L n m') : m'.params = m.params := by
  cases hm with
  | superCall hparent hchild target => exact hparent.params
  | _ => rfl

end Native.Alike

namespace Value.Alike

variable {a a' b b' : Value}

theorem number? (ha : a.Alike L n a') : a'.number? = a.number? := by
  cases ha <;> rfl

theorem isCallable (ha : a.Alike L n a') : a'.isCallable = a.isCallable := by
  cases ha <;> rfl

theorem typeName (ha : a.Alike L n a') : a'.typeName = a.typeName := by
  cases ha <;> rfl

/-- A renaming keeps identities apart. -/
theorem same (ha : a.Alike L n a') (hb : b.Alike L n b') : a'.same b' = a.same b := by
  have hstamp : ∀ s t, (L.stamp s == L.stamp t) = (s == t) := fun s t => by
    rw [Bool.eq_iff_iff, beq_iff_eq, beq_iff_eq, L.stamp_injective.eq_iff]
  have hlist : ∀ l m, (L.ref l == L.ref m) = (l == m) := fun l m => by
    rw [Bool.eq_iff_iff, beq_iff_eq, beq_iff_eq, L.ref_injective.eq_iff]
  cases ha <;> cases hb <;> simp only [Value.same, hstamp, hlist]
  rename_i hc _ _ hd
  rw [hc.stamp, hd.stamp, hstamp]

end Value.Alike

theorem Values.Alike.headD {vs vs' : List Value} (hvs : Values.Alike L n vs vs') :
    (vs.headD .null).Alike L n (vs'.headD .null) := by
  cases hvs with
  | nil => exact .null
  | cons hv _ => exact hv

theorem Values.Alike.tail {vs vs' : List Value} (hvs : Values.Alike L n vs vs') :
    Values.Alike L n vs.tail vs'.tail := by
  cases hvs with
  | nil => exact .nil
  | cons _ hrest => exact hrest

theorem Values.Alike.sum {vs vs' : List Value} (hvs : Values.Alike L n vs vs') (total : Single) :
    vs'.foldl (fun total v => total.add (v.number?.getD (.zero false))) total =
      vs.foldl (fun total v => total.add (v.number?.getD (.zero false))) total := by
  induction hvs generalizing total with
  | nil => rfl
  | cons hv _ ih => rw [List.foldl_cons, List.foldl_cons, hv.number?, ih]

/-! ### A world beside itself -/

/-- What a function of the host fails with whenever it is called. -/
def Value.failure? : Value → Option Diagnostic
  | .native _ (.host _ _ (.fail d)) => some d
  | _ => none

/-- The value that an event is about. -/
def Event.value? : Event → Option Value
  | .read _ => none
  | .wrote _ _ v _ => some v
  | .queued v => some v
  | .started v => some v

/-- The value is somewhere in the world. -/
inductive World.Holds (w : World) (v : Value) : Prop
  | bound (e : ScopeRef) (name : String) (hm : (name, v) ∈ (w.heap.scope e).bindings)
  | item (l : ListRef) (hm : v ∈ (w.heap.items l).toList)
  | task (hm : v ∈ w.tasks)
  | noted (event : Event) (hm : event ∈ w.journal) (hv : event.value? = some v)

/-- Every host function of the world that fails does so in the given way. -/
def World.HostsFail (P : Diagnostic → Prop) (w : World) : Prop :=
  ∀ v d, w.Holds v → v.failure? = some d → P d

/-- Stamps and lists stand for themselves, whatever was made. -/
structure Likeness.KeepsIdentities (L : Likeness) : Prop where
  unrenamed : L.toRenaming = .identity
  loose : ¬ L.strict

namespace Likeness.KeepsIdentities

variable (hL : L.KeepsIdentities)
include hL

theorem stamp (i : Nat) : L.stamp i = i :=
  congrArg (fun ρ : Renaming => ρ.stamp i) hL.unrenamed

theorem ref (l : ListRef) : L.ref l = l :=
  congrArg (fun ρ : Renaming => ρ.ref l) hL.unrenamed

theorem stamped (n : Extent) (i : Nat) : L.Stamped n i :=
  fun hstrict => absurd hstrict hL.loose

theorem listed (n : Extent) (l : ListRef) : L.Listed n l :=
  fun hstrict => absurd hstrict hL.loose

end Likeness.KeepsIdentities

theorem ClassBody.Alike.refl (body : ClassBody) : body.Alike L body := by
  cases body with
  | script body => exact .script (L.node_refl body)
  | object => exact .object
  | file => exact .file

theorem Class.Alike.refl (hL : L.KeepsIdentities) (n : Extent) : ∀ c : Class, c.Alike L n c
  | ⟨stamp, name, params, body, none⟩ => by
    have hbase : Class.Alike L n ⟨stamp, name, params, body, none⟩
        ⟨L.stamp stamp, name, params, body, none⟩ := .base (hL.stamped n stamp) (.refl body)
    rwa [hL.stamp] at hbase
  | ⟨stamp, name, params, body, some parent⟩ => by
    have hderived : Class.Alike L n ⟨stamp, name, params, body, some parent⟩
        ⟨L.stamp stamp, name, params, body, some parent⟩ :=
      .derived (hL.stamped n stamp) (.refl body) (Class.Alike.refl hL n parent)
    rwa [hL.stamp] at hderived
termination_by structural c => c

theorem Native.Alike.refl (hL : L.KeepsIdentities) (n : Extent) (m : Native)
    (hm : ∀ d name params, m = .host name params (.fail d) → L.host d) : m.Alike L n m := by
  cases m with
  | builtin b => exact .builtin b
  | textMethod m s => exact .textMethod m s
  | listMethod m l =>
    have hmethod : Native.Alike L n (.listMethod m l) (.listMethod m (L.ref l)) :=
      .listMethod m (hL.listed n l)
    rwa [hL.ref] at hmethod
  | fileMethod m path => exact .fileMethod m path
  | superCall parent child target => exact .superCall (.refl hL n parent) (.refl hL n child) target
  | host name params behavior =>
    exact .host name params behavior fun d hd => hm d name params (by rw [hd])

theorem Value.Alike.refl (hL : L.KeepsIdentities) (n : Extent) (v : Value)
    (hv : ∀ d, v.failure? = some d → L.host d) : v.Alike L n v := by
  cases v with
  | null => exact .null
  | number stamp x =>
    have hnumber : Value.Alike L n _ _ := .number (hL.stamped n stamp) x
    rwa [hL.stamp] at hnumber
  | text stamp s =>
    have htext : Value.Alike L n _ _ := .text (hL.stamped n stamp) s
    rwa [hL.stamp] at htext
  | list l =>
    have hlist : Value.Alike L n _ _ := .list (hL.listed n l)
    rwa [hL.ref] at hlist
  | function stamp f scope =>
    have hfunction : Value.Alike L n (.function stamp f scope) (.function (L.stamp stamp) f scope) :=
      .function (hL.stamped n stamp) (L.node_refl f.body) scope
    rwa [hL.stamp] at hfunction
  | native stamp m =>
    have hm : m.Alike L n m := .refl hL n m fun d name params hm => hv d (by rw [hm]; rfl)
    have hnative : Value.Alike L n _ _ := .native (hL.stamped n stamp) hm
    rwa [hL.stamp] at hnative
  | cls c => exact .cls (.refl hL n c)
  | instance_ scope => exact .instance_ scope

theorem World.Alike.refl (hL : L.KeepsIdentities) {w : World} (hw : w.HostsFail L.host) :
    w.Alike L w := by
  have hvalue : ∀ v, w.Holds v → v.Alike L w.heap.extent v :=
    fun v hv => .refl hL _ v fun d hd => hw v d hv hd
  have hevents : List.Forall₂ (Event.Alike L w.heap.extent) w.journal w.journal := by
    refine List.forall₂_same.mpr fun event hm => ?_
    have hevent := fun v hv => hvalue v (.noted event hm hv)
    cases event with
    | read name => exact .read name
    | wrote e name v shown => exact .wrote e name (hevent v rfl) shown
    | queued v => exact .queued (hevent v rfl)
    | started v => exact .started (hevent v rfl)
  have hρ := hL.unrenamed
  refine ⟨⟨fun e => ⟨?_, rfl⟩, rfl, fun l => ?_, fun i hi => ?_, ?_, ?_, ?_⟩, ?_, ?_, ?_, rfl⟩
  · exact List.forall₂_same.mpr fun entry hm => ⟨rfl, hvalue _ (.bound e entry.1 hm)⟩
  · rw [hL.ref]
    exact List.forall₂_same.mpr fun v hm => hvalue v (.item l hm)
  · -- Every list stands for itself.
    exact absurd (by rw [hρ]; rfl) (hi i)
  · rw [hρ]
    rfl
  · rw [hρ]
    rfl
  · rw [hρ]
    exact ⟨Nat.zero_le _, Nat.zero_le _⟩
  · exact forall₂_of_refl TraceEntry.Alike.refl w.calls
  · exact List.forall₂_same.mpr fun v hm => hvalue v (.task hm)
  · refine ⟨w.journal, w.journal, hevents, ?_, ?_⟩ <;>
    · rw [hρ]
      exact (List.append_nil _).symm

end ScriptEngine
