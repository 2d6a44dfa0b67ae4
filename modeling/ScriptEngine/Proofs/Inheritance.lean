import ScriptEngine.Proofs.MemberWrite

/-! # Inheritance as a union

An instance of a class is built by binding the arguments, running the body, building the parent in
the same way and copying over what is missing. Where the bodies only define members, the bindings of
an instance are a union along the chain of classes: each name has the value that the first class of
the chain gives it, and a member comes before a parameter of its own class. The names `type` and
`super` stand apart: every level has its own. -/

namespace ScriptEngine

/-! ### Tables -/

namespace Table

variable {α : Type}

theorem get?_append (t u : Table α) (x : String) :
    Table.get? (t ++ u) x = (t.get? x).or (u.get? x) := by
  induction t with
  | nil => simp [get?]
  | cons entry rest ih =>
    obtain ⟨key, value⟩ := entry
    by_cases h : key = x <;> simp [get?, h, ih]

theorem get?_eq_none_iff (t : Table α) (x : String) :
    t.get? x = none ↔ x ∉ t.map Prod.fst := by
  induction t with
  | nil => simp [get?]
  | cons entry rest ih =>
    obtain ⟨key, value⟩ := entry
    by_cases h : key = x
    · simp [get?, h]
    · simp [get?, h, ih, Ne.symm h]

/-- Of several entries for one name the last one stays. -/
theorem get?_insertAll (t : Table α) (entries : List (String × α)) (x : String) :
    (t.insertAll entries).get? x = (Table.get? entries.reverse x).or (t.get? x) := by
  induction entries generalizing t with
  | nil => simp [insertAll, get?]
  | cons entry rest ih =>
    have hstep : t.insertAll (entry :: rest) = (t.insert entry.1 entry.2).insertAll rest := rfl
    rw [hstep, ih, get?_insert, List.reverse_cons, get?_append, Option.or_assoc]
    by_cases h : entry.1 = x <;> simp [get?, h]

theorem get?_reverse (t : Table α) (hd : (t.map Prod.fst).Nodup) (x : String) :
    Table.get? t.reverse x = t.get? x := by
  induction t with
  | nil => rfl
  | cons entry rest ih =>
    obtain ⟨key, value⟩ := entry
    simp only [List.map_cons, List.nodup_cons] at hd
    rw [List.reverse_cons, get?_append, ih hd.2]
    by_cases h : key = x
    · subst h
      rw [(get?_eq_none_iff rest key).mpr hd.1]
      simp [get?]
    · simp [get?, h]

end Table

theorem Scope.foldl_define_missing (entries : List (String × Value)) (s : Scope)
    (hs : s.tracked = []) :
    ∃ t, entries.foldl (fun t e => if t.contains e.1 then t else t.define e.1 e.2) s =
        { s with bindings := t } ∧
      ∀ x, t.get? x = (s.bindings.get? x).or (Table.get? entries x) := by
  induction entries generalizing s with
  | nil => exact ⟨s.bindings, rfl, by simp [Table.get?]⟩
  | cons entry rest ih =>
    obtain ⟨key, value⟩ := entry
    rw [List.foldl_cons]
    cases hc : s.contains key with
    | true =>
      obtain ⟨t, ht, hget⟩ := ih s hs
      refine ⟨t, by simpa using ht, fun x => ?_⟩
      have hbound : (s.bindings.get? key).isSome = true := by
        simpa [Scope.contains, Table.contains, hs] using hc
      rw [hget, Table.get?]
      by_cases h : key = x
      · subst h
        obtain ⟨v, hv⟩ := Option.isSome_iff_exists.mp hbound
        simp [hv]
      · simp [h]
    | false =>
      obtain ⟨t, ht, hget⟩ := ih (s.define key value) hs
      refine ⟨t, by simpa [Scope.define] using ht, fun x => ?_⟩
      have hfree : s.bindings.get? key = none := by
        simpa [Scope.contains, Table.contains, hs] using hc
      rw [hget, Table.get?]
      by_cases h : key = x
      · subst h
        simp [Scope.define, Table.get?_insert, hfree]
      · simp [Scope.define, Table.get?_insert, h]

/-! ### What a class gives to its instances -/

/-- What a name of an instance stands for: a literal, a function or an argument. -/
inductive Content where
  | number (value : Single)
  | text (value : String)
  | method (lambda : Lambda)
  | argument (value : Value)

/-- The value is the content in the instance `s`. A literal and a function get a stamp when they are
evaluated; a function refers to the instance that it was defined in. -/
inductive Content.Shows (s : ScopeRef) : Content → Value → Prop where
  | number (stamp : Nat) (value : Single) : Shows s (.number value) (.number stamp value)
  | text (stamp : Nat) (value : String) : Shows s (.text value) (.text stamp value)
  | method (stamp : Nat) (lambda : Lambda) : Shows s (.method lambda) (.function stamp lambda s)
  | argument (value : Value) : Shows s (.argument value) value

/-- The member that a statement defines, if it is a definition: a variable with a literal, or a
function with a name. -/
def Node.member? : Node → Option (String × Content)
  | .declare _ name (.number _ value) => some (name, .number value)
  | .declare _ name (.text _ value) => some (name, .text value)
  | .function _ (some name) params braced body =>
    some (name, .method { name := some name, params := params, braced := braced, body := body })
  | _ => none

/-- The members that a body defines in order, if it consists of definitions only. A body without
statements is a number. -/
def ClassBody.definitions? : ClassBody → Option (List (String × Content))
  | .script (.sequence _ statements) => statements.mapM Node.member?
  | .script (.number _ _) => some []
  | _ => none

namespace Class

def definitions (c : Class) : List (String × Content) :=
  c.body.definitions?.getD []

/-- What the class itself gives to a name: the last definition of it as a member, or else the
argument for a parameter. -/
def gives (c : Class) (args : List Value) (x : String) : Option Content :=
  (Table.get? c.definitions.reverse x).or ((Table.get? (c.params.zip args) x).map .argument)

/-- A class with `k` parameters of different names whose body only defines members, and that leaves
the names `type` and `super` alone. -/
structure Plain (c : Class) (k : Nat) : Prop where
  body : c.body.definitions?.isSome = true
  arity : c.params.length = k
  distinct : c.params.Nodup
  params : ∀ x ∈ c.params, x ≠ "type" ∧ x ≠ "super"
  members : ∀ d ∈ c.definitions, d.1 ≠ "type" ∧ d.1 ≠ "super"

instance (c : Class) (k : Nat) : Decidable (c.Plain k) :=
  decidable_of_iff (c.body.definitions?.isSome = true ∧ c.params.length = k ∧ c.params.Nodup ∧
      (∀ x ∈ c.params, x ≠ "type" ∧ x ≠ "super") ∧
      ∀ d ∈ c.definitions, d.1 ≠ "type" ∧ d.1 ≠ "super")
    ⟨fun ⟨hb, ha, hd, hp, hm⟩ => ⟨hb, ha, hd, hp, hm⟩, fun h => ⟨h.1, h.2, h.3, h.4, h.5⟩⟩

/-- The class, its parent, the parent of that and so on. -/
def chain : Class → List Class
  | ⟨stamp, name, params, body, none⟩ => [⟨stamp, name, params, body, none⟩]
  | ⟨stamp, name, params, body, some parent⟩ =>
    ⟨stamp, name, params, body, some parent⟩ :: parent.chain
termination_by structural c => c

end Class

/-! ### Instances along a chain -/

/-- One class of a chain with the scope of its instance and the values that it gives itself. -/
structure Level where
  cls : Class
  scope : ScopeRef
  own : String → Option Value

/-- The bindings of one level above the levels `more`: its class, the instance of the next level,
and of every other name the value that the first of the levels gives it. -/
structure Heap.HoldsLevel (h : Heap) (args : List Value) (level : Level) (more : List Level) :
    Prop where
  own : ∀ x, Option.Rel (Content.Shows level.scope) (level.cls.gives args x) (level.own x)
  type : (h.scope level.scope).bindings.get? "type" = some (.cls level.cls)
  super : (h.scope level.scope).bindings.get? "super" =
    more.head?.map fun parent => .instance_ parent.scope
  other : ∀ x, x ≠ "type" → x ≠ "super" →
    (h.scope level.scope).bindings.get? x = (level :: more).findSome? (·.own x)

def Heap.Inherits (h : Heap) (args : List Value) : List Level → Prop
  | [] => True
  | level :: more => h.HoldsLevel args level more ∧ h.Inherits args more

theorem Heap.Inherits.congr {h g : Heap} {args : List Value} {levels : List Level}
    (hi : h.Inherits args levels)
    (hsame : ∀ level ∈ levels, g.scope level.scope = h.scope level.scope) :
    g.Inherits args levels := by
  induction levels with
  | nil => trivial
  | cons level more ih =>
    have hfirst := hsame level List.mem_cons_self
    refine ⟨⟨hi.1.own, ?_, ?_, ?_⟩, ih hi.2 fun l hl => hsame l (List.mem_cons_of_mem _ hl)⟩
    · rw [hfirst, hi.1.type]
    · rw [hfirst, hi.1.super]
    · intro x ht hs
      rw [hfirst, hi.1.other x ht hs]

/-! ### What building leaves alone -/

/-- A run from `w` to `w'` that is as deep and as far from its end, and that changed no scope of
the kind `P`. -/
structure World.Keeps (P : ScopeRef → Prop) (w w' : World) : Prop where
  stopped : w'.stopped = w.stopped
  depth : w'.depth = w.depth
  maxDepth : w'.maxDepth = w.maxDepth
  size : w.heap.scopes.size ≤ w'.heap.scopes.size
  scope : ∀ q, P q → w'.heap.scope q = w.heap.scope q

namespace World.Keeps

variable {P Q : ScopeRef → Prop} {w w₁ w₂ : World}

theorem refl (P : ScopeRef → Prop) (w : World) : w.Keeps P w :=
  ⟨rfl, rfl, rfl, Nat.le_refl _, fun _ _ => rfl⟩

theorem trans (h₁ : w.Keeps P w₁) (h₂ : w₁.Keeps Q w₂) (hPQ : ∀ q, P q → Q q) : w.Keeps P w₂ :=
  ⟨h₂.stopped.trans h₁.stopped, h₂.depth.trans h₁.depth, h₂.maxDepth.trans h₁.maxDepth,
    Nat.le_trans h₁.size h₂.size,
    fun q hq => (h₂.scope q (hPQ q hq)).trans (h₁.scope q hq)⟩

theorem allocated (h : w.Keeps P w₁) {s : ScopeRef} (hs : w.heap.Allocated s) :
    w₁.heap.Allocated s :=
  Nat.lt_of_lt_of_le hs h.size

end World.Keeps

/-- The world with one scope changed. -/
def World.edited (w : World) (s : ScopeRef) (f : Scope → Scope) : World :=
  { w with heap := w.heap.modifyScope s f }

theorem World.edited_keeps (w : World) (s : ScopeRef) (f : Scope → Scope) :
    w.Keeps (· ≠ s) (w.edited s f) where
  stopped := rfl
  depth := rfl
  maxDepth := rfl
  size := by simp [World.edited, Heap.size_modifyScope]
  scope := fun _ hq => Heap.scope_modifyScope_ne _ _ _ _ hq

theorem World.scope_edited {w : World} {s : ScopeRef} (hs : w.heap.Allocated s)
    (f : Scope → Scope) : (w.edited s f).heap.scope s = f (w.heap.scope s) :=
  Heap.scope_modifyScope_self _ _ _ hs

/-- The scope of an instance inside `e` with the bindings `t`. -/
def Class.instanceScope (c : Class) (e : ScopeRef) (t : Table Value) : Scope :=
  { Scope.fresh c.name (some e) none with bindings := t }

/-- Nobody watches an instance that is being built. -/
theorem Run.set_instance {c : Class} {e s : ScopeRef} {t : Table Value} {w : World}
    (hs : w.heap.Allocated s) (hscope : w.heap.scope s = c.instanceScope e t) (name : String)
    (v : Value) : Run.set s name v w = .done () (w.edited s (·.define name v)) := by
  have hreport : Run.set s name v w =
      Run.reportWrite s name v (w.edited s (·.define name v)) := rfl
  rw [hreport]
  simp only [Run.reportWrite, Run.heap, Bind.bind, Run.andThen, World.scope_edited hs, hscope]
  rfl

namespace Evaluation

open Run

theorem bind_done {α β : Type} {x : Run α} {f : α → Run β} {a : α} {w w' : World}
    (hx : x w = .done a w') : (x >>= f) w = f a w' := by
  simp only [Bind.bind, andThen, hx]

/-! ### Opening an instance -/

/-- What an instance binds before its arguments. -/
def opening (c : Class) (stamp : Nat) (s : ScopeRef) : Table Value :=
  ("type", .cls c) ::
    match c.parent with
    | none => []
    | some parent => [("super", .native stamp (.superCall parent c s))]

theorem get?_opening (c : Class) (stamp : Nat) (s : ScopeRef) (x : String) :
    (opening c stamp s).get? x =
      if x = "type" then some (.cls c)
      else if x = "super" then c.parent.map fun parent => .native stamp (.superCall parent c s)
      else none := by
  cases hp : c.parent <;> simp only [opening, hp, Table.get?] <;> grind

theorem modifyScope_newScope (h : Heap) (s : Scope) (f : Scope → Scope) :
    (h.newScope s).2.modifyScope h.viewRef f = (h.newScope (f s)).2 := by
  simp only [Heap.newScope, Heap.modifyScope, Heap.viewRef, Heap.mk.injEq, and_true]
  apply Array.ext_getElem?
  intro i
  rw [Array.getElem?_modify, Array.getElem?_push, Array.getElem?_push]
  grind

/-- A new instance is a scope that is made with its opening and the arguments. -/
theorem openInstance_eq (c : Class) (args : List Value) (e : ScopeRef) (w : World) :
    ∃ stamps, openInstance c args e w = .done w.heap.viewRef
      { w with heap := ({ w.heap with stamps := stamps }.newScope (c.instanceScope e
        ((opening c w.heap.stamps w.heap.viewRef).insertAll (c.params.zip args)))).2 } := by
  let s := w.heap.viewRef
  let blank := (w.heap.newScope (c.instanceScope e [])).2
  cases hp : c.parent with
  | none =>
    refine ⟨w.heap.stamps, ?_⟩
    have hrun : openInstance c args e w = .done s { w with heap :=
        ((blank.modifyScope s (·.define "type" (.cls c))).modifyScope s
          (·.defineAll (c.params.zip args))) } := by
      simp only [openInstance, hp]
      rfl
    rw [hrun, modifyScope_newScope, modifyScope_newScope]
    simp only [opening, hp]
    rfl
  | some parent =>
    refine ⟨w.heap.stamps + 1, ?_⟩
    have hrun : openInstance c args e w = .done s { w with heap :=
        (({ blank.modifyScope s (·.define "type" (.cls c)) with
              stamps := w.heap.stamps + 1 }.modifyScope s
            (·.define "super" (.native w.heap.stamps (.superCall parent c s)))).modifyScope s
          (·.defineAll (c.params.zip args))) } := by
      simp only [openInstance, hp]
      rfl
    have hstamped : { (w.heap.newScope ((c.instanceScope e []).define "type" (.cls c))).2 with
        stamps := w.heap.stamps + 1 } = ({ w.heap with stamps := w.heap.stamps + 1 }.newScope
          ((c.instanceScope e []).define "type" (.cls c))).2 := rfl
    have hs : s = Heap.viewRef { w.heap with stamps := w.heap.stamps + 1 } := rfl
    rw [hrun, modifyScope_newScope, hstamped, hs, modifyScope_newScope, modifyScope_newScope]
    simp only [opening, hp]
    rfl

theorem openInstance_done (c : Class) (args : List Value) (e : ScopeRef) (w : World) :
    ∃ w', openInstance c args e w = .done w.heap.viewRef w' ∧ w.Keeps w.heap.Allocated w' ∧
      w'.heap.Allocated w.heap.viewRef ∧
      w'.heap.scope w.heap.viewRef = c.instanceScope e
        ((opening c w.heap.stamps w.heap.viewRef).insertAll (c.params.zip args)) := by
  obtain ⟨stamps, hopen⟩ := openInstance_eq c args e w
  refine ⟨_, hopen, ⟨rfl, rfl, rfl, ?_, ?_⟩, ?_, ?_⟩
  · simp [Heap.newScope]
  · exact fun q hq => Heap.scope_newScope_old { w.heap with stamps := stamps } _ q hq
  · simp [Heap.newScope, Heap.Allocated, Heap.viewRef]
  · simp [Heap.scope_newScope, Heap.viewRef]

/-! ### Running a body of definitions -/

def Bound (s : ScopeRef) (d : String × Content) (entry : String × Value) : Prop :=
  d.1 = entry.1 ∧ d.2.Shows s entry.2

theorem get?_bound {s : ScopeRef} {defs : List (String × Content)}
    {values : List (String × Value)} (hb : List.Forall₂ (Bound s) defs values) (x : String) :
    Option.Rel (Content.Shows s) (Table.get? defs x) (Table.get? values x) := by
  induction hb with
  | nil => exact .none
  | @cons d entry _ _ hd _ ih =>
    obtain ⟨m, content⟩ := d
    obtain ⟨_, v⟩ := entry
    obtain ⟨rfl, hshows⟩ := hd
    by_cases h : m = x
    · simpa [Table.get?, h] using Option.Rel.some hshows
    · simpa [Table.get?, h] using ih

section Body

variable {c : Class} {e s : ScopeRef} {t : Table Value} {w : World}

theorem bind_member (hs : w.heap.Allocated s) (hscope : w.heap.scope s = c.instanceScope e t)
    (m : String) (v : Value) :
    ∃ w', (do set (← storage s) m v; return v : Run Value) (afterLiteral w) = .done v w' ∧
      w.Keeps (· ≠ s) w' ∧ w'.heap.scope s = c.instanceScope e (t.insert m v) := by
  have hstorage : (afterLiteral w).heap.storage s = s := by
    show (w.heap.scope s).receiver.getD s = s
    rw [hscope]
    rfl
  have hsame : (afterLiteral w).heap.scope s = c.instanceScope e t := hscope
  have hthere : (afterLiteral w).heap.Allocated s := hs
  have hset := set_instance hthere hsame m v
  refine ⟨(afterLiteral w).edited s (·.define m v), ?_, ?_, ?_⟩
  · simp only [Bind.bind, andThen, Run.storage, hstorage, hset]
    rfl
  · have hliteral : w.Keeps (· ≠ s) (afterLiteral w) :=
      ⟨rfl, rfl, rfl, Nat.le_refl _, fun _ _ => rfl⟩
    exact hliteral.trans (World.edited_keeps _ s _) fun _ hq => hq
  · rw [World.scope_edited hthere, hsame]
    rfl

theorem evaluate_definition (n : Nat) {node : Node} {m : String} {content : Content}
    (hdef : node.member? = some (m, content)) (hrun : w.stopped = false)
    (hs : w.heap.Allocated s) (hscope : w.heap.scope s = c.instanceScope e t) :
    ∃ v w', (machine (n + 2)).evaluate node s w = .done v w' ∧ content.Shows s v ∧
      w.Keeps (· ≠ s) w' ∧ w'.heap.scope s = c.instanceScope e (t.insert m v) := by
  rw [evaluate_running (n + 1) node s w hrun]
  unfold Node.member? at hdef
  split at hdef
  · rename_i litPos value
    cases hdef
    obtain ⟨w', hbind, hkeeps, hscope'⟩ :=
      bind_member hs hscope m (.number w.heap.stamps value)
    refine ⟨_, w', ?_, .number _ _, hkeeps, hscope'⟩
    have hlit := evaluate_literal n (.number litPos value) s w _ hrun rfl
    rw [← hbind]
    simp only [evalNode, Bind.bind, andThen, hlit]
  · rename_i litPos value
    cases hdef
    obtain ⟨w', hbind, hkeeps, hscope'⟩ :=
      bind_member hs hscope m (.text w.heap.stamps value)
    refine ⟨_, w', ?_, .text _ _, hkeeps, hscope'⟩
    have hlit := evaluate_literal n (.text litPos value) s w _ hrun rfl
    rw [← hbind]
    simp only [evalNode, Bind.bind, andThen, hlit]
  · rename_i params braced body
    cases hdef
    obtain ⟨w', hbind, hkeeps, hscope'⟩ := bind_member hs hscope m
      (.function w.heap.stamps ⟨some m, params, braced, body⟩ s)
    exact ⟨_, w', hbind, .method _ _, hkeeps, hscope'⟩
  · cases hdef

theorem evalSequence_definitions (n : Nat) {nodes : List Node} {defs : List (String × Content)}
    (hdefs : nodes.mapM Node.member? = some defs) (hrun : w.stopped = false)
    (hs : w.heap.Allocated s) (hscope : w.heap.scope s = c.instanceScope e t) :
    ∃ values w', evalSequence (machine (n + 2)) s nodes w = .done () w' ∧
      List.Forall₂ (Bound s) defs values ∧ w.Keeps (· ≠ s) w' ∧
      w'.heap.scope s = c.instanceScope e (t.insertAll values) := by
  induction nodes generalizing defs t w with
  | nil =>
    cases hdefs
    exact ⟨[], w, rfl, .nil, .refl _ w, hscope⟩
  | cons node more ih =>
    simp only [List.mapM_cons, Option.bind_eq_bind, Option.bind_eq_some_iff, Option.pure_def,
      Option.some.injEq] at hdefs
    obtain ⟨⟨m, content⟩, hnode, rest, hrest, rfl⟩ := hdefs
    obtain ⟨v, w₁, heval, hshows, hkeeps, hscope₁⟩ :=
      evaluate_definition n hnode hrun hs hscope
    obtain ⟨values, w₂, hmore, hvalues, hkeeps₂, hscope₂⟩ :=
      ih hrest (hkeeps.stopped.trans hrun) (hkeeps.allocated hs) hscope₁
    refine ⟨(m, v) :: values, w₂, ?_, .cons ⟨rfl, hshows⟩ hvalues,
      hkeeps.trans hkeeps₂ fun _ hq => hq, hscope₂⟩
    rw [← hmore]
    show andThen (andThen ((machine (n + 2)).evaluate node s) fun _ => Run.done ())
      (fun _ => evalSequence (machine (n + 2)) s more) w = _
    simp only [andThen, heval, Run.done]

theorem runBody_definitions (n : Nat) {defs : List (String × Content)} (args : List Value)
    (hdefs : c.body.definitions? = some defs) (hrun : w.stopped = false)
    (hs : w.heap.Allocated s) (hscope : w.heap.scope s = c.instanceScope e t) :
    ∃ values w', runBody (machine (n + 3)) c args s w = .done () w' ∧
      List.Forall₂ (Bound s) defs values ∧ w.Keeps (· ≠ s) w' ∧
      w'.heap.scope s = c.instanceScope e (t.insertAll values) := by
  unfold ClassBody.definitions? at hdefs
  split at hdefs
  · rename_i pos nodes hbody
    obtain ⟨values, w', hseq, hvalues, hkeeps, hscope'⟩ :=
      evalSequence_definitions n hdefs hrun hs hscope
    refine ⟨values, w', ?_, hvalues, hkeeps, hscope'⟩
    have heval : (machine (n + 3)).evaluate (.sequence pos nodes) s w =
        .done (.instance_ (w'.heap.storage s)) w' := by
      rw [evaluate_running (n + 2) _ s w hrun]
      simp only [evalNode, Bind.bind, andThen, hseq, Run.storage]
      rfl
    simp only [runBody, hbody, Bind.bind, andThen, catchJump, heval]
    rfl
  · rename_i pos value hbody
    cases hdefs
    have heval := evaluate_literal (n + 2) (.number pos value) s w _ hrun rfl
    refine ⟨[], afterLiteral w, ?_, .nil, ⟨rfl, rfl, rfl, Nat.le_refl _, fun _ _ => rfl⟩, hscope⟩
    simp only [runBody, hbody, Bind.bind, andThen, catchJump, heval]
    rfl
  · cases hdefs

end Body

/-! ### The class's own values -/

theorem gives_reserved {c : Class} {args : List Value} (hp : c.Plain args.length) :
    c.gives args "type" = none ∧ c.gives args "super" = none := by
  have hfree : ∀ x, x = "type" ∨ x = "super" → c.gives args x = none := by
    intro x hx
    have hmember : Table.get? c.definitions.reverse x = none := by
      rw [Table.get?_eq_none_iff]
      intro hmem
      obtain ⟨d, hd, rfl⟩ := List.mem_map.mp hmem
      have := hp.members d (List.mem_reverse.mp hd)
      rcases hx with hx | hx
      · exact this.1 hx
      · exact this.2 hx
    have hparam : Table.get? (c.params.zip args) x = none := by
      rw [Table.get?_eq_none_iff, List.map_fst_zip (Nat.le_of_eq hp.arity)]
      intro hmem
      rcases hx with hx | hx
      · exact (hp.params x hmem).1 hx
      · exact (hp.params x hmem).2 hx
    simp [Class.gives, hmember, hparam]
  exact ⟨hfree _ (.inl rfl), hfree _ (.inr rfl)⟩

/-- Members come before parameters, and both before the opening. -/
theorem openInstance_runBody (n : Nat) {c : Class} {args : List Value} (e : ScopeRef) {w : World}
    (hp : c.Plain args.length) (hrun : w.stopped = false) :
    ∃ (own : String → Option Value) (t : Table Value) (w₁ w₂ : World),
      openInstance c args e w = .done w.heap.viewRef w₁ ∧
      runBody (machine (n + 3)) c args w.heap.viewRef w₁ = .done () w₂ ∧
      w.Keeps w.heap.Allocated w₂ ∧ w₂.heap.Allocated w.heap.viewRef ∧
      w₂.heap.scope w.heap.viewRef = c.instanceScope e t ∧
      (∀ x, Option.Rel (Content.Shows w.heap.viewRef) (c.gives args x) (own x)) ∧
      ∀ x, t.get? x =
        (own x).or ((opening c w.heap.stamps w.heap.viewRef).get? x) := by
  obtain ⟨w₁, hopen, hkeeps₁, hs, hscope₁⟩ := openInstance_done c args e w
  obtain ⟨defs, hdefs⟩ := Option.isSome_iff_exists.mp hp.body
  obtain ⟨values, w₂, hbody, hvalues, hkeeps₂, hscope₂⟩ :=
    runBody_definitions n args hdefs (hkeeps₁.stopped.trans hrun) hs hscope₁
  have hyoung : ∀ q, w.heap.Allocated q → q ≠ w.heap.viewRef := by
    rintro q hq rfl
    exact Nat.lt_irrefl _ hq
  refine ⟨fun x => (Table.get? values.reverse x).or (Table.get? (c.params.zip args) x), _, w₁, w₂,
    hopen, hbody, hkeeps₁.trans hkeeps₂ hyoung, hkeeps₂.allocated hs, hscope₂, ?_, ?_⟩
  · intro x
    have hmember := get?_bound (List.rel_reverse hvalues) x
    have hnames : c.definitions = defs := by simp [Class.definitions, hdefs]
    rw [Class.gives, hnames]
    dsimp only
    generalize Table.get? defs.reverse x = d, Table.get? values.reverse x = v at hmember ⊢
    cases hmember with
    | some hshows => exact .some hshows
    | none =>
      cases Table.get? (c.params.zip args) x with
      | none => exact .none
      | some v => exact .some (.argument v)
  · intro x
    have hnodup : ((c.params.zip args).map Prod.fst).Nodup := by
      rw [List.map_fst_zip (Nat.le_of_eq hp.arity)]
      exact hp.distinct
    rw [Table.get?_insertAll, Table.get?_insertAll, Table.get?_reverse _ hnodup, Option.or_assoc]

/-! ### Building the parent -/

/-- The parent's instance is copied under what is there, and `type` and `super` are set again. -/
theorem implicitParent_done {build : List Value → ScopeRef → Run ScopeRef} {c parent : Class}
    {args : List Value} {e s p : ScopeRef} {t : Table Value} {w w₁ : World}
    (hawaits : awaitsParent w.heap s = true) (harity : parent.params.length = args.length)
    (hbuild : build args s w = .done p w₁) (hs : w₁.heap.Allocated s)
    (hscope : w₁.heap.scope s = c.instanceScope e t) (hne : s ≠ p) :
    ∃ t' w', implicitParent build c parent args s w = .done () w' ∧ w₁.Keeps (· ≠ s) w' ∧
      w'.heap.scope s = c.instanceScope e t' ∧
      ∀ x, t'.get? x =
        if x = "type" then some (.cls c)
        else if x = "super" then some (.instance_ p)
        else (t.get? x).or ((w₁.heap.scope p).bindings.get? x) := by
  obtain ⟨merged, hmerged, hget⟩ :=
    Scope.foldl_define_missing (w₁.heap.scope p).bindings (c.instanceScope e t) rfl
  let add : Scope → Scope := fun u => (w₁.heap.scope p).bindings.foldl
    (fun u entry => if u.contains entry.1 then u else u.define entry.1 entry.2) u
  let w₂ := w₁.edited s add
  let w₃ := w₂.edited s (·.define "type" (.cls c))
  let w₄ := w₃.edited s (·.define "super" (.instance_ p))
  have hs₂ : w₂.heap.Allocated s := (w₁.edited_keeps s add).allocated hs
  have hs₃ : w₃.heap.Allocated s := (w₂.edited_keeps s _).allocated hs₂
  refine ⟨(merged.insert "type" (.cls c)).insert "super" (.instance_ p), w₄, ?_, ?_, ?_, ?_⟩
  · have hmerge : w₁.heap.mergeMissing s p = w₂.heap := by
      rw [Heap.mergeMissing, if_neg hne]
      rfl
    simp only [implicitParent, Bind.bind, andThen, Run.heap, hawaits, harity, if_true, hbuild,
      modifyHeap, Run.modify, hmerge]
    rfl
  · exact ((w₁.edited_keeps s add).trans (w₂.edited_keeps s _) fun _ h => h).trans
      (w₃.edited_keeps s _) fun _ h => h
  · rw [World.scope_edited hs₃, World.scope_edited hs₂, World.scope_edited hs, hscope]
    show ((add (c.instanceScope e t)).define "type" _).define "super" _ = _
    rw [show add (c.instanceScope e t) = { c.instanceScope e t with bindings := merged } from
      hmerged]
    rfl
  · intro x
    rw [Table.get?_insert, Table.get?_insert, hget]
    have htable : (c.instanceScope e t).bindings = t := rfl
    rw [htable]
    grind

/-! ### Building an instance -/

theorem withFrame_done {α : Type} {x : Run α} {a : α} {w w' : World}
    (hdepth : w.depth < w.maxDepth) (hx : x w.enter = .done a w') :
    withFrame x w = .done a w'.leave := by
  rw [withFrame, if_neg (Nat.not_le.mpr hdepth), hx]

theorem framed_keeps {P : ScopeRef → Prop} {w w' : World} (h : w.enter.Keeps P w') :
    w.Keeps P w'.leave where
  stopped := h.stopped
  depth := by
    have := h.depth
    simp only [World.enter] at this
    simp only [World.leave]
    omega
  maxDepth := h.maxDepth
  size := h.size
  scope := h.scope

/-- The levels are what building an instance of the class added to the world. -/
structure Builds (c : Class) (args : List Value) (w w' : World) (levels : List Level) : Prop where
  chain : levels.map Level.cls = c.chain
  first : levels.head?.map Level.scope = some w.heap.viewRef
  inherits : w'.heap.Inherits args levels
  young : ∀ level ∈ levels, ¬ w.heap.Allocated level.scope
  keeps : w.Keeps w.heap.Allocated w'
  allocated : w'.heap.Allocated w.heap.viewRef

theorem own_eq_none {c : Class} {args : List Value} {s : ScopeRef} {own : String → Option Value}
    (hown : ∀ x, Option.Rel (Content.Shows s) (c.gives args x) (own x)) {x : String}
    (hx : c.gives args x = none) : own x = none := by
  have hrel := hown x
  rw [hx] at hrel
  generalize own x = v at hrel ⊢
  cases hrel
  rfl

theorem get?_first {h : Heap} {args : List Value} {levels : List Level}
    {p : ScopeRef} (hi : h.Inherits args levels) (hp : levels.head?.map Level.scope = some p)
    {x : String} (ht : x ≠ "type") (hs : x ≠ "super") :
    (h.scope p).bindings.get? x = levels.findSome? (·.own x) := by
  cases levels with
  | nil => cases hp
  | cons level more =>
    cases hp
    exact hi.1.other x ht hs

/-- The first level above others: its own values come before those of the next instance. -/
theorem holdsLevel_of_bindings {h : Heap} {c : Class} {args : List Value} {s : ScopeRef}
    {own : String → Option Value} {levels : List Level}
    (hown : ∀ x, Option.Rel (Content.Shows s) (c.gives args x) (own x))
    (hget : ∀ x, (h.scope s).bindings.get? x =
      if x = "type" then some (.cls c)
      else if x = "super" then levels.head?.map fun parent => .instance_ parent.scope
      else (own x).or (levels.findSome? (·.own x))) :
    h.HoldsLevel args ⟨c, s, own⟩ levels where
  own := hown
  type := by rw [hget, if_pos rfl]
  super := by rw [hget, if_neg (by decide), if_pos rfl]
  other := by
    intro x ht hs
    rw [hget, if_neg ht, if_neg hs, List.findSome?_cons]
    dsimp only
    cases own x <;> simp

section Levels

variable {n : Nat} {args : List Value} {e : ScopeRef} {w : World} {stamp : Nat} {name : String}
  {params : List String} {body : ClassBody}

theorem instantiate_last (hp : Class.Plain ⟨stamp, name, params, body, none⟩ args.length)
    (hrun : w.stopped = false) (hdepth : w.depth < w.maxDepth) :
    ∃ levels w', instantiate (machine (n + 3)) ⟨stamp, name, params, body, none⟩ args e w =
        .done w.heap.viewRef w' ∧
      Builds ⟨stamp, name, params, body, none⟩ args w w' levels := by
  let c : Class := ⟨stamp, name, params, body, none⟩
  have hopened : w.enter.stopped = false := hrun
  obtain ⟨own, t, w₁, w₂, hopen, hbody, hkeeps, halloc, hscope, hown, hget⟩ :=
    openInstance_runBody n e hp hopened
  have htype := own_eq_none hown (gives_reserved hp).1
  have hsuper := own_eq_none hown (gives_reserved hp).2
  refine ⟨[⟨c, w.heap.viewRef, own⟩], w₂.leave, ?_, ?_⟩
  · have harity : params.length = args.length := hp.arity
    have hframe : withFrame (do
        let scope ← openInstance c args e
        runBody (machine (n + 3)) c args scope
        return scope) w = .done w.heap.viewRef w₂.leave :=
      withFrame_done hdepth ((bind_done hopen).trans (bind_done hbody))
    rw [instantiate]
    simp only [Bind.bind, andThen, checkArity, harity, if_true, Run.done]
    exact hframe
  · refine ⟨by simp [c, Class.chain], rfl, ⟨holdsLevel_of_bindings hown ?_, trivial⟩, ?_,
      framed_keeps hkeeps, halloc⟩
    · intro x
      have hbindings : (w₂.leave.heap.scope w.heap.viewRef).bindings = t :=
        congrArg Scope.bindings hscope
      rw [hbindings, hget, get?_opening]
      by_cases ht : x = "type"
      · simp [ht, htype, c]
      · by_cases hs : x = "super"
        · simp [hs, hsuper]
        · simp [ht, hs]
    · simp [Heap.Allocated, Heap.viewRef]

/-- One level above a chain that was built inside its scope. -/
theorem Builds.above {parent : Class} {own : String → Option Value} {levels : List Level}
    {w₁ w₂ w₃ : World} (hkeeps : w.enter.Keeps w.heap.Allocated w₁)
    (hs : w₁.heap.Allocated w.heap.viewRef) (hb : Builds parent args w₁ w₂ levels)
    (hkeeps₃ : w₂.Keeps (· ≠ w.heap.viewRef) w₃)
    (hown : ∀ x, Option.Rel (Content.Shows w.heap.viewRef)
      (Class.gives ⟨stamp, name, params, body, some parent⟩ args x) (own x))
    (hget : ∀ x, (w₃.heap.scope w.heap.viewRef).bindings.get? x =
      if x = "type" then some (.cls ⟨stamp, name, params, body, some parent⟩)
      else if x = "super" then some (.instance_ w₁.heap.viewRef)
      else (own x).or ((w₂.heap.scope w₁.heap.viewRef).bindings.get? x)) :
    Builds ⟨stamp, name, params, body, some parent⟩ args w w₃.leave
      (⟨⟨stamp, name, params, body, some parent⟩, w.heap.viewRef, own⟩ :: levels) := by
  have hyoung : ∀ q, w.heap.Allocated q → q ≠ w.heap.viewRef := by
    rintro q hq rfl
    exact Nat.lt_irrefl _ hq
  have hnext : (levels.head?.map fun parent => Value.instance_ parent.scope) =
      some (.instance_ w₁.heap.viewRef) := by
    simpa using congrArg (Option.map Value.instance_) hb.first
  refine ⟨by simp [Class.chain, hb.chain], rfl, ⟨holdsLevel_of_bindings hown ?_, ?_⟩, ?_,
    framed_keeps ((hkeeps.trans hb.keeps fun _ hq => hkeeps.allocated hq).trans hkeeps₃ hyoung),
    hkeeps₃.allocated (hb.keeps.allocated hs)⟩
  · intro x
    rw [hnext]
    refine (hget x).trans ?_
    by_cases ht : x = "type"
    · simp [ht]
    · by_cases hsuper : x = "super"
      · simp [hsuper]
      · simp [ht, hsuper, get?_first hb.inherits hb.first ht hsuper]
  · refine hb.inherits.congr fun level hl => hkeeps₃.scope level.scope ?_
    intro hsame
    exact hb.young level hl (hsame ▸ hs)
  · intro level hl
    rcases List.mem_cons.mp hl with rfl | hl
    · exact Nat.lt_irrefl _
    · exact fun hold => hb.young level hl (hkeeps.allocated hold)

theorem instantiate_above {parent : Class}
    (hp : Class.Plain ⟨stamp, name, params, body, some parent⟩ args.length)
    (harity : parent.params.length = args.length)
    (hrun : w.stopped = false) (hdepth : w.depth < w.maxDepth)
    (hparent : ∀ e' w₁, w₁.stopped = false → w₁.depth = w.depth + 1 →
      w₁.maxDepth = w.maxDepth → ∃ levels w₂,
        instantiate (machine (n + 3)) parent args e' w₁ = .done w₁.heap.viewRef w₂ ∧
        Builds parent args w₁ w₂ levels) :
    ∃ levels w', instantiate (machine (n + 3)) ⟨stamp, name, params, body, some parent⟩ args e w =
        .done w.heap.viewRef w' ∧
      Builds ⟨stamp, name, params, body, some parent⟩ args w w' levels := by
  let c : Class := ⟨stamp, name, params, body, some parent⟩
  have hopened : w.enter.stopped = false := hrun
  obtain ⟨own, t, w₁, w₂, hopen, hbody, hkeeps, halloc, hscope, hown, hget⟩ :=
    openInstance_runBody n e hp hopened
  -- No member has hidden `super`, so that the parent is still to be built.
  have hawaits : awaitsParent w₂.heap w.heap.viewRef = true := by
    have hsuper : t.get? "super" =
        some (.native w.heap.stamps (.superCall parent c w.heap.viewRef)) := by
      rw [hget, own_eq_none hown (gives_reserved hp).2, get?_opening]
      rfl
    have hbindings : (w₂.heap.scope w.heap.viewRef).bindings = t := congrArg Scope.bindings hscope
    simp only [awaitsParent, hbindings, hsuper]
  obtain ⟨levels, w₃, hbuild, hb⟩ := hparent w.heap.viewRef w₂ (hkeeps.stopped.trans hrun)
    hkeeps.depth hkeeps.maxDepth
  -- The scopes of the parent are younger, so that building it changes nothing in this one.
  have hkept : w₃.heap.scope w.heap.viewRef = c.instanceScope e t :=
    (hb.keeps.scope _ halloc).trans hscope
  have hne : w.heap.viewRef ≠ w₂.heap.viewRef := by
    rw [Ne, ScopeRef.mk.injEq]
    exact Nat.ne_of_lt halloc
  obtain ⟨t', w₄, himplicit, hkeeps₄, hscope₄, hget₄⟩ :=
    implicitParent_done hawaits harity hbuild (hb.keeps.allocated halloc) hkept hne
  refine ⟨⟨c, w.heap.viewRef, own⟩ :: levels, w₄.leave, ?_, hb.above hkeeps halloc hkeeps₄ hown ?_⟩
  · have hframe : withFrame (do
        let scope ← openInstance c args e
        runBody (machine (n + 3)) c args scope
        implicitParent (fun args scope => instantiate (machine (n + 3)) parent args scope) c parent
          args scope
        return scope) w = .done w.heap.viewRef w₄.leave :=
      withFrame_done hdepth ((bind_done hopen).trans ((bind_done hbody).trans
        (bind_done himplicit)))
    have harity' : params.length = args.length := hp.arity
    rw [instantiate]
    simp only [Bind.bind, andThen, checkArity, harity', if_true, Run.done]
    exact hframe
  · intro x
    rw [hscope₄]
    refine (hget₄ x).trans ?_
    rw [hget, get?_opening]
    by_cases ht : x = "type"
    · simp [ht, c]
    · by_cases hs : x = "super"
      · simp [hs]
      · simp [ht, hs]

end Levels

theorem instantiate_builds (n : Nat) (c : Class) (args : List Value) (e : ScopeRef) (w : World)
    (hplain : ∀ d ∈ c.chain, d.Plain args.length) (hrun : w.stopped = false)
    (hdepth : w.depth + c.chain.length ≤ w.maxDepth) :
    ∃ levels w', instantiate (machine (n + 3)) c args e w = .done w.heap.viewRef w' ∧
      Builds c args w w' levels := by
  -- Along the chain: the parent is built inside the scope of the child, which has its members by
  -- then, and one call deeper.
  induction c using Class.chain.induct generalizing e w with
  | case1 stamp name params body =>
    simp only [Class.chain, List.length_singleton] at hdepth
    exact instantiate_last (hplain _ (by simp [Class.chain])) hrun (by omega)
  | case2 stamp name params body parent ih =>
    simp only [Class.chain, List.length_cons] at hdepth
    have hparents : ∀ d ∈ parent.chain, d.Plain args.length :=
      fun d hd => hplain d (by simp [Class.chain, hd])
    have hfirst : parent ∈ parent.chain := by
      obtain ⟨_, _, _, _, _ | _⟩ := parent <;> simp [Class.chain]
    refine instantiate_above (hplain _ (by simp [Class.chain])) (hparents parent hfirst).arity hrun
      (by omega) ?_
    intro e' w₁ hrun₁ hdepth₁ hmax₁
    exact ih e' w₁ hparents hrun₁ (by omega)

/-- Creating an object whose classes only define members succeeds while there are as many calls left
as classes. The instance has a level for each class of the chain: every level binds `type` to its
class and `super` to the instance of the next level, if there is one, and any other name to what the
first level from there on gives it. -/
theorem create_inherits (n : Nat) (pos : Position) (name : String) (nodes : List Node)
    (e : ScopeRef) (w w₁ w₂ : World) (c : Class) (args : List Value) (hrun : w.stopped = false)
    (hclass : lookupClass name pos e w = .done c w₁)
    (hargs : evalAll (machine (n + 3)) nodes e w₁ = .done args w₂) (hrun₂ : w₂.stopped = false)
    (hplain : ∀ d ∈ c.chain, d.Plain args.length)
    (hdepth : w₂.depth + c.chain.length ≤ w₂.maxDepth) :
    ∃ s levels w', (machine (n + 4)).evaluate (.create pos name nodes) e w =
        .done (.instance_ s) w' ∧
      levels.map Level.cls = c.chain ∧ levels.head?.map Level.scope = some s ∧
      w'.heap.Inherits args levels := by
  let traced : World := { w₂ with calls := ⟨name, some pos⟩ :: w₂.calls }
  obtain ⟨levels, w₃, hbuild, hb⟩ := instantiate_builds n c args e traced hplain hrun₂ hdepth
  refine ⟨w₂.heap.viewRef, levels, { w₃ with calls := w₂.calls }, ?_, hb.chain, hb.first,
    hb.inherits⟩
  have hnew : locatedAt pos (do return Value.instance_ (← instantiate (machine (n + 3)) c args e))
      traced = .done (.instance_ w₂.heap.viewRef) w₃ := by
    simp only [locatedAt, onFailure, bind_done hbuild]
    rfl
  rw [evaluate_running (n + 3) _ e w hrun]
  refine (bind_done hclass).trans ((bind_done hargs).trans ?_)
  simp only [during]
  rw [hnew]

/-! ### Three classes -/

/-- A chain of three classes with one parameter each. The first has a member of its parent's, the
second has a member with the name of a parameter above it. -/
def puppy : Class :=
  { stamp := 2, name := "Puppy", params := ["name"]
    body := .script (.sequence .none [.declare .none "sound" (.text .none "yip")])
    parent := some {
      stamp := 1, name := "Dog", params := ["owner"]
      body := .script (.sequence .none [
        .declare .none "tricks" (.number .none (.zero false)),
        .declare .none "name" (.text .none "dog")])
      parent := some {
        stamp := 0, name := "Animal", params := ["label"]
        body := .script (.sequence .none [
          .declare .none "sound" (.text .none "..."),
          .function .none (some "describe") [] false (.read .none "sound")])
        parent := none } } }

def kennel : World :=
  { World.bare {} with
    heap := {
      scopes := #[{ Scope.fresh Scope.globalName none none with
        bindings := [("Puppy", .cls puppy)] }]
      lists := #[]
      stamps := 3 } }

theorem create_inherits_puppy :
    ∃ s levels w', (machine 4).evaluate (.create .none "Puppy" [.text .none "Rex"]) ⟨0⟩ kennel =
        .done (.instance_ s) w' ∧
      levels.map Level.cls = puppy.chain ∧ levels.head?.map Level.scope = some s ∧
      w'.heap.Inherits [.text 3 "Rex"] levels :=
  create_inherits 0 .none "Puppy" [.text .none "Rex"] ⟨0⟩ kennel kennel (afterLiteral kennel) puppy
    [.text 3 "Rex"] rfl (by cbv) (by cbv) rfl (by decide) (by decide)

end Evaluation

end ScriptEngine
