import ScriptEngine.Proofs.LikeEvaluation

/-! # Equal runs

If trees and places are alike only to themselves, then what is alike to a value or to a world is
determined by it. Where stamps and lists stand for themselves too, alike means equal, and lockstep
says in which frames a computation refers to its machine. -/

namespace ScriptEngine

/-! ### Trees beside themselves -/

theorem Arms.resembles_refl {N : Node → Node → Prop} (hN : ∀ a, N a a) (arms : Arms) :
    arms.Resembles N arms := by
  cases arms with
  | done => exact .done
  | otherwise braced body => exact .otherwise braced (hN body)
  | arm condition braced body more =>
    exact .arm braced (hN condition) (hN body) (Arms.resembles_refl hN more)

theorem Node.resembles_refl {N : Node → Node → Prop} {P : Position → Position → Prop}
    (hN : ∀ a, N a a) (hP : ∀ p, P p p) (a : Node) : a.Resembles N P a := by
  cases a <;> constructor <;>
    first
      | exact hP _
      | exact hN _
      | exact forall₂_of_refl hN _
      | exact optionRel_refl hN _
      | exact Arms.resembles_refl hN _

theorem Node.resembles_of_eq {a b : Node} (h : a = b) : a.Resembles Eq Eq b := by
  subst h
  exact a.resembles_refl (fun _ => rfl) fun _ => rfl

theorem Node.label_of_eq {a b : Node} (h : a = b) : b.label = a.label :=
  congrArg Node.label h.symm

/-! ### What is alike to one thing -/

/-- Trees and places are alike to one tree and to one place. -/
structure Likeness.Functional (L : Likeness) : Prop where
  node : Relator.RightUnique L.node
  place : Relator.RightUnique L.place

theorem optionRel_unique {α : Type} {R : α → α → Prop} (hR : Relator.RightUnique R)
    {o a b : Option α} (ha : Option.Rel R o a) (hb : Option.Rel R o b) : a = b := by
  cases ha with
  | none => cases hb with | none => rfl
  | some ha => cases hb with | some hb => rw [hR ha hb]

section Unique

variable {L : Likeness} (hL : L.Functional) {n : Extent}
include hL

theorem TraceEntry.Alike.unique {entry a b : TraceEntry} (ha : entry.Alike L a)
    (hb : entry.Alike L b) : a = b := by
  obtain ⟨label, hp⟩ := ha
  obtain ⟨_, hq⟩ := hb
  rw [optionRel_unique hL.place hp hq]

theorem Diagnostic.Alike.unique {d a b : Diagnostic} (ha : d.Alike L a) (hb : d.Alike L b) :
    a = b := by
  obtain ⟨fault, hp, htrace⟩ := ha
  obtain ⟨_, hq, htrace'⟩ := hb
  have hentry : Relator.RightUnique (TraceEntry.Alike L) := fun _ _ _ => TraceEntry.Alike.unique hL
  rw [optionRel_unique hL.place hp hq, List.right_unique_forall₂' hentry htrace htrace']

theorem ClassBody.Alike.unique {body a b : ClassBody} (ha : body.Alike L a)
    (hb : body.Alike L b) : a = b := by
  cases ha with
  | script hnode => cases hb with | script hnode' => rw [hL.node hnode hnode']
  | object => cases hb with | object => rfl
  | file => cases hb with | file => rfl

theorem Class.Alike.unique {c a b : Class} (ha : c.Alike L n a) (hb : c.Alike L n b) : a = b := by
  induction ha generalizing b with
  | base _ hbody => cases hb with | base _ hbody' => rw [ClassBody.Alike.unique hL hbody hbody']
  | derived _ hbody _ ih =>
    cases hb with
    | derived _ hbody' hparent => rw [ClassBody.Alike.unique hL hbody hbody', ih hparent]

theorem Native.Alike.unique {m a b : Native} (ha : m.Alike L n a) (hb : m.Alike L n b) :
    a = b := by
  cases ha with
  | superCall hparent hchild target =>
    cases hb with
    | superCall hparent' hchild' =>
      rw [Class.Alike.unique hL hparent hparent', Class.Alike.unique hL hchild hchild']
  | _ => cases hb; rfl

theorem Value.Alike.unique {v a b : Value} (ha : v.Alike L n a) (hb : v.Alike L n b) : a = b := by
  cases ha with
  | function _ hbody => cases hb with | function _ hbody' => rw [hL.node hbody hbody']
  | native _ hm => cases hb with | native _ hm' => rw [Native.Alike.unique hL hm hm']
  | cls hc => cases hb with | cls hc' => rw [Class.Alike.unique hL hc hc']
  | _ => cases hb; rfl

theorem Values.Alike.unique {vs as bs : List Value} (ha : Values.Alike L n vs as)
    (hb : Values.Alike L n vs bs) : as = bs := by
  have hvalue : Relator.RightUnique (Value.Alike L n) := fun _ _ _ => Value.Alike.unique hL
  exact List.right_unique_forall₂' hvalue ha hb

theorem Entries.Alike.unique {t a b : Table Value} (ha : Entries.Alike L n t a)
    (hb : Entries.Alike L n t b) : a = b :=
  List.right_unique_forall₂'
    (fun _ _ _ h k => Prod.ext (h.1.symm.trans k.1) (Value.Alike.unique hL h.2 k.2)) ha hb

theorem Event.Alike.unique {event a b : Event} (ha : event.Alike L n a)
    (hb : event.Alike L n b) : a = b := by
  cases ha with
  | read name => cases hb with | read => rfl
  | wrote e name hv shown =>
    cases hb with | wrote _ _ hv' => rw [Value.Alike.unique hL hv hv']
  | queued hv => cases hb with | queued hv' => rw [Value.Alike.unique hL hv hv']
  | started hv => cases hb with | started hv' => rw [Value.Alike.unique hL hv hv']

theorem Journal.Alike.unique {journal a b : List Event} (ha : Journal.Alike L n journal a)
    (hb : Journal.Alike L n journal b) : a = b := by
  obtain ⟨new, as, has, hj, rfl⟩ := ha
  obtain ⟨new', bs, hbs, hj', rfl⟩ := hb
  have hnew : new = new' := List.append_cancel_right (hj.symm.trans hj')
  subst hnew
  have hevent : Relator.RightUnique (Event.Alike L n) := fun _ _ _ => Event.Alike.unique hL
  rw [List.right_unique_forall₂' hevent has hbs]

theorem Scope.Alike.unique {s a b : Scope} (ha : s.Alike L n a) (hb : s.Alike L n b) : a = b := by
  rw [ha.rest, hb.rest, Entries.Alike.unique hL ha.bindings hb.bindings]

end Unique

theorem array_eq {α : Type} {xs ys : Array α} (a : α) (hsize : ys.size = xs.size)
    (hitem : ∀ i, xs.getD i a = ys.getD i a) : xs = ys := by
  have hmap := array_map_eq (f := id) a hsize hitem
  rwa [Array.map_id, Array.map_id] at hmap

/-- The lists of the second world that stand for none of the first are known from the likeness. -/
theorem Heap.Alike.unique {L : Likeness} (hL : L.Functional) {h a b : Heap} (ha : h.Alike L a)
    (hb : h.Alike L b) : a = b := by
  have hscopes : a.scopes = b.scopes := array_eq default (hb.scopes.trans ha.scopes.symm) fun i =>
    Scope.Alike.unique hL (ha.scope ⟨i⟩) (hb.scope ⟨i⟩)
  have hlists : a.lists = b.lists := by
    refine array_eq #[] (hb.lists.trans ha.lists.symm) fun i => ?_
    by_cases hi : ∃ j, L.list j = i
    · obtain ⟨j, rfl⟩ := hi
      exact Array.toList_inj.mp (Values.Alike.unique hL (ha.items ⟨j⟩) (hb.items ⟨j⟩))
    · have hnone : ∀ j, L.list j ≠ i := fun j hj => hi ⟨j, hj⟩
      exact (ha.others i hnone).trans (hb.others i hnone).symm
  have hstamps : a.stamps = b.stamps := ha.stamps.trans hb.stamps.symm
  cases a
  cases b
  simp only [Heap.mk.injEq]
  exact ⟨hscopes, hlists, hstamps⟩

theorem World.Alike.unique {L : Likeness} (hL : L.Functional) {w a b : World} (ha : w.Alike L a)
    (hb : w.Alike L b) : a = b := by
  have hentry : Relator.RightUnique (TraceEntry.Alike L) := fun _ _ _ => TraceEntry.Alike.unique hL
  have hcalls : a.calls = b.calls := List.right_unique_forall₂' hentry ha.calls hb.calls
  have hrest : w.over a = w.over b := by
    simp only [World.over, Heap.Alike.unique hL ha.heap hb.heap, hcalls,
      Values.Alike.unique hL ha.tasks hb.tasks, Journal.Alike.unique hL ha.journal hb.journal]
  exact ha.rest.trans (hrest.trans hb.rest.symm)

/-! ### Alike means equal -/

/-- Equal runs, of whose failures nothing is said. -/
def Likeness.exact : Likeness where
  toRenaming := .identity
  node := Eq
  place := Eq
  strict := False
  host _ := True
  failure _ _ _ := True
  node_refl _ := rfl
  place_refl _ := rfl
  node_resembles := Node.resembles_of_eq
  node_label := Node.label_of_eq
  level := Renaming.identity_level
  failure_raised _ _ _ := trivial
  failure_host _ _ _ := trivial
  failure_orPosition _ _ := trivial
  failure_withTrace _ _ := trivial

theorem Likeness.exact_keepsIdentities : Likeness.exact.KeepsIdentities :=
  ⟨rfl, id⟩

theorem Likeness.exact_functional : Likeness.exact.Functional :=
  ⟨fun _ _ _ h k => h.symm.trans k, fun _ _ _ h k => h.symm.trans k⟩

section Exact

variable {n : Extent}

theorem Value.alike_exact (n : Extent) (v : Value) : v.Alike .exact n v :=
  .refl Likeness.exact_keepsIdentities n v fun _ _ => trivial

theorem World.alike_exact (w : World) : w.Alike .exact w :=
  .refl Likeness.exact_keepsIdentities fun _ _ _ _ => trivial

theorem Value.Alike.eq {v v' : Value} (hv : v.Alike .exact n v') : v = v' :=
  Value.Alike.unique Likeness.exact_functional (v.alike_exact n) hv

theorem Values.Alike.eq {vs vs' : List Value} (hvs : Values.Alike .exact n vs vs') : vs = vs' :=
  Values.Alike.unique Likeness.exact_functional (forall₂_of_refl (Value.alike_exact n) vs) hvs

theorem Diagnostic.Alike.eq {d d' : Diagnostic} (hd : d.Alike .exact d') : d = d' :=
  Diagnostic.Alike.unique Likeness.exact_functional (.refl d) hd

theorem Jump.Alike.eq {j j' : Jump} (hj : j.Alike .exact n j') : j = j' := by
  cases hj with
  | return_ hv => rw [hv.eq]
  | break_ => rfl
  | continue_ => rfl

theorem World.Alike.eq {w w' : World} (hw : w.Alike .exact w') : w = w' :=
  World.Alike.unique Likeness.exact_functional w.alike_exact hw

theorem Outcome.Alike.eq {α : Type} {c : Frame} {R : Extent → α → α → Prop}
    (hR : ∀ k a b, R k a b → a = b) {o o' : Outcome α} (ho : o.Alike .exact c n R o') : o = o' := by
  cases ho with
  | done ha hw hc hn => rw [hR _ _ _ ha, hw.eq]
  | jumped hj hw hc hn => rw [hj.eq, hw.eq]
  | failed hd hw hf hn => rw [hd.eq, hw.eq]
  | exhausted hw hn => rw [hw.eq]

/-- Computations in lockstep come to the same end in the frame that they are compared in. -/
theorem Run.Lockstep.eq_of_exact {α : Type} {R : Extent → α → α → Prop}
    (hR : ∀ k a b, R k a b → a = b) {x x' : Run α} {w : World}
    (hx : Run.Lockstep .exact w.frame w.heap.extent R x x') : x' w = x w :=
  ((hx.run w.alike_exact rfl le_rfl).eq hR).symm

end Exact

/-! ### Machines that agree in some worlds -/

/-- A machine that does what `m` does in the worlds of a kind, and anything else in other worlds. -/
structure Machine.AgreesWhere (S : World → Prop) (other m : Machine) : Prop where
  rounds : other.rounds = m.rounds
  evaluate : ∀ node e w, S w → other.evaluate node e w = m.evaluate node e w
  call : ∀ f args e w, S w → other.call f args e w = m.call f args e w
  host : ∀ key args e w, S w → other.host key args e w = m.host key args e w

/-- In a frame in which they agree they go in lockstep. -/
theorem Machine.AgreesWhere.lockstep {S : World → Prop} {other : Machine} {callbacks : Callbacks}
    {n : Nat} (h : other.AgreesWhere S (Evaluation.machineWith callbacks n))
    (hcallbacks : callbacks.Lockstep .exact) {c : Frame} (hc : ∀ w : World, w.frame = c → S w) :
    (Evaluation.machineWith callbacks n).Lockstep .exact c other := by
  have hsame := Run.Lockstep.machineWith hcallbacks n c
  have hthere : ∀ {w w' : World}, w.Alike .exact w' → w.frame = c → S w' :=
    fun hw hframe => hc _ (hw.eq ▸ hframe)
  refine ⟨h.rounds.trans hsame.rounds, fun k a b e hab => ⟨fun {w w'} hw hframe hk => ?_⟩,
    fun k f f' args args' e hf hargs => ⟨fun {w w'} hw hframe hk => ?_⟩,
    fun k key args args' e hargs => ⟨fun {w w'} hw hframe hk => ?_⟩⟩
  · rw [h.evaluate b e w' (hthere hw hframe)]
    exact (hsame.evaluate k e hab).run hw hframe hk
  · rw [h.call f' args' e w' (hthere hw hframe)]
    exact (hsame.call k e hf hargs).run hw hframe hk
  · rw [h.host key args' e w' (hthere hw hframe)]
    exact (hsame.host k key e hargs).run hw hframe hk

end ScriptEngine
