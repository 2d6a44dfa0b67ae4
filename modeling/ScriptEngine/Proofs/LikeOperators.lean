import ScriptEngine.Evaluation.Methods
import ScriptEngine.Proofs.LikeRuns

/-! # Operators and methods in lockstep

Operators and methods look at the kind of their operands, at numbers and texts, at whether two
values are the same, and at what the heap holds: alike operands get alike results, or the same
complaint. Values that were computed before something else was made are still known as they were
then. -/

namespace ScriptEngine

/-- The two machines go in lockstep in the frame `c`, whatever was made before. -/
structure Machine.Lockstep (L : Likeness) (c : Frame) (m m' : Machine) : Prop where
  rounds : m'.rounds = m.rounds
  evaluate : ∀ (n : Extent) {a b : Node} (e : ScopeRef), L.node a b →
    Run.Lockstep L c n (Value.Alike L) (m.evaluate a e) (m'.evaluate b e)
  call : ∀ (n : Extent) {f f' : Value} {args args' : List Value} (e : ScopeRef),
    f.Alike L n f' → Values.Alike L n args args' →
      Run.Lockstep L c n (Value.Alike L) (m.call f args e) (m'.call f' args' e)
  host : ∀ (n : Extent) (key : String) {args args' : List Value} (e : ScopeRef),
    Values.Alike L n args args' →
      Run.Lockstep L c n (Value.Alike L) (m.host key args e) (m'.host key args' e)

variable {L : Likeness} {n : Extent}

namespace Heap.Alike

variable {h h' : Heap}

theorem equals (hh : h.Alike L h') {a a' b b' : Value} (ha : a.Alike L h.extent a')
    (hb : b.Alike L h.extent b') :
    Operators.equals h' a' b' = Operators.equals h a b := by
  have hsame := ha.same hb
  simp only [Operators.equals, ha.number?, hb.number?, hh.display hb]
  cases ha with
  | text hs s => cases hb <;> simp only [hsame]
  | null => cases b.number? <;> simp only [hsame]
  | number hs x => cases b.number? <;> rfl
  | _ => simp only [hsame]

theorem numbers (hh : h.Alike L h') {a a' b b' : Value} (ha : a.Alike L h.extent a')
    (hb : b.Alike L h.extent b') :
    Operators.numbers h' a' b' = Operators.numbers h a b := by
  simp only [Operators.numbers, ha.number?, hb.number?, hh.display ha, hh.display hb]

theorem overload? (hh : h.Alike L h') (e : ScopeRef) (op : Arithmetic) :
    Found L h.extent (Operators.overload? h e op) (Operators.overload? h' e op) := by
  have hmember := Table.Related.get? (hh.scope e).bindings (Operators.overloadName op)
  unfold Operators.overload?
  generalize (h.scope e).bindings.get? (Operators.overloadName op) = o,
    (h'.scope e).bindings.get? (Operators.overloadName op) = o' at hmember
  cases hmember with
  | none => exact .none
  | some hv =>
    simp only [Option.filter_some, hv.isCallable]
    split
    · exact .some hv
    · exact .none

theorem isNegatable (hh : h.Alike L h') {v v' : Value} (hv : v.Alike L n v') :
    Operators.isNegatable h' v' = Operators.isNegatable h v := by
  cases hv with
  | instance_ e =>
    have hmethod := hh.overload? e .mul
    simp only [Operators.isNegatable]
    generalize Operators.overload? h e .mul = o, Operators.overload? h' e .mul = o' at hmethod
    cases hmethod <;> rfl
  | _ => rfl

theorem indexOf (hh : h.Alike L h') {v v' : Value} (hv : v.Alike L h.extent v')
    {vs vs' : List Value} (hvs : Values.Alike L h.extent vs vs') :
    Methods.indexOf h' v' vs' = Methods.indexOf h v vs :=
  forall₂_findIdx? hvs fun a a' ha => by rw [hh.equals ha hv]

end Heap.Alike

namespace Run.Lockstep

variable {c : Frame} {α : Type} {R : Extent → α → α → Prop}

/-! ### Operators -/

theorem ofFault (result : Except Fault α) :
    Lockstep L c n Identical (Operators.ofFault result) (Operators.ofFault result) := by
  cases result with
  | ok a => exact same a
  | error fault => exact raise fault

theorem illegal {v v' : Value} (hv : v.Alike L n v') :
    Lockstep L c n R (Operators.illegal v) (Operators.illegal v') :=
  display hv fun _ => raise _

theorem concatenated {a a' b b' : Value} (ha : a.Alike L n a') (hb : b.Alike L n b') :
    Lockstep L c n (Value.Alike L) (Operators.concatenated a b) (Operators.concatenated a' b') :=
  display ha fun _ => display hb fun _ => newText _

theorem numberWith (op : Arithmetic) (x : Single) {a a' b b' : Value} (ha : a.Alike L n a')
    (hb : b.Alike L n b') :
    Lockstep L c n (Value.Alike L) (Operators.numberWith op x a b)
      (Operators.numberWith op x a' b') := by
  have hillegal : Lockstep L c n (Value.Alike L) (Operators.illegal b) (Operators.illegal b') :=
    illegal hb
  have htexts := concatenated (c := c) ha hb
  cases hb with
  | null => exact (ofFault _).andThen fun _ _ _ => newNumber _
  | number hs y => exact (ofFault _).andThen fun _ _ _ => newNumber _
  | text hs s =>
    cases op with
    | add => exact htexts
    | _ => exact hillegal
  | _ => exact hillegal

theorem listWith (op : Arithmetic) (l : ListRef) {b b' : Value} (hb : b.Alike L n b') :
    Lockstep L c n (Value.Alike L) (Operators.listWith op l b)
      (Operators.listWith op (L.ref l) b') := by
  refine heap fun h h' hh hn => ?_
  have hpush : Lockstep L c h.extent (Value.Alike L) (Run.newList ((h.items l).push b))
      (Run.newList ((h'.items (L.ref l)).push b')) :=
    newList (forall₂_push (hh.items l) (hb.mono hn))
  have hillegal : Lockstep L c h.extent (Value.Alike L) (Operators.illegal b)
      (Operators.illegal b') := illegal (hb.mono hn)
  cases op with
  | add =>
    cases hb with
    | @list other _ =>
      refine heap fun g g' hg hn => newList ?_
      rw [Items.Alike, Array.toList_append, Array.toList_append]
      exact List.rel_append (Values.Alike.mono (hh.items l) hn) (hg.items other)
    | _ => exact hpush
  | mul => exact hpush
  | sub => exact hillegal
  | div => exact hillegal

variable {m m' : Machine}

theorem arithmetic (hm : m.Lockstep L c m') (op : Arithmetic) {a a' b b' : Value}
    (ha : a.Alike L n a') (hb : b.Alike L n b') :
    Lockstep L c n (Value.Alike L) (Operators.arithmetic m op a b)
      (Operators.arithmetic m' op a' b') := by
  have htexts := concatenated (c := c) ha hb
  cases ha with
  | null => exact numberWith op _ .null hb
  | number hs x => exact numberWith op x (.number hs x) hb
  | list hl => exact listWith op _ hb
  | instance_ e =>
    refine heap fun h h' hh hn => ?_
    have hmethod := hh.overload? e op
    generalize Operators.overload? h e op = o, Operators.overload? h' e op = o' at hmethod
    cases hmethod with
    | some hmethod => exact hm.call _ e hmethod (.cons (hb.mono hn) .nil)
    | none =>
      cases op with
      | add => exact htexts.mono hn
      | _ => exact illegal (hb.mono hn)
  | text | function | native | cls =>
    cases op with
    | add => exact htexts
    | _ => exact illegal hb

theorem binary (hm : m.Lockstep L c m') (op : BinaryOp) {a a' b b' : Value}
    (ha : a.Alike L n a') (hb : b.Alike L n b') :
    Lockstep L c n (Value.Alike L) (Operators.binary m op a b) (Operators.binary m' op a' b') := by
  cases op with
  | arithmetic op => exact arithmetic hm op ha hb
  | equal | notEqual =>
    refine heap fun h h' hh hn => ?_
    rw [hh.equals (ha.mono hn) (hb.mono hn)]
    exact (ofFault _).andThen fun _ _ _ => newBool _
  | less | lessEqual | greater | greaterEqual | and_ | or_ =>
    refine heap fun h h' hh hn => ?_
    rw [hh.numbers (ha.mono hn) (hb.mono hn)]
    exact (ofFault _).andThen fun _ _ _ => newBool _

theorem unary (hm : m.Lockstep L c m') (op : UnaryOp) {a a' : Value} (ha : a.Alike L n a') :
    Lockstep L c n (Value.Alike L) (Operators.unary m op a) (Operators.unary m' op a') := by
  cases op with
  | plus => exact value ha
  | negate =>
    refine heap fun h h' hh hn => ?_
    rw [hh.isNegatable ha]
    split
    · exact (newNumber _).bind fun _ hk _ _ hx => arithmetic hm .mul (ha.mono (hn.trans hk)) hx
    · exact illegal (ha.mono hn)
  | not_ => exact isTruthy ha fun _ => newBool _

/-! ### Texts -/

theorem indexArg (function : String) {v v' : Value} (hv : v.Alike L n v') :
    Lockstep L c n Identical (Methods.indexArg function v) (Methods.indexArg function v') := by
  unfold Methods.indexArg
  rw [hv.number?]
  split
  · exact same _
  · exact display hv fun _ => raise _

theorem checkedIndex (index : Int) (length : Nat) :
    Lockstep L c n Identical (Methods.checkedIndex index length)
      (Methods.checkedIndex index length) := by
  unfold Methods.checkedIndex
  split
  · exact raise _
  · exact same _

theorem textMethod (method : TextMethod) (s : String) {args args' : List Value}
    (hargs : Values.Alike L n args args') :
    Lockstep L c n (Value.Alike L) (Methods.textMethod method s args)
      (Methods.textMethod method s args') := by
  cases method with
  | chars => exact newTexts _
  | toUpperCase | toLowerCase | trim => exact newText _
  | equals | startsWith | endsWith | contains =>
    obtain _ | ⟨hv, _ | _⟩ := hargs
    · exact value .null
    · exact display hv fun _ => newBool _
    · exact value .null
  | split =>
    obtain _ | ⟨hv, _ | _⟩ := hargs
    · exact value .null
    · exact display hv fun _ => newTexts _
    · exact value .null
  | charAt =>
    obtain _ | ⟨hv, _ | _⟩ := hargs
    · exact value .null
    · exact (indexArg _ hv).andThen fun _ _ _ => (checkedIndex _ _).andThen fun _ _ _ => newText _
    · exact value .null
  | substring =>
    obtain _ | ⟨hstart, _ | ⟨hstop, _ | _⟩⟩ := hargs
    · exact value .null
    · exact value .null
    · exact (indexArg _ hstart).andThen fun _ hk _ => (indexArg _ (hstop.mono hk)).andThen
        fun _ _ _ => (ofFault _).andThen fun _ _ _ => newText _
    · exact value .null
  | replace =>
    obtain _ | ⟨hold, _ | ⟨hnew, _ | _⟩⟩ := hargs
    · exact value .null
    · exact value .null
    · exact display hold fun _ => display hnew fun _ => newText _
    · exact value .null

/-! ### Lists -/

theorem modifyList (l : ListRef) {f f' : Array Value → Array Value}
    (hf : ∀ k xs xs', n ≤ k → Items.Alike L k xs xs' → Items.Alike L k (f xs) (f' xs')) :
    Lockstep L c n Identical (Run.modifyHeap (·.modifyList l f))
      (Run.modifyHeap (·.modifyList (L.ref l) f')) := by
  refine modifyHeap (fun _ _ hh hn => hh.modifyList l fun xs xs' => hf _ xs xs' hn) fun h => ?_
  simp only [Heap.extent, Heap.modifyList, Array.size_modify]
  exact le_rfl

theorem mapItems {call call' : Value → Run Value}
    (hc : ∀ k v v', n ≤ k → Value.Alike L k v v' →
      Lockstep L c k (Value.Alike L) (call v) (call' v'))
    (l : ListRef) (rounds i : Nat) {k : Extent} (hk : n ≤ k) {results results' : Array Value}
    (hr : Items.Alike L k results results') :
    Lockstep L c k (Items.Alike L) (Methods.mapItems call l rounds i results)
      (Methods.mapItems call' (L.ref l) rounds i results') := by
  induction rounds generalizing k i results results' with
  | zero => exact exhausted
  | succ rounds ih =>
    refine heap fun h h' hh hn => ?_
    have hitem := forall₂_arrayGetElem? (hh.items l) i
    generalize (h.items l)[i]? = o, (h'.items (L.ref l))[i]? = o' at hitem
    cases hitem with
    | none => exact done fun _ hm => Items.Alike.mono hr (hn.trans hm)
    | some hv =>
      refine (hc _ _ _ (hk.trans hn) hv).bind fun m hm _ _ hresult => ?_
      exact ih _ ((hk.trans hn).trans hm) (forall₂_push (Items.Alike.mono hr (hn.trans hm)) hresult)

theorem listMethod (hm : m.Lockstep L c m') (method : ListMethod) (l : ListRef)
    {args args' : List Value} (hargs : Values.Alike L n args args') (scope : ScopeRef) :
    Lockstep L c n (Value.Alike L) (Methods.listMethod m method l args scope)
      (Methods.listMethod m' method (L.ref l) args' scope) := by
  cases method with
  | add =>
    obtain _ | ⟨hv, _ | _⟩ := hargs
    · exact value .null
    · exact (modifyList l fun _ _ _ hk hxs => forall₂_push hxs (hv.mono hk)).andThen
        fun _ hk _ => value (hv.mono hk)
    · exact value .null
  | get =>
    obtain _ | ⟨hindex, _ | _⟩ := hargs
    · exact value .null
    · refine (indexArg _ hindex).andThen fun _ _ index => heap fun h h' hh _ => ?_
      dsimp only
      rw [forall₂_size (hh.items l)]
      exact (checkedIndex _ _).andThen fun _ hk i =>
        value ((forall₂_getD (hh.items l) .null i).mono hk)
    · exact value .null
  | set =>
    obtain _ | ⟨hindex, _ | ⟨hv, _ | _⟩⟩ := hargs
    · exact value .null
    · exact value .null
    · refine (indexArg _ hindex).andThen fun _ hk index => heap fun h h' hh hn => ?_
      rw [forall₂_size (hh.items l)]
      refine (checkedIndex _ _).andThen fun _ hi i => ?_
      have hafter := (hk.trans hn).trans hi
      exact (modifyList l fun _ _ _ hx hxs =>
        forall₂_setIfInBounds hxs (hv.mono (hafter.trans hx)) i).andThen fun _ hx _ =>
          value (hv.mono (hafter.trans hx))
    · exact value .null
  | insert =>
    obtain _ | ⟨hindex, _ | ⟨hv, _ | _⟩⟩ := hargs
    · exact value .null
    · exact value .null
    · refine (indexArg _ hindex).andThen fun _ hk index => heap fun h h' hh hn => ?_
      rw [forall₂_size (hh.items l)]
      refine (checkedIndex _ _).andThen fun _ hi i => ?_
      have hafter := (hk.trans hn).trans hi
      exact (modifyList l fun _ _ _ hx hxs =>
        forall₂_insertIdxIfInBounds hxs (hv.mono (hafter.trans hx)) i).andThen fun _ hx _ =>
          value (hv.mono (hafter.trans hx))
    · exact value .null
  | remove =>
    obtain _ | ⟨hindex, _ | _⟩ := hargs
    · exact value .null
    · refine (indexArg _ hindex).andThen fun _ _ index => heap fun h h' hh _ => ?_
      dsimp only
      rw [forall₂_size (hh.items l)]
      exact (checkedIndex _ _).andThen fun _ hi i =>
        (modifyList l fun _ _ _ _ hxs => forall₂_eraseIdxIfInBounds hxs i).andThen fun _ hx _ =>
          value ((forall₂_getD (hh.items l) .null i).mono (hi.trans hx))
    · exact value .null
  | pop =>
    refine heap fun h h' hh _ => ?_
    have hlast := forall₂_back? (hh.items l)
    generalize (h.items l).back? = o, (h'.items (L.ref l)).back? = o' at hlast
    cases hlast with
    | none => exact raise _
    | some hv =>
      exact (modifyList l fun _ _ _ _ hxs => forall₂_pop hxs).andThen fun _ hx _ =>
        value (hv.mono hx)
  | join =>
    obtain _ | ⟨hv, _ | _⟩ := hargs
    · exact value .null
    · refine heap fun h h' hh hn => ?_
      rw [hh.display (hv.mono hn), hh.displayAll (hh.items l)]
      exact newText _
    · exact value .null
  | indexOf =>
    obtain _ | ⟨hv, _ | _⟩ := hargs
    · exact value .null
    · refine heap fun h h' hh hn => ?_
      rw [hh.indexOf (hv.mono hn) (hh.items l)]
      split
      · exact newNumber _
      · exact newNumber _
    · exact value .null
  | clear => exact (modifyList l fun _ _ _ _ _ => .nil).andThen fun _ _ _ => value .null
  | foreach =>
    obtain _ | ⟨hv, _ | _⟩ := hargs
    · exact value .null
    · unfold Methods.listMethod
      dsimp only
      rw [hv.isCallable, hm.rounds]
      split
      · exact (mapItems (fun k _ _ hk hitem => hm.call k scope (hv.mono hk) (.cons hitem .nil)) l _ 0
          le_rfl .nil).bind fun _ _ _ _ hresults => newList hresults
      · exact display hv fun _ => raise _
    · exact value .null
  | size =>
    refine heap fun h h' hh _ => ?_
    rw [forall₂_size (hh.items l)]
    exact newNumber _

/-! ### Files -/

theorem keepFiles (result : Except FileError FileTree) :
    Lockstep L c n Identical (Methods.keepFiles result) (Methods.keepFiles result) := by
  cases result with
  | ok files => exact Lockstep.andThen (aside (fun _ _ => rfl) fun _ => rfl) fun _ _ _ => same true
  | error _ => exact same false

theorem fileMethod (method : FileMethod) (path : String) {args args' : List Value}
    (hargs : Values.Alike L n args args') :
    Lockstep L c n (Value.Alike L) (Methods.fileMethod method path args)
      (Methods.fileMethod method path args') := by
  refine world fun w w' hw hn => ?_
  dsimp only
  rw [hw.files]
  cases method with
  | createNewFile => exact (keepFiles _).andThen fun _ _ _ => newBool _
  | mkdir | mkdirs => exact (keepFiles _).discard.andThen fun _ _ _ => value .null
  | exists_ => exact newBool _
  | readAllLines =>
    generalize w.files.readText path = result
    cases result with
    | ok text => exact newTexts _
    | error _ => exact newBool _
  | writeLines =>
    obtain _ | ⟨hv, _ | _⟩ := hargs
    · exact value .null
    · have hillegal : ∀ {v v' : Value}, v.Alike L w.heap.extent v' →
          Lockstep L c w.heap.extent (Value.Alike L)
            (do Run.raise (.illegalArgument (← Run.display v) "writeLines"))
            (do Run.raise (.illegalArgument (← Run.display v') "writeLines")) :=
        fun hv => display hv fun _ => raise _
      have hother := hillegal (hv.mono hn)
      cases hv with
      | @list l _ =>
        refine heap fun h h' hh _ => ?_
        rw [hh.displayAll (hh.items l)]
        exact (keepFiles _).andThen fun _ _ _ => newBool _
      | _ => exact hother
    · cases hv <;> exact value .null

/-! ### Members -/

theorem bound {methods methods' : List Native}
    (hmethods : List.Forall₂ (Native.Alike L n) methods methods') :
    Lockstep L c n (Entries.Alike L) (Methods.bound methods) (Methods.bound methods') := by
  refine mapAll (S := fun k (a b : String × Value) => a.1 = b.1 ∧ a.2.Alike L k b.2)
    (fun _ _ _ _ hk hab => ⟨hab.1, hab.2.mono hk⟩) (fun k a a' hk ha => ?_) hmethods
  refine (newNative (ha.mono hk)).bind fun _ _ v v' hv => done fun _ hm => ?_
  exact ⟨ha.name.symm, hv.mono hm⟩

theorem methodScope (name : String) {methods methods' : List Native}
    (hmethods : List.Forall₂ (Native.Alike L n) methods methods') :
    Lockstep L c n Identical (Methods.methodScope name methods)
      (Methods.methodScope name methods') :=
  (bound hmethods).bind fun _ _ _ _ ht =>
    newScope ((Scope.Alike.fresh name none none).defineAll ht)

theorem methodsOf {γ : Type} {f f' : γ → Native} (hf : ∀ c, (f c).Alike L n (f' c))
    (cs : List γ) : List.Forall₂ (Native.Alike L n) (cs.map f) (cs.map f') :=
  List.forall₂_map_left_iff.mpr (List.forall₂_map_right_iff.mpr (forall₂_of_refl hf cs))

theorem memberScope {v v' : Value} (hv : v.Alike L n v') :
    Lockstep L c n Identical (Methods.memberScope v) (Methods.memberScope v') := by
  have hother : Lockstep L c n Identical
      (Run.newScope (.fresh ("<" ++ v.typeName ++ ">") none none))
      (Run.newScope (.fresh ("<" ++ v'.typeName ++ ">") none none)) := by
    rw [hv.typeName]
    exact newScope (.fresh _ _ _)
  cases hv with
  | instance_ e => exact same e
  | text hs s =>
    refine (methodScope _ (methodsOf (fun method => .textMethod method s) _)).andThen
      fun _ _ e => (newNumber _).bind fun _ _ _ _ hx => ?_
    exact (define e "length" hx).andThen fun _ _ _ => same e
  | list hl => exact methodScope _ (methodsOf (fun method => .listMethod method hl) _)
  | _ => exact hother

end Run.Lockstep

end ScriptEngine
