import Mathlib
import ScriptEngine.Proofs.FuelStable
import ScriptEngine.Proofs.LikeSessions

/-! # Positions do not matter

Trees that differ only in their positions do the same. Function values and object definitions carry
trees into the heap, into queued tasks and into the journal, so the same is meant up to the
positions inside them; a failure keeps its cause and the labels of its trace. -/

namespace ScriptEngine

/-! ### Forgetting positions -/

def Lambda.erase (f : Lambda) : Lambda :=
  { f with body := f.body.erase }

def ClassBody.erase : ClassBody → ClassBody
  | .script body => .script body.erase
  | .object => .object
  | .file => .file

def Class.erase : Class → Class
  | ⟨stamp, name, params, body, none⟩ => ⟨stamp, name, params, body.erase, none⟩
  | ⟨stamp, name, params, body, some parent⟩ =>
    ⟨stamp, name, params, body.erase, some parent.erase⟩
termination_by structural c => c

def Native.erase : Native → Native
  | .superCall parent child target => .superCall parent.erase child.erase target
  | n => n

def Value.erase : Value → Value
  | .function stamp f scope => .function stamp f.erase scope
  | .native stamp n => .native stamp n.erase
  | .cls c => .cls c.erase
  | v => v

def Jump.erase : Jump → Jump
  | .return_ v => .return_ v.erase
  | .break_ => .break_
  | .continue_ => .continue_

def Event.erase : Event → Event
  | .read name => .read name
  | .wrote e name v shown => .wrote e name v.erase shown
  | .queued v => .queued v.erase
  | .started v => .started v.erase

def Scope.erase (s : Scope) : Scope :=
  { s with bindings := s.bindings.map fun entry => (entry.1, entry.2.erase) }

def Heap.erase (h : Heap) : Heap :=
  { h with
    scopes := h.scopes.map Scope.erase
    lists := h.lists.map fun items => items.map Value.erase }

def TraceEntry.erase (entry : TraceEntry) : TraceEntry :=
  { entry with position := none }

def Diagnostic.erase (d : Diagnostic) : Diagnostic :=
  { fault := d.fault, position := none, trace := d.trace.map TraceEntry.erase }

def World.erase (w : World) : World :=
  { w with
    heap := w.heap.erase
    calls := w.calls.map TraceEntry.erase
    tasks := w.tasks.map Value.erase
    journal := w.journal.map Event.erase }

def Outcome.erase : Outcome Value → Outcome Value
  | .done v w => .done v.erase w.erase
  | .jumped j w => .jumped j.erase w.erase
  | .failed d w => .failed d.erase w.erase
  | .exhausted w => .exhausted w.erase

/-! ### Trees that are equal up to positions -/

mutual

theorem Node.label_erase : ∀ node : Node, node.erase.label = node.label
  | .number _ _ => rfl
  | .text _ _ => rfl
  | .list _ _ => rfl
  | .binary _ _ _ _ => rfl
  | .unary _ _ _ => rfl
  | .read _ _ => rfl
  | .this _ => rfl
  | .declare _ _ _ => rfl
  | .assign _ _ _ => rfl
  | .update _ _ _ _ => rfl
  | .choose _ _ => rfl
  | .count _ _ _ _ _ _ _ => rfl
  | .each _ _ _ _ _ => rfl
  | .loop _ _ _ _ => rfl
  | .function _ _ _ _ _ => rfl
  | .call _ callee _ => Node.label_erase callee
  | .sequence _ _ => rfl
  | .members _ segments => lastLabel_eraseAll segments
  | .object _ _ _ _ _ => rfl
  | .create _ _ _ => rfl
  | .return_ _ _ => rfl
  | .continue_ _ => rfl
  | .break_ _ => rfl
  | .include_ _ _ => rfl
termination_by structural node => node

theorem lastLabel_eraseAll : ∀ nodes : List Node, lastLabel (eraseAll nodes) = lastLabel nodes
  | [] => rfl
  | [node] => Node.label_erase node
  | _ :: node :: more => lastLabel_eraseAll (node :: more)
termination_by structural nodes => nodes

end

/-- The trees are equal up to positions. -/
abbrev Node.SameErasure (a b : Node) : Prop :=
  a.erase = b.erase

theorem forall₂_of_eraseAll {as bs : List Node} (h : eraseAll as = eraseAll bs) :
    List.Forall₂ Node.SameErasure as bs := by
  induction as generalizing bs with
  | nil =>
    cases bs with
    | nil => exact .nil
    | cons b bs => nomatch h
  | cons a as ih =>
    cases bs with
    | nil => nomatch h
    | cons b bs =>
      obtain ⟨hfirst, hrest⟩ := List.cons.inj h
      exact .cons hfirst (ih hrest)

theorem optionRel_of_eraseSome {a b : Option Node} (h : eraseSome a = eraseSome b) :
    Option.Rel Node.SameErasure a b := by
  cases a with
  | none =>
    cases b with
    | none => exact .none
    | some b => nomatch h
  | some a =>
    cases b with
    | none => nomatch h
    | some b => exact .some (Option.some.inj h)

theorem Arms.resembles_of_erase {a b : Arms} (h : a.erase = b.erase) :
    a.Resembles Node.SameErasure b := by
  cases a with
  | done =>
    cases b with
    | done => exact .done
    | _ => nomatch h
  | otherwise braced body =>
    cases b with
    | otherwise braced' body' =>
      obtain ⟨rfl, hbody⟩ := Arms.otherwise.inj h
      exact .otherwise braced hbody
    | _ => nomatch h
  | arm condition braced body more =>
    cases b with
    | arm condition' braced' body' more' =>
      obtain ⟨hcondition, rfl, hbody, hmore⟩ := Arms.arm.inj h
      exact .arm braced hcondition hbody (Arms.resembles_of_erase hmore)
    | _ => nomatch h
termination_by structural a

theorem Node.resembles_of_erase {a b : Node} (h : a.SameErasure b) :
    a.Resembles Node.SameErasure (fun _ _ => True) b := by
  cases a with
  | number p value =>
    cases b with
    | number q value' =>
      obtain ⟨-, rfl⟩ := Node.number.inj h
      exact .number trivial value
    | _ => nomatch h
  | text p value =>
    cases b with
    | text q value' =>
      obtain ⟨-, rfl⟩ := Node.text.inj h
      exact .text trivial value
    | _ => nomatch h
  | list p items =>
    cases b with
    | list q items' => exact .list trivial (forall₂_of_eraseAll (Node.list.inj h).2)
    | _ => nomatch h
  | binary p op left right =>
    cases b with
    | binary q op' left' right' =>
      obtain ⟨-, rfl, hleft, hright⟩ := Node.binary.inj h
      exact .binary trivial op hleft hright
    | _ => nomatch h
  | unary p op operand =>
    cases b with
    | unary q op' operand' =>
      obtain ⟨-, rfl, hoperand⟩ := Node.unary.inj h
      exact .unary trivial op hoperand
    | _ => nomatch h
  | read p name =>
    cases b with
    | read q name' =>
      obtain ⟨-, rfl⟩ := Node.read.inj h
      exact .read trivial name
    | _ => nomatch h
  | this p =>
    cases b with
    | this q => exact .this trivial
    | _ => nomatch h
  | declare p name value =>
    cases b with
    | declare q name' value' =>
      obtain ⟨-, rfl, hvalue⟩ := Node.declare.inj h
      exact .declare trivial name hvalue
    | _ => nomatch h
  | assign p name value =>
    cases b with
    | assign q name' value' =>
      obtain ⟨-, rfl, hvalue⟩ := Node.assign.inj h
      exact .assign trivial name hvalue
    | _ => nomatch h
  | update p name op value =>
    cases b with
    | update q name' op' value' =>
      obtain ⟨-, rfl, rfl, hvalue⟩ := Node.update.inj h
      exact .update trivial name op hvalue
    | _ => nomatch h
  | choose p arms =>
    cases b with
    | choose q arms' => exact .choose trivial (Arms.resembles_of_erase (Node.choose.inj h).2)
    | _ => nomatch h
  | count p name start stop step braced body =>
    cases b with
    | count q name' start' stop' step' braced' body' =>
      obtain ⟨-, rfl, hstart, hstop, hstep, rfl, hbody⟩ := Node.count.inj h
      exact .count (N := SameErasure) trivial name hstart hstop (optionRel_of_eraseSome hstep)
        braced hbody
    | _ => nomatch h
  | each p name items braced body =>
    cases b with
    | each q name' items' braced' body' =>
      obtain ⟨-, rfl, hitems, rfl, hbody⟩ := Node.each.inj h
      exact .each (N := SameErasure) trivial name hitems braced hbody
    | _ => nomatch h
  | loop p condition braced body =>
    cases b with
    | loop q condition' braced' body' =>
      obtain ⟨-, hcondition, rfl, hbody⟩ := Node.loop.inj h
      exact .loop (N := SameErasure) trivial hcondition braced hbody
    | _ => nomatch h
  | function p name params braced body =>
    cases b with
    | function q name' params' braced' body' =>
      obtain ⟨-, rfl, rfl, rfl, hbody⟩ := Node.function.inj h
      exact .function trivial name params braced hbody
    | _ => nomatch h
  | call p callee args =>
    cases b with
    | call q callee' args' =>
      obtain ⟨-, hcallee, hargs⟩ := Node.call.inj h
      exact .call trivial hcallee (forall₂_of_eraseAll hargs)
    | _ => nomatch h
  | sequence p statements =>
    cases b with
    | sequence q statements' =>
      exact .sequence trivial (forall₂_of_eraseAll (Node.sequence.inj h).2)
    | _ => nomatch h
  | members p segments =>
    cases b with
    | members q segments' => exact .members trivial (forall₂_of_eraseAll (Node.members.inj h).2)
    | _ => nomatch h
  | object p name params parent body =>
    cases b with
    | object q name' params' parent' body' =>
      obtain ⟨-, rfl, rfl, rfl, hbody⟩ := Node.object.inj h
      exact .object trivial name params parent hbody
    | _ => nomatch h
  | create p name args =>
    cases b with
    | create q name' args' =>
      obtain ⟨-, rfl, hargs⟩ := Node.create.inj h
      exact .create trivial name (forall₂_of_eraseAll hargs)
    | _ => nomatch h
  | return_ p value =>
    cases b with
    | return_ q value' =>
      exact .return_ trivial (optionRel_of_eraseSome (Node.return_.inj h).2)
    | _ => nomatch h
  | continue_ p =>
    cases b with
    | continue_ q => exact .continue_ trivial
    | _ => nomatch h
  | break_ p =>
    cases b with
    | break_ q => exact .break_ trivial
    | _ => nomatch h
  | include_ p paths =>
    cases b with
    | include_ q paths' => exact .include_ trivial (forall₂_of_eraseAll (Node.include_.inj h).2)
    | _ => nomatch h

/-- Runs that see no positions: nothing is asked of the failures of the host, and nothing is said
of a failure. -/
def Likeness.blind : Likeness where
  toRenaming := .identity
  node := Node.SameErasure
  place _ _ := True
  strict := False
  host _ := True
  failure _ _ _ := True
  node_refl _ := rfl
  place_refl _ := trivial
  node_resembles := Node.resembles_of_erase
  node_label {a b} h := by
    rw [← b.label_erase, ← h, a.label_erase]
  level := Renaming.identity_level
  failure_raised _ _ _ := trivial
  failure_host _ _ _ := trivial
  failure_orPosition _ _ := trivial
  failure_withTrace _ _ := trivial

theorem Likeness.blind_silent : Likeness.blind.Silent :=
  ⟨fun _ => trivial, fun _ _ _ => trivial⟩

theorem World.alike_blind (w : World) : w.Alike .blind w :=
  .refl ⟨rfl, id⟩ fun _ _ _ _ => trivial

/-! ### Alike runs are equal up to positions -/

section Erasure

variable {n : Extent}

theorem TraceEntry.Alike.erase {entry entry' : TraceEntry} (he : entry.Alike .blind entry') :
    entry.erase = entry'.erase := by
  cases he
  rfl

theorem Diagnostic.Alike.erase {d d' : Diagnostic} (hd : d.Alike .blind d') :
    d.erase = d'.erase := by
  obtain ⟨fault, hp, htrace⟩ := hd
  have hlabels := forall₂_map_eq htrace fun _ _ he => (TraceEntry.Alike.erase he).symm
  simp only [Diagnostic.erase, hlabels]

theorem ClassBody.Alike.erase {body body' : ClassBody} (hb : body.Alike .blind body') :
    body.erase = body'.erase := by
  cases hb with
  | script hbody => exact congrArg ClassBody.script hbody
  | object => rfl
  | file => rfl

theorem Class.Alike.erase {c c' : Class} (hc : c.Alike .blind n c') : c.erase = c'.erase := by
  induction hc with
  | base _ hbody =>
    simp only [Class.erase, hbody.erase]
    rfl
  | derived _ hbody _ ih =>
    simp only [Class.erase, hbody.erase, ih]
    rfl

theorem Native.Alike.erase {m m' : Native} (hm : m.Alike .blind n m') : m.erase = m'.erase := by
  cases hm with
  | superCall hparent hchild target => simp only [Native.erase, hparent.erase, hchild.erase]
  | _ => rfl

theorem Value.Alike.erase {v v' : Value} (hv : v.Alike .blind n v') : v.erase = v'.erase := by
  cases hv with
  | @function stamp name params braced body body' hs hbody scope =>
    have hbodies : body.erase = body'.erase := hbody
    simp only [Value.erase, Lambda.erase, hbodies]
    rfl
  | native _ hm =>
    simp only [Value.erase, hm.erase]
    rfl
  | cls hc => simp only [Value.erase, hc.erase]
  | _ => rfl

theorem Values.Alike.erase {vs vs' : List Value} (hvs : Values.Alike .blind n vs vs') :
    vs.map Value.erase = vs'.map Value.erase :=
  (forall₂_map_eq hvs fun _ _ hv => (Value.Alike.erase hv).symm).symm

theorem Jump.Alike.erase {j j' : Jump} (hj : j.Alike .blind n j') : j.erase = j'.erase := by
  cases hj with
  | return_ hv => exact congrArg Jump.return_ hv.erase
  | break_ => rfl
  | continue_ => rfl

theorem Event.Alike.erase {event event' : Event} (he : event.Alike .blind n event') :
    event.erase = event'.erase := by
  cases he with
  | read name => rfl
  | wrote e name hv shown => simp only [Event.erase, hv.erase]
  | queued hv => simp only [Event.erase, hv.erase]
  | started hv => simp only [Event.erase, hv.erase]

theorem Scope.Alike.erase {s s' : Scope} (hs : s.Alike .blind n s') : s.erase = s'.erase := by
  have hentries : s.bindings.map (fun entry => (entry.1, entry.2.erase)) =
      s'.bindings.map (fun entry => (entry.1, entry.2.erase)) :=
    (forall₂_map_eq hs.bindings fun a b hab => by
      rw [hab.1, Value.Alike.erase hab.2]).symm
  rw [hs.rest]
  simp only [Scope.erase, hentries]

theorem Heap.Alike.erase {h h' : Heap} (hh : h.Alike .blind h') : h.erase = h'.erase := by
  have hscopes : h.scopes.map Scope.erase = h'.scopes.map Scope.erase :=
    array_map_eq default hh.scopes fun i => (hh.scope ⟨i⟩).erase
  have hlists : h.lists.map (fun items => items.map Value.erase) =
      h'.lists.map (fun items => items.map Value.erase) := by
    refine array_map_eq #[] hh.lists fun i => ?_
    have hitems := Values.Alike.erase (hh.items ⟨i⟩)
    rw [← Array.toList_map, ← Array.toList_map] at hitems
    exact Array.toList_inj.mp hitems
  simp only [Heap.erase, hscopes, hlists, hh.stamps]
  rfl

theorem World.Alike.erase {w w' : World} (hw : w.Alike .blind w') : w.erase = w'.erase := by
  have hcalls : w.calls.map TraceEntry.erase = w'.calls.map TraceEntry.erase :=
    (forall₂_map_eq hw.calls fun _ _ he => (TraceEntry.Alike.erase he).symm).symm
  have hjournal : w.journal.map Event.erase = w'.journal.map Event.erase := by
    obtain ⟨new, new', hnew, hj, hj'⟩ := hw.journal
    have hevents := forall₂_map_eq hnew fun _ _ he => (Event.Alike.erase he).symm
    rw [hj, hj', List.map_append, List.map_append, hevents]
    rfl
  have hover : ∀ v : World, (w.over v).erase = { w with
      heap := v.heap.erase, calls := v.calls.map TraceEntry.erase,
      tasks := v.tasks.map Value.erase, journal := v.journal.map Event.erase } := fun _ => rfl
  rw [hw.rest, hover, ← hw.heap.erase, ← hcalls, ← Values.Alike.erase hw.tasks, ← hjournal]
  rfl

theorem Outcome.Alike.erase {c : Frame} {o o' : Outcome Value}
    (ho : o.Alike .blind c n (Value.Alike .blind) o') : o.erase = o'.erase := by
  cases ho with
  | done hv hw hc hn => simp only [Outcome.erase, hv.erase, hw.erase]
  | jumped hj hw hc hn => simp only [Outcome.erase, hj.erase, hw.erase]
  | failed hd hw hf hn => simp only [Outcome.erase, hd.erase, hw.erase]
  | exhausted hw hn => simp only [Outcome.erase, hw.erase]

/-- Computations in lockstep come to the same end, up to positions. -/
theorem Run.Lockstep.erase {x x' : Run Value} {w : World}
    (hx : Run.Lockstep .blind w.frame w.heap.extent (Value.Alike .blind) x x') :
    (x w).erase = (x' w).erase :=
  (hx.run w.alike_blind rfl le_rfl).erase

end Erasure

/-! ### Programs -/

namespace Engine

/-- A main program starts without a stop and without calls under way, whatever was before. -/
theorem evalSource_of_parse (m : Machine) {source : String} {w : World} {root : Node}
    (hp : parseProgram source w.source = .ok root) :
    evalSource m source w = unlessStopped .null
      (Evaluation.runProgram m root w.globals >>= fun value => runTasks m m.rounds >>= fun _ =>
        pure value) { w with stopped := false, calls := [] } := by
  have hstart : ∀ v : World, evalSource m source v = unlessStopped .null
      (Evaluation.runSource m source v.globals v.source >>= fun value =>
        runTasks m m.rounds >>= fun _ => pure value)
      { v with stopped := false, calls := [] } := fun _ => rfl
  have hparsed : ∀ e,
      Evaluation.runSource m source e w.source = Evaluation.runProgram m root e := by
    intro e
    simp only [Evaluation.runSource, hp]
    rfl
  rw [hstart, hparsed]

end Engine

theorem Outcome.erase_eq_exhausted {o : Outcome Value} {w : World} (h : o.erase = .exhausted w) :
    ∃ w', o = .exhausted w' := by
  cases o with
  | exhausted w' => exact ⟨w', rfl⟩
  | _ => nomatch h

namespace Evaluation

/-- The computation ends with the outcome by itself: with enough fuel, and with any more fuel. -/
def Ends (x : Machine → Run Value) (w : World) (o : Outcome Value) : Prop :=
  (∀ w', o ≠ .exhausted w') ∧ ∃ fuel, ∀ n, fuel ≤ n → x (machine n) w = o

/-- However much fuel there is, the computation is cut off. -/
def Diverges (x : Machine → Run Value) (w : World) : Prop :=
  ∀ n, ∃ w', x (machine n) w = .exhausted w'

/-- With the same fuel both computations get equally far, up to positions: both end in the same way,
or neither ends. -/
structure SameUpToPositions (x y : Machine → Run Value) (w : World) : Prop where
  stepwise : ∀ n, (x (machine n) w).erase = (y (machine n) w).erase
  ends : (∃ o o', Ends x w o ∧ Ends y w o' ∧ o.erase = o'.erase) ∨ (Diverges x w ∧ Diverges y w)

theorem ends_of_not_exhausted {x : Machine → Run Value} {w : World} {n : Nat}
    (hx : ∀ {m m' : Machine}, m.Approximates m' → (x m).Approximates (x m'))
    (h : ∀ w', x (machine n) w ≠ .exhausted w') : Ends x w (x (machine n) w) := by
  refine ⟨h, n, fun n' hle => ?_⟩
  rcases hx (machine_approximates hle) w with ⟨w', hcut⟩ | heq
  · exact absurd hcut (h w')
  · exact heq

theorem SameUpToPositions.of_stepwise {x y : Machine → Run Value} {w : World}
    (hx : ∀ {m m' : Machine}, m.Approximates m' → (x m).Approximates (x m'))
    (hy : ∀ {m m' : Machine}, m.Approximates m' → (y m).Approximates (y m'))
    (h : ∀ n, (x (machine n) w).erase = (y (machine n) w).erase) : SameUpToPositions x y w := by
  refine ⟨h, ?_⟩
  by_cases hends : ∃ n, ∀ w', x (machine n) w ≠ .exhausted w'
  · obtain ⟨n, hn⟩ := hends
    have hn' : ∀ w', y (machine n) w ≠ .exhausted w' := by
      intro w' hcut
      have herased := h n
      rw [hcut] at herased
      obtain ⟨w'', hcut'⟩ := Outcome.erase_eq_exhausted herased
      exact hn w'' hcut'
    exact .inl ⟨_, _, ends_of_not_exhausted hx hn, ends_of_not_exhausted hy hn', h n⟩
  · have hcut : Diverges x w := fun n => by
      by_contra hno
      exact hends ⟨n, fun w' hw' => hno ⟨w', hw'⟩⟩
    refine .inr ⟨hcut, fun n => ?_⟩
    obtain ⟨w', hw'⟩ := hcut n
    have herased := h n
    rw [hw'] at herased
    exact Outcome.erase_eq_exhausted herased.symm

end Evaluation

open Evaluation

/-- Two trees that are equal up to positions, evaluated as a node, run as a program or as the root
of a main source with its tasks, do the same from the same world. -/
theorem positions_never_matter {a b : Node} (h : a.erase = b.erase) (w : World) :
    (∀ e, SameUpToPositions (·.evaluate a e) (·.evaluate b e) w) ∧
    (∀ e, SameUpToPositions (runProgram · a e) (runProgram · b e) w) ∧
    (∀ source source', parseProgram source w.source = .ok a →
      parseProgram source' w.source = .ok b →
      SameUpToPositions (Engine.evalSource · source) (Engine.evalSource · source') w) := by
  have hm : ∀ n c, (machine n).Lockstep .blind c (machine n) := Run.Lockstep.machine .blind
  refine ⟨fun e => ?_, fun e => ?_, fun source source' ha hb => ?_⟩
  · refine .of_stepwise (fun hm => hm.evaluate a e) (fun hm => hm.evaluate b e) fun n => ?_
    exact ((hm n w.frame).evaluate w.heap.extent e h).erase
  · refine .of_stepwise (fun hm => .runProgram hm a e) (fun hm => .runProgram hm b e) fun n => ?_
    exact (Run.Lockstep.runProgram (hm n w.frame) h e).erase
  · refine .of_stepwise (fun hm => Engine.evalSource_approximates hm source)
      (fun hm => Engine.evalSource_approximates hm source') fun n => ?_
    rw [Engine.evalSource_of_parse _ ha, Engine.evalSource_of_parse _ hb]
    have hruns : Run.Alongside .blind w.heap.extent (Value.Alike .blind) _ _ :=
      .unlessStopped (fun _ => .null) (Run.Lockstep.alongside fun c =>
        .thenTasks Likeness.blind_silent (hm n c) (.runProgram (hm n c) h w.globals))
    obtain ⟨c, hends⟩ :=
      hruns.run (World.alike_blind { w with stopped := false, calls := [] }) le_rfl
    exact hends.erase

/-- Where the body of a function stands. -/
def Value.bodyPosition? : Value → Option Position
  | .function _ f _ => some f.body.pos
  | _ => none

/-- The tree of a task that calls itself off a blank line further down: where its body stands is
found in the heap, and it makes no difference to the run. -/
theorem positions_never_matter_task :
    let s := "function f(): f\nasync(f)"
    let s' := "\nfunction f(): f\nasync(f)"
    let w := World.initial {}
    let body := fun o : Outcome Value =>
      ((o.world.heap.scope w.globals).bindings.get? "f").bind Value.bodyPosition?
    (∃ a b, parseProgram s w.source = .ok a ∧ parseProgram s' w.source = .ok b ∧
      a.erase = b.erase) ∧
    SameUpToPositions (Engine.evalSource · s) (Engine.evalSource · s') w ∧
    body (Engine.evalSource (machine 9) s w) = some ⟨1, 14, 1, none⟩ ∧
    body (Engine.evalSource (machine 9) s' w) = some ⟨2, 15, 1, none⟩ := by
  intro s s' w body
  have hsource : w.source = none := by decide +kernel
  have hs : parseProgram s none = .ok (.sequence ⟨1, 0, 8, none⟩
      [.function ⟨1, 0, 8, none⟩ (some "f") [] false (.read ⟨1, 14, 1, none⟩ "f"),
        .call ⟨2, 16, 5, none⟩ (.read ⟨2, 16, 5, none⟩ "async") [.read ⟨2, 22, 1, none⟩ "f"]]) := by
    cbv
  have hs' : parseProgram s' none = .ok (.sequence ⟨2, 1, 8, none⟩
      [.function ⟨2, 1, 8, none⟩ (some "f") [] false (.read ⟨2, 15, 1, none⟩ "f"),
        .call ⟨3, 17, 5, none⟩ (.read ⟨3, 17, 5, none⟩ "async") [.read ⟨3, 23, 1, none⟩ "f"]]) := by
    cbv
  obtain ⟨a, b, ha, hb, hsame⟩ : ∃ a b, parseProgram s w.source = .ok a ∧
      parseProgram s' w.source = .ok b ∧ a.erase = b.erase := by
    rw [hsource]
    exact ⟨_, _, hs, hs', rfl⟩
  refine ⟨⟨a, b, ha, hb, hsame⟩, (positions_never_matter hsame w).2.2 s s' ha hb, ?_, ?_⟩
  · decide +kernel
  · decide +kernel

end ScriptEngine
