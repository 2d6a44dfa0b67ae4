import ScriptEngine.Proofs.HostSetters
import ScriptEngine.Proofs.LikeSessions
import ScriptEngine.Proofs.NumberedWorlds

/-! # Numbered sessions

Every session starts in a numbered world, and whatever a host asks for leaves it numbered: each step
goes in lockstep with itself under every renaming, in particular under the one that changes
nothing. -/

namespace ScriptEngine

theorem Renaming.silent (ρ : Renaming) : ρ.likeness.Silent :=
  ⟨fun _ => trivial, fun _ _ _ => trivial⟩

theorem Outcome.Alike.numbered {α : Type} {c : Frame} {n : Extent} {R : Extent → α → α → Prop}
    {o : Outcome α} (ho : o.Alike Renaming.identity.likeness c n R o) : o.world.Numbered := by
  cases o with
  | done a w => cases ho with | done _ hw => exact hw
  | jumped j w => cases ho with | jumped _ hw => exact hw
  | failed d w => cases ho with | failed _ hw => exact hw
  | exhausted w => cases ho with | exhausted hw => exact hw

/-- A computation that goes alongside itself leaves a numbered world numbered. -/
theorem Run.Alongside.numbered {α : Type} {R : Extent → α → α → Prop} {x : Run α}
    (hx : Alongside Renaming.identity.likeness ⟨0, 0⟩ R x x) {w : World} (hw : w.Numbered) :
    (x w).world.Numbered := by
  obtain ⟨c, hends⟩ := hx.run hw ⟨Nat.zero_le _, Nat.zero_le _⟩
  exact hends.numbered

namespace World

theorem numbered_bare (c : Config) : (bare c).Numbered := by
  have hempty : Heap.empty.Numbered :=
    ⟨fun _ => ⟨.nil, rfl⟩, rfl, fun _ => .nil, fun _ _ => rfl, rfl, rfl, le_refl _⟩
  have hglobals : Scope.Alike Renaming.identity.likeness Heap.empty.extent
      { Scope.fresh Scope.globalName none none with origin := c.source }
      { Scope.fresh Scope.globalName none none with origin := c.source } := ⟨.nil, rfl⟩
  exact ⟨hempty.newScope hglobals, .nil, .nil, ⟨[], [], .nil, rfl, rfl⟩, rfl⟩

theorem numbered_install {w : World} (hw : w.Numbered) : w.install.Numbered := by
  have hbindings : Run.Lockstep Renaming.identity.likeness w.frame ⟨0, 0⟩
      (Entries.Alike Renaming.identity.likeness) Builtins.standardBindings
      Builtins.standardBindings := .standardBindings
  have hrun := hbindings.run hw rfl ⟨Nat.zero_le _, Nat.zero_le _⟩
  unfold install
  generalize Builtins.standardBindings w = o at hrun
  cases hrun with
  | done hentries hv _ _ =>
    exact hv.withHeap (hv.heap.modifyScope _ fun _ _ hs => hs.defineAll hentries) le_rfl
  | jumped _ _ _ _ => exact hw
  | failed _ _ _ _ => exact hw
  | exhausted _ _ => exact hw

theorem numbered_initial (c : Config) : (initial c).Numbered := by
  unfold initial
  split
  · exact numbered_install (numbered_bare c)
  · exact numbered_bare c

end World

namespace Session

theorem numbered_opened {s : Session} (hs : s.world.Numbered) : s.opened.Numbered :=
  ⟨hs.heap, .nil, hs.tasks, ⟨[], [], .nil, rfl, rfl⟩, rfl⟩

/-- Whatever a host did so far, the world of its session is numbered. -/
theorem Reached.numbered {c : Config} {s : Session} (hs : Reached c s) : s.world.Numbered := by
  induction hs with
  | start => exact World.numbered_initial c
  | @step s n id step _ ih =>
    rcases world_step (Evaluation.machine n) s id step with heq | ⟨e, heq⟩
    · rw [heq]
      exact ih
    · rw [heq]
      exact (Run.Alongside.perform (Renaming.silent _) (Run.Lockstep.machine _ n) s.scopes e
        step).numbered (numbered_opened ih)

end Session

end ScriptEngine
