import EvmCore.Proofs.View
import Mathlib

/-!
# Layers of work

A checkpoint opens a layer, work adds entries to it, and committing or reverting closes it. Seen
from the layer around it, what happened in between is again work within one layer: after a commit
nothing is lost (`Grows.commit`), and after a revert the state shows what it showed at the
checkpoint (`Grows.revert`).

A machine has one open layer per frame. `Layered Ψ base cs s` describes such a state: `cs` are the
states in which the open layers were opened, innermost first, and `s` and each of them came about by
work within one layer from where the layer below was opened, with `base` at the bottom. The
parameter `Ψ` is a reflexive and transitive relation on views that all of that work is known to
respect; since a revert goes back to a view that was already related to `base`, it is never lost.
-/

namespace EvmCore

/-- The state after a checkpoint. -/
def State.opened (s : State) : State := { s with journal := s.journal.checkpoint }

/-- A checkpoint never fails. -/
theorem State.checkpoint_eq (s : State) : State.checkpoint s = .ok () s.opened := rfl

/-- Opening a layer shows nothing new. -/
@[simp] theorem State.opened_view (s : State) : s.opened.view = s.view := rfl

/-- It takes nothing back either. -/
theorem State.opened_retains (s : State) : Retains s s.opened := .of_eq rfl rfl rfl rfl rfl

/-- The entries of a new layer are none, so that every balance that is recorded was so before. -/
theorem State.Solvent.opened {s : State} (h : s.Solvent) : s.opened.Solvent :=
  ⟨h.view, h.source, h.recorded⟩

/-- The journal of a state that worked within a layer opened at `c`. -/
theorem Grows.journal_of_opened {c s : State} (h : Grows c.opened s) : ∃ new : List Undo,
    s.journal = ⟨new, c.journal.current :: c.journal.outer⟩ ∧
    (∀ u ∈ new, u.Cached s.world) ∧ s.view.undoAll new = c.view := by
  obtain ⟨new, hj, hcached, hview⟩ := h.entries
  refine ⟨new, ?_, hcached, hview⟩
  rw [hj]
  -- a layer starts empty, so all of its entries are new
  change Journal.mk (new ++ []) (c.journal.current :: c.journal.outer) = _
  rw [List.append_nil]

/-- **Committing a layer** shows the same, and is work within the layer around it. -/
theorem Grows.commit {c s : State} (h : Grows c.opened s) :
    ∃ s', State.commit s = .ok () s' ∧ Grows c s' ∧ s'.view = s.view := by
  obtain ⟨new, hj, hcached, hview⟩ := h.journal_of_opened
  let merged : State := { s with journal := ⟨new ++ c.journal.current, c.journal.outer⟩ }
  have hmerged : Retains s merged := .of_eq rfl rfl rfl rfl rfl
  refine ⟨merged, ?_, ⟨?_, ⟨new, rfl, hcached, hview⟩, fun hc => ?_⟩, rfl⟩
  · -- the layer that is closed is the one that was opened at `c`
    rw [State.commit, bind_ok_iff]
    refine ⟨s, s, rfl, ?_⟩
    rw [hj]
    rfl
  · -- merging two layers touches neither the cache nor the warm sets
    exact (c.opened_retains.trans h.toRetains).trans hmerged
  · -- the entries are those of the two layers that became one
    have hs := h.solvent hc.opened
    refine ⟨hs.view, hs.source, fun u hu => hs.recorded u ?_⟩
    rw [hj]
    rwa [Journal.entries, List.append_assoc] at hu

/-- **Reverting a layer** shows what was shown when it was opened. -/
theorem Grows.revert {c s : State} (h : Grows c.opened s) :
    ∃ s', State.revert s = .ok () s' ∧ Grows c s' ∧ s'.view = c.view := by
  obtain ⟨new, hj, hcached, hview⟩ := h.journal_of_opened
  let closed : State := { s with journal := c.journal }
  -- undoing an entry records nothing, so the journal may be put back before the entries are undone
  have hshown : (new.foldl State.undo closed).view = c.view := by
    rw [closed.view_undoAll hcached]
    exact hview
  have hclosed : Retains s closed := .of_eq rfl rfl rfl rfl rfl
  have hretains : Retains c (new.foldl State.undo closed) :=
    (c.opened_retains.trans (h.toRetains.trans hclosed)).trans (closed.undoAll_retains new)
  refine ⟨new.foldl State.undo closed, ?_, ?_, hshown⟩
  · rw [State.revert, bind_ok_iff]
    refine ⟨s, s, rfl, ?_⟩
    rw [hj]
    rfl
  · exact .of_view_eq hretains (closed.undoAll_journal new) hshown

/-! ### Work that respects a relation -/

/-- Work within one layer that respects a relation on what is shown. -/
structure Moves (Ψ : View → View → Prop) (s s' : State) : Prop extends Grows s s' where
  respects : Ψ s.view s'.view

section Moves

variable {Ψ : View → View → Prop}

instance [Std.Refl Ψ] : Std.Refl (Moves Ψ) := ⟨fun s => ⟨Grows.refl s, Std.Refl.refl s.view⟩⟩

theorem Moves.trans [IsTrans View Ψ] {s₁ s₂ s₃ : State} (h : Moves Ψ s₁ s₂) (h' : Moves Ψ s₂ s₃) :
    Moves Ψ s₁ s₃ :=
  ⟨h.toGrows.trans h'.toGrows, IsTrans.trans _ _ _ h.respects h'.respects⟩

instance [IsTrans View Ψ] : IsTrans State (Moves Ψ) := ⟨fun _ _ _ h h' => h.trans h'⟩

/-- Work within one layer opens and closes none. -/
theorem Grows.depth_eq {s s' : State} (h : Grows s s') : s'.journal.depth = s.journal.depth := by
  obtain ⟨new, hj, -, -⟩ := h.entries
  rw [hj]
  rfl

/-- Work that shows the same in the end respects any reflexive relation. -/
theorem Grows.moves_of_view_eq [Std.Refl Ψ] {s s' : State} (h : Grows s s')
    (hv : s'.view = s.view) : Moves Ψ s s' :=
  ⟨h, hv ▸ Std.Refl.refl s'.view⟩

/-- So does quiet work, which never shows anything else. -/
theorem Quiet.moves [Std.Refl Ψ] {s s' : State} (h : Quiet s s') : Moves Ψ s s' :=
  h.toGrows.moves_of_view_eq h.view_eq

theorem Moves.commit {c s : State} (h : Moves Ψ c.opened s) :
    ∃ s', State.commit s = .ok () s' ∧ Moves Ψ c s' ∧ s'.view = s.view := by
  obtain ⟨s', hcommit, hgrows, hview⟩ := h.toGrows.commit
  refine ⟨s', hcommit, ⟨hgrows, ?_⟩, hview⟩
  rw [hview]
  exact h.respects

end Moves

/-! ### Nested layers -/

/-- Layers opened in the states `cs`, innermost first, above `base`. -/
inductive Layered (Ψ : View → View → Prop) (base : State) : List State → State → Prop
  | root {s : State} : Moves Ψ base s → Layered Ψ base [] s
  | layer {cs : List State} {c s : State} : Layered Ψ base cs c → Moves Ψ c.opened s →
      Layered Ψ base (c :: cs) s

namespace Layered

variable {Ψ : View → View → Prop} [IsTrans View Ψ] {base c s s' : State} {cs : List State}

/-- Work goes into the innermost layer. -/
theorem move (h : Layered Ψ base cs s) (hm : Moves Ψ s s') : Layered Ψ base cs s' := by
  cases h with
  | root h => exact .root (h.trans hm)
  | layer hc h => exact .layer hc (h.trans hm)

/-- Opening a layer after some work. -/
theorem opened (h : Layered Ψ base cs s) (hc : Moves Ψ s c) (hm : Moves Ψ c.opened s') :
    Layered Ψ base (c :: cs) s' :=
  .layer (h.move hc) hm

/-- Committing the innermost layer. -/
theorem commit (h : Layered Ψ base (c :: cs) s) :
    ∃ s', State.commit s = .ok () s' ∧ Layered Ψ base cs s' ∧ s'.view = s.view := by
  cases h with
  | layer hc h =>
    -- the layer below goes on with the work of the one that was closed
    obtain ⟨s', hcommit, hmoves, hview⟩ := h.commit
    exact ⟨s', hcommit, hc.move hmoves, hview⟩

/-- Reverting the innermost layer. -/
theorem revert [Std.Refl Ψ] (h : Layered Ψ base (c :: cs) s) :
    ∃ s', State.revert s = .ok () s' ∧ Layered Ψ base cs s' ∧ s'.view = c.view := by
  cases h with
  | layer hc h =>
    -- what is shown is again what was shown at `c`, so that nothing moved
    obtain ⟨s', hrevert, hgrows, hview⟩ := h.toGrows.revert
    exact ⟨s', hrevert, hc.move (hgrows.moves_of_view_eq hview), hview⟩

/-- Whatever the layers, what is shown now is related to what was shown at the bottom. -/
theorem respects (h : Layered Ψ base cs s) : Ψ base.view s.view := by
  -- by induction on the layers, each of which moved on from the one below
  induction h with
  | root h => exact h.respects
  | layer _ h ih => exact IsTrans.trans _ _ _ ih h.respects

omit [IsTrans View Ψ] in
/-- The layers of the journal are those that were opened. -/
theorem depth_eq (h : Layered Ψ base cs s) :
    s.journal.depth = base.journal.depth + cs.length := by
  induction h with
  | root h => exact h.depth_eq
  | @layer cs c s _ h ih =>
    rw [h.depth_eq, List.length_cons, ← Nat.add_assoc, ← ih]
    rfl

omit [IsTrans View Ψ] in
/-- No balance becomes negative, in whatever layer. -/
theorem solvent (h : Layered Ψ base cs s) (hbase : base.Solvent) : s.Solvent := by
  induction h with
  | root h => exact h.solvent hbase
  | layer _ h ih => exact h.solvent ih.opened

omit [IsTrans View Ψ] in
/-- Nothing is taken back, in whatever layer. -/
theorem retains (h : Layered Ψ base cs s) : Retains base s := by
  induction h with
  | root h => exact h.toRetains
  | layer _ h ih => exact ih.trans ((State.opened_retains _).trans h.toRetains)

end Layered

end EvmCore
