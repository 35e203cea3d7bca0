import EvmCore.Proofs.Nesting
import Mathlib

/-!
# Failure is contained

A frame that reverts or fails leaves no trace: once it is left, the state shows what it showed at
the checkpoint that was taken for the frame, however many calls and creations it made, halted,
reverted or failed. Only the sets of warm accounts and slots may have grown. A frame that halts has
at most added logs to those that were there.

The theorem speaks about the frame that an execution is entered with and about every child that is
put on top of another frame, each relative to the state in which its own checkpoint was taken.
-/

namespace EvmCore

/-- What the outcome of a frame tells about the state `s'` in which the frame was left, if its
checkpoint was taken in the state `c`. -/
structure Contained (c : State) (o : Outcome) (s' : State) : Prop where
  view_eq : o.exit ≠ .halted → s'.view = c.view
  warmAccounts : ∀ a ∈ c.substate.warmAccounts, a ∈ s'.substate.warmAccounts
  warmSlots : ∀ slot ∈ c.substate.warmSlots, slot ∈ s'.substate.warmSlots
  forfeits : ∀ e, o.exit = .failed e → o.gasLeft = 0 ∧ o.output = .empty
  logs_prefix : o.exit = .halted → c.substate.logs.toList <+: s'.substate.logs.toList

/-- Any change at all. -/
def AnyChange (_ _ : View) : Prop := True

instance : Std.Refl AnyChange := ⟨fun _ => trivial⟩

instance : IsTrans View AnyChange := ⟨fun _ _ _ _ _ => trivial⟩

/-- Every change is some change. -/
theorem AnyChange.respected : Respected AnyChange fun _ => True where
  storeSlot _ _ := trivial
  addLog _ _ := trivial
  selfDestruct _ := trivial
  moveValue _ _ := trivial
  spendNonce _ _ := trivial
  enterCreation _ _ := trivial
  deployCode _ _ _ := trivial

/-- A frame makes some change. -/
theorem AnyChange.respects (f : Frame) (v : View) : f.Respects AnyChange v :=
  AnyChange.respected.frame (fun _ _ _ => trivial) v

/-- A layer that is reverted when a frame is left, with a report of that, shows
what it did at first. -/
theorem Grows.view_eq_of_revert {c s s₁ s' : State} (h : Grows c.opened s)
    (hrevert : State.revert s = .ok () s₁) (hquiet : Quiet s₁ s') : s'.view = c.view := by
  obtain ⟨s₂, hrevert₂, -, hview⟩ := h.revert
  cases hrevert₂.symm.trans hrevert
  rw [hquiet.view_eq, hview]

/-- A layer that is committed when a frame is left, with a report of that,
shows what it did before. -/
theorem Grows.view_eq_of_commit {c s s₁ s' : State} (h : Grows c.opened s)
    (hcommit : State.commit s = .ok () s₁) (hquiet : Quiet s₁ s') : s'.view = s.view := by
  obtain ⟨s₂, hcommit₂, -, hview⟩ := h.commit
  cases hcommit₂.symm.trans hcommit
  rw [hquiet.view_eq, hview]

/-- Leaving a frame whose layer was opened at `c` shows what is shown now, with the output deployed
if it ran init code, or what was shown at `c`. -/
theorem Leaves.view_cases {c s s' : State} {f : Frame} {o : Outcome} (h : Leaves f s o s')
    (hs : Grows c.opened s) :
    (o.exit = .halted ∧ f.message.isInit = false ∧ s'.view = s.view) ∨
    (o.exit = .halted ∧ f.message.isInit = true ∧ f.mode = .exited .halted ∧
      s'.view = s.view.update f.message.self ({ · with code := f.output })) ∨
    (o.exit ≠ .halted ∧ s'.view = c.view) := by
  cases h with
  | halted _ hinit hcommit hquiet => exact .inl ⟨rfl, hinit, hs.view_eq_of_commit hcommit hquiet⟩
  | deployed hmode hinit _ hgrows hview hcommit hquiet =>
    -- the code is deployed before the commit, so the committed state shows it already
    have hcommitted := (hs.trans hgrows).view_eq_of_commit hcommit hquiet
    exact .inr (.inl ⟨rfl, hinit, hmode, hcommitted.trans hview⟩)
  | undeployable _ _ _ hrevert hquiet =>
    exact .inr (.inr ⟨nofun, hs.view_eq_of_revert hrevert hquiet⟩)
  | reverted _ hrevert hquiet => exact .inr (.inr ⟨nofun, hs.view_eq_of_revert hrevert hquiet⟩)
  | failed _ hrevert hquiet => exact .inr (.inr ⟨nofun, hs.view_eq_of_revert hrevert hquiet⟩)

/-- **Leaving a frame contains its failure.** -/
theorem Leaves.contained {c s s' : State} {f : Frame} {o : Outcome} (h : Leaves f s o s')
    (hs : Moves AnyChange c.opened s) : Contained c o s' := by
  have hmoves : Moves AnyChange c s' := h.moves (AnyChange.respects f _) hs
  refine ⟨?_, hmoves.warmAccounts, hmoves.warmSlots, ?_, fun _ => hmoves.logs_prefix⟩
  · intro hexit
    obtain ⟨hhalted, -⟩ | ⟨hhalted, -⟩ | ⟨-, hview⟩ := h.view_cases hs.toGrows
    · exact absurd hhalted hexit
    · exact absurd hhalted hexit
    · exact hview
  · -- all gas is forfeited by a failure, also by one to deploy
    intro e he
    cases h with
    | halted => cases he
    | deployed => cases he
    | undeployable => exact ⟨rfl, rfl⟩
    | reverted => cases he
    | failed => exact ⟨rfl, rfl⟩

namespace Machine

variable {ctx : Context} {n : Nat} {m m' : Machine} {o : Outcome}

/-- Containment of the frame that an execution is entered with. -/
theorem run_contained {k : Nat} {entry : Frame} {c : State}
    (h : run ctx k { top := entry, state := c.opened } = .ok o m') : Contained c o m'.state := by
  obtain ⟨m₁, hruns, hlast⟩ := exists_runsAbove_of_run h
  -- the layers above the checkpoint are those of the frames above the entry
  have hnested := hruns.nested AnyChange.respected ⟨[], rfl, .root (Std.Refl.refl c.opened)⟩
  rcases iterate_cases hlast with ⟨ho, -⟩ | ⟨o', ho, hwaiting, hleaves⟩
  · cases ho
  · cases ho
    exact hleaves.contained (hnested.moves (congrArg List.length hwaiting))

end Machine

/-- An iteration that adds a frame opens a layer for it first. -/
theorem Iterates.opens_of_push {ctx : Context} {m m' : Machine} (h : Iterates ctx m m')
    (hpush : m'.waiting.length = m.waiting.length + 1) :
    ∃ c, m.top.Opens ctx m.state c ∧ Moves AnyChange c.opened m'.state := by
  cases h with
  -- the child brings a layer of its own
  | push hbegins =>
    obtain ⟨c, hopens, -, hmoves⟩ := hbegins.opens (AnyChange.respects _ _)
    exact ⟨c, hopens, hmoves⟩
  | step => exact absurd hpush (Nat.ne_of_lt (Nat.lt_succ_self _))
  | resume => exact absurd hpush (Nat.ne_of_lt (Nat.lt_succ_self _))
  | pop =>
    rw [List.length_cons] at hpush
    dsimp only at hpush
    omega

/-- **Failure is contained.** For the frame that an execution is entered with, whatever the frame,
the state and the number of iterations; and for every child, from the iteration that puts it on top
of its parent to the one that leaves it. -/
theorem failures_are_contained (ctx : Context) :
    (∀ (entry : Frame) (c s : State) (n : Nat) (o : Outcome) (m : Machine),
      State.checkpoint c = .ok () s → Machine.run ctx n { top := entry, state := s } = .ok o m →
      Contained c o m.state) ∧
    (∀ m m₁ : Machine, m.iterate ctx = .ok none m₁ →
      m₁.waiting.length = m.waiting.length + 1 →
      ∃ c, m.top.Opens ctx m.state c ∧
        ∀ (m₂ : Machine) (o : Outcome) (a : Activation),
          Machine.RunsAbove ctx m₁.waiting.length m₁ m₂ →
          m₂.waiting.length = m₁.waiting.length →
          Frame.leave ⟨m₂.top, m₂.state⟩ = .ok o a → Contained c o a.state) := by
  refine ⟨fun entry c s n o m hcheckpoint hrun => ?_, fun m m₁ hiterate hpush => ?_⟩
  · cases (State.checkpoint_eq c).symm.trans hcheckpoint
    exact Machine.run_contained hrun
  · rcases Machine.iterate_cases hiterate with ⟨-, hiterates⟩ | ⟨o, ho, -⟩
    · obtain ⟨c, hopens, hmoves⟩ := hiterates.opens_of_push hpush
      refine ⟨c, hopens, fun m₂ o a hruns hn hleave => ?_⟩
      -- the layer of the child is the only one above `c` when it is on top again
      have hnested := hruns.nested AnyChange.respected ⟨[], Nat.zero_add _, .root hmoves⟩
      exact (Frame.leaves_of_leave hleave).contained (hnested.moves hn)
    · cases ho

/-- An execution that writes storage and then meets an invalid instruction; and a call that moves
value to a contract whose first instruction is invalid. -/
theorem invalid_instructions_are_contained :
    let source : Source :=
      { accounts := ((∅ : Std.ExtTreeMap Address Account).insert 1 { balance := 5 }).insert 2
          { code := ⟨#[0xfe]⟩ } }
    let c := State.ofSource source
    let code := Code.ofBytes ⟨#[0x60, 1, 0x60, 0, 0x55, 0xfe]⟩
    let entry : Frame :=
      { message := { self := 1, caller := 2, codeAddress := 1, code }, gas := 30000 }
    let request : CallRequest :=
      { kind := .call, caller := 1, address := 2, codeAddress := 2, value := 3, gas := 100
        readOnly := false, transfersValue := true
        inputOffset := 0, inputSize := 0, returnOffset := 0, returnSize := 0 }
    let m : Machine := { top := { entry with mode := .awaitingCall (some request) }, state := c }
    (∃ o m', Machine.run {} 9 { top := entry, state := c.opened } = .ok o m' ∧
      o.exit = .failed .invalidOpcode ∧ Contained c o m'.state) ∧
    (∃ m₁ m₂ c' o a, m.iterate {} = .ok none m₁ ∧ m₁.waiting.length = m.waiting.length + 1 ∧
      m.top.Opens {} m.state c' ∧ Machine.RunsAbove {} m₁.waiting.length m₁ m₂ ∧
      m₂.waiting.length = m₁.waiting.length ∧ Frame.leave ⟨m₂.top, m₂.state⟩ = .ok o a ∧
      o.exit = .failed .invalidOpcode ∧ Contained c' o a.state) := by
  intro source c code entry request m
  constructor
  · have hfails : endsWith (fun o _ => decide (o.exit = .failed .invalidOpcode))
        (Machine.run {} 9 { top := entry, state := c.opened }) = true := by decide +kernel
    obtain ⟨o, m', hrun, hexit⟩ := endsWith_iff.mp hfails
    rw [decide_eq_true_eq] at hexit
    exact ⟨o, m', hrun, hexit, (failures_are_contained {}).1 entry c _ 9 o m' rfl hrun⟩
  · -- the call puts a child on top, which fails in its first step
    have hpush : endsWith
        (fun o₁ m₁ => o₁.isNone && decide (m₁.waiting.length = m.waiting.length + 1) &&
        endsWith (fun o₂ m₂ => o₂.isNone && decide (m₂.waiting.length = m₁.waiting.length) &&
          endsWith (fun o _ => decide (o.exit = .failed .invalidOpcode))
            (Frame.leave ⟨m₂.top, m₂.state⟩)) (m₁.iterate {})) (m.iterate {}) = true := by
      decide +kernel
    obtain ⟨o₁, m₁, hiterate, hpush⟩ := endsWith_iff.mp hpush
    rw [Bool.and_eq_true, Bool.and_eq_true, Option.isNone_iff_eq_none, decide_eq_true_eq] at hpush
    obtain ⟨⟨rfl, hlength⟩, hpush⟩ := hpush
    obtain ⟨o₂, m₂, hiterate₁, hpush⟩ := endsWith_iff.mp hpush
    rw [Bool.and_eq_true, Bool.and_eq_true, Option.isNone_iff_eq_none, decide_eq_true_eq] at hpush
    obtain ⟨⟨rfl, hlength₁⟩, hpush⟩ := hpush
    obtain ⟨o, a, hleave, hexit⟩ := endsWith_iff.mp hpush
    rw [decide_eq_true_eq] at hexit
    obtain ⟨c', hopens, hcontained⟩ := (failures_are_contained {}).2 m m₁ hiterate hlength
    have hruns : Machine.RunsAbove {} m₁.waiting.length m₁ m₂ := .single ⟨hiterate₁, hlength₁.ge⟩
    exact ⟨m₁, m₂, c', o, a, hiterate, hlength, hopens, hruns, hlength₁, hleave, hexit,
      hcontained m₂ o a hruns hlength₁ hleave⟩

end EvmCore
