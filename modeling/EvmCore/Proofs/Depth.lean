import EvmCore.Proofs.Budget
import EvmCore.Proofs.Containment
import Mathlib

/-!
# Frames and layers in step

A machine keeps two stacks: its frames, and the layers of the journal. They grow and shrink
together. Above the depth at which an execution was entered there is one layer for each frame that
waits, the frame of number `i` has a call depth `i` larger than the entry frame has, and none lies
deeper than `depthLimit`.

`Stacked k fs` says the part about depths, with the frames innermost first. It is kept by every
iteration (`Iterates.stacked`) because the call depth of a child is fixed when it is started, where
too deep a call comes to nothing (`Begins.child_depth`). The layers are those of `Machine.Nested`.
What leaving a frame does to the journal is said by `Journal.Closes`: the innermost layer is merged
with the one around it or is taken off, and the rest stays.
-/

namespace EvmCore

/-! ### Closing a layer -/

/-- The journal `j'` is `j` with its innermost layer closed, as the outcome demands: what
halted adds its entries to the layer around it, after what leaving the frame recorded,
and all else just loses them. -/
structure Journal.Closes (j : Journal Undo) (o : Outcome) (j' : Journal Undo) : Prop where
  committed : o.exit = .halted → ∃ new layer, j.outer = layer :: j'.outer ∧
    j'.current = new ++ j.current ++ layer
  reverted : o.exit ≠ .halted → j.outer = j'.current :: j'.outer

/-- Closing a layer lowers the depth by one. -/
theorem Journal.Closes.depth {j j' : Journal Undo} {o : Outcome} (h : j.Closes o j') :
    j'.depth + 1 = j.depth := by
  by_cases hexit : o.exit = .halted
  · obtain ⟨new, layer, houter, -⟩ := h.committed hexit
    exact (congrArg List.length houter).symm
  · exact (congrArg List.length (h.reverted hexit)).symm

namespace State

variable {s s' : State} {u : Unit}

/-- Committing merges the innermost layer with the one around it. -/
theorem commit_journal (h : commit s = .ok u s') :
    ∃ layer, s.journal.outer = layer :: s'.journal.outer ∧
      s'.journal.current = s.journal.current ++ layer := by
  rw [commit, get_bind, Journal.commit?] at h
  cases houter : s.journal.outer with
  | nil =>
    rw [houter] at h
    cases h
  | cons layer rest =>
    rw [houter] at h
    cases h
    exact ⟨layer, rfl, rfl⟩

/-- Reverting takes the innermost layer off. -/
theorem revert_journal (h : revert s = .ok u s') :
    s.journal.outer = s'.journal.current :: s'.journal.outer := by
  rw [revert, get_bind, Journal.revert?] at h
  cases houter : s.journal.outer with
  | nil =>
    rw [houter] at h
    cases h
  | cons layer rest =>
    rw [houter] at h
    cases h
    rw [undoAll_journal]

/-- A report leaves the journal alone. -/
theorem emit_journal {e : Event} (h : emit e s = .ok u s') : s'.journal = s.journal := by
  obtain rfl := modify_ok_iff.mp h
  rfl

end State

namespace Frame

variable {f : Frame} {s : State} {a : Activation} {o : Outcome}

/-- Once it is known whether the output can be deployed, nothing more is recorded. -/
theorem close_journal (h : f.close ⟨f, s⟩ = .ok o a) : s.journal.Closes o a.state.journal := by
  cases hmode : f.mode with
  | exited exit =>
    rw [close, hmode] at h
    cases exit with
    -- what was recorded in the frame goes to the layer around it
    | halted =>
      obtain ⟨_, s₁, hcommit, h⟩ := liftState_bind_ok h
      obtain ⟨_, s₂, hemit, h⟩ := liftState_bind_ok h
      obtain ⟨layer, houter, hcurrent⟩ := State.commit_journal hcommit
      have hjournal : a.state.journal = s₁.journal := by
        rw [← State.emit_journal hemit]
        split at h
        · rw [← (pure_ok_iff.mp h).2]
        · rw [← (pure_ok_iff.mp h).2]
      have hhalted : o.exit = .halted := by
        split at h
        · rw [← (pure_ok_iff.mp h).1]
        · rw [← (pure_ok_iff.mp h).1]
      refine ⟨fun _ => ⟨[], layer, ?_, ?_⟩, fun hexit => absurd hhalted hexit⟩
      · rw [hjournal, houter]
      · rw [hjournal, hcurrent, List.nil_append]
    -- what was recorded is gone, whether the frame reverted or failed
    | reverted =>
      obtain ⟨_, s₁, hrevert, h⟩ := liftState_bind_ok h
      obtain ⟨_, s₂, hemit, h⟩ := liftState_bind_ok h
      obtain ⟨rfl, rfl⟩ := pure_ok_iff.mp h
      refine ⟨fun hexit => ?_, fun _ => ?_⟩
      · cases hexit
      · rw [State.emit_journal hemit, State.revert_journal hrevert]
    | failed e =>
      obtain ⟨_, s₁, hrevert, h⟩ := liftState_bind_ok h
      obtain ⟨_, s₂, hemit, h⟩ := liftState_bind_ok h
      obtain ⟨_, a₃, hmodify, h⟩ := bind_ok_iff.mp h
      obtain rfl := modify_ok_iff.mp hmodify
      obtain ⟨rfl, rfl⟩ := pure_ok_iff.mp h
      refine ⟨fun hexit => ?_, fun _ => ?_⟩
      · cases hexit
      · rw [State.emit_journal hemit, State.revert_journal hrevert]
  | _ =>
    refine absurd h (close_active fun exit hexit => ?_)
    rw [hmode] at hexit
    cases hexit

/-- **Leaving a frame closes the innermost layer**, and no other. -/
theorem leave_journal (h : leave ⟨f, s⟩ = .ok o a) : s.journal.Closes o a.state.journal := by
  by_cases hdeploys : f.message.isInit = true ∧ f.mode = .exited .halted
  · rw [leave_of_deploys hdeploys.1 hdeploys.2] at h
    obtain ⟨_, a₁, hdeploy, h⟩ := bind_ok_iff.mp h
    rw [get_bind] at h
    obtain ⟨e, -, rfl⟩ | ⟨-, s₀, hgrows, -, rfl⟩ := deploy_ok hdeploy
    · exact close_journal h
    · -- the code is recorded in the layer that is then closed
      obtain ⟨new, hjournal, -, -⟩ := hgrows.entries
      have hcloses := close_journal h
      rw [hjournal] at hcloses
      refine ⟨fun hexit => ?_, hcloses.reverted⟩
      obtain ⟨new', layer, houter, hcurrent⟩ := hcloses.committed hexit
      refine ⟨new' ++ new, layer, houter, ?_⟩
      rw [hcurrent]
      simp only [List.append_assoc]
  · rw [leave_of_not_deploys hdeploys] at h
    exact close_journal h

end Frame

/-! ### The depths of the frames -/

/-- A frame waits for what became of something that it requested. -/
def Frame.Waits (f : Frame) : Prop :=
  (∃ r, f.mode = .awaitingCall (some r)) ∨ ∃ r, f.mode = .awaitingCreate (some r)

/-- A frame that waits does not run. -/
theorem Frame.Waits.ne_running {f : Frame} (h : f.Waits) : f.mode ≠ .running := by
  intro hmode
  obtain ⟨r, hr⟩ | ⟨r, hr⟩ := h
  · cases hmode.symm.trans hr
  · cases hmode.symm.trans hr

/-- It has not ended either. -/
theorem Frame.Waits.active {f : Frame} (h : f.Waits) : f.Active := by
  intro exit hmode
  obtain ⟨r, hr⟩ | ⟨r, hr⟩ := h
  · cases hmode.symm.trans hr
  · cases hmode.symm.trans hr

/-- The frames of a machine, outermost first. -/
def Machine.frames (m : Machine) : List Frame := (m.top :: m.waiting).reverse

/-- The call depths of frames, innermost first: the outermost has `k`, each other one more than the
frame below it, and none is too deep. -/
def Stacked (k : Int) : List Frame → Prop
  | [] => True
  | f :: fs => f.message.depth = k + fs.length ∧ f.message.depth ≤ depthLimit ∧ Stacked k fs

/-- The same by number, counted from the outermost frame. -/
theorem Stacked.depth_of_getElem? {k : Int} {fs : List Frame} (h : Stacked k fs) {i : Nat}
    {f : Frame} (hf : fs.reverse[i]? = some f) :
    f.message.depth = k + i ∧ f.message.depth ≤ depthLimit := by
  -- by induction on the frames, from the one on top
  induction fs with
  | nil => cases hf
  | cons g fs ih =>
    obtain ⟨hdepth, hlimit, hfs⟩ := h
    rw [List.reverse_cons, List.getElem?_append, List.length_reverse] at hf
    split at hf
    · exact ih hfs hf
    · -- the last in this order is the one on top
      next hi =>
      rw [List.getElem?_singleton] at hf
      split at hf
      · next hzero =>
        cases hf
        rw [hdepth]
        exact ⟨by omega, hdepth ▸ hlimit⟩
      · cases hf

/-- Only the messages of the frames matter. -/
theorem Stacked.congr {k : Int} {f f' : Frame} {fs : List Frame} (h : Stacked k (f :: fs))
    (hmessage : f'.message = f.message) : Stacked k (f' :: fs) := by
  rw [Stacked, hmessage]
  exact h

section Depths

variable {ctx : Context} {f f' child : Frame} {s s' : State}

/-- A call that is admitted is not too deep. -/
theorem Call.depth_le_of_preamble {c : Call} (h : c.preamble ctx s = .ok none s') :
    c.depth ≤ depthLimit := by
  rw [preamble] at h
  split at h
  · obtain ⟨_, s₁, -, h⟩ := bind_ok_iff.mp h
    cases h
  · next hdepth => exact not_lt.mp hdepth

/-- A creation that is admitted is not too deep. -/
theorem Creation.depth_le_of_preamble {c : Creation} (h : c.preamble s = .ok none s') :
    c.depth ≤ depthLimit := by
  rw [preamble] at h
  split at h
  · cases h
  · next hdepth => exact not_lt.mp hdepth

/-- **A child lies one deeper than its parent**, and not too deep. -/
theorem Begins.child_depth (h : Begins ctx f s f' (.frame child) s') :
    child.message.depth = f.message.depth + 1 ∧ child.message.depth ≤ depthLimit := by
  cases h with
  | call _ hstarts =>
    cases hstarts with
    | frame hpreamble _ _ _ => exact ⟨rfl, Call.depth_le_of_preamble hpreamble⟩
  | create _ _ _ hstarts =>
    cases hstarts with
    | frame hpreamble _ _ _ _ => exact ⟨rfl, Creation.depth_le_of_preamble hpreamble⟩

/-- A frame that began something waits for it. -/
theorem Begins.waits {start : Start} (h : Begins ctx f s f' start s') : f'.Waits := by
  cases h with
  | call hmode _ => exact .inl ⟨_, hmode⟩
  | create hmode _ _ _ => exact .inr ⟨_, hmode⟩

variable {k : Int} {m m' : Machine}

/-- An iteration keeps the depths. -/
theorem Iterates.stacked (h : Iterates ctx m m') (hm : Stacked k (m.top :: m.waiting)) :
    Stacked k (m'.top :: m'.waiting) := by
  cases h with
  | step _ hsteps => exact hm.congr hsteps.message
  | push hbegins =>
    obtain ⟨hdepth, hlimit⟩ := hbegins.child_depth
    have hparent := hm.1
    refine ⟨?_, hlimit, hm.congr hbegins.message⟩
    calc _ = _ + 1 := hdepth
      _ = k + _ + 1 := congrArg (· + 1) hparent
      _ = _ := by rw [List.length_cons, Nat.cast_succ, add_assoc]
  | resume hbegins hresumes => exact hm.congr (hresumes.message.trans hbegins.message)
  | pop _ hresumes => exact hm.2.2.congr hresumes.message

/-- An iteration keeps the frames below the top one waiting. -/
theorem Iterates.waits (h : Iterates ctx m m') (hm : ∀ f ∈ m.waiting, f.Waits) :
    ∀ f ∈ m'.waiting, f.Waits := by
  cases h with
  | step => exact hm
  | push hbegins => exact List.forall_mem_cons.mpr ⟨hbegins.waits, hm⟩
  | resume => exact hm
  | pop => exact fun f hf => hm f (List.mem_cons_of_mem _ hf)

/-- An iteration with a frame on top that runs is a step of it. -/
theorem Iterates.steps_of_running (h : Iterates ctx m m') (hmode : m.top.mode = .running) :
    Steps ctx m.top m.state m'.top m'.state ∧ m'.waiting = m.waiting := by
  cases h with
  | step _ hsteps => exact ⟨hsteps, rfl⟩
  | push hbegins => exact absurd (hbegins.mode_eq.trans hmode) hbegins.waits.ne_running
  | resume hbegins => exact absurd (hbegins.mode_eq.trans hmode) hbegins.waits.ne_running
  | pop hleaves =>
    obtain ⟨exit, hexit⟩ := hleaves.mode
    cases hmode.symm.trans hexit

namespace Machine

variable {n : Nat} {entry : Frame}

/-- **The depths**, in a run. -/
theorem RunsAbove.stacked (h : RunsAbove ctx n m m') (hm : Stacked k (m.top :: m.waiting)) :
    Stacked k (m'.top :: m'.waiting) := by
  induction h with
  | refl => exact hm
  | tail _ hiterate ih => exact (iterates_of_iterate hiterate.1).stacked ih

/-- All frames below the top one wait, in a run. -/
theorem RunsAbove.waits (h : RunsAbove ctx n m m') (hm : ∀ f ∈ m.waiting, f.Waits) :
    ∀ f ∈ m'.waiting, f.Waits := by
  induction h with
  | refl => exact hm
  | tail _ hiterate ih => exact (iterates_of_iterate hiterate.1).waits ih

/-- One layer was opened for each frame that waits. -/
theorem RunsAbove.journal_depth (h : RunsAbove ctx 0 (start entry s) m) :
    m.state.journal.depth = s.journal.depth + m.waiting.length := by
  -- any relation would do here, as only the layers matter
  obtain ⟨cs, hlength, hlayered⟩ :=
    h.nested AnyChange.respected (Nested.refl (start entry s))
  rw [hlayered.depth_eq, ← hlength, Nat.add_zero]
  rfl

end Machine

/-- Work within one layer leaves the layers around it alone. -/
theorem Grows.outer_eq (h : Grows s s') : s'.journal.outer = s.journal.outer := by
  obtain ⟨new, hjournal, -, -⟩ := h.entries
  rw [hjournal]

end Depths

namespace Machine

variable {ctx : Context} {entry : Frame} {s : State} {m m' m₁ m₂ : Machine} {o : Outcome}

/-- The iteration that ends an execution leaves the only frame. -/
theorem leave_of_iterate (h : iterate ctx m = .ok (some o) m') :
    m.waiting = [] ∧ Frame.leave ⟨m.top, m.state⟩ = .ok o ⟨m'.top, m'.state⟩ := by
  obtain ⟨hwaiting, hleaves⟩ := leaves_of_iterate h
  obtain ⟨exit, hmode⟩ := hleaves.mode
  refine ⟨hwaiting, ?_⟩
  -- `Leaves` forgets the computation that left the frame, so it is read off again
  rw [iterate, get_bind] at h
  simp only [hmode] at h
  obtain ⟨o', m₁, htop, h⟩ := bind_ok_iff.mp h
  obtain ⟨f', s', hleave, rfl⟩ := withTop_ok_iff.mp htop
  rw [get_bind] at h
  simp only [hwaiting] at h
  cases h
  exact hleave

/-- Nothing but the layer of a frame was opened or closed around it when it is on top again. -/
theorem RunsAbove.outer_eq {base : State} (h : RunsAbove ctx m₁.waiting.length m₁ m₂)
    (hbase : Moves AnyChange base m₁.state) (hlength : m₂.waiting.length = m₁.waiting.length) :
    m₂.state.journal.outer = base.journal.outer :=
  ((h.nested AnyChange.respected ⟨[], Nat.zero_add _, .root hbase⟩).moves hlength).outer_eq

end Machine

/-- **Frames and layers stay in step.** Between any two iterations of an execution that is entered
with at least one layer open: the journal has one layer for each frame, above those that were open
before; the depths of the frames, outermost first, count up from that of the entry frame and stay
within the limit; and all frames but the top one wait for something that they requested. Leaving the
entry frame closes the layer that was innermost when the execution was entered, and leaving a child
closes the layer that was opened when the child was started. -/
theorem frames_and_layers_in_step {ctx : Context} {entry : Frame} {s : State}
    (hdepth : entry.message.depth ≤ depthLimit) (hlayer : 1 ≤ s.journal.depth) :
    (∀ m, Machine.RunsAbove ctx 0 (.start entry s) m →
      m.state.journal.depth = s.journal.depth + m.frames.length - 1 ∧
      m.frames.length ≤ m.state.journal.depth ∧
      (∀ (i : Nat) (f : Frame), m.frames[i]? = some f →
        f.message.depth = entry.message.depth + i ∧ f.message.depth ≤ depthLimit) ∧
      (∀ f ∈ m.waiting, f.Waits) ∧
      (∀ o m', m.iterate ctx = .ok (some o) m' →
        m'.state.journal.depth = s.journal.depth - 1 ∧
        m.state.journal.outer = s.journal.outer ∧ m.state.journal.Closes o m'.state.journal) ∧
      (∀ m₁, m.iterate ctx = .ok none m₁ → m₁.waiting.length = m.waiting.length + 1 →
        ∃ c, m.top.Opens ctx m.state c ∧
          ∀ m₂, Machine.RunsAbove ctx m₁.waiting.length m₁ m₂ →
            m₂.waiting.length = m₁.waiting.length →
            m₂.state.journal.outer = c.journal.checkpoint.outer ∧
            ∀ o a, Frame.leave ⟨m₂.top, m₂.state⟩ = .ok o a →
              m₂.state.journal.Closes o a.state.journal)) ∧
    (∀ o m', execute ctx entry s = .ok o m' → m'.state.journal.depth = s.journal.depth - 1) := by
  -- when the entry frame is left, the layer that it was entered in is innermost again
  have hlast {m m' : Machine} {o : Outcome} (hruns : Machine.RunsAbove ctx 0 (.start entry s) m)
      (hiterate : m.iterate ctx = .ok (some o) m') :
      m'.state.journal.depth = s.journal.depth - 1 ∧
        m.state.journal.outer = s.journal.outer ∧ m.state.journal.Closes o m'.state.journal := by
    obtain ⟨hwaiting, hleave⟩ := Machine.leave_of_iterate hiterate
    have hcloses := Frame.leave_journal hleave
    have hentry : Machine.RunsAbove ctx (Machine.start entry s).waiting.length
        (.start entry s) m := hruns
    have houter := hentry.outer_eq (Std.Refl.refl s) (congrArg List.length hwaiting)
    have hdepth : m.state.journal.depth = s.journal.depth := congrArg List.length houter
    exact ⟨Nat.eq_sub_of_add_eq (hcloses.depth.trans hdepth), houter, hcloses⟩
  refine ⟨fun m hruns => ?_, fun o m' hexecute => ?_⟩
  · -- one layer and one unit of depth for each frame, by the three invariants
    have hjournal := hruns.journal_depth
    have hframes : m.frames.length = m.waiting.length + 1 := List.length_reverse
    have hstacked : Stacked entry.message.depth (m.top :: m.waiting) :=
      hruns.stacked ⟨(add_zero _).symm, hdepth, trivial⟩
    refine ⟨by omega, by omega, fun i f hf => hstacked.depth_of_getElem? hf,
      hruns.waits (fun f hf => by cases hf), fun o m' hiterate => hlast hruns hiterate,
      fun m₁ hiterate hpush => ?_⟩
    -- the layer of a child is the innermost one again whenever the child is on top
    obtain ⟨c, hopens, hmoves⟩ := (Machine.iterates_of_iterate hiterate).opens_of_push hpush
    exact ⟨c, hopens, fun m₂ hruns₂ hlength =>
      ⟨hruns₂.outer_eq hmoves hlength, fun o a hleave => Frame.leave_journal hleave⟩⟩
  · -- the last iteration leaves the entry frame
    obtain ⟨m, hruns, hiterate⟩ := Machine.exists_runsAbove_of_run hexecute
    exact (hlast hruns hiterate).1

/-- A frame at depth 1023 makes the deepest call there can be. -/
theorem deepest_call_in_step :
    let source : Source :=
      { accounts := (∅ : Std.ExtTreeMap Address Account).insert 2 { code := ⟨#[0xfe]⟩ } }
    let s := (State.ofSource source).opened
    let request : CallRequest :=
      { kind := .call, caller := 1, address := 2, codeAddress := 2, value := 0, gas := 100
        readOnly := false, transfersValue := true
        inputOffset := 0, inputSize := 0, returnOffset := 0, returnSize := 0 }
    let entry : Frame :=
      { message :=
          { self := 1, caller := 2, codeAddress := 1, code := .ofBytes .empty, depth := 1023 }
        gas := 30000, mode := .awaitingCall (some request) }
    entry.message.depth ≤ depthLimit ∧ 1 ≤ s.journal.depth ∧
    ∃ m, Machine.RunsAbove {} 0 (.start entry s) m ∧ m.frames.length = 2 ∧
      m.state.journal.depth = 2 ∧
      (∀ (i : Nat) (f : Frame), m.frames[i]? = some f →
        f.message.depth = 1023 + i ∧ f.message.depth ≤ depthLimit) ∧
      (∀ f ∈ m.waiting, f.Waits) ∧
      ∃ o m', execute {} entry s = .ok o m' ∧ m'.state.journal.depth = 0 := by
  intro source s request entry
  have hdepth : entry.message.depth ≤ depthLimit := by decide
  have hlayer : 1 ≤ s.journal.depth := by decide
  obtain ⟨hstep, hend⟩ := @frames_and_layers_in_step {} entry s hdepth hlayer
  have hpush : endsWith (fun o m => o.isNone && decide (m.frames.length = 2))
      ((Machine.start entry s).iterate {}) = true := by decide +kernel
  obtain ⟨o₁, m, hiterate, hpush⟩ := endsWith_iff.mp hpush
  rw [Bool.and_eq_true, Option.isNone_iff_eq_none, decide_eq_true_eq] at hpush
  obtain ⟨rfl, hframes⟩ := hpush
  have hruns : Machine.RunsAbove {} 0 (.start entry s) m := .single ⟨hiterate, Nat.zero_le _⟩
  obtain ⟨hjournal, -, hdepths, hwaits, -⟩ := hstep m hruns
  have hends : endsWith (fun _ _ => true) (execute {} entry s) = true := by decide +kernel
  obtain ⟨o, m', hexecute, -⟩ := endsWith_iff.mp hends
  refine ⟨hdepth, hlayer, m, hruns, hframes, ?_, hdepths, hwaits, o, m', hexecute, ?_⟩
  · rw [hjournal, hframes]
    rfl
  · rw [hend o m' hexecute]
    rfl

end EvmCore
