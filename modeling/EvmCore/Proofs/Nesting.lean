import EvmCore.Proofs.Iteration
import EvmCore.Proofs.Layer
import Mathlib

/-!
# The open layers of a machine

The journal of a machine has one open layer for each frame on its stack. `Machine.Nested Ψ base n m`
says so of the frames above the lowest `n` that wait: from `base` on, a layer was opened for each of
them, and all the work in between respects `Ψ`. An iteration that does not go below these `n` frames
keeps it (`Iterates.nested`), and so does a run of them (`Machine.RunsAbove.nested`). When the frame
right above them is on top, no layer but its own is open, and what leaving it does is known
(`Leaves.moves`). Where something is known of each frame with what is shown in its layer, a run
keeps it as well (`Tiered`, `Iterates.tiered`).

What the frame on top does next to what is shown is limited: an instruction writes (`Frame.Writes`),
a call moves value, a creation spends a nonce and starts a contract, init code that halts deploys
its output. `Frame.Respects Ψ f v` says that all of these, done by `f` to what is shown as `v`, are
related by `Ψ`, and an iteration asks no more than that of the frame on top. A relation that every
frame respects, whatever is shown, is `Respected`. Words that are written to storage come from the
stack, so that may rest on what is known of words there.
-/

namespace EvmCore

/-- A change that one instruction of the frame `f` makes to what is shown. -/
inductive Frame.Writes (f : Frame) (v : View) : View → Prop
  | storeSlot {key value : Word} {v' : View} : value ∈ f.stack →
      View.storeSlot f.message.self key value v = .ok () v' → Frame.Writes f v v'
  | addLog (log : Log) : Frame.Writes f v (v.addLog log)
  | selfDestruct {beneficiary : Address} {v' : View} :
      View.selfDestruct f.message.self beneficiary v = .ok () v' → Frame.Writes f v v'

/-- What a frame can write is settled by its message and its stack. -/
theorem Frame.Writes.congr {f f₁ : Frame} {v v' : View} (h : f₁.Writes v v')
    (hmessage : f₁.message = f.message) (hstack : f₁.stack = f.stack) : f.Writes v v' := by
  cases h with
  | storeSlot hvalue hstored => exact .storeSlot (hstack ▸ hvalue) (hmessage ▸ hstored)
  | addLog log => exact .addLog log
  | selfDestruct hdestructed => exact .selfDestruct (hmessage ▸ hdestructed)

/-- What a call does to what is shown as `v` before code of it runs respects `Ψ`. -/
def Call.Respects (Ψ : View → View → Prop) (c : Call) (v : View) : Prop :=
  ∀ ⦃v' : View⦄, ¬c.UnfundedOn v → c.moveOnView v = .ok () v' → Ψ v v'

/-- What a creation does to what is shown as `v` before init code runs respects `Ψ`. -/
structure Creation.Respects (Ψ : View → View → Prop) (c : Creation) (v : View) : Prop where
  spendNonce : Ψ v (c.spendNonce v)
  enter : ∀ ⦃v' : View⦄, c.value ≤ (v.get c.creator).balance → ¬TakenOn c.address (c.spendNonce v) →
    c.enterOnView (c.spendNonce v) = .ok () v' → Ψ (c.spendNonce v) v'

/-- What the frame `f` does next to what is shown as `v` respects `Ψ`. -/
structure Frame.Respects (Ψ : View → View → Prop) (f : Frame) (v : View) : Prop where
  write : ∀ ⦃v' : View⦄, f.mode = .running → f.message.readOnly = false → f.Writes v v' → Ψ v v'
  call : ∀ {r : CallRequest}, f.mode = .awaitingCall (some r) → (r.toCall f).Respects Ψ v
  create : ∀ {r : CreateRequest} (address : Address), f.mode = .awaitingCreate (some r) →
    (r.toCreation f address).Respects Ψ v
  deploy : f.mode = .exited .halted → f.message.isInit = true →
    deployFailure? f.output f.gas = none →
    Ψ v (v.update f.message.self ({ · with code := f.output }))

/-- What respects a relation respects every weaker one. -/
theorem Frame.Respects.mono {Ψ Φ : View → View → Prop} {f : Frame} {v : View} (h : f.Respects Ψ v)
    (hΨ : ∀ {v v' : View}, Ψ v v' → Φ v v') : f.Respects Φ v where
  write _ hmode hwritable hwrites := hΨ (h.write hmode hwritable hwrites)
  call hmode _ hfunded hmoved := hΨ (h.call hmode hfunded hmoved)
  create address hmode :=
    ⟨hΨ (h.create address hmode).spendNonce,
      fun _ hfunded hfree hentered => hΨ ((h.create address hmode).enter hfunded hfree hentered)⟩
  deploy hmode hinit hdeployable := hΨ (h.deploy hmode hinit hdeployable)

/-- A relation that holds between what is shown before and after every change that a machine makes,
as long as the words on the stack are `ok`. -/
structure Respected (Ψ : View → View → Prop) (ok : Word → Prop) : Prop where
  storeSlot : ∀ {a : Address} {key value : Word} {v v' : View}, ok value →
    View.storeSlot a key value v = .ok () v' → Ψ v v'
  addLog : ∀ (v : View) (log : Log), Ψ v (v.addLog log)
  selfDestruct : ∀ {self beneficiary : Address} {v v' : View},
    View.selfDestruct self beneficiary v = .ok () v' → Ψ v v'
  moveValue : ∀ {c : Call} {v v' : View}, ¬c.UnfundedOn v → c.moveOnView v = .ok () v' → Ψ v v'
  spendNonce : ∀ (c : Creation) (v : View), Ψ v (c.spendNonce v)
  enterCreation : ∀ {c : Creation} {v v' : View}, c.value ≤ (v.get c.creator).balance →
    c.enterOnView v = .ok () v' → Ψ v v'
  deployCode : ∀ (v : View) (a : Address) (code : ByteArray), Ψ v (v.update a ({ · with code }))

/-- Spending a nonce leaves every balance alone. -/
theorem Creation.spendNonce_balance (c : Creation) (v : View) (a : Address) :
    ((c.spendNonce v).get a).balance = (v.get a).balance := by
  rw [spendNonce, View.get_update]
  split
  · next h => rw [h]
  · rfl

namespace Respected

variable {Ψ Φ : View → View → Prop} {ok : Word → Prop}

/-- A relation is respected if a stronger one is. -/
theorem mono (h : Respected Ψ ok) (hΨ : ∀ {v v' : View}, Ψ v v' → Φ v v') : Respected Φ ok where
  storeSlot hvalue hstored := hΨ (h.storeSlot hvalue hstored)
  addLog v log := hΨ (h.addLog v log)
  selfDestruct hdestructed := hΨ (h.selfDestruct hdestructed)
  moveValue hfunded hmoved := hΨ (h.moveValue hfunded hmoved)
  spendNonce c v := hΨ (h.spendNonce c v)
  enterCreation hfunded hentered := hΨ (h.enterCreation hfunded hentered)
  deployCode v a code := hΨ (h.deployCode v a code)

/-- A call respects what every change of the machine respects. -/
theorem call (hΨ : Respected Ψ ok) (c : Call) (v : View) : c.Respects Ψ v :=
  fun _ hfunded hmoved => hΨ.moveValue hfunded hmoved

/-- So does a creation, which needs the value before and after the nonce is spent. -/
theorem creation (hΨ : Respected Ψ ok) (c : Creation) (v : View) : c.Respects Ψ v where
  spendNonce := hΨ.spendNonce c v
  -- the balance is looked up after the nonce was spent, which does not change it
  enter _ hfunded _ hentered := hΨ.enterCreation (c.spendNonce_balance v _ ▸ hfunded) hentered

/-- So does a frame, if the words on its stack may be stored. -/
theorem frame (hΨ : Respected Ψ ok) {f : Frame} (hstack : f.mode = .running → ∀ w ∈ f.stack, ok w)
    (v : View) : f.Respects Ψ v where
  write := by
    intro v' hmode _ hwrites
    -- one case for each way to write, of which only storage rests on the words of the stack
    cases hwrites with
    | storeSlot hvalue hstored => exact hΨ.storeSlot (hstack hmode _ hvalue) hstored
    | addLog log => exact hΨ.addLog v log
    | selfDestruct hdestructed => exact hΨ.selfDestruct hdestructed
  call _ := hΨ.call _ v
  create _ _ := hΨ.creation _ v
  deploy _ _ _ := hΨ.deployCode v _ _

end Respected

section Moves

variable {Ψ : View → View → Prop} [Std.Refl Ψ] [IsTrans View Ψ] {ctx : Context} {f f' : Frame}
  {s s' : State}

/-- An instruction only looks, or is one of the three that write. -/
theorem Executes.quiet_or_writes {forwarded : Int} {op : Opcode} {operation : Operation}
    (hop : op.operation? = some operation) (h : Executes ctx forwarded op f s f' s') :
    Quiet s s' ∨ operation.writes = true ∧ Grows s s' ∧ f.Writes s.view s'.view := by
  cases h with
  | storageStore hf hgrows hview =>
    cases hop
    refine .inr ⟨rfl, hgrows, .storeSlot ?_ hview⟩
    -- the value that is stored is the second word of the stack
    rw [hf]
    exact List.mem_cons_of_mem _ List.mem_cons_self
  | log _ _ _ hgrows hview =>
    cases hop
    refine .inr ⟨rfl, hgrows, ?_⟩
    rw [hview]
    exact .addLog _
  | selfDestruct _ hgrows hview =>
    cases hop
    exact .inr ⟨rfl, hgrows, .selfDestruct hview⟩
  | account _ hquiet => exact .inl hquiet
  | selfBalance hquiet => exact .inl hquiet
  | accountCodeCopy _ hquiet _ => exact .inl hquiet
  | storageLoad _ hquiet => exact .inl hquiet
  -- all other instructions leave the state as it is
  | _ => exact .inl (Std.Refl.refl s)

/-- A step only looks, or writes what a frame that may write can. -/
theorem Steps.quiet_or_writes (h : Steps ctx f s f' s') :
    Quiet s s' ∨ f.message.readOnly = false ∧ Grows s s' ∧ f.Writes s.view s'.view := by
  cases h with
  | unprepared e hunprepared => exact .inl hunprepared.quiet
  | failed e hprepared huntouched =>
    obtain rfl : s' = _ := huntouched.state
    exact .inl hprepared.quiet
  | executed hprepared hexecutes =>
    rcases hexecutes.quiet_or_writes hprepared.isAt.operation? with hquiet | ⟨hop, hgrows, hwrites⟩
    · exact .inl (IsTrans.trans _ _ _ hprepared.quiet hquiet)
    · refine .inr ⟨?_, hprepared.quiet.toGrows.trans hgrows, ?_⟩
      · -- in a frame that must not write, the instruction would not have been allowed
        refine Bool.eq_false_iff.mpr fun hreadOnly => ?_
        rw [(hprepared.allowed hreadOnly).1] at hop
        cases hop
      · -- preparing an instruction changes neither the message nor the stack
        rw [hprepared.quiet.view_eq] at hwrites
        exact hwrites.congr hprepared.message hprepared.stack

omit [IsTrans View Ψ] in
/-- A step is work within one layer. -/
theorem Steps.moves (h : Steps ctx f s f' s') (hmode : f.mode = .running)
    (hf : f.Respects Ψ s.view) : Moves Ψ s s' := by
  rcases h.quiet_or_writes with hquiet | ⟨hwritable, hgrows, hwrites⟩
  · exact hquiet.moves
  · exact ⟨hgrows, hf.write hmode hwritable hwrites⟩

omit [Std.Refl Ψ] [IsTrans View Ψ] in
/-- Entering a call is work within the layer that was opened for it. -/
theorem Call.Enters.moves {c : Call} {s₀ s₁ : State} (h : c.Enters s₀ s₁)
    (hc : c.Respects Ψ s₀.view) : Moves Ψ s₀.opened s₁ :=
  ⟨h.grows, hc h.funded h.moved⟩

/-- A call that comes to nothing is work within one layer, also where one was opened and closed. -/
theorem Call.Starts.moves {c : Call} {o : Outcome} (h : Call.Starts ctx c s (.done o) s')
    (hc : c.Respects Ψ s.view) : Moves Ψ s s' := by
  cases h with
  | tooDeep hquiet _ => exact hquiet.moves
  | unfunded hquiet _ => exact hquiet.moves
  | void hquiet _ _ => exact hquiet.moves
  | exhausted hquiet henters _ _ _ hrevert =>
    -- the layer was opened and reverted, so nothing is left of it to respect
    obtain ⟨s₂, hrevert₂, hgrows, hview⟩ := henters.grows.revert
    cases hrevert₂.symm.trans hrevert
    exact hquiet.moves.trans (hgrows.moves_of_view_eq hview)
  | precompiled hquiet henters _ _ _ hcommit =>
    rw [← hquiet.view_eq] at hc
    obtain ⟨s₂, hcommit₂, hmoves, -⟩ := (henters.moves hc).commit
    cases hcommit₂.symm.trans hcommit
    exact hquiet.moves.trans hmoves
  | codeless hquiet henters _ hcommit =>
    rw [← hquiet.view_eq] at hc
    obtain ⟨s₂, hcommit₂, hmoves, -⟩ := (henters.moves hc).commit
    cases hcommit₂.symm.trans hcommit
    exact hquiet.moves.trans hmoves

omit [IsTrans View Ψ] in
/-- A creation that comes to nothing has spent a nonce at most. -/
theorem Creation.Starts.moves {c : Creation} {o : Outcome} (h : Creation.Starts c s (.done o) s')
    (hc : c.Respects Ψ s.view) : Moves Ψ s s' := by
  cases h with
  | tooDeep _ => exact Std.Refl.refl s
  | unfunded hquiet _ => exact hquiet.moves
  | nonceAtMaximum hquiet _ => exact hquiet.moves
  | collided _ hgrows hview _ => exact ⟨hgrows, hview ▸ hc.spendNonce⟩

/-- So is whatever a frame requests, if it comes to nothing. -/
theorem Begins.moves_of_done {o : Outcome} (h : Begins ctx f s f' (.done o) s')
    (hf : f.Respects Ψ s.view) : Moves Ψ s s' := by
  cases h with
  | call hmode hstarts => exact hstarts.moves (hf.call hmode)
  | create hmode _ hquiet hstarts =>
    -- to find the address of a contract is quiet, so the request is about what was shown before
    rw [← hquiet.view_eq] at hf
    exact hquiet.moves.trans (hstarts.moves (hf.create _ hmode))

end Moves

/-! ### Where the layer of a child is opened -/

/-- What the frame `f` requests takes its checkpoint in the state `c`. -/
inductive Frame.Opens (ctx : Context) (f : Frame) (s : State) : State → Prop
  | call {r : CallRequest} {c : State} : f.mode = .awaitingCall (some r) →
      (r.toCall f).preamble ctx s = .ok none c → Frame.Opens ctx f s c
  | create {r : CreateRequest} {address : Address} {s₀ c : State} :
      f.mode = .awaitingCreate (some r) →
      createAddress f.message.self r (f.memory.read r.inputOffset r.inputSize) s = .ok address s₀ →
      (r.toCreation f address).preamble s₀ = .ok none c → Frame.Opens ctx f s c

section Opens

variable {Ψ : View → View → Prop} [Std.Refl Ψ] [IsTrans View Ψ] {ctx : Context} {f f' child : Frame}
  {s s' : State}

omit [IsTrans View Ψ] in
/-- A call that starts a frame has only looked before its layer is opened. -/
theorem Call.Starts.opens {c : Call} (h : Call.Starts ctx c s (.frame child) s')
    (hc : c.Respects Ψ s.view) :
    ∃ s₀, c.preamble ctx s = .ok none s₀ ∧ Moves Ψ s s₀ ∧ Moves Ψ s₀.opened s' := by
  cases h with
  | frame hpreamble hquiet henters _ =>
    rw [← hquiet.view_eq] at hc
    exact ⟨_, hpreamble, hquiet.moves, henters.moves hc⟩

omit [Std.Refl Ψ] [IsTrans View Ψ] in
/-- A creation that starts a frame has spent the nonce before its layer is opened. -/
theorem Creation.Starts.opens {c : Creation} (h : Creation.Starts c s (.frame child) s')
    (hc : c.Respects Ψ s.view) :
    ∃ s₀, c.preamble s = .ok none s₀ ∧ Moves Ψ s s₀ ∧ Moves Ψ s₀.opened s' := by
  cases h with
  | @frame s₀ _ hpreamble hfunded hgrows hview henters =>
    obtain ⟨hfree, hentergrows, hentered⟩ := henters
    rw [hview] at hfree hentered
    -- the nonce is spent before the layer is opened
    refine ⟨s₀, hpreamble, ⟨hgrows, hview ▸ hc.spendNonce⟩, ⟨hentergrows, ?_⟩⟩
    rw [State.opened_view, hview]
    exact hc.enter hfunded hfree hentered

/-- A child runs in a layer of its own, opened after some work in that of its parent. -/
theorem Begins.opens (h : Begins ctx f s f' (.frame child) s') (hf : f.Respects Ψ s.view) :
    ∃ c, f.Opens ctx s c ∧ Moves Ψ s c ∧ Moves Ψ c.opened s' := by
  cases h with
  | call hmode hstarts =>
    obtain ⟨c, hpreamble, hbefore, hafter⟩ := hstarts.opens (hf.call hmode)
    exact ⟨c, .call hmode hpreamble, hbefore, hafter⟩
  | create hmode haddress hquiet hstarts =>
    -- the checkpoint is taken after the address was found
    rw [← hquiet.view_eq] at hf
    obtain ⟨c, hpreamble, hbefore, hafter⟩ := hstarts.opens (hf.create _ hmode)
    exact ⟨c, .create hmode haddress hpreamble, hquiet.moves.trans hbefore, hafter⟩

end Opens

/-! ### One open layer per frame -/

section Nested

variable {Ψ : View → View → Prop} [Std.Refl Ψ] [IsTrans View Ψ] {ctx : Context}

/-- Leaving a frame closes its layer. -/
theorem Leaves.layered {base c s s' : State} {cs : List State} {f : Frame} {o : Outcome}
    (h : Leaves f s o s') (hf : f.Respects Ψ s.view) (hs : Layered Ψ base (c :: cs) s) :
    Layered Ψ base cs s' := by
  -- a commit and a revert are deterministic, so their results are those that the layers predict
  have hcommitted {s₀ s₁ : State} (hs₀ : Layered Ψ base (c :: cs) s₀)
      (hcommit : State.commit s₀ = .ok () s₁) (hquiet : Quiet s₁ s') : Layered Ψ base cs s' := by
    obtain ⟨s₂, hcommit₂, hlayered, -⟩ := hs₀.commit
    cases hcommit₂.symm.trans hcommit
    exact hlayered.move hquiet.moves
  have hreverted {s₁ : State} (hrevert : State.revert s = .ok () s₁) (hquiet : Quiet s₁ s') :
      Layered Ψ base cs s' := by
    obtain ⟨s₂, hrevert₂, hlayered, -⟩ := hs.revert
    cases hrevert₂.symm.trans hrevert
    exact hlayered.move hquiet.moves
  cases h with
  | halted _ _ hcommit hquiet => exact hcommitted hs hcommit hquiet
  | deployed hmode hinit hdeployable hgrows hview hcommit hquiet =>
    -- Deploying the code is a change within the layer, made before it is committed.
    exact hcommitted (hs.move ⟨hgrows, hview ▸ hf.deploy hmode hinit hdeployable⟩) hcommit hquiet
  | undeployable _ _ _ hrevert hquiet => exact hreverted hrevert hquiet
  | reverted _ hrevert hquiet => exact hreverted hrevert hquiet
  | failed _ hrevert hquiet => exact hreverted hrevert hquiet

/-- Leaving a frame whose layer was opened at `c` is work within the layer around it. -/
theorem Leaves.moves {c s s' : State} {f : Frame} {o : Outcome} (h : Leaves f s o s')
    (hf : f.Respects Ψ s.view) (hs : Moves Ψ c.opened s) : Moves Ψ c s' := by
  -- the layer is the only one above `c`, and none is left after it is closed
  have hlayered := h.layered hf (.layer (.root (Std.Refl.refl c)) hs)
  cases hlayered with
  | root hmoves => exact hmoves

namespace Machine

/-- Above `base` there is one open layer for each frame that waits but the lowest `n`, and all work
respects `Ψ`. -/
def Nested (Ψ : View → View → Prop) (base : State) (n : Nat) (m : Machine) : Prop :=
  ∃ cs, cs.length + n = m.waiting.length ∧ Layered Ψ base cs m.state

/-- Iterations that leave the lowest `n` frames that wait where they are. -/
def RunsAbove (ctx : Context) (n : Nat) : Machine → Machine → Prop :=
  Relation.ReflTransGen fun m m' => iterate ctx m = .ok none m' ∧ n ≤ m'.waiting.length

omit [IsTrans View Ψ] in
theorem Nested.refl (m : Machine) : m.Nested Ψ m.state m.waiting.length :=
  ⟨[], Nat.zero_add _, .root (Std.Refl.refl _)⟩

omit [Std.Refl Ψ] [IsTrans View Ψ] in
/-- When the frame right above the lowest `n` is on top, all layers above `base` are closed. -/
theorem Nested.moves {base : State} {n : Nat} {m : Machine} (h : m.Nested Ψ base n)
    (hn : m.waiting.length = n) : Moves Ψ base m.state := by
  obtain ⟨cs, hlength, hlayered⟩ := h
  -- there is a layer for each frame above the lowest `n`, and there is no such frame
  have hcs : cs = [] := List.length_eq_zero_iff.mp (by omega)
  subst hcs
  cases hlayered with
  | root hmoves => exact hmoves

end Machine

/-- **Layers follow frames**, in an iteration. -/
theorem Iterates.nested {base : State} {n : Nat} {m m' : Machine} (h : Iterates ctx m m')
    (hnested : m.Nested Ψ base n) (hn : n ≤ m'.waiting.length)
    (htop : m.top.Respects Ψ m.state.view) : m'.Nested Ψ base n := by
  obtain ⟨cs, hlength, hlayered⟩ := hnested
  cases h with
  | step hmode hsteps => exact ⟨cs, hlength, hlayered.move (hsteps.moves hmode htop)⟩
  | push hbegins =>
    obtain ⟨c, -, hbefore, hafter⟩ := hbegins.opens htop
    -- the layer of the child is the innermost one
    refine ⟨c :: cs, ?_, hlayered.opened hbefore hafter⟩
    rw [List.length_cons, List.length_cons, ← hlength]
    omega
  | resume hbegins _ => exact ⟨cs, hlength, hlayered.move (hbegins.moves_of_done htop)⟩
  | pop hleaves _ =>
    dsimp only at hn
    rw [List.length_cons] at hlength
    -- some layer above `base` is that of the frame that is left
    cases cs with
    | nil =>
      rw [List.length_nil] at hlength
      omega
    | cons c cs =>
      rw [List.length_cons] at hlength
      refine ⟨cs, ?_, hleaves.layered htop hlayered⟩
      dsimp only
      omega

namespace Machine

variable {n : Nat} {m m' : Machine} {o : Outcome}

/-- Layers follow frames, in a run. -/
theorem RunsAbove.nested {base : State} (hΨ : Respected Ψ fun _ => True) (h : RunsAbove ctx n m m')
    (hnested : m.Nested Ψ base n) : m'.Nested Ψ base n := by
  -- by induction on the run, with one iteration at its end
  induction h with
  | refl => exact hnested
  | tail _ hiterate ih =>
    obtain ⟨hiterate, hn⟩ := hiterate
    exact (iterates_of_iterate hiterate).nested ih hn (hΨ.frame (fun _ _ _ => trivial) _)

/-- A run that ends is some iterations followed by one that leaves the last frame. -/
theorem exists_runsAbove_of_run {k : Nat} (h : run ctx k m = .ok o m') :
    ∃ m₁, RunsAbove ctx 0 m m₁ ∧ iterate ctx m₁ = .ok (some o) m' := by
  -- by induction on the number of iterations, the first of which is taken off the front
  induction k generalizing m with
  | zero => cases h
  | succ k ih =>
    rw [run] at h
    cases hiterate : iterate ctx m with
    | error e m₁ =>
      rw [hiterate] at h
      cases h
    | ok o? m₁ =>
      rw [hiterate] at h
      cases o? with
      | some o₁ =>
        cases h
        exact ⟨m, .refl, hiterate⟩
      | none =>
        obtain ⟨m₂, hruns, hlast⟩ := ih h
        exact ⟨m₂, .head ⟨hiterate, Nat.zero_le _⟩ hruns, hlast⟩

end Machine

end Nested

/-! ### Frames in their layers -/

/-- Each of the frames, innermost first, runs in a layer of its own, all the work from `base` on
respects `Ψ`, and `P` holds of each frame with what is shown in its layer. -/
inductive Tiered (Ψ : View → View → Prop) (P : Frame → View → Prop) (base : State) :
    List Frame → State → Prop
  | nil {s : State} : Moves Ψ base s → Tiered Ψ P base [] s
  | cons {f : Frame} {fs : List Frame} {c s : State} : Tiered Ψ P base fs c → P f s.view →
      Moves Ψ c.opened s → Tiered Ψ P base (f :: fs) s

/-- A property of a frame and of what is shown to it that rests on its message,
and that work cannot break. -/
structure Frame.Lasting (Ψ : View → View → Prop) (P : Frame → View → Prop) : Prop where
  view : ∀ {f : Frame} {v v' : View}, Ψ v v' → P f v → P f v'
  message : ∀ {f f' : Frame} {v : View}, f'.message = f.message → P f v → P f' v

section Tiered

variable {Ψ : View → View → Prop} [IsTrans View Ψ] {P : Frame → View → Prop} {ctx : Context}
  {base s s' : State} {f f' : Frame} {fs : List Frame}

/-- All the work from `base` on respects `Ψ`, through all the layers. -/
theorem Tiered.respects (h : Tiered Ψ P base fs s) : Ψ base.view s.view := by
  induction h with
  | nil hmoves => exact hmoves.respects
  | cons _ _ hmoves ih => exact IsTrans.trans _ _ _ ih hmoves.respects

omit [IsTrans View Ψ] in
/-- What is known of the frame on top. -/
theorem Tiered.top (h : Tiered Ψ P base (f :: fs) s) : P f s.view := by
  cases h with
  | cons _ htop _ => exact htop

/-- Work of the frame on top keeps every frame in its layer. -/
theorem Tiered.move (h : Tiered Ψ P base fs s) (hP : Frame.Lasting Ψ P) (hmoves : Moves Ψ s s') :
    Tiered Ψ P base fs s' := by
  cases h with
  | nil hbefore => exact .nil (hbefore.trans hmoves)
  | cons hfs htop hbefore => exact .cons hfs (hP.view hmoves.respects htop) (hbefore.trans hmoves)

omit [IsTrans View Ψ] in
theorem Tiered.congr (h : Tiered Ψ P base (f :: fs) s) (hP : Frame.Lasting Ψ P)
    (hmessage : f'.message = f.message) : Tiered Ψ P base (f' :: fs) s := by
  cases h with
  | cons hfs htop hmoves => exact .cons hfs (hP.message hmessage htop) hmoves

variable [Std.Refl Ψ]

/-- A frame that is left was in the innermost layer, and those below stay in theirs. -/
theorem Leaves.tiered {o : Outcome} (h : Leaves f s o s') (hP : Frame.Lasting Ψ P)
    (hf : f.Respects Ψ s.view) (hs : Tiered Ψ P base (f :: fs) s) : Tiered Ψ P base fs s' := by
  cases hs with
  -- the work of the frame becomes work of its parent, or is undone
  | cons hfs _ hmoves => exact hfs.move hP (h.moves hf hmoves)

/-- **Frames stay in their layers**, in an iteration, if `P` holds of each child that is started. -/
theorem Iterates.tiered {m m' : Machine} (h : Iterates ctx m m') (hP : Frame.Lasting Ψ P)
    (htop : m.top.Respects Ψ m.state.view)
    (hchild : ∀ {f' child : Frame} {s' : State}, Begins ctx m.top m.state f' (.frame child) s' →
      P m.top s'.view → P child s'.view)
    (hm : Tiered Ψ P base (m.top :: m.waiting) m.state) :
    Tiered Ψ P base (m'.top :: m'.waiting) m'.state := by
  cases h with
  -- a step works in the layer of the frame, and does not change its message
  | step hmode hsteps => exact (hm.move hP (hsteps.moves hmode htop)).congr hP hsteps.message
  | push hbegins =>
    obtain ⟨c, -, hbefore, hafter⟩ := hbegins.opens htop
    -- what was known of the parent still holds where the layer of the child is opened
    have hparent := hm.move hP hbefore
    refine .cons (hparent.congr hP hbegins.message) ?_ hafter
    exact hchild hbegins (hP.view hafter.respects hparent.top)
  | resume hbegins hresumes =>
    exact (hm.move hP (hbegins.moves_of_done htop)).congr hP
      (hresumes.message.trans hbegins.message)
  | pop hleaves hresumes => exact (hleaves.tiered hP htop hm).congr hP hresumes.message

end Tiered

/-! ### Properties of single frames -/

section FrameWise

variable {ctx : Context} {P Q : Frame → Prop} {n : Nat} {m m' : Machine}

/-- Properties that frames do not lose: `P` while a frame is on top, and `Q` while it waits. -/
structure Frame.Persistent (ctx : Context) (P Q : Frame → Prop) : Prop where
  steps : ∀ {f f' : Frame} {s s' : State}, f.mode = .running → Steps ctx f s f' s' → P f → P f'
  begins : ∀ {f f' : Frame} {start : Start} {s s' : State}, Begins ctx f s f' start s' → P f → Q f'
  child : ∀ {f f' child : Frame} {s s' : State}, Begins ctx f s f' (.frame child) s' → P f → P child
  resumes : ∀ {f f' : Frame} {o : Outcome}, Resumes f o f' → Q f → P f'

/-- `P` holds of the frame on top and `Q` of those that wait, but for the lowest `n` of them. -/
def Machine.AllAbove (P Q : Frame → Prop) (n : Nat) (m : Machine) : Prop :=
  ∃ inner outer, m.waiting = inner ++ outer ∧ outer.length = n ∧ P m.top ∧ ∀ f ∈ inner, Q f

/-- The frames above the lowest `n` that wait, the top frame first. -/
def Machine.framesAbove (n : Nat) (m : Machine) : List Frame :=
  m.top :: m.waiting.take (m.waiting.length - n)

/-- What both properties imply holds of all the frames above. -/
theorem Machine.AllAbove.forall_framesAbove {R : Frame → Prop} (h : m.AllAbove P Q n)
    (hP : ∀ f, P f → R f) (hQ : ∀ f, Q f → R f) : ∀ f ∈ m.framesAbove n, R f := by
  obtain ⟨inner, outer, hwaiting, hn, htop, hinner⟩ := h
  have htake : m.waiting.take (m.waiting.length - n) = inner := by
    -- the lowest `n` are just what is left
    rw [hwaiting, List.length_append, hn, Nat.add_sub_cancel, List.take_left']
    rfl
  rw [framesAbove, htake]
  exact List.forall_mem_cons.mpr ⟨hP _ htop, fun f hf => hQ f (hinner f hf)⟩

/-- An iteration that does not go below the lowest `n` frames. -/
theorem Iterates.allAbove (hP : Frame.Persistent ctx P Q) (h : Iterates ctx m m')
    (hm : m.AllAbove P Q n) (hn : n ≤ m'.waiting.length) : m'.AllAbove P Q n := by
  obtain ⟨inner, outer, hwaiting, houter, htop, hinner⟩ := hm
  cases h with
  | step hmode hsteps => exact ⟨inner, outer, hwaiting, houter, hP.steps hmode hsteps htop, hinner⟩
  | push hbegins =>
    -- the parent waits from now on
    exact ⟨_ :: inner, outer, congrArg _ hwaiting, houter, hP.child hbegins htop,
      List.forall_mem_cons.mpr ⟨hP.begins hbegins htop, hinner⟩⟩
  | resume hbegins hresumes =>
    exact ⟨inner, outer, hwaiting, houter, hP.resumes hresumes (hP.begins hbegins htop), hinner⟩
  | pop _ hresumes =>
    dsimp only at hwaiting hn
    -- the frame that goes on is not one of the lowest `n`
    cases inner with
    | nil =>
      rw [List.nil_append] at hwaiting
      rw [← hwaiting, List.length_cons] at houter
      omega
    | cons parent inner =>
      obtain ⟨rfl, rfl⟩ := List.cons.inj hwaiting
      rw [List.forall_mem_cons] at hinner
      exact ⟨inner, outer, rfl, houter, hP.resumes hresumes hinner.1, hinner.2⟩

/-- A run that does not go below the lowest `n` frames. -/
theorem Machine.RunsAbove.allAbove (hP : Frame.Persistent ctx P Q) (h : RunsAbove ctx n m m')
    (hm : m.AllAbove P Q n) : m'.AllAbove P Q n := by
  -- by induction on the run, with one iteration at its end
  induction h with
  | refl => exact hm
  | tail _ hiterate ih => exact (iterates_of_iterate hiterate.1).allAbove hP ih hiterate.2

end FrameWise

end EvmCore
