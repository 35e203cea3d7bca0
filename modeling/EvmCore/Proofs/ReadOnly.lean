import EvmCore.Proofs.Containment
import EvmCore.Proofs.Value
import Mathlib

/-!
# A frame that must not write does not

A frame whose message is read-only hands the restriction on to every frame below it, and none of
them changes an account, a log, a deletion, a started contract or the refund counter. What may
change is what `Undisturbed` leaves open: accounts are marked as touched or as to be written back,
and an absent account that is called comes to exist as an empty one. Addresses and slots that were
warmed are not shown at all.

The table of operations forbids the instructions that write, and a `CALL` with a value. It does not
forbid a `CALLCODE` with a value: that one moves the value from the account of the frame to itself.
So the pending request of a read-only frame either moves nothing or moves it in a circle
(`CallRequest.Harmless`). The invariant is that every frame is `Frame.Static`: read-only, not init
code, and with a harmless request at most. Such a frame respects `Undisturbed` whatever it does next
(`Frame.Static.respects`), and the layers of the machine do the rest.
-/

namespace EvmCore

/-! ### Undisturbed views -/

/-- Two changes of one account are one change. -/
theorem View.update_update (v : View) (a : Address) (f g : Account → Account) :
    (v.update a f).update a g = v.update a (g ∘ f) := by
  have hget : (v.update a f).get a = f (v.get a) := by rw [View.get_update, if_pos rfl]
  have hdirty : (v.dirty.insert a).insert a = v.dirty.insert a :=
    ExtTreeSet.insert_of_mem Std.ExtTreeSet.mem_insert_self
  unfold View.update at hget ⊢
  rw [hget]
  unfold View.set
  rw [hdirty, Function.update_idem]
  rfl

/-- The two views differ at most in what is touched, in what is to be written back, and in absent
accounts that have come to exist as empty ones. -/
structure Undisturbed (v v' : View) : Prop where
  account : ∀ a, v'.account a = v.account a ∨ v.account a = none ∧ v'.account a = some {}
  initial : v'.initial = v.initial
  created : v'.created = v.created
  selfDestructs : v'.selfDestructs = v.selfDestructs
  logs : v'.logs = v.logs
  refund : v'.refund = v.refund

namespace Undisturbed

variable {v v' v'' : View}

theorem refl (v : View) : Undisturbed v v := ⟨fun _ => .inl rfl, rfl, rfl, rfl, rfl, rfl⟩

/-- To be undisturbed twice is to be undisturbed. -/
theorem trans (h : Undisturbed v v') (h' : Undisturbed v' v'') : Undisturbed v v'' where
  account := by
    intro a
    rcases h'.account a with heq' | ⟨hnone', hsome'⟩
    · rw [heq']
      exact h.account a
    · -- absent until now, so absent from the start
      rcases h.account a with heq | ⟨-, hsome⟩
      · exact .inr ⟨heq ▸ hnone', hsome'⟩
      · rw [hsome] at hnone'
        cases hnone'
  initial := h'.initial.trans h.initial
  created := h'.created.trans h.created
  selfDestructs := h'.selfDestructs.trans h.selfDestructs
  logs := h'.logs.trans h.logs
  refund := h'.refund.trans h.refund

instance : Std.Refl Undisturbed := ⟨refl⟩

instance : IsTrans View Undisturbed := ⟨fun _ _ _ => trans⟩

/-- Nonce, balance, code and every storage slot of every address are the same. -/
theorem get_eq (h : Undisturbed v v') (a : Address) : v'.get a = v.get a := by
  unfold View.get
  rcases h.account a with heq | ⟨hnone, hsome⟩
  · rw [heq]
  · rw [hnone, hsome]
    rfl

/-- Writing back what an address holds, possibly nothing, does not disturb. -/
theorem set_get (v : View) (a : Address) : Undisturbed v (v.set a (some (v.get a))) where
  account := by
    intro b
    change Function.update v.account a (some (v.get a)) b = v.account b ∨
      v.account b = none ∧ Function.update v.account a (some (v.get a)) b = some {}
    -- an absent account reads as the empty one that is written
    by_cases hb : b = a
    · subst hb
      rw [Function.update_self, View.get]
      cases v.account b with
      | some account => exact .inl rfl
      | none => exact .inr ⟨rfl, rfl⟩
    · rw [Function.update_of_ne hb]
      exact .inl rfl
  initial := rfl
  created := rfl
  selfDestructs := rfl
  logs := rfl
  refund := rfl

theorem touch (v : View) (a : Address) : Undisturbed v (v.touch a) := by
  obtain htouch | htouch := v.touch_cases a
  · rw [htouch]
    exact refl v
  · rw [htouch]
    exact set_get v a

theorem markTouched (v : View) (a : Address) : Undisturbed v (v.markTouched a) :=
  ⟨fun _ => .inl rfl, rfl, rfl, rfl, rfl, rfl⟩

/-- A value that is moved from an account to itself is still there. -/
theorem transfer_self {a : Address} {value : Int} (h : View.transfer a a value v = .ok () v') :
    Undisturbed v v' := by
  obtain rfl := View.transfer_ok h
  -- the two changes cancel out, so that the account is written back as it was
  have hcancel (account : Account) : (account.credited (-value)).credited value = account := by
    rw [Account.credited, Account.credited, Int.neg_add_cancel_right]
  rw [View.credit, View.credit, View.update_update, View.update, Function.comp_apply, hcancel]
  exact set_get v a

end Undisturbed

/-! ### Frames that must not write -/

/-- A request that hands the restriction on, and moves no value or moves it in a circle. -/
structure CallRequest.Harmless (r : CallRequest) : Prop where
  readOnly : r.readOnly = true
  value : r.transfersValue = true → 0 < r.value → r.caller = r.address

/-- What a harmless request does before code runs. -/
theorem CallRequest.Harmless.respects {r : CallRequest} (h : r.Harmless) (f : Frame) (v : View) :
    (r.toCall f).Respects Undisturbed v := by
  intro v' _ hmoved
  have htouched : Undisturbed v ((v.touch (r.toCall f).address).markTouched (r.toCall f).address) :=
    (Undisturbed.touch v _).trans (Undisturbed.markTouched _ _)
  obtain rfl | ⟨htransfers, rfl | ⟨hvalue, hmoved⟩⟩ := Call.moveOnView_ok hmoved
  · exact Undisturbed.refl _
  · exact htouched
  · -- it moves value, so caller and callee are the same account
    have hcircle : (r.toCall f).caller = (r.toCall f).address := h.value htransfers hvalue
    rw [hcircle] at hmoved
    exact htouched.trans (Undisturbed.transfer_self hmoved)

/-- **Calls of a read-only frame are harmless.** A `CALL` has passed the check of its value; a
`CALLCODE` with a value runs on the account of the caller. -/
theorem Step.callRequest_harmless {kind : CallKind} {f : Frame} {forwarded : Int} {r : CallRequest}
    (h : callRequest kind f forwarded = .ok r) (hreadOnly : f.message.readOnly = true)
    (hvalue : kind = .call → f.stack.back 2 = .ok 0) : r.Harmless := by
  obtain ⟨-, -, -, -, ⟨hkind, hback, -, hread, hcircle⟩ | ⟨-, hzero, -, hread, htransfers⟩⟩ :=
    callRequest_cases h
  · refine ⟨hread.trans hreadOnly, fun _ hpos => ?_⟩
    -- only these two kinds take a value from the stack
    rcases hkind with hcall | hcallCode
    · have hzero : 0 = r.value := Except.ok.inj ((hvalue hcall).symm.trans hback)
      rw [← hzero] at hpos
      exact absurd hpos (Int.lt_irrefl 0)
    · exact hcircle hcallCode
  · rw [hreadOnly, Bool.or_true] at hread
    refine ⟨hread, fun hmoves hpos => ?_⟩
    rw [hmoves, eq_comm, decide_eq_true_eq] at htransfers
    rw [if_pos htransfers] at hzero
    rw [hzero] at hpos
    exact absurd hpos (Int.lt_irrefl 0)

/-- A frame that must not write, is not init code, and requests nothing that
its own calls would not. -/
structure Frame.Static (f : Frame) : Prop where
  readOnly : f.message.readOnly = true
  notInit : f.message.isInit = false
  call : ∀ r, f.mode = .awaitingCall (some r) → r.Harmless
  create : ∀ r, f.mode ≠ .awaitingCreate (some r)

namespace Frame.Static

variable {f f' : Frame}

/-- Whatever a read-only frame does next disturbs nothing. -/
theorem respects (hf : f.Static) (v : View) : f.Respects Undisturbed v where
  write _ _ hwritable := by
    rw [hf.readOnly] at hwritable
    cases hwritable
  call hmode := (hf.call _ hmode).respects f v
  create _ hmode := absurd hmode (hf.create _)
  deploy _ hinit := by
    rw [hf.notInit] at hinit
    cases hinit

/-- What matters is the message and the mode. -/
theorem of_mode_eq (hf : f.Static) (hmessage : f'.message = f.message) (hmode : f'.mode = f.mode) :
    f'.Static := by
  constructor
  · rw [hmessage]
    exact hf.readOnly
  · rw [hmessage]
    exact hf.notInit
  · rw [hmode]
    exact hf.call
  · rw [hmode]
    exact hf.create

/-- A frame that has ended requests nothing. -/
theorem exited (hf : f.Static) (hmessage : f'.message = f.message) {exit : Exit}
    (hmode : f'.mode = .exited exit) : f'.Static := by
  refine ⟨hmessage ▸ hf.readOnly, hmessage ▸ hf.notInit, ?_, ?_⟩
  · intro r hr
    rw [hmode] at hr
    cases hr
  · intro r hr
    rw [hmode] at hr
    cases hr

/-- Nor does a frame that runs. -/
theorem of_running (hreadOnly : f.message.readOnly = true) (hinit : f.message.isInit = false)
    (hmode : f.mode = .running) : f.Static := by
  refine ⟨hreadOnly, hinit, ?_, ?_⟩
  · intro r hr
    rw [hmode] at hr
    cases hr
  · intro r hr
    rw [hmode] at hr
    cases hr

end Frame.Static

section Static

variable {ctx : Context} {f f' : Frame} {s s' : State}

/-- A step of a read-only frame. -/
theorem Steps.static (h : Steps ctx f s f' s') (hf : f.Static) : f'.Static := by
  cases h with
  | unprepared e hunprepared => exact hf.exited hunprepared.message rfl
  | failed e hprepared huntouched =>
    exact hf.exited (huntouched.message.trans hprepared.message) rfl
  | executed hprepared hexecutes =>
    have hwrites := (hprepared.allowed hf.readOnly).1
    have hcall := (hprepared.allowed hf.readOnly).2
    have hop := hprepared.isAt.operation?
    rw [← hprepared.stack] at hcall
    have hf₁ : Frame.Static _ := hf.of_mode_eq hprepared.message hprepared.mode
    cases hexecutes with
    | @create kind =>
      -- the table says of both kinds that they write
      cases kind with
      | create => cases hop; cases hwrites
      | create2 => cases hop; cases hwrites
    | call hrequest =>
      refine ⟨hf₁.readOnly, hf₁.notInit, ?_, nofun⟩
      intro r hr
      cases hr
      exact Step.callRequest_harmless hrequest hf₁.readOnly fun hkind => hcall (congrArg _ hkind)
    | stop => exact hf₁.exited rfl rfl
    | «return» => exact hf₁.exited rfl rfl
    | revert => exact hf₁.exited rfl rfl
    | selfDestruct => exact hf₁.exited rfl rfl
    -- all others leave the message and the mode alone
    | _ => exact hf₁.of_mode_eq rfl rfl

/-- What a read-only frame becomes when it begins what it requests. -/
theorem Begins.static {start : Start} (h : Begins ctx f s f' start s') (hf : f.Static) :
    f'.Static := by
  cases h with
  | call => exact hf.of_mode_eq rfl rfl
  | create hmode => exact absurd hmode (hf.create _)

/-- **The restriction is handed on.** -/
theorem Begins.static_child {child : Frame} (h : Begins ctx f s f' (.frame child) s')
    (hf : f.Static) : child.Static := by
  cases h with
  | call hmode hstarts =>
    cases hstarts with
    | frame => exact .of_running (hf.call _ hmode).readOnly rfl rfl
  | create hmode => exact absurd hmode (hf.create _)

/-- A frame that goes on is as restricted as before. -/
theorem Resumes.static {o : Outcome} (h : Resumes f o f') (hf : f.Static) : f'.Static :=
  .of_running (h.message ▸ hf.readOnly) (h.message ▸ hf.notInit) h.mode

/-! ### Runs of read-only frames -/

namespace Machine

/-- All frames are read-only, but for the lowest `n` that wait. -/
def StaticAbove (n : Nat) (m : Machine) : Prop :=
  ∃ inner outer, m.waiting = inner ++ outer ∧ outer.length = n ∧ ∀ f ∈ m.top :: inner, f.Static

/-- The top frame is read-only. -/
theorem StaticAbove.top {n : Nat} {m : Machine} (h : m.StaticAbove n) : m.top.Static := by
  obtain ⟨inner, outer, -, -, hstatic⟩ := h
  exact hstatic _ List.mem_cons_self

/-- So are all frames above the lowest `n`. -/
theorem StaticAbove.forall_framesAbove {n : Nat} {m : Machine} (h : m.StaticAbove n) :
    ∀ f ∈ m.framesAbove n, f.Static := by
  obtain ⟨inner, outer, hwaiting, hn, hstatic⟩ := h
  have hall : m.AllAbove Frame.Static Frame.Static n :=
    ⟨inner, outer, hwaiting, hn, List.forall_mem_cons.mp hstatic⟩
  exact hall.forall_framesAbove (fun _ => id) fun _ => id

end Machine

/-- Frames that must not write stay so, on top and while they wait. -/
theorem Frame.Static.persistent (ctx : Context) :
    Frame.Persistent ctx Frame.Static Frame.Static where
  steps _ h hf := h.static hf
  begins h hf := h.static hf
  child h hf := h.static_child hf
  resumes h hf := h.static hf

/-- **The invariant**, in an iteration that does not go below the lowest `n` frames. -/
theorem Iterates.staticAbove {n : Nat} {m m' : Machine} (h : Iterates ctx m m')
    (hm : m.StaticAbove n) (hn : n ≤ m'.waiting.length) : m'.StaticAbove n := by
  obtain ⟨inner, outer, hwaiting, houter, hstatic⟩ := hm
  obtain ⟨inner', outer', hwaiting', houter', hstatic'⟩ := h.allAbove (Frame.Static.persistent ctx)
    ⟨inner, outer, hwaiting, houter, List.forall_mem_cons.mp hstatic⟩ hn
  exact ⟨inner', outer', hwaiting', houter', List.forall_mem_cons.mpr hstatic'⟩

namespace Machine

variable {n : Nat} {m m' : Machine} {base : State}

/-- Read-only frames stay so in a run, and disturb nothing in any layer. -/
theorem RunsAbove.static (h : RunsAbove ctx n m m') (hm : m.StaticAbove n)
    (hnested : m.Nested Undisturbed base n) : m'.StaticAbove n ∧ m'.Nested Undisturbed base n := by
  -- by induction on the run; the frames are needed for the layers of the next iteration
  induction h with
  | refl => exact ⟨hm, hnested⟩
  | tail _ hiterate ih =>
    obtain ⟨hstatic, hnested⟩ := ih
    obtain ⟨hiterate, hn⟩ := hiterate
    have hiterates := iterates_of_iterate hiterate
    exact ⟨hiterates.staticAbove hstatic hn, hiterates.nested hnested hn (hstatic.top.respects _)⟩

end Machine

/-- A frame that was put on top runs. -/
theorem Iterates.top_mode_of_push {m m' : Machine} (h : Iterates ctx m m')
    (hpush : m'.waiting.length = m.waiting.length + 1) : m'.top.mode = .running := by
  cases h with
  | push hbegins => exact hbegins.child_mode
  | step => exact absurd hpush (Nat.ne_of_lt (Nat.lt_succ_self _))
  | resume _ hresumes => exact hresumes.mode
  | pop _ hresumes => exact hresumes.mode

/-- Leaving a read-only frame whose layer was opened at `c` keeps what is shown, or
shows what was shown at `c`. -/
theorem Leaves.static {c : State} {o : Outcome} (h : Leaves f s o s') (hf : f.Static)
    (hs : Moves AnyChange c.opened s) :
    if o.exit = .halted then s'.view = s.view else s'.view = c.view := by
  obtain ⟨hhalted, -, hview⟩ | ⟨-, hinit, -⟩ | ⟨hexit, hview⟩ := h.view_cases hs.toGrows
  · rw [if_pos hhalted, hview]
  · rw [hf.notInit] at hinit
    cases hinit
  · rw [if_neg hexit, hview]

end Static

/-- **Static calls cannot write.** An execution that is entered with a read-only frame has
read-only frames only, and leaves everything as it was when the checkpoint for it was
taken. So does a read-only child that is put on top of any other frame: until it is left,
nothing changes that a frame above its parent could change, and if it does not halt,
everything is as at its own checkpoint. -/
theorem static_calls_cannot_write (ctx : Context) :
    (∀ (entry : Frame) (c s : State), entry.Static → State.checkpoint c = .ok () s →
      (∀ m, Machine.RunsAbove ctx 0 { top := entry, state := s } m →
        (∀ f ∈ m.top :: m.waiting, f.message.readOnly = true) ∧ Undisturbed c.view m.state.view) ∧
      (∀ n o m, Machine.run ctx n { top := entry, state := s } = .ok o m →
        Undisturbed c.view m.state.view ∧ ∀ a, m.state.view.get a = c.view.get a)) ∧
    (∀ m m₁ : Machine, m.iterate ctx = .ok none m₁ →
      m₁.waiting.length = m.waiting.length + 1 →
      m₁.top.message.readOnly = true → m₁.top.message.isInit = false →
      ∃ c, m.top.Opens ctx m.state c ∧
        ∀ m₂, Machine.RunsAbove ctx m₁.waiting.length m₁ m₂ →
          (∀ f ∈ m₂.framesAbove m₁.waiting.length, f.message.readOnly = true) ∧
          Undisturbed m₁.state.view m₂.state.view ∧
          ∀ (o : Outcome) (a : Activation), m₂.waiting.length = m₁.waiting.length →
            Frame.leave ⟨m₂.top, m₂.state⟩ = .ok o a →
            if o.exit = .halted then Undisturbed m₁.state.view a.state.view
            else a.state.view = c.view) := by
  refine ⟨fun entry c s hentry hcheckpoint => ?_, fun m m₁ hiterate hpush hreadOnly hinit => ?_⟩
  · cases (State.checkpoint_eq c).symm.trans hcheckpoint
    have hstart : Machine.StaticAbove 0 { top := entry, state := c.opened } :=
      ⟨[], [], rfl, rfl, List.forall_mem_singleton.mpr hentry⟩
    have hruns {m : Machine} (h : Machine.RunsAbove ctx 0 { top := entry, state := c.opened } m) :=
      h.static hstart (.refl { top := entry, state := c.opened })
    constructor
    · intro m hm
      obtain ⟨⟨inner, outer, hwaiting, houter, hstatic⟩, cs, -, hlayered⟩ := hruns hm
      rw [List.length_eq_zero_iff.mp houter, List.append_nil] at hwaiting
      rw [hwaiting]
      exact ⟨fun f hf => (hstatic f hf).readOnly, State.opened_view c ▸ hlayered.respects⟩
    · -- the last iteration leaves the entry frame, which closes its layer
      intro n o m hrun
      obtain ⟨m₁, hm₁, hlast⟩ := Machine.exists_runsAbove_of_run hrun
      obtain ⟨hstatic, hnested⟩ := hruns hm₁
      obtain ⟨hwaiting, hleaves⟩ := Machine.leaves_of_iterate hlast
      have hmoves := hnested.moves (congrArg List.length hwaiting)
      have hundisturbed : Undisturbed c.view m.state.view :=
        (hleaves.moves (hstatic.top.respects _) hmoves).respects
      exact ⟨hundisturbed, hundisturbed.get_eq⟩
  · have hiterates := Machine.iterates_of_iterate hiterate
    obtain ⟨c, hopens, hchild⟩ := hiterates.opens_of_push hpush
    refine ⟨c, hopens, fun m₂ hruns => ?_⟩
    have hstart : m₁.StaticAbove m₁.waiting.length :=
      ⟨[], m₁.waiting, rfl, rfl, List.forall_mem_singleton.mpr
        (.of_running hreadOnly hinit (hiterates.top_mode_of_push hpush))⟩
    obtain ⟨hstatic, hnested⟩ := hruns.static hstart (.refl m₁)
    obtain ⟨cs, -, hlayered⟩ := hnested
    refine ⟨fun f hf => (hstatic.forall_framesAbove f hf).readOnly, hlayered.respects, ?_⟩
    intro o a hlength hleave
    -- the child is on top again, so the innermost layer is its own
    have hmoves := hruns.nested AnyChange.respected ⟨[], Nat.zero_add _, .root hchild⟩
    have hleft := (Frame.leaves_of_leave hleave).static hstatic.top (hmoves.moves hlength)
    split at hleft
    · next hexit =>
      rw [if_pos hexit, hleft]
      exact hlayered.respects
    · next hexit =>
      rw [if_neg hexit]
      exact hleft

/-- A read-only execution that makes a `CALLCODE` with a value to code that tries to write storage;
and a static call that a frame makes which may write. -/
theorem callCode_with_value_and_static_call_do_not_write :
    let source : Source :=
      { accounts := (((∅ : Std.ExtTreeMap Address Account).insert 1 { balance := 5 }).insert 2
          { code := ⟨#[0x60, 1, 0x60, 0, 0x55]⟩ }).insert 3 { code := ⟨#[0x00]⟩ } }
    let c := State.ofSource source
    let code := Code.ofBytes
      ⟨#[0x60, 0, 0x60, 0, 0x60, 0, 0x60, 0, 0x60, 3, 0x60, 2, 0x5a, 0xf2, 0x00]⟩
    let entry : Frame :=
      { message := { self := 1, caller := 4, codeAddress := 1, code, readOnly := true },
        gas := 30000 }
    let request : CallRequest :=
      { kind := .staticCall, caller := 1, address := 3, codeAddress := 3, value := 0, gas := 100
        readOnly := true, transfersValue := true
        inputOffset := 0, inputSize := 0, returnOffset := 0, returnSize := 0 }
    let m : Machine :=
      { top :=
          { message := { entry.message with readOnly := false }, gas := 30000
            mode := .awaitingCall (some request) }
        state := c }
    (entry.Static ∧ ∃ o m', Machine.run {} 16 { top := entry, state := c.opened } = .ok o m' ∧
      o.exit = .halted ∧ Undisturbed c.view m'.state.view) ∧
    (∃ m₁ m₂ c' o a, m.iterate {} = .ok none m₁ ∧ m₁.waiting.length = m.waiting.length + 1 ∧
      m₁.top.message.readOnly = true ∧ m₁.top.message.isInit = false ∧
      m.top.Opens {} m.state c' ∧ Machine.RunsAbove {} m₁.waiting.length m₁ m₂ ∧
      m₂.waiting.length = m₁.waiting.length ∧ Frame.leave ⟨m₂.top, m₂.state⟩ = .ok o a ∧
      o.exit = .halted ∧ Undisturbed m₁.state.view a.state.view) := by
  intro source c code entry request m
  constructor
  · have hentry : entry.Static := .of_running rfl rfl rfl
    have hhalts : endsWith (fun o _ => decide (o.exit = .halted))
        (Machine.run {} 16 { top := entry, state := c.opened }) = true := by decide +kernel
    obtain ⟨o, m', hrun, hexit⟩ := endsWith_iff.mp hhalts
    rw [decide_eq_true_eq] at hexit
    have hstatic := ((static_calls_cannot_write {}).1 entry c _ hentry rfl).2 16 o m' hrun
    exact ⟨hentry, o, m', hrun, hexit, hstatic.1⟩
  · -- the call puts a child on top, which halts in its first step
    have hpush : endsWith
        (fun o₁ m₁ => o₁.isNone && decide (m₁.waiting.length = m.waiting.length + 1) &&
        (m₁.top.message.readOnly && !m₁.top.message.isInit) &&
        endsWith (fun o₂ m₂ => o₂.isNone && decide (m₂.waiting.length = m₁.waiting.length) &&
          endsWith (fun o _ => decide (o.exit = .halted))
            (Frame.leave ⟨m₂.top, m₂.state⟩)) (m₁.iterate {})) (m.iterate {}) = true := by
      decide +kernel
    obtain ⟨o₁, m₁, hiterate, hpush⟩ := endsWith_iff.mp hpush
    simp only [Bool.and_eq_true, Option.isNone_iff_eq_none, decide_eq_true_eq,
      Bool.not_eq_true'] at hpush
    obtain ⟨⟨⟨rfl, hlength⟩, hreadOnly, hinit⟩, hpush⟩ := hpush
    obtain ⟨o₂, m₂, hiterate₁, hpush⟩ := endsWith_iff.mp hpush
    simp only [Bool.and_eq_true, Option.isNone_iff_eq_none, decide_eq_true_eq] at hpush
    obtain ⟨⟨rfl, hlength₁⟩, hpush⟩ := hpush
    obtain ⟨o, a, hleave, hexit⟩ := endsWith_iff.mp hpush
    rw [decide_eq_true_eq] at hexit
    obtain ⟨c', hopens, hstatic⟩ :=
      (static_calls_cannot_write {}).2 m m₁ hiterate hlength hreadOnly hinit
    have hruns : Machine.RunsAbove {} m₁.waiting.length m₁ m₂ := .single ⟨hiterate₁, hlength₁.ge⟩
    have hleft := (hstatic m₂ hruns).2.2 o a hlength₁ hleave
    rw [if_pos hexit] at hleft
    exact ⟨m₁, m₂, c', o, a, hiterate, hlength, hreadOnly, hinit, hopens, hruns, hlength₁,
      hleave, hexit, hleft⟩

end EvmCore
