import EvmCore.Proofs.AccountWise
import EvmCore.Proofs.Containment
import EvmCore.Proofs.Conservation
import Mathlib

/-!
# What happens to code that was deployed

Code is written at one place only, when init code halts, and whether the address is free is
asked at another, when the init code starts. In between, anything can run. Everything but that
one write leaves all code as it is (`Account.sameCode_allows`), and at the checkpoint of the
frame that writes, its address held no code. Seen from a checkpoint, therefore, code is never
replaced, only set where there was none (`Machine.Anchored`), and a rollback takes code away
but never brings other code back.

Seen from one iteration to the next this leaves one way for code to be replaced. Init code that runs
for an address can be entered a second time for the same address, as an account that is being
created does not count as taken. The inner one deploys its output, then the outer one replaces it
(`Transaction.reentrant_creation_replaces_code`). Unless two frames create the contract at the same
time, code stays until it is rolled back
(`Transaction.code_is_replaced_only_by_reentrant_creation`).
-/

namespace EvmCore

/-! ### Code, account by account -/

namespace Account

/-- The code is the same. -/
def SameCode (account account' : Account) : Prop := account'.code = account.code

instance : Std.Refl SameCode := ⟨fun _ => rfl⟩

instance : IsTrans Account SameCode := ⟨fun _ _ _ h h' => h'.trans h⟩

/-- Code is at most set where there was none. -/
def KeepsCode (account account' : Account) : Prop :=
  account.code.size ≠ 0 → account'.code = account.code

instance : Std.Refl KeepsCode := ⟨fun _ _ => rfl⟩

instance : IsTrans Account KeepsCode where
  trans _ _ _ h h' hcode := by
    have hbefore := h hcode
    rw [← hbefore] at hcode ⊢
    exact h' hcode

/-- Code that stays the same is kept. -/
theorem SameCode.keepsCode {account account' : Account} (h : SameCode account account') :
    KeepsCode account account' :=
  fun _ => h

/-- Nothing but a deployment changes code. -/
theorem sameCode_allows : Allows SameCode fun _ => True where
  balance _ _ _ := rfl
  nonce _ := rfl
  storage _ _ _ _ := rfl
  fresh _ hfree := (ByteArray.size_eq_zero_iff.mp hfree.code).symm

end Account

open Account (SameCode KeepsCode)
open View (AccountWise)

/-- Where no code changes, all code is kept. -/
theorem Moves.keepsCode {s s' : State} (h : Moves (AccountWise SameCode) s s') :
    Moves (AccountWise KeepsCode) s s' :=
  ⟨h.toGrows, fun a => (h.respects a).keepsCode⟩

/-- The frame runs the init code of the contract at `a`. -/
def Frame.Creates (f : Frame) (a : Address) : Prop := f.message.isInit = true ∧ f.message.self = a

instance (f : Frame) (a : Address) : Decidable (f.Creates a) :=
  inferInstanceAs (Decidable (_ ∧ _))

/-- Which contract a frame creates depends on its message. -/
theorem Frame.creates_congr {f f' : Frame} (h : f'.message = f.message) (a : Address) :
    f'.Creates a ↔ f.Creates a := by
  rw [Creates, h, Creates]

/-- A frame that has not halted changes no code. -/
theorem Frame.respects_sameCode {f : Frame} (hmode : f.mode ≠ .exited .halted) (v : View) :
    f.Respects (AccountWise SameCode) v :=
  Account.sameCode_allows.frame (fun _ _ _ => trivial) fun hhalted => absurd hhalted hmode

/-! ### Frames and the layers they run in -/

/-- Each of the frames, innermost first, runs in a layer that was opened where there was no code at
the address it creates, and no code that was there then has been replaced. -/
inductive Anchored : List Frame → State → Prop
  | nil {s : State} : Anchored [] s
  | cons {f : Frame} {fs : List Frame} {c s : State} : Anchored fs c →
      (∀ a, f.Creates a → (c.view.get a).code.size = 0) →
      Moves (AccountWise KeepsCode) c.opened s → Anchored (f :: fs) s

/-- The frame on top may change in all but its message while it keeps the code. -/
theorem Anchored.move {f f' : Frame} {fs : List Frame} {s s' : State} (h : Anchored (f :: fs) s)
    (hmessage : f'.message = f.message) (hmoves : Moves (AccountWise KeepsCode) s s') :
    Anchored (f' :: fs) s' := by
  cases h with
  | cons hfs hfree hlayer =>
    exact .cons hfs (fun a hf' => hfree a ((Frame.creates_congr hmessage a).mp hf'))
      (hlayer.trans hmoves)

section Iteration

variable {ctx : Context} {f f' : Frame} {fs : List Frame} {s s' : State} {a : Address}

/-- A frame that begins something has not halted. -/
theorem Begins.mode_ne {start : Start} (h : Begins ctx f s f' start s') :
    f.mode ≠ .exited .halted := by
  intro hhalted
  cases h with
  | call hmode => cases hmode.symm.trans hhalted
  | create hmode => cases hmode.symm.trans hhalted

/-- A contract is created only where there is no code. -/
theorem Creation.Starts.code_eq_zero {c : Creation} {child : Frame}
    (h : Creation.Starts c s (.frame child) s') (hchild : child.Creates a) :
    (s.view.get a).code.size = 0 := by
  cases h with
  | frame _ _ _ hview henters =>
    obtain ⟨-, rfl⟩ := hchild
    have hfree := henters.free
    -- whether the address is free was asked after the nonce was spent, which changes no code
    rw [Creation.TakenOn, not_or, not_or, not_not, not_not, hview] at hfree
    have hsame : ((c.spendNonce s.view).get c.address).code = (s.view.get c.address).code :=
      Account.sameCode_allows.spendNonce c s.view c.address
    exact (congrArg ByteArray.size hsame).symm.trans hfree.2.1

/-- Nor is a child started for the contract at an address with code. -/
theorem Begins.code_eq_zero {child : Frame} (h : Begins ctx f s f' (.frame child) s')
    (hchild : child.Creates a) : (s.view.get a).code.size = 0 := by
  cases h with
  | call _ hstarts =>
    cases hstarts with
    | frame => cases hchild.1
  | create _ _ hquiet hstarts =>
    rw [← hquiet.view_eq]
    exact hstarts.code_eq_zero hchild

/-- **What leaving a frame does to code**: nothing, or the output becomes the code of the contract
that the frame creates, or there is no code any more after a rollback. -/
theorem Leaves.code_cases {o : Outcome} (h : Leaves f s o s') (hs : Anchored (f :: fs) s)
    (a : Address) :
    SameCode (s.view.get a) (s'.view.get a) ∨
    (f.Creates a ∧ f.mode = .exited .halted ∧ (s'.view.get a).code = f.output) ∨
    (o.exit ≠ .halted ∧ (s'.view.get a).code.size = 0) := by
  cases hs with
  | @cons _ _ c _ _ _ hlayer =>
    rcases h.view_cases hlayer.toGrows with
      ⟨-, -, hview⟩ | ⟨-, hinit, hmode, hview⟩ | ⟨hexit, hview⟩
    · exact .inl (hview ▸ rfl)
    · by_cases ha : f.message.self = a
      · refine .inr (.inl ⟨⟨hinit, ha⟩, hmode, ?_⟩)
        rw [hview, View.get_update, if_pos ha.symm]
      · refine .inl ?_
        rw [SameCode, hview, View.get_update, if_neg (Ne.symm ha)]
    · -- code that was there at the checkpoint is what is there now
      by_cases hcode : (c.view.get a).code.size = 0
      · exact .inr (.inr ⟨hexit, hview ▸ hcode⟩)
      · have hkept : (s.view.get a).code = (c.view.get a).code := hlayer.respects a hcode
        exact .inl (hview ▸ hkept.symm)

/-- **Leaving a frame** keeps the invariant of the frames below it. -/
theorem Leaves.anchored {o : Outcome} (h : Leaves f s o s') (hs : Anchored (f :: fs) s) :
    Anchored fs s' := by
  cases hs with
  | @cons _ _ c _ hfs hfree hlayer =>
    have hgrows : Grows c s' :=
      (h.moves (AnyChange.respects f s.view) ⟨hlayer.toGrows, trivial⟩).toGrows
    have hkept : AccountWise KeepsCode c.view s'.view := by
      intro a hcode
      rcases h.view_cases hlayer.toGrows with ⟨-, -, hview⟩ | ⟨-, hinit, -, hview⟩ | ⟨-, hview⟩
      · rw [hview]
        exact hlayer.respects a hcode
      · -- at the checkpoint there was no code where the output goes
        have ha : a ≠ f.message.self := fun ha => hcode (hfree a ⟨hinit, ha.symm⟩)
        rw [hview, View.get_update, if_neg ha]
        exact hlayer.respects a hcode
      · rw [hview]
    cases fs with
    | nil => exact .nil
    | cons parent fs => exact hfs.move rfl ⟨hgrows, hkept⟩

end Iteration

namespace Machine

/-- Each frame of the machine runs in a layer in which code was at most set where there was none. -/
def Anchored (m : Machine) : Prop := EvmCore.Anchored (m.top :: m.waiting) m.state

/-- How many frames run init code for the contract at `a`. -/
def creating (m : Machine) (a : Address) : Nat :=
  (m.top :: m.waiting).countP fun f => decide (f.Creates a)

/-- The frame on top, and those that wait. -/
theorem creating_eq (m : Machine) (a : Address) : m.creating a =
    m.waiting.countP (fun f => decide (f.Creates a)) + if m.top.Creates a then 1 else 0 := by
  rw [creating, List.countP_cons]
  simp only [decide_eq_true_eq]

end Machine

namespace Iterates

variable {ctx : Context} {m m' : Machine} {a : Address}

/-- **The invariant of the layers**, in an iteration. -/
theorem anchored (h : Iterates ctx m m') (hm : m.Anchored) : m'.Anchored := by
  cases h with
  | step hmode hsteps =>
    have hmoves := hsteps.moves hmode (Frame.respects_sameCode (by rw [hmode]; nofun) _)
    exact hm.move hsteps.message hmoves.keepsCode
  | push hbegins =>
    obtain ⟨c, -, hbefore, hafter⟩ := hbegins.opens (Frame.respects_sameCode hbegins.mode_ne _)
    refine .cons (hm.move hbegins.message hbefore.keepsCode) (fun a hchild => ?_) hafter.keepsCode
    -- what comes before the child's checkpoint changes no code, so the address had
    -- none at the checkpoint either
    have hsame : (c.view.get a).code = _ := hbefore.respects a
    rw [hsame]
    exact hbegins.code_eq_zero hchild
  | resume hbegins hresumes =>
    have hmoves := hbegins.moves_of_done (Frame.respects_sameCode hbegins.mode_ne _)
    exact hm.move (hresumes.message.trans hbegins.message) hmoves.keepsCode
  | pop hleaves hresumes =>
    exact (hleaves.anchored hm).move hresumes.message (Std.Refl.refl _)

/-- **What an iteration does to code.** -/
theorem code_cases (h : Iterates ctx m m') (hm : m.Anchored) (a : Address) :
    SameCode (m.state.view.get a) (m'.state.view.get a) ∨
    (m.top.Creates a ∧ m.top.mode = .exited .halted ∧
      (m'.state.view.get a).code = m.top.output) ∨
    (∃ o, Leaves m.top m.state o m'.state ∧ o.exit ≠ .halted ∧
      (m'.state.view.get a).code.size = 0) := by
  cases h with
  | step hmode hsteps =>
    exact .inl ((hsteps.moves hmode (Frame.respects_sameCode (by rw [hmode]; nofun) _)).respects a)
  | push hbegins =>
    obtain ⟨c, -, hbefore, hafter⟩ := hbegins.opens (Frame.respects_sameCode hbegins.mode_ne _)
    exact .inl (IsTrans.trans _ _ _ (hbefore.respects a) (hafter.respects a))
  | resume hbegins _ =>
    exact .inl ((hbegins.moves_of_done (Frame.respects_sameCode hbegins.mode_ne _)).respects a)
  | pop hleaves _ =>
    rcases hleaves.code_cases hm a with hsame | hdeployed | ⟨hexit, hcode⟩
    · exact .inl hsame
    · exact .inr (.inl hdeployed)
    · exact .inr (.inr ⟨_, hleaves, hexit, hcode⟩)

/-- A contract that is being created after an iteration was being created
before it, or had no code. -/
theorem creating_pos (h : Iterates ctx m m') (hcreating : 0 < m'.creating a) :
    0 < m.creating a ∨ (m.state.view.get a).code.size = 0 := by
  rw [Machine.creating_eq] at hcreating ⊢
  cases h with
  -- only a frame more or less can change how many frames create the contract
  | step _ hsteps =>
    simp only [Frame.creates_congr hsteps.message] at hcreating
    exact .inl hcreating
  | @push f f' child waiting _ _ hbegins =>
    by_cases hchild : child.Creates a
    · exact .inr (hbegins.code_eq_zero hchild)
    · simp only [if_neg hchild, List.countP_cons, Frame.creates_congr hbegins.message,
        decide_eq_true_eq, Nat.add_zero] at hcreating
      exact .inl hcreating
  | resume hbegins hresumes =>
    simp only [Frame.creates_congr (hresumes.message.trans hbegins.message)] at hcreating
    exact .inl hcreating
  | @pop f parent _ _ _ _ _ _ hresumes =>
    simp only [Frame.creates_congr hresumes.message] at hcreating
    simp only [List.countP_cons, decide_eq_true_eq]
    exact .inl (Nat.add_pos_left hcreating _)

/-- When the init code of a contract has halted, one frame less creates it. -/
theorem creating_add_one (h : Iterates ctx m m') (htop : m.top.Creates a)
    (hmode : m.top.mode = .exited .halted) : m'.creating a + 1 = m.creating a := by
  cases h with
  | step hrunning => cases hrunning.symm.trans hmode
  | push hbegins => exact absurd hmode hbegins.mode_ne
  | resume hbegins _ => exact absurd hmode hbegins.mode_ne
  | pop _ hresumes =>
    rw [Machine.creating_eq, Machine.creating_eq, if_pos htop]
    simp only [Frame.creates_congr hresumes.message, List.countP_cons, decide_eq_true_eq]

/-- As long as one frame at most creates a contract, it has no code while it is created. -/
theorem uncoded (h : Iterates ctx m m') (hm : m.Anchored) (honce : m.creating a ≤ 1)
    (hcode : 0 < m.creating a → (m.state.view.get a).code.size = 0)
    (hcreating : 0 < m'.creating a) : (m'.state.view.get a).code.size = 0 := by
  rcases h.code_cases hm a with hsame | ⟨htop, hmode, -⟩ | ⟨o, -, -, hnone⟩
  · rw [hsame]
    exact (h.creating_pos hcreating).elim hcode id
  · -- the only frame that was creating the contract is left, so none is creating it now
    have := h.creating_add_one htop hmode
    omega
  · exact hnone

end Iterates

/-! ### Transactions -/

namespace Transaction

variable {tx : Transaction} {block : Block} {precompiles : Std.ExtTreeMap Address Precompile}
  {source : Source} {ctx : Context} {s s' : State} {m m' : Machine} {a : Address}

/-- Nothing that comes before the call or the creation is started changes code. -/
theorem Passes.sameCode (h : tx.Passes block precompiles (.ofSource source) .warmed s) :
    AccountWise SameCode (State.ofSource source).view s.view := by
  obtain ⟨-, -, -, hbought⟩ := h.exists_validate
  exact Account.sameCode_allows.payable.setBalance _ _ hbought

/-- What comes before the outermost frame changes no code, and neither does entering it. -/
theorem start_frame_sameCode {entry : Frame} (h : tx.start ctx s = .ok (.frame entry) s') :
    ∃ c, Moves (AccountWise SameCode) s c ∧ Moves (AccountWise SameCode) c.opened s' :=
  start_frame_moves Account.sameCode_allows.creation
    (fun c _ _ _ hmoved => Account.sameCode_allows.payable.moveValue c hmoved) h

/-- No more does starting a transaction change code. -/
theorem start_sameCode {start : Start} (h : tx.start ctx s = .ok start s') :
    AccountWise SameCode s.view s'.view := by
  cases start with
  | done o =>
    exact (start_done_moves Account.sameCode_allows.creation
      (fun c _ _ _ hmoved => Account.sameCode_allows.payable.moveValue c hmoved) h).respects
  | frame entry =>
    obtain ⟨c, hbefore, hafter⟩ := start_frame_sameCode h
    exact IsTrans.trans _ _ _ hbefore.respects hafter.respects

/-- A transaction creates its contract only where there is no code. -/
theorem start_code_eq_zero {entry : Frame} (h : tx.start ctx s = .ok (.frame entry) s')
    (hentry : entry.Creates a) : (s.view.get a).code.size = 0 := by
  obtain ⟨s₁, -, ⟨hview, address, hstarts⟩ | ⟨-, recipient, hstarts⟩⟩ := starts_of_start h
  · rw [← hview]
    exact hstarts.code_eq_zero hentry
  · cases hstarts with
    | frame => cases hentry.1

/-- A transaction starts with the invariant. -/
theorem start_anchored {entry : Frame} (h : tx.start ctx s = .ok (.frame entry) s') :
    Machine.Anchored { top := entry, state := s' } := by
  obtain ⟨c, hbefore, hafter⟩ := start_frame_sameCode h
  refine .cons .nil (fun a hentry => ?_) hafter.keepsCode
  have hsame : (c.view.get a).code = (s.view.get a).code := hbefore.respects a
  rw [hsame]
  exact start_code_eq_zero h hentry

/-- At some point on the way to `m`, two frames at once were running init code
for the contract at `a`. -/
def CreatesTwice (tx : Transaction) (block : Block)
    (precompiles : Std.ExtTreeMap Address Precompile) (source : Source) (a : Address)
    (m : Machine) : Prop :=
  ∃ m₁, tx.Passes block precompiles (.ofSource source) (.running m₁) m₁.state ∧
    Machine.RunsAbove (tx.context block precompiles) 0 m₁ m ∧ 2 ≤ m₁.creating a

/-- **The invariant of a run.** -/
theorem Passes.anchored (h : tx.Passes block precompiles (.ofSource source) (.running m) s)
    (a : Address) :
    m.Anchored ∧ (tx.CreatesTwice block precompiles source a m ∨
      (0 < m.creating a → (m.state.view.get a).code.size = 0)) := by
  refine (h.running_induction (P := fun m => m.Anchored ∧
    (tx.CreatesTwice block precompiles source a m ∨
      (0 < m.creating a → (m.state.view.get a).code.size = 0))) ?_ ?_).1
  · -- where the outermost frame is entered, it is the only one
    intro s s' entry _ hstart
    refine ⟨start_anchored hstart, .inr fun hcreating => ?_⟩
    have hentry : entry.Creates a := by
      by_contra hentry
      rw [Machine.creating_eq, if_neg hentry] at hcreating
      exact absurd hcreating (lt_irrefl 0)
    have hsame : (s'.view.get a).code = (s.view.get a).code := start_sameCode hstart a
    dsimp only
    rw [hsame]
    exact start_code_eq_zero hstart hentry
  · rintro m m' hm ⟨hanchored, hcreates⟩ hiterate
    have hiterates := Machine.iterates_of_iterate hiterate
    refine ⟨hiterates.anchored hanchored, ?_⟩
    rcases hcreates with ⟨m₁, hm₁, hruns, htwice⟩ | hcode
    · exact .inl ⟨m₁, hm₁, hruns.tail ⟨hiterate, Nat.zero_le _⟩, htwice⟩
    · -- code can have come to an address while it is being created only if two
      -- frames are creating it
      by_cases honce : m.creating a ≤ 1
      · exact .inr (hiterates.uncoded hanchored honce hcode)
      · exact .inl ⟨m, hm, .single ⟨hiterate, Nat.zero_le _⟩, by omega⟩

/-- **What happens to the code of contracts in a transaction.** Up to the first instruction nothing
changes it. From then on, code that is there stays from one iteration to the next, with two
exceptions. If a frame is rolled back in which the code was set, the address has no code again. And
if init code of the contract halts, its output takes the place of the code, which happens only if
another frame was running init code for the same address while this one was running. -/
theorem code_is_replaced_only_by_reentrant_creation (tx : Transaction) (block : Block)
    (precompiles : Std.ExtTreeMap Address Precompile) (source : Source) :
    (∀ {s s' : State} {start : Start}, tx.Passes block precompiles (.ofSource source) .warmed s →
      tx.start (tx.context block precompiles) s = .ok start s' →
      ∀ a, (s'.view.get a).code = ((State.ofSource source).view.get a).code) ∧
    (∀ {s : State} {m m' : Machine} {o? : Option Outcome},
      tx.Passes block precompiles (.ofSource source) (.running m) s →
      m.iterate (tx.context block precompiles) = .ok o? m' →
      ∀ a, (m.state.view.get a).code.size ≠ 0 →
        (m'.state.view.get a).code = (m.state.view.get a).code ∨
        (∃ o, Leaves m.top m.state o m'.state ∧ o.exit ≠ .halted ∧
          (m'.state.view.get a).code.size = 0) ∨
        (m.top.Creates a ∧ m.top.mode = .exited .halted ∧
          (m'.state.view.get a).code = m.top.output ∧
          tx.CreatesTwice block precompiles source a m)) := by
  constructor
  · intro s s' start hwarmed hstart a
    exact (start_sameCode hstart a).trans (hwarmed.sameCode a)
  · intro s m m' o? hpasses hiterate a hcode
    obtain ⟨hanchored, hcreates⟩ := hpasses.anchored a
    -- init code that deploys over other code was not the only one for its address
    have htwice (htop : m.top.Creates a) : tx.CreatesTwice block precompiles source a m := by
      refine hcreates.resolve_right fun huncoded => hcode (huncoded ?_)
      rw [Machine.creating_eq, if_pos htop]
      exact Nat.succ_pos _
    -- the iteration goes on, or it leaves the last frame
    rcases Machine.iterate_cases hiterate with ⟨-, hiterates⟩ | ⟨o, -, -, hleaves⟩
    · rcases hiterates.code_cases hanchored a with hsame | ⟨htop, hmode, houtput⟩ | hrolledBack
      · exact .inl hsame
      · exact .inr (.inr ⟨htop, hmode, houtput, htwice htop⟩)
      · exact .inr (.inl hrolledBack)
    · rcases hleaves.code_cases hanchored a with hsame | ⟨htop, hmode, houtput⟩ | ⟨hexit, hnone⟩
      · exact .inl hsame
      · exact .inr (.inr ⟨htop, hmode, houtput, htwice htop⟩)
      · exact .inr (.inl ⟨o, hleaves, hexit, hnone⟩)

/-- A contract creates another one and then runs into an invalid instruction: the code of the new
contract is gone, as its creator was rolled back. -/
theorem rolled_back_creation_leaves_no_code :
    let source : Source :=
      { accounts := ((∅ : Std.ExtTreeMap Address Account).insert 1 { balance := 1000000 }).insert 2
          { code := ⟨#[0x64, 0x60, 0x01, 0x60, 0x00, 0xf3, 0x60, 0x00, 0x52, 0x60, 0x05, 0x60, 0x1b,
            0x60, 0x00, 0xf0, 0xfe]⟩ } }
    let tx : Transaction :=
      { sender := 1, nonce := 0, gasLimit := 100000, recipient := some 2, gasPrice := 1 }
    ∃ m o m', tx.Passes {} ∅ (.ofSource source) (.running m) m.state ∧
      m.iterate (tx.context {} ∅) = .ok (some o) m' ∧
      (m.state.view.get (Address.create 2 0)).code.size = 1 ∧
      (∃ o, Leaves m.top m.state o m'.state ∧ o.exit ≠ .halted ∧
        (m'.state.view.get (Address.create 2 0)).code.size = 0) := by
  intro source tx
  -- the next iteration of this machine leaves the creator, whose failure takes the
  -- new contract's code with it
  have htest : (tx.runningAt {} ∅ (.ofSource source) 13).any (fun m => decide
      (m.top.message.isInit = false ∧ (m.state.view.get (Address.create 2 0)).code.size = 1) &&
      endsWith (fun o? m' => decide (o?.isSome = true ∧
        (m'.state.view.get (Address.create 2 0)).code.size = 0))
        (m.iterate (tx.context {} ∅))) = true := by decide +kernel
  obtain ⟨m, hm, htest⟩ := (Option.any_eq_true _ _).mp htest
  obtain ⟨hbefore, hafter⟩ := Bool.and_eq_true_iff.mp htest
  obtain ⟨hinit, hcode⟩ := of_decide_eq_true hbefore
  obtain ⟨o?, m', hiterate, hafter⟩ := endsWith_iff.mp hafter
  obtain ⟨ho, hnone⟩ := of_decide_eq_true hafter
  obtain ⟨o, rfl⟩ := Option.isSome_iff_exists.mp ho
  refine ⟨m, o, m', passes_of_runningAt hm, hiterate, hcode, ?_⟩
  rcases (tx.code_is_replaced_only_by_reentrant_creation {} ∅ source).2 (passes_of_runningAt hm)
    hiterate (Address.create 2 0) (by rw [hcode]; exact one_ne_zero)
    with hsame | hrolledBack | hdeployed
  · rw [hsame, hcode] at hnone
    cases hnone
  · exact hrolledBack
  · cases hinit.symm.trans hdeployed.1.1

/-- A contract that creates another one, at an address that its init code and a salt settle. The
init code, if it received any value, first calls the contract again, without value, and then returns
one byte more than it received: it is entered twice for the same address, and returns one byte in
the inner frame and two in the outer. -/
def reentrantFactory : ByteArray :=
  ⟨#[0x60, 0x1b, 0x60, 0x10, 0x60, 0x00, 0x39, 0x60, 0x00, 0x60, 0x1b, 0x60, 0x00, 0x34, 0xf5, 0x00,
    0x34, 0x15, 0x60, 0x13, 0x57, 0x60, 0x00, 0x60, 0x00, 0x60, 0x00, 0x60, 0x00, 0x60, 0x00, 0x33,
    0x5a, 0xf1, 0x50, 0x5b, 0x60, 0x01, 0x34, 0x01, 0x60, 0x00, 0xf3]⟩

/-- **Code can be replaced.** The outer of two frames that create the same contract deploys two
bytes where the inner one has deployed one. -/
theorem reentrant_creation_replaces_code :
    let sender : Address := 0x5e5e5e5e5e5e5e5e5e5e5e5e5e5e5e5e5e5e5e5e
    let factory : Address := 0xc0c0c0c0c0c0c0c0c0c0c0c0c0c0c0c0c0c0c0c0
    let source : Source :=
      { accounts :=
          ((∅ : Std.ExtTreeMap Address Account).insert sender { balance := 1000000 }).insert
          factory { nonce := 1, code := reentrantFactory } }
    let block : Block := { coinbase := 0xcbcbcbcbcbcbcbcbcbcbcbcbcbcbcbcbcbcbcbcb }
    let tx : Transaction :=
      { sender, nonce := 0, gasLimit := 500000, recipient := some factory, value := 1,
        gasPrice := 1 }
    ∃ m m', tx.Passes block ∅ (.ofSource source) (.running m) m.state ∧
      m.iterate (tx.context block ∅) = .ok none m' ∧
      (m.state.view.get m.top.message.self).code.data = #[0x00] ∧
      (m'.state.view.get m.top.message.self).code.data = #[0x00, 0x00] := by
  intro sender factory source block tx
  -- in this iteration the outer frame is left, after the inner one was
  have htest : (tx.runningAt block ∅ (.ofSource source) 53).any (fun m => decide
      ((m.state.view.get m.top.message.self).code.data = #[0x00]) &&
      endsWith (fun o? m' => decide (o?.isNone = true ∧
        (m'.state.view.get m.top.message.self).code.data = #[0x00, 0x00]))
        (m.iterate (tx.context block ∅))) = true := by decide +kernel
  obtain ⟨m, hm, htest⟩ := (Option.any_eq_true _ _).mp htest
  obtain ⟨hbefore, hafter⟩ := Bool.and_eq_true_iff.mp htest
  obtain ⟨o?, m', hiterate, hafter⟩ := endsWith_iff.mp hafter
  obtain ⟨ho, hafter⟩ := of_decide_eq_true hafter
  rw [Option.isNone_iff_eq_none.mp ho] at hiterate
  exact ⟨m, m', passes_of_runningAt hm, hiterate, of_decide_eq_true hbefore, hafter⟩

end Transaction

end EvmCore
