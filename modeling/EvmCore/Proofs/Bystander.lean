import EvmCore.Proofs.FailedTransaction
import Mathlib

/-!
# Accounts without code are left alone

An account acts through its code, so one that has none should be safe from everybody but the
sender of the transaction. A frame moves value out of the account that it runs on, counts up its
nonce, writes its storage and destroys it, and no other account suffers. So it is enough that no
frame ever runs on an account without code. The only way to one is a creation at its address, and
that is on record: as long as it is not rolled back, the address is among those that were created.
What is said here of an account is therefore said under the condition that its address is not
among those in the end (`View.StandsBy`).

The invariant (`Guarded`) says of each frame that runs on the account that the account was created
in or before the layer in which the frame runs. A child runs on the account of its parent or where
there is code (`CallRequest.MadeBy`), and the account gets code only by a creation.
-/

namespace EvmCore

/-- The nonce, the code and the storage are the same. -/
structure Account.SameButBalance (account account' : Account) : Prop where
  nonce : account'.nonce = account.nonce
  code : account'.code = account.code
  storage : account'.storage = account.storage

namespace Account.SameButBalance

variable {account account₁ account₂ account₃ : Account}

theorem refl (account : Account) : account.SameButBalance account := ⟨rfl, rfl, rfl⟩

theorem trans (h : account₁.SameButBalance account₂) (h' : account₂.SameButBalance account₃) :
    account₁.SameButBalance account₃ :=
  ⟨h'.nonce.trans h.nonce, h'.code.trans h.code, h'.storage.trans h.storage⟩

end Account.SameButBalance

/-- There is only one empty account. -/
theorem Account.eq_of_isEmpty {account : Account} (h : account.isEmpty = true) : account = {} := by
  simp only [isEmpty, Bool.and_eq_true, decide_eq_true_eq] at h
  obtain ⟨⟨⟨hnonce, hbalance⟩, hcode⟩, hstorage⟩ := h
  cases account
  simp only [Account.mk.injEq]
  exact ⟨hnonce, hbalance, ByteArray.size_eq_zero_iff.mp hcode,
    Std.ExtTreeMap.isEmpty_iff.mp hstorage⟩

/-! ### What the operations show -/

namespace View

variable {v v' : View} {a b : Address} {x : Int}

/-- Crediting an account changes its balance only. -/
theorem sameButBalance_credit (v : View) (b : Address) (x : Int) (a : Address) :
    (v.get a).SameButBalance ((v.credit b x).get a) := by
  rw [credit, get_update]
  split
  · next ha => exact ha ▸ ⟨rfl, rfl, rfl⟩
  · exact .refl _

/-- Crediting an account does not lower a balance, if what is credited is not negative. -/
theorem balance_le_credit (h : a = b → 0 ≤ x) :
    (v.get a).balance ≤ ((v.credit b x).get a).balance := by
  rw [credit, get_update]
  split
  · next ha => exact ha ▸ le_add_of_nonneg_right (h ha)
  · exact le_rfl

/-! ### Changes that leave an account alone -/

/-- What all work between two views does to the account at `a`, unless a contract was created
there: only its balance changes, it is not marked for deletion, and it does not lose value,
unless it is the one that pays. -/
structure StandsBy (a : Address) (pays : Prop) (v v' : View) : Prop extends Conserves v v' where
  created : a ∈ v.created → a ∈ v'.created
  account : a ∉ v'.created → (v.get a).SameButBalance (v'.get a)
  balance : a ∉ v'.created → v.Solvent → ¬pays → (v.get a).balance ≤ (v'.get a).balance
  unmarked : a ∉ v'.created → a ∉ v.selfDestructs → a ∉ v'.selfDestructs

namespace StandsBy

variable {pays : Prop} {v'' : View}

/-- To stand by twice is to stand by. -/
theorem trans (h : StandsBy a pays v v') (h' : StandsBy a pays v' v'') : StandsBy a pays v v'' := by
  -- what was created stays on record, so an address that is not on it in the end never was
  have hnot (h'' : a ∉ v''.created) : a ∉ v'.created := fun hcreated => h'' (h'.created hcreated)
  exact
    { toConserves := h.toConserves.trans h'.toConserves
      created := fun hcreated => h'.created (h.created hcreated)
      account := fun h'' => (h.account (hnot h'')).trans (h'.account h'')
      balance := fun h'' hsolvent hpays =>
        (h.balance (hnot h'') hsolvent hpays).trans (h'.balance h'' (h.solvent hsolvent) hpays)
      unmarked := fun h'' hunmarked => h'.unmarked h'' (h.unmarked (hnot h'') hunmarked) }

/-- Where a contract was created nothing need be left alone. -/
theorem of_created (h : Conserves v v') (hcreated : a ∈ v'.created) : StandsBy a pays v v' where
  toConserves := h
  created _ := hcreated
  account hnot := absurd hcreated hnot
  balance hnot := absurd hcreated hnot
  unmarked hnot := absurd hcreated hnot

/-- A change that leaves the account, the creations and the deletions alone. -/
theorem of_get_eq (h : Conserves v v') (hget : v'.get a = v.get a)
    (hcreated : v'.created = v.created) (hself : v'.selfDestructs = v.selfDestructs) :
    StandsBy a pays v v' where
  toConserves := h
  created := hcreated ▸ id
  account _ := hget ▸ .refl _
  balance _ _ _ := hget ▸ le_rfl
  unmarked _ := hself ▸ id

instance : Std.Refl (StandsBy a pays) := ⟨fun v => .of_get_eq (.refl v) rfl rfl rfl⟩

instance : IsTrans View (StandsBy a pays) := ⟨fun _ _ _ => trans⟩

/-- Changing an account that is not the one at `a`, or that was created. -/
theorem update {f : Account → Account} (hf : ∀ account, (f account).balance = account.balance)
    (hb : b = a → a ∈ v.created) : StandsBy a pays v (v.update b f) := by
  by_cases ha : b = a
  · exact of_created (.update v b hf) (hb ha)
  · refine of_get_eq (.update v b hf) ?_ rfl rfl
    rw [get_update, if_neg (Ne.symm ha)]

/-- A slot that is written belongs to another account, or to one that was created. -/
theorem storeSlot {self : Address} {key value : Word} (hself : self = a → a ∈ v.created)
    (h : View.storeSlot self key value v = .ok () v') : StandsBy a pays v v' := by
  obtain ⟨refund, rfl⟩ := storeSlot_ok h
  have hrefund : StandsBy a pays v { v with refund } :=
    of_get_eq (.of_account_eq rfl rfl fun _ ha => ha) rfl rfl rfl
  exact hrefund.trans (update (fun _ => rfl) hself)

/-- A contract that goes is another one, or was created. -/
theorem selfDestruct {self beneficiary : Address} (hself : self = a → a ∈ v.created)
    (h : View.selfDestruct self beneficiary v = .ok () v') : StandsBy a pays v v' := by
  have hconserves := Conserves.selfDestruct h
  obtain rfl := selfDestruct_ok h
  by_cases ha : self = a
  · exact of_created hconserves (hself ha)
  · -- the account at `a` may be the beneficiary, but it is not the one that goes
    have hget : ((((v.credit beneficiary (v.get self).balance).markTouched beneficiary).update self
        ({ · with balance := 0 })).addSelfDestruct self).get a =
        (v.credit beneficiary (v.get self).balance).get a :=
      (get_update ((v.credit beneficiary (v.get self).balance).markTouched beneficiary) self
        ({ · with balance := 0 }) a).trans (if_neg (Ne.symm ha))
    refine ⟨hconserves, id, fun _ => ?_, fun _ hsolvent _ => ?_, fun _ hunmarked hmarked => ?_⟩
    · rw [hget]
      exact sameButBalance_credit ..
    · rw [hget]
      exact balance_le_credit fun _ => hsolvent.get self
    · rcases Std.ExtTreeSet.mem_insert.mp hmarked with hsame | hbefore
      · exact ha (Std.compare_eq_iff_eq.mp hsame)
      · exact hunmarked hbefore

/-- Value comes from another account, from one that pays or from one that was created. -/
theorem transfer {sender recipient : Address} {value : Int} (hvalue : 0 ≤ value)
    (hsender : sender = a → pays ∨ a ∈ v.created)
    (h : View.transfer sender recipient value v = .ok () v') : StandsBy a pays v v' := by
  have hconserves := Conserves.transfer h
  obtain rfl := transfer_ok h
  refine ⟨hconserves, id, fun _ => ?_, fun hnot _ hpays => ?_, fun _ => id⟩
  · exact (sameButBalance_credit ..).trans (sameButBalance_credit ..)
  · -- whoever sends is not the one at `a`, which neither pays nor was created
    have hother : a ≠ sender := fun ha => (hsender ha.symm).elim hpays hnot
    exact (balance_le_credit fun ha => absurd ha hother).trans (balance_le_credit fun _ => hvalue)

theorem touch (v : View) (b : Address) : StandsBy a pays v (v.touch b) := by
  have hget := v.get_touch b a
  obtain htouch | htouch := v.touch_cases b
  · rw [htouch]
    exact Std.Refl.refl v
  · exact of_get_eq (.touch v b) hget (htouch ▸ rfl) (htouch ▸ rfl)

/-- **Moving the value of a call.** -/
theorem moveValue {c : Call}
    (hcaller : c.transfersValue = true → c.caller = a → pays ∨ a ∈ v.created)
    (h : c.moveOnView v = .ok () v') : StandsBy a pays v v' := by
  have hmarked : StandsBy a pays v ((v.touch c.address).markTouched c.address) :=
    (touch v c.address).trans (of_get_eq (.of_account_eq rfl rfl fun _ ha => ha) rfl rfl rfl)
  obtain rfl | ⟨htransfers, rfl | ⟨hvalue, h⟩⟩ := c.moveOnView_ok h
  · exact Std.Refl.refl _
  · exact hmarked
  · exact hmarked.trans
      (transfer hvalue.le (fun ha => (hcaller htransfers ha).imp_right hmarked.created) h)

/-- **Creating a contract** anywhere. -/
theorem create (v : View) (b : Address) : StandsBy a pays v (v.create b) := by
  -- at `a` itself the creation is on record; anywhere else it is another account that is replaced
  by_cases ha : b = a
  · exact of_created (.create v b)
      (Std.ExtTreeSet.mem_insert.mpr (.inl (Std.compare_eq_iff_eq.mpr ha)))
  · have hget : (v.create b).get a = v.get a :=
      (v.get_set b (some { balance := (v.get b).balance }) a).trans (if_neg (Ne.symm ha))
    exact
      { toConserves := .create v b
        created := fun hbefore => Std.ExtTreeSet.mem_insert.mpr (.inr hbefore)
        account := fun _ => hget ▸ .refl _
        balance := fun _ _ _ => hget ▸ le_rfl
        unmarked := fun _ => id }

/-- **Entering a creation**, which may move value from its creator. -/
theorem enterCreation {c : Creation} (hcreator : c.creator = a → pays ∨ a ∈ v.created)
    (h : c.enterOnView v = .ok () v') : StandsBy a pays v v' := by
  have hcreated : StandsBy a pays v (v.create c.address) := create v c.address
  obtain rfl | ⟨hvalue, h⟩ := c.enterOnView_ok h
  · exact hcreated
  · exact hcreated.trans (transfer hvalue.le (fun ha => (hcreator ha).imp_right hcreated.created) h)

end StandsBy

/-- A creation is on record. -/
theorem mem_created_of_enterOnView {c : Creation} (h : c.enterOnView v = .ok () v') :
    c.address ∈ v'.created := by
  have hmem : c.address ∈ (v.create c.address).created :=
    Std.ExtTreeSet.mem_insert.mpr (.inl Std.ReflOrd.compare_self)
  obtain rfl | ⟨-, h⟩ := c.enterOnView_ok h
  · exact hmem
  · obtain rfl := transfer_ok h
    exact hmem

end View

open View (StandsBy)

/-! ### Which accounts frames run on -/

/-- A call that a frame on the account at `a` makes: value comes from that account, and what is
called runs on that account or on the one whose code it is. -/
structure CallRequest.MadeBy (r : CallRequest) (a : Address) : Prop where
  caller : r.transfersValue = true → r.caller = a
  address : r.address = a ∨ r.address = r.codeAddress

/-- Whatever an instruction asks to call is asked for by the account that its frame runs on. -/
theorem Step.callRequest_madeBy {kind : CallKind} {f : Frame} {forwarded : Int} {r : CallRequest}
    (h : callRequest kind f forwarded = .ok r) : r.MadeBy f.message.self := by
  obtain ⟨target, -, h⟩ := except_bind_ok h
  -- `CALL` and `STATICCALL` run on their target, the other two on the account of the caller
  cases kind with
  | call | callCode =>
    obtain ⟨value, -, h⟩ := except_bind_ok h
    obtain ⟨inputOffset, -, h⟩ := except_bind_ok h
    obtain ⟨inputSize, -, h⟩ := except_bind_ok h
    obtain ⟨returnOffset, -, h⟩ := except_bind_ok h
    obtain ⟨returnSize, -, h⟩ := except_bind_ok h
    cases h
    exact ⟨fun _ => rfl, by simp⟩
  | delegateCall | staticCall =>
    obtain ⟨inputOffset, -, h⟩ := except_bind_ok h
    obtain ⟨inputSize, -, h⟩ := except_bind_ok h
    obtain ⟨returnOffset, -, h⟩ := except_bind_ok h
    obtain ⟨returnSize, -, h⟩ := except_bind_ok h
    cases h
    exact ⟨by simp, by simp⟩

/-- Whatever call the frame asks for is its own. -/
def Frame.Own (f : Frame) : Prop := ∀ r, f.mode = .awaitingCall (some r) → r.MadeBy f.message.self

/-- A frame that runs asks for no call. -/
theorem Frame.own_of_running {f : Frame} (h : f.mode = .running) : f.Own :=
  fun _ hr => nomatch h.symm.trans hr

section Frames

variable {ctx : Context} {f f' : Frame} {fs : List Frame} {s s' : State} {a : Address} {pays : Prop}
  {v : View} {base : State}

/-- What a step asks for is its frame's own. -/
theorem Steps.own (h : Steps ctx f s f' s') (hmode : f.mode = .running) : f'.Own := by
  intro r hr
  cases h with
  | unprepared => cases hr
  | failed => cases hr
  -- a frame that waits for a call was given it by this instruction
  | executed hprepared hexecutes =>
    have hmode₁ := hprepared.mode.trans hmode
    cases hexecutes with
    | call hrequest =>
      cases hr
      have hmadeBy := Step.callRequest_madeBy hrequest
      exact hmadeBy
    | create | stop | «return» | revert | selfDestruct => cases hr
    -- all others go on running
    | _ => cases hmode₁.symm.trans hr

/-- **Whatever the frame on top asks for is its own**, after any iteration. -/
theorem Iterates.own {m m' : Machine} (h : Iterates ctx m m') : m'.top.Own := by
  cases h with
  | step hmode hsteps => exact hsteps.own hmode
  | push hbegins => exact Frame.own_of_running hbegins.child_mode
  | resume _ hresumes => exact Frame.own_of_running hresumes.mode
  | pop _ hresumes => exact Frame.own_of_running hresumes.mode

/-- **A frame leaves alone every account but the one it runs on.** -/
theorem Frame.Own.respects (hf : f.Own) (hself : f.message.self = a → a ∈ v.created) :
    f.Respects (StandsBy a pays) v where
  write := by
    intro v' _ _ hwrites
    cases hwrites with
    | storeSlot _ hstored => exact .storeSlot hself hstored
    | addLog log => exact .of_get_eq (.of_account_eq rfl rfl fun _ ha => ha) rfl rfl rfl
    | selfDestruct hdestructed => exact .selfDestruct hself hdestructed
  call hmode _ _ hmoved :=
    -- value comes from the account that the frame runs on, and that one was created
    .moveValue (fun htransfers ha =>
      .inr (hself (((hf _ hmode).caller htransfers).symm.trans ha))) hmoved
  create _ _ :=
    { spendNonce := .update (fun _ => rfl) hself
      enter := fun _ _ _ hentered => .enterCreation (fun ha => .inr (hself ha)) hentered }
  deploy _ _ _ := .update (fun _ => rfl) hself

/-! ### The invariant -/

/-- Each of the frames, innermost first, runs in a layer of its own, the account at `a` stood by in
all of them, and a frame that runs on it does so because it was created. -/
inductive Guarded (a : Address) (pays : Prop) (base : State) : List Frame → State → Prop
  | nil {s : State} : Moves (StandsBy a pays) base s → Guarded a pays base [] s
  | cons {f : Frame} {fs : List Frame} {c s : State} : Guarded a pays base fs c →
      (f.message.self = a → a ∈ s.view.created) → Moves (StandsBy a pays) c.opened s →
      Guarded a pays base (f :: fs) s

namespace Guarded

/-- The account stood by, through all the layers. -/
theorem standsBy (h : Guarded a pays base fs s) : StandsBy a pays base.view s.view := by
  -- by induction on the layers
  induction h with
  | nil hmoves => exact hmoves.respects
  | cons _ _ hmoves ih => exact ih.trans hmoves.respects

/-- A frame that runs on the account does so because it was created. -/
theorem self (h : Guarded a pays base (f :: fs) s) : f.message.self = a → a ∈ s.view.created := by
  cases h with
  | cons _ hself _ => exact hself

/-- Work of the frame on top keeps the invariant. -/
theorem move (h : Guarded a pays base fs s) (hmoves : Moves (StandsBy a pays) s s') :
    Guarded a pays base fs s' := by
  cases h with
  | nil hbefore => exact .nil (hbefore.trans hmoves)
  | cons hfs hself hbefore =>
    exact .cons hfs (fun ha => hmoves.respects.created (hself ha)) (hbefore.trans hmoves)

theorem congr (h : Guarded a pays base (f :: fs) s) (hmessage : f'.message = f.message) :
    Guarded a pays base (f' :: fs) s := by
  cases h with
  | cons hfs hself hmoves => exact .cons hfs (hmessage ▸ hself) hmoves

end Guarded

/-- A frame that is left takes its layer with it. -/
theorem Leaves.guarded {o : Outcome} (h : Leaves f s o s') (hf : f.Own)
    (hs : Guarded a pays base (f :: fs) s) : Guarded a pays base fs s' := by
  cases hs with
  | cons hfs hself hmoves => exact hfs.move (h.moves (hf.respects hself) hmoves)

/-- **A child runs on the account of its parent, on one with code or on one that it creates.** -/
theorem Begins.child_self {child : Frame} (h : Begins ctx f s f' (.frame child) s') (hf : f.Own) :
    child.message.self = f.message.self ∨ (s'.view.get child.message.self).code.size ≠ 0 ∨
      child.message.self ∈ s'.view.created := by
  cases h with
  | @call r _ _ hmode hstarts =>
    cases hstarts with
    | frame _ _ _ hcode =>
      refine (hf _ hmode).address.imp id fun haddress => .inl ?_
      change (s'.view.get r.address).code.size ≠ 0
      rw [haddress]
      exact hcode
  | create _ _ _ hstarts =>
    cases hstarts with
    | frame _ _ _ _ henters => exact .inr (.inr (View.mem_created_of_enterOnView henters.entered))

/-- **The invariant**, in an iteration. -/
theorem Iterates.guarded {m m' : Machine} (h : Iterates ctx m m') (htop : m.top.Own)
    (hcode : (base.view.get a).code.size = 0)
    (hm : Guarded a pays base (m.top :: m.waiting) m.state) :
    Guarded a pays base (m'.top :: m'.waiting) m'.state := by
  cases h with
  | step hmode hsteps =>
    exact (hm.move (hsteps.moves hmode (htop.respects hm.self))).congr hsteps.message
  | push hbegins =>
    obtain ⟨c, -, hbefore, hafter⟩ := hbegins.opens (htop.respects hm.self)
    have hparent := (hm.move hbefore).congr hbegins.message
    refine .cons hparent (fun ha => ?_) hafter
    rcases hbegins.child_self htop with hsame | hcoded | hcreated
    · -- the same account as that of the parent, which the invariant is about
      exact hafter.respects.created (hparent.self (hbegins.message ▸ hsame.symm.trans ha))
    · -- code that was not there in the beginning comes from a creation
      rw [ha] at hcoded
      by_contra hcreated
      have hstood : StandsBy a pays base.view _ := hparent.standsBy.trans hafter.respects
      exact hcoded ((congrArg ByteArray.size (hstood.account hcreated).code).trans hcode)
    · exact ha ▸ hcreated
  | resume hbegins hresumes =>
    exact (hm.move (hbegins.moves_of_done (htop.respects hm.self))).congr
      (hresumes.message.trans hbegins.message)
  | pop hleaves hresumes => exact (hleaves.guarded htop hm).congr hresumes.message

end Frames

/-! ### Transactions -/

namespace Transaction

variable {tx : Transaction} {block : Block} {precompiles : Std.ExtTreeMap Address Precompile}
  {source : Source} {ctx : Context} {s s' : State} {m : Machine} {o : Outcome} {r : Receipt}
    {a : Address}

/-- Everybody but the sender stands by when the transaction moves its value. -/
theorem call_respects_standsBy (tx : Transaction) (recipient a : Address) (v : View) :
    (tx.call recipient).Respects (StandsBy a (tx.sender = a)) v :=
  fun _ _ hmoved => .moveValue (fun _ ha => .inl ha) hmoved

/-- A call or a creation that comes to nothing, other than by a refusal. -/
theorem start_done_standsBy (h : tx.start ctx s = .ok (.done o) s') (hs : tx.Covers s.view) :
    StandsBy a (tx.sender = a) (s.view.spendNonce tx.sender) s'.view := by
  by_cases hexit : o.exit = .halted
  · obtain ⟨s₁, -, ⟨-, address, hstarts⟩ | ⟨hview, recipient, hstarts⟩⟩ := starts_of_start h
    · -- a creation that halts has a frame
      cases hstarts with
      | _ => cases hexit
    · have hspent : s₁.view = s.view.spendNonce tx.sender := hview
      rw [← hspent]
      exact (hstarts.moves (tx.call_respects_standsBy recipient a _)).respects
  · obtain ⟨-, -, hview⟩ := start_done_failed h hs hexit
    rw [hview]
    exact Std.Refl.refl _

/-- The outermost frame runs where there is code, or where it creates a contract. -/
theorem start_frame_standsBy {entry : Frame} (h : tx.start ctx s = .ok (.frame entry) s')
    (hcode : ((s.view.spendNonce tx.sender).get a).code.size = 0) :
    ∃ c : State, c.view = s.view.spendNonce tx.sender ∧
      Moves (StandsBy a (tx.sender = a)) c.opened s' ∧ entry.Own ∧
      (entry.message.self = a → a ∈ s'.view.created) := by
  obtain ⟨s₁, -, ⟨hview, address, hstarts⟩ | ⟨hview, recipient, hstarts⟩⟩ := starts_of_start h
  · have hown := Frame.own_of_running hstarts.child_mode
    cases hstarts with
    | @frame c _ _ _ _ hspent henters =>
      rw [hview] at hspent
      refine ⟨c, hspent, ⟨henters.grows, ?_⟩, hown, fun ha => ?_⟩
      · exact .enterCreation .inl henters.entered
      · exact ha ▸ View.mem_created_of_enterOnView henters.entered
  · have hown := Frame.own_of_running hstarts.child_mode
    cases hstarts with
    | @frame c _ _ hquiet henters hcoded =>
      have hspent : c.view = s.view.spendNonce tx.sender := hquiet.view_eq.trans hview
      have hmoves := henters.moves (tx.call_respects_standsBy recipient a c.view)
      refine ⟨c, hspent, hmoves, hown, fun ha => ?_⟩
      -- the recipient has code, which a call does not put there
      by_contra hcreated
      have hsame := (hmoves.respects.account hcreated).code
      rw [State.opened_view, hspent] at hsame
      rw [← ha] at hsame hcode
      exact hcoded ((congrArg ByteArray.size hsame).trans hcode)

/-- Being charged leaves all code alone. -/
theorem chargedView_code (tx : Transaction) (block : Block) (source : Source) (a : Address) :
    ((tx.chargedView block source).get a).code = (source.get a).code := by
  rw [chargedView, View.get, View.charged_account, ← State.get_ofSource]
  split
  · next ha => rw [ha, Option.getD_some]
  · rfl

/-- While a transaction runs, the account at `a` stands by, above what the
transaction was charged. -/
theorem Passes.running_guarded (h : Passes tx block precompiles (.ofSource source) (.running m) s)
    (hcode : (source.get a).code.size = 0) :
    m.top.Own ∧ ∃ c : State, c.view = tx.chargedView block source ∧
      Guarded a (tx.sender = a) c (m.top :: m.waiting) m.state := by
  -- the code is the one that the source has, since the charge leaves it alone
  rw [← tx.chargedView_code block source] at hcode
  refine (h.running_induction (P := fun m => m.top.Own ∧
    ∃ c : State, c.view = tx.chargedView block source ∧
      Guarded a (tx.sender = a) c (m.top :: m.waiting) m.state)
    (fun hwarmed hstart => ?_) fun _ hm hiterate => ?_).1
  · obtain ⟨-, hcharged, -⟩ := hwarmed.warmed_charged
    rw [← hcharged] at hcode ⊢
    obtain ⟨c, hview, hmoves, hown, hself⟩ := start_frame_standsBy hstart hcode
    exact ⟨hown, c, hview, .cons (.nil (Std.Refl.refl c)) hself hmoves⟩
  · obtain ⟨hown, c, hview, hguarded⟩ := hm
    have hiterates := Machine.iterates_of_iterate hiterate
    exact ⟨hiterates.own, c, hview, hiterates.guarded hown (hview ▸ hcode) hguarded⟩

/-- **An account without code stands by** until the transaction is settled. -/
theorem Passes.ended_standsBy (h : Passes tx block precompiles (.ofSource source) (.ended o) s)
    (hcode : (source.get a).code.size = 0) :
    StandsBy a (tx.sender = a) (tx.chargedView block source) s.view := by
  cases h with
  | skip hwarmed hstart =>
    obtain ⟨-, hcharged, hcovers⟩ := hwarmed.warmed_charged
    rw [← hcharged]
    exact start_done_standsBy hstart hcovers
  | finish hrunning hiterate =>
    obtain ⟨hown, c, hview, hguarded⟩ := hrunning.running_guarded hcode
    -- only the outermost frame leaves with an outcome, and then no layer is left
    obtain ⟨hnone, -⟩ | ⟨o', ho, hwaiting, hleaves⟩ := Machine.iterate_cases hiterate
    · cases hnone
    · cases ho
      rw [hwaiting] at hguarded
      rw [← hview]
      exact (hleaves.guarded hown hguarded).standsBy

/-! ### Settling -/

/-- Removing accounts leaves those alone that are not in `S`: one that is removed for being empty
counts as what it was. -/
structure Tidies (S : AddressSet) (s s' : State) : Prop where
  get : ∀ a, a ∉ S → s'.view.get a = s.view.get a
  created : s'.view.created = s.view.created

instance {S : AddressSet} : Std.Refl (Tidies S) := ⟨fun _ => ⟨fun _ _ => rfl, rfl⟩⟩

instance {S : AddressSet} : IsTrans State (Tidies S) :=
  ⟨fun _ _ _ h h' => ⟨fun a ha => (h'.get a ha).trans (h.get a ha), h'.created.trans h.created⟩⟩

/-- Deleting an address in `S` leaves the others alone. -/
theorem delete_tidies {S : AddressSet} {b : Address} (hb : b ∈ S) :
    Keeps (Tidies S) (World.delete b) := by
  intro s _ s' h
  have hview := (World.delete_mirrors b).view_eq h
  refine ⟨fun a ha => ?_, ?_⟩
  · have hne : a ≠ b := fun hab => ha (hab ▸ hb)
    rw [hview, View.get_set, if_neg hne]
  · rw [hview]
    rfl

/-- Removing an account for being empty changes nothing that is found at any address. -/
theorem prune_tidies (S : AddressSet) (b : Address) : Keeps (Tidies S) (prune b) := by
  intro s _ s' h
  have hview := (prune_mirrors b).view_eq h
  rw [View.prune] at hview
  split at hview
  · next hempty =>
    refine ⟨fun a _ => ?_, ?_⟩
    · rw [hview, View.get_set]
      split
      · -- an account that is removed for being empty reads as the empty one that it was
        next ha => rw [ha, Account.eq_of_isEmpty hempty.2, Option.getD_none]
      · rfl
    · rw [hview]
      rfl
  · exact ⟨fun _ _ => hview ▸ rfl, hview ▸ rfl⟩

/-- Removing accounts leaves all those alone that are not marked for deletion. -/
theorem removeAccounts_tidies {selfDestructed : List Address}
    (h : removeAccounts s = .ok selfDestructed s') :
    Tidies s.view.selfDestructs s s' := by
  obtain ⟨rfl, s₁, hdelete, hprune⟩ := removeAccounts_ok h
  have hdeleted : Tidies s.view.selfDestructs s s₁ :=
    Keeps.forM_of_mem (fun b hb => delete_tidies (Std.ExtTreeSet.mem_toList.mp hb)) hdelete
  exact IsTrans.trans _ _ _ hdeleted (Keeps.forM (prune_tidies _) hprune)

/-- **Settling**, seen from an account that is not marked for deletion: nothing happens to it,
unless it is the sender or the coinbase. -/
theorem Settles.get (h : Settles tx block o s r s') (hretains : Retains (.ofSource source) s)
    (hmarks : (State.ofSource source).view.Marks s.view) :
    s'.world.created = s.view.created ∧ ∀ a, a ∉ s.view.selfDestructs →
      s'.world.source.get a = ((s.view.credit tx.sender
        ((tx.gasLimit - r.gasUsed) * tx.effectiveGasPrice block.baseFee)).credit block.coinbase
        (r.gasUsed * (tx.effectiveGasPrice block.baseFee - block.baseFee))).get a := by
  obtain ⟨s₁, s₂, hgrows, hview, hremove, hsource, hcreated, -⟩ := h.exists_removed
  have htidies := removeAccounts_tidies hremove
  obtain ⟨-, hremoved⟩ := removeAccounts_moves hremove
  -- all that was changed is marked, so it is written back
  have hmarks₁ : s.view.Marks s₁.view := by
    rw [hview]
    exact ((s.view.marks_set tx.sender _).trans (View.marks_set _ block.coinbase _)).trans
      (.of_eq rfl rfl)
  obtain ⟨-, hshown⟩ := World.flushedSource_eq_shown
    (hretains.trans (hgrows.trans hremoved.toGrows).toRetains)
    ((hmarks.trans hmarks₁).trans hremoved.respects.marks)
  constructor
  · exact hcreated.trans (htidies.created.trans (hview ▸ rfl))
  · intro a ha
    calc s'.world.source.get a = s₂.view.get a := by
          rw [hsource]
          exact congrArg (·.getD {}) (hshown a)
      _ = s₁.view.get a := htidies.get a (hview ▸ ha)
      _ = _ := by
          rw [hview]
          rfl

/-- **What an account without code is after a transaction**, unless a contract was
created there: what it was when the transaction was settled, with what is given to the
sender and to the coinbase then. -/
theorem get_of_apply (h : tx.apply block precompiles (.ofSource source) = .ok r s')
    (hcode : (source.get a).code.size = 0) (hcreated : a ∉ s'.world.created) :
    ∃ o s, Passes tx block precompiles (.ofSource source) (.ended o) s ∧
      r.gasUsed = tx.gasUsed o s.substate.refund ∧ a ∉ s.view.created ∧
      StandsBy a (tx.sender = a) (tx.chargedView block source) s.view ∧
      s'.world.source.get a = ((s.view.credit tx.sender
        ((tx.gasLimit - r.gasUsed) * tx.effectiveGasPrice block.baseFee)).credit block.coinbase
        (r.gasUsed * (tx.effectiveGasPrice block.baseFee - block.baseFee))).get a := by
  obtain ⟨o, s, hended, hsettle⟩ := exists_ended_of_apply h
  have hstands := hended.ended_standsBy hcode
  obtain ⟨-, -, -, hgasUsed, -⟩ := (settles_of_settle hsettle).receipt
  have hmarks : (State.ofSource source).view.Marks s.view :=
    (View.marks_charged _ _ _).trans hstands.marks
  obtain ⟨hsame, hget⟩ := (settles_of_settle hsettle).get hended.ended_retains hmarks
  have hcreated₀ : a ∉ s.view.created := hsame ▸ hcreated
  have hunmarked : a ∉ s.view.selfDestructs :=
    hstands.unmarked hcreated₀ Std.ExtTreeSet.not_mem_empty
  exact ⟨o, s, hended, hgasUsed, hcreated₀, hstands, hget a hunmarked⟩

/-- Once the sender is charged, an account without code changes in its balance only. -/
theorem sameButBalance_of_apply (h : tx.apply block precompiles (.ofSource source) = .ok r s')
    (hcode : (source.get a).code.size = 0) (hcreated : a ∉ s'.world.created) :
    ((tx.chargedView block source).get a).SameButBalance (s'.world.source.get a) := by
  obtain ⟨o, s, -, -, hcreated₀, hstands, hget⟩ := get_of_apply h hcode hcreated
  rw [hget]
  exact ((hstands.account hcreated₀).trans (View.sameButBalance_credit ..)).trans
    (View.sameButBalance_credit ..)

/-- Nobody but the sender is charged. -/
theorem chargedView_get_of_ne (ha : a ≠ tx.sender) :
    (tx.chargedView block source).get a = source.get a := by
  rw [chargedView, View.get, View.charged_account, if_neg ha, ← State.get_ofSource]
  rfl

namespace NonNegative

/-- Whoever can pay is not in debt after being charged. -/
theorem chargedView_solvent (h : tx.NonNegative block precompiles source)
    (hadmissible : tx.Admissible block (State.ofSource source).view) :
    (tx.chargedView block source).Solvent := by
  have hcost := hadmissible.cost_add_value_le
  have hvalue := h.value
  -- the nonce is no balance
  have hspent (v : View) : Conserves v (v.spendNonce tx.sender) := .update v tx.sender fun _ => rfl
  refine (hspent _).solvent (h.view.solvent.set ?_)
  dsimp only [Option.getD_some]
  omega

/-- The coinbase is never charged. -/
theorem fee_nonneg (h : tx.NonNegative block precompiles source)
    (hadmissible : tx.Admissible block (State.ofSource source).view)
    (hended : tx.Passes block precompiles (.ofSource source) (.ended o) s) :
    0 ≤ tx.gasUsed o s.substate.refund * (tx.effectiveGasPrice block.baseFee - block.baseFee) := by
  have hprice := h.baseFee_le hadmissible
  have hwithin := (hended.ended_within h).le
  have hintrinsic := tx.size_lt_intrinsicGas
  have hused : 0 ≤ tx.gasUsed o s.substate.refund := by
    unfold gasUsed gasSpent refundOf Gas.refundQuotient
    omega
  exact mul_nonneg hused (sub_nonneg.mpr hprice)

end NonNegative

/-- **Nobody can harm an account without code but the sender.** Whatever code was executed in a
transaction, and whatever it called, created or destroyed: an account that had no code before, at an
address where no contract was created, has the same nonce, code and storage afterwards, and its
balance is not lower. -/
theorem codeless_bystander_is_unharmed (tx : Transaction) (block : Block)
    (precompiles : Std.ExtTreeMap Address Precompile) (source : Source) (r : Receipt) (s' : State)
    (a : Address) (hnonneg : tx.NonNegative block precompiles source)
    (happly : tx.apply block precompiles (.ofSource source) = .ok r s') (ha : a ≠ tx.sender)
    (hcode : (source.get a).code.size = 0) (hcreated : a ∉ s'.world.created) :
    (s'.world.source.get a).nonce = (source.get a).nonce ∧
    (s'.world.source.get a).code = (source.get a).code ∧
    (s'.world.source.get a).storage = (source.get a).storage ∧
    (source.get a).balance ≤ (s'.world.source.get a).balance := by
  have hadmissible := admissible_of_apply happly
  obtain ⟨o, s, hended, hgasUsed, hcreated₀, hstands, hget⟩ := get_of_apply happly hcode hcreated
  have hcharged : (tx.chargedView block source).get a = source.get a := chargedView_get_of_ne ha
  have hsame := hcharged ▸ sameButBalance_of_apply happly hcode hcreated
  refine ⟨hsame.nonce, hsame.code, hsame.storage, ?_⟩
  rw [hget]
  -- first what was done to it in the run, then what it may be given at the end
  calc (source.get a).balance
      = ((tx.chargedView block source).get a).balance := by rw [hcharged]
    _ ≤ (s.view.get a).balance :=
        hstands.balance hcreated₀ (hnonneg.chargedView_solvent hadmissible) (Ne.symm ha)
    _ ≤ _ := View.balance_le_credit fun hsender => absurd hsender ha
    _ ≤ _ := View.balance_le_credit fun _ => hgasUsed ▸ hnonneg.fee_nonneg hadmissible hended

/-- A contract that calls an account without code in every way there is, with and without value, and
then destroys itself in its favour. -/
theorem bystander_of_a_hostile_contract_gains :
    let source : Source :=
      { accounts :=
          (((∅ : Std.ExtTreeMap Address Account).insert 1 { balance := 10000000 }).insert 2
          { balance := 5
            code := ⟨#[0x60, 0, 0x60, 0, 0x60, 0, 0x60, 0, 0x60, 1, 0x60, 3, 0x5a, 0xf2,
              0x60, 0, 0x60, 0, 0x60, 0, 0x60, 0, 0x60, 3, 0x5a, 0xf4,
              0x60, 0, 0x60, 0, 0x60, 0, 0x60, 0, 0x60, 2, 0x60, 3, 0x5a, 0xf1,
              0x60, 3, 0xff]⟩ }).insert 3
          { nonce := 7, balance := 10, storage := (∅ : Storage).write 1 2 } }
    let block : Block := { coinbase := 3, baseFee := 7 }
    let tx : Transaction :=
      { sender := 1, nonce := 0, gasLimit := 200000, recipient := some 2, value := 3,
        gasPrice := 10 }
    tx.NonNegative block ∅ source ∧ ∃ r s', tx.apply block ∅ (.ofSource source) = .ok r s' ∧
      r.status = .success ∧ (3 : Address) ∉ s'.world.created ∧ (s'.world.source.get 3).nonce = 7 ∧
      (s'.world.source.get 3).code.size = 0 ∧
      (s'.world.source.get 3).storage = (source.get 3).storage ∧
      10 ≤ (s'.world.source.get 3).balance := by
  intro source block tx
  have hnonneg : tx.NonNegative block ∅ source := by
    refine ⟨by decide, by decide, nofun, nofun, by decide, by decide, by decide, by decide,
      by decide, by decide, fun hnone => ?_, fun {a account} h => ?_⟩
    · rw [Std.ExtTreeMap.getElem?_empty] at hnone
      cases hnone
    · -- the three accounts, from the last that was put in
      rw [Std.ExtTreeMap.getElem?_insert] at h
      split at h
      · cases h
        refine ⟨by decide, fun key => ?_⟩
        rw [Storage.read_write]
        split
        · decide
        · exact le_rfl
      · rw [Std.ExtTreeMap.getElem?_insert] at h
        split at h
        · cases h
          exact ⟨by decide, fun _ => le_rfl⟩
        · rw [Std.ExtTreeMap.getElem?_insert] at h
          split at h
          · cases h
            exact ⟨by decide, fun _ => le_rfl⟩
          · rw [Std.ExtTreeMap.getElem?_empty] at h
            cases h
  have hends : endsWith (fun r s' => decide (r.status = .success ∧
      (3 : Address) ∉ s'.world.created))
      (tx.apply block ∅ (.ofSource source)) = true := by decide +kernel
  obtain ⟨r, s', happly, hends⟩ := endsWith_iff.mp hends
  obtain ⟨hstatus, hcreated⟩ := of_decide_eq_true hends
  obtain ⟨hnonce, hcode, hstorage, hbalance⟩ :=
    codeless_bystander_is_unharmed tx block ∅ source r s' 3 hnonneg
    happly (by decide) (by decide +kernel) hcreated
  have hbefore : (source.get 3).nonce = 7 ∧ (source.get 3).code.size = 0 ∧
      (source.get 3).balance = 10 := by
    decide +kernel
  refine ⟨hnonneg, r, s', happly, hstatus, hcreated, hnonce.trans hbefore.1, ?_, hstorage, ?_⟩
  · rw [hcode]
    exact hbefore.2.1
  · rw [← hbefore.2.2]
    exact hbalance

end Transaction

end EvmCore
