import EvmCore.Proofs.Replay
import Mathlib

/-!
# Which empty accounts a transaction leaves behind

An account can become empty, or come into being empty, in many ways: it is called without value, it
sends all it has away, a contract destroys itself in its favour, it is the coinbase of a transaction
without a fee. All of these touch it, and settling removes the touched accounts that are empty. What
has to be shown is that nothing else empties an account or brings an empty one into being.

An account with code is not empty, and it keeps its code. An account without code acts only where a
contract is created at its address, so as long as that is not so, all that can happen to it is that
value is moved to it, and whoever does that touches it (`View.PassesOver`). The sender of a
transaction is the exception. It pays without being touched, but it has spent a nonce, so it is not
empty, unless its nonce was `-1` before.
-/

namespace EvmCore

/-- There is an account at `a`, and it is empty. -/
def Source.HoldsEmpty (source : Source) (a : Address) : Prop :=
  (source.accounts[a]?).any Account.isEmpty = true

instance (source : Source) (a : Address) : Decidable (source.HoldsEmpty a) :=
  inferInstanceAs (Decidable (_ = true))

/-- The same with the account named. -/
theorem Source.holdsEmpty_iff {source : Source} {a : Address} :
    source.HoldsEmpty a ↔ ∃ account, source.accounts[a]? = some account ∧ account.isEmpty = true :=
  Option.any_eq_true _ _

/-- An empty account has no code. -/
theorem Account.code_of_isEmpty {account : Account} (h : account.isEmpty = true) :
    account.code.size = 0 := by
  rw [eq_of_isEmpty h]
  rfl

/-! ### Changes that pass over an account -/

namespace View

variable {a b : Address} {pays : Prop} {v v' v'' : View}

/-- The account at `a` may be changed: a contract was created there, it was touched, it has code, or
it is the one that pays. -/
def Exposed (a : Address) (pays : Prop) (v : View) : Prop :=
  a ∈ v.created ∨ a ∈ v.touched ∨ (v.get a).code.size ≠ 0 ∨ pays

/-- What all work between two views does to the account at `a`, unless a contract was
created there: its code stays, and if it has none and was not touched, nothing happens to
it, unless it is the one that pays. -/
structure PassesOver (a : Address) (pays : Prop) (v v' : View) : Prop where
  created : a ∈ v.created → a ∈ v'.created
  touched : a ∈ v.touched → a ∈ v'.touched
  code : a ∉ v'.created → (v'.get a).code = (v.get a).code
  account : a ∉ v'.created → a ∉ v'.touched → (v.get a).code.size = 0 → ¬pays →
    v'.account a = v.account a

/-- An account that is marked was touched. -/
theorem mem_touched_markTouched (v : View) (a : Address) : a ∈ (v.markTouched a).touched :=
  Std.ExtTreeSet.mem_insert.mpr (.inl Std.ReflOrd.compare_self)

namespace PassesOver

/-- To pass over twice is to pass over. -/
theorem trans (h : PassesOver a pays v v') (h' : PassesOver a pays v' v'') :
    PassesOver a pays v v'' where
  created := h'.created ∘ h.created
  touched := h'.touched ∘ h.touched
  code hcreated := (h'.code hcreated).trans (h.code (mt h'.created hcreated))
  account hcreated htouched hcode hpays := by
    -- a contract that was not created by the end was not created in between
    have hcreated' := mt h'.created hcreated
    have hcode' : (v'.get a).code.size = 0 :=
      (congrArg ByteArray.size (h.code hcreated')).trans hcode
    exact (h'.account hcreated htouched hcode' hpays).trans
      (h.account hcreated' (mt h'.touched htouched) hcode hpays)

/-- Where a contract was created nothing need be passed over. -/
theorem of_created (hcreated : a ∈ v'.created) (htouched : a ∈ v.touched → a ∈ v'.touched) :
    PassesOver a pays v v' where
  created _ := hcreated
  touched := htouched
  code hnot := absurd hcreated hnot
  account hnot := absurd hcreated hnot

/-- Whatever leaves the account alone and forgets no mark passes over it. -/
theorem of_account_eq (hcreated : a ∈ v.created → a ∈ v'.created)
    (htouched : a ∈ v.touched → a ∈ v'.touched) (haccount : v'.account a = v.account a) :
    PassesOver a pays v v' where
  created := hcreated
  touched := htouched
  code _ := by rw [View.get, haccount, View.get]
  account _ _ _ _ := haccount

instance : Std.Refl (PassesOver a pays) := ⟨fun _ => of_account_eq id id rfl⟩

instance : IsTrans View (PassesOver a pays) := ⟨fun _ _ _ => trans⟩

/-- Who may be changed may be changed later on. -/
theorem exposed (h : PassesOver a pays v v') (hv : v.Exposed a pays) : v'.Exposed a pays := by
  rcases hv with hcreated | htouched | hcode | hpays
  · exact .inl (h.created hcreated)
  · exact .inr (.inl (h.touched htouched))
  · -- if a contract was created there meanwhile the code may have changed, but that is enough
    by_cases hcreated : a ∈ v'.created
    · exact .inl hcreated
    · refine .inr (.inr (.inl ?_))
      rw [h.code hcreated]
      exact hcode
  · exact .inr (.inr (.inr hpays))

/-- Replacing another account, whatever it is replaced by. -/
theorem update_of_created {f : Account → Account} (hb : b = a → a ∈ v.created) :
    PassesOver a pays v (v.update b f) := by
  by_cases ha : b = a
  · exact of_created (hb ha) id
  · refine of_account_eq id id ?_
    rw [account_update, if_neg (Ne.symm ha)]

/-- Changing an account that may be changed, but not its code. -/
theorem update {f : Account → Account} (hf : ∀ account, (f account).code = account.code)
    (hb : b = a → v.Exposed a pays) : PassesOver a pays v (v.update b f) := by
  by_cases ha : b = a
  · subst ha
    rcases hb rfl with hcreated | hexposed
    · exact of_created hcreated id
    · refine ⟨id, id, fun _ => ?_, fun _ htouched hcode hpays => ?_⟩
      · rw [get_update, if_pos rfl, hf]
      · -- it was touched, it has code or it pays, and each of these is ruled out
        exact (hexposed.elim htouched (Or.elim · (absurd hcode) hpays)).elim
  · exact update_of_created fun hb' => absurd hb' ha

theorem markTouched (v : View) (b : Address) : PassesOver a pays v (v.markTouched b) :=
  of_account_eq id (fun htouched => Std.ExtTreeSet.mem_insert.mpr (.inr htouched)) rfl

/-- An account that comes into being is touched. -/
theorem touch (v : View) (b : Address) : PassesOver a pays v ((v.touch b).markTouched b) := by
  obtain htouch | htouch := v.touch_cases b
  · rw [htouch]
    exact markTouched v b
  · rw [htouch]
    -- the mark can as well be set before the account is written back
    exact (markTouched v b).trans (update (fun _ => rfl) fun hb =>
      .inr (.inl (hb ▸ v.mem_touched_markTouched b)))

/-- A write to storage passes over all accounts but the one that is written. -/
theorem storeSlot {self : Address} {key value : Word} (hself : self = a → v.Exposed a pays)
    (h : View.storeSlot self key value v = .ok () v') : PassesOver a pays v v' := by
  obtain ⟨refund, rfl⟩ := storeSlot_ok h
  -- the refund counter is no part of any account
  have hrefund : PassesOver a pays v { v with refund } := of_account_eq id id rfl
  exact hrefund.trans (update (fun _ => rfl) fun ha => hrefund.exposed (hself ha))

/-- So does a contract that destroys itself, as its beneficiary is touched. -/
theorem selfDestruct {self beneficiary : Address} (hself : self = a → v.Exposed a pays)
    (h : View.selfDestruct self beneficiary v = .ok () v') : PassesOver a pays v v' := by
  obtain rfl := selfDestruct_ok h
  -- the beneficiary is touched after it was paid, which is the same as before
  have hpaid : PassesOver a pays v
      ((v.markTouched beneficiary).credit beneficiary (v.get self).balance) :=
    (markTouched v beneficiary).trans (update (fun _ => rfl) fun hb =>
      .inr (.inl (hb ▸ v.mem_touched_markTouched beneficiary)))
  have hemptied := hpaid.trans (update (f := ({ · with balance := 0 })) (fun _ => rfl) fun ha =>
    hpaid.exposed (hself ha))
  exact hemptied.trans (of_account_eq id id rfl)

theorem transfer {sender recipient : Address} {value : Int}
    (hsender : sender = a → v.Exposed a pays) (hrecipient : recipient = a → v.Exposed a pays)
    (h : View.transfer sender recipient value v = .ok () v') : PassesOver a pays v v' := by
  obtain rfl := transfer_ok h
  have hpaid : PassesOver a pays v (v.credit sender (-value)) := update (fun _ => rfl) hsender
  exact hpaid.trans (update (fun _ => rfl) fun ha => hpaid.exposed (hrecipient ha))

/-- **Moving the value of a call** passes over all but the caller, as the callee is touched. -/
theorem moveValue {c : Call} (hcaller : c.transfersValue = true → c.caller = a → v.Exposed a pays)
    (h : c.moveOnView v = .ok () v') : PassesOver a pays v v' := by
  have hmarked : PassesOver a pays v ((v.touch c.address).markTouched c.address) :=
    touch v c.address
  obtain rfl | ⟨htransfers, rfl | ⟨-, h⟩⟩ := c.moveOnView_ok h
  · exact Std.Refl.refl _
  · exact hmarked
  · -- the callee is touched before it is paid
    refine hmarked.trans (transfer (fun ha => ?_) (fun ha => ?_) h)
    · exact hmarked.exposed (hcaller htransfers ha)
    · exact .inr (.inl (ha ▸ mem_touched_markTouched _ _))

theorem create (v : View) (b : Address) : PassesOver a pays v (v.create b) := by
  by_cases ha : b = a
  · exact of_created (Std.ExtTreeSet.mem_insert.mpr (.inl (Std.compare_eq_iff_eq.mpr ha))) id
  · refine of_account_eq (fun hcreated => Std.ExtTreeSet.mem_insert.mpr (.inr hcreated)) id ?_
    exact Function.update_of_ne (Ne.symm ha) _ _

/-- **Entering a creation** passes over all but the creator. -/
theorem enterCreation {c : Creation} (hcreator : c.creator = a → v.Exposed a pays)
    (h : c.enterOnView v = .ok () v') : PassesOver a pays v v' := by
  -- the new contract is still marked as created when it is paid
  have hentered := mem_created_of_enterOnView h
  have hcreated : PassesOver a pays v (v.create c.address) := create v c.address
  obtain rfl | ⟨-, h⟩ := c.enterOnView_ok h
  · exact hcreated
  · refine hcreated.trans (transfer (fun ha => hcreated.exposed (hcreator ha)) (fun ha => ?_) h)
    obtain rfl := transfer_ok h
    exact .inl (ha ▸ hentered)

end PassesOver

end View

open View (PassesOver)

/-! ### Frames -/

/-- If the frame runs on the account at `a`, then a contract was created there, or there is code and
the frame does not run init code. -/
def Frame.RunsOnContract (a : Address) (f : Frame) (v : View) : Prop :=
  f.message.self = a → a ∈ v.created ∨ f.message.isInit = false ∧ (v.get a).code.size ≠ 0

section Frames

variable {ctx : Context} {f f' child : Frame} {s s' : State} {a : Address} {pays : Prop} {v : View}

/-- A frame that runs on an account may change it. -/
theorem Frame.RunsOnContract.exposed (h : f.RunsOnContract a v) (hself : f.message.self = a) :
    v.Exposed a pays := by
  rcases h hself with hcreated | ⟨-, hcode⟩
  · exact .inl hcreated
  · exact .inr (.inr (.inl hcode))

/-- Running on a contract lasts: marks stay, and code stays where no contract was created. -/
theorem Frame.runsOnContract_lasting (a : Address) (pays : Prop) :
    Frame.Lasting (PassesOver a pays) (RunsOnContract a) where
  view := by
    intro f v v' h hf hself
    -- the code can have changed only if a contract was created there meanwhile
    rcases hf hself with hcreated | ⟨hinit, hcode⟩
    · exact .inl (h.created hcreated)
    · by_cases hcreated : a ∈ v'.created
      · exact .inl hcreated
      · exact .inr ⟨hinit, by rwa [h.code hcreated]⟩
  message := by
    intro f f' v hmessage hf
    rw [RunsOnContract, hmessage]
    exact hf

/-- **A frame passes over every account but the one it runs on.** -/
theorem Frame.RunsOnContract.respects (h : f.RunsOnContract a v) (hf : f.Own) :
    f.Respects (PassesOver a pays) v where
  write := by
    intro v' _ _ hwrites
    cases hwrites with
    | storeSlot _ hstored => exact .storeSlot h.exposed hstored
    | addLog log => exact .of_account_eq id id rfl
    | selfDestruct hdestructed => exact .selfDestruct h.exposed hdestructed
  call hmode _ _ hmoved :=
    .moveValue (fun htransfers ha =>
      h.exposed (((hf _ hmode).caller htransfers).symm.trans ha)) hmoved
  create _ _ := by
    have hspent : PassesOver a pays v (v.spendNonce f.message.self) :=
      .update (fun _ => rfl) h.exposed
    exact ⟨hspent, fun _ _ _ hentered => .enterCreation
      (fun ha => hspent.exposed (h.exposed ha)) hentered⟩
  deploy _ hinit _ := by
    -- only init code deploys, so a contract was created where it runs
    refine .update_of_created fun ha => (h ha).elim id fun hcoded => ?_
    exact absurd hinit (Bool.eq_false_iff.mp hcoded.1)

/-- A child that does not run on the account of its parent runs on a contract. -/
theorem Begins.child_runsOnContract (h : Begins ctx f s f' (.frame child) s') (hf : f.Own)
    (hparent : f.RunsOnContract a s'.view) : child.RunsOnContract a s'.view := by
  intro ha
  cases h with
  | @call r _ _ hmode hstarts =>
    cases hstarts with
    | frame _ _ _ hcode =>
      have hself : r.address = a := ha
      rcases (hf _ hmode).address with hsame | hother
      · -- the account of the caller, or one with the code that is run
        refine (hparent (hsame.symm.trans hself)).imp id fun hcoded => ⟨rfl, hcoded.2⟩
      · refine .inr ⟨rfl, ?_⟩
        rw [← hself, hother]
        exact hcode
  | create _ _ _ hstarts =>
    cases hstarts with
    | frame _ _ _ _ henters => exact .inl (ha ▸ View.mem_created_of_enterOnView henters.entered)

end Frames

/-! ### Removing accounts -/

namespace View

variable {f : View → Address → View} {g : Option Account → Option Account}

/-- Doing the same to the accounts at some addresses in turn, where doing it
twice makes no difference. -/
theorem account_foldl
    (hf : ∀ v a b, (f v a).account b = if b = a then g (v.account b) else v.account b)
    (hg : ∀ account, g (g account) = g account) (l : List Address) (v : View) (b : Address) :
    (l.foldl f v).account b = if b ∈ l then g (v.account b) else v.account b := by
  -- by induction on the addresses, each of which may come again later
  induction l generalizing v with
  | nil => rw [List.foldl_nil, if_neg List.not_mem_nil]
  | cons a l ih =>
    rw [List.foldl_cons, ih, hf]
    by_cases hb : b = a
    · simp only [hb, if_true, List.mem_cons, true_or, hg, ite_self]
    · simp only [hb, if_false, List.mem_cons, false_or]

/-- What is not touched on the way is not touched in the end. -/
theorem touched_foldl (hf : ∀ v a, (f v a).touched = v.touched) (l : List Address) (v : View) :
    (l.foldl f v).touched = v.touched := by
  induction l generalizing v with
  | nil => rfl
  | cons a l ih => rw [List.foldl_cons, ih, hf]

/-- Removing an account for being empty is a filter at its address. -/
theorem account_prune (v : View) (a b : Address) :
    (v.prune a).account b = if b = a then (v.account b).filter (!·.isEmpty) else v.account b := by
  rw [prune]
  by_cases hb : b = a
  · subst hb
    rw [if_pos rfl, View.get]
    cases haccount : v.account b with
    | none => exact haccount
    | some account =>
      by_cases hempty : account.isEmpty = true
      · simp [hempty, set, Option.filter]
      · simp [hempty, haccount, Option.filter]
  · rw [if_neg hb]
    split
    · exact Function.update_of_ne hb _ _
    · rfl

/-- It touches nothing. -/
theorem touched_prune (v : View) (a : Address) : (v.prune a).touched = v.touched := by
  rw [prune]
  split
  · rfl
  · rfl

end View

/-- A computation that is done at some addresses in turn shows what doing its
mirror image in turn shows. -/
theorem Mirrors.view_eq_of_forM {x : Address → Action Unit} {f : View → Address → View}
    {l : List Address} {s s' : State} {u : Unit}
    (hx : ∀ a, Mirrors (x a) (View.writes fun v => f v a)) (h : l.forM x s = .ok u s') :
    s'.view = l.foldl f s.view := by
  -- by induction on the addresses
  induction l generalizing s with
  | nil =>
    obtain ⟨-, rfl⟩ := pure_ok_iff.mp h
    rfl
  | cons a l ih =>
    obtain ⟨_, s₁, hfirst, h⟩ := bind_ok_iff.mp h
    rw [ih h, (hx a).view_eq hfirst, List.foldl_cons]

namespace Transaction

variable {tx : Transaction} {block : Block} {precompiles : Std.ExtTreeMap Address Precompile}
  {source : Source} {ctx : Context} {s s' : State} {m : Machine} {o : Outcome} {r : Receipt}
  {a : Address}

/-- **What is removed**: all that destroyed itself, and of the rest what was
touched and is empty. -/
theorem removeAccounts_account {selfDestructed : List Address}
    (h : removeAccounts s = .ok selfDestructed s') :
    s'.view.touched = s.view.touched ∧ ∀ b, s'.view.account b =
      if b ∈ s.view.selfDestructs then none
      else if b ∈ s.view.touched then (s.view.account b).filter (!·.isEmpty)
      else s.view.account b := by
  obtain ⟨rfl, s₁, hdelete, hprune⟩ := removeAccounts_ok h
  have hdeleted := Mirrors.view_eq_of_forM World.delete_mirrors hdelete
  have hpruned := Mirrors.view_eq_of_forM prune_mirrors hprune
  -- neither a deletion nor the removal of an empty account touches anything
  have htouched₁ : s₁.view.touched = s.view.touched := by
    rw [hdeleted]
    exact View.touched_foldl (f := fun v a => v.set a none) (fun _ _ => rfl) _ _
  have htouched₂ : s'.view.touched = s₁.view.touched := by
    rw [hpruned]
    exact View.touched_foldl View.touched_prune _ _
  refine ⟨htouched₂.trans htouched₁, fun b => ?_⟩
  have hnone : s₁.view.account b = if b ∈ s.view.selfDestructs then none else s.view.account b := by
    rw [hdeleted, View.account_foldl (g := fun _ => none) ?_ (fun _ => rfl)]
    · simp only [Std.ExtTreeSet.mem_toList]
    · exact fun v a b => Function.update_apply _ _ _ _
  have hkept : s'.view.account b =
      if b ∈ s₁.view.touched then (s₁.view.account b).filter (!·.isEmpty)
        else s₁.view.account b := by
    -- an account that is touched twice is removed once
    rw [hpruned, View.account_foldl View.account_prune fun account => ?_]
    · simp only [Std.ExtTreeSet.mem_toList]
    · rw [Option.filter_filter]
      simp only [Bool.and_self]
  rw [hkept, hnone, htouched₁]
  by_cases hb : b ∈ s.view.selfDestructs
  · rw [if_pos hb, if_pos hb, Option.filter_none, ite_self]
  · rw [if_neg hb, if_neg hb]

/-! ### Running -/

/-- A transaction passes over everybody but its sender when it moves its value. -/
theorem call_respects_passesOver (tx : Transaction) (recipient a : Address) (v : View) :
    (tx.call recipient).Respects (PassesOver a (tx.sender = a)) v := by
  intro v' _ hmoved
  exact .moveValue (fun _ ha => .inr (.inr (.inr ha))) hmoved

/-- A call or a creation that comes to nothing, other than by a refusal. -/
theorem start_done_passesOver (h : tx.start ctx s = .ok (.done o) s') (hs : tx.Covers s.view) :
    PassesOver a (tx.sender = a) (s.view.spendNonce tx.sender) s'.view := by
  by_cases hexit : o.exit = .halted
  · obtain ⟨s₁, -, ⟨-, address, hstarts⟩ | ⟨hview, recipient, hstarts⟩⟩ := starts_of_start h
    · -- a creation that halts has a frame
      cases hstarts with
      | _ => cases hexit
    · have hspent : s₁.view = s.view.spendNonce tx.sender := hview
      rw [← hspent]
      exact (hstarts.moves (tx.call_respects_passesOver recipient a _)).respects
  · obtain ⟨-, -, hview⟩ := start_done_failed h hs hexit
    rw [hview]
    exact Std.Refl.refl _

/-- The outermost frame runs where there is code, or where it creates a contract. -/
theorem start_frame_passesOver {entry : Frame} (h : tx.start ctx s = .ok (.frame entry) s')
    (a : Address) :
    ∃ c : State, c.view = s.view.spendNonce tx.sender ∧
      Moves (PassesOver a (tx.sender = a)) c.opened s' ∧ entry.Own ∧
      entry.RunsOnContract a s'.view := by
  obtain ⟨s₁, -, ⟨hview, address, hstarts⟩ | ⟨hview, recipient, hstarts⟩⟩ := starts_of_start h
  · have hown := Frame.own_of_running hstarts.child_mode
    cases hstarts with
    | @frame c _ _ _ _ hspent henters =>
      rw [hview] at hspent
      refine ⟨c, hspent, ⟨henters.grows, ?_⟩, hown, fun ha => .inl ?_⟩
      · exact .enterCreation (fun ha => .inr (.inr (.inr ha))) henters.entered
      · exact ha ▸ View.mem_created_of_enterOnView henters.entered
  · have hown := Frame.own_of_running hstarts.child_mode
    cases hstarts with
    | @frame c _ _ hquiet henters hcoded =>
      have hmoves := henters.moves (tx.call_respects_passesOver recipient a c.view)
      refine ⟨c, hquiet.view_eq.trans hview, hmoves, hown, fun ha => .inr ⟨rfl, ?_⟩⟩
      rw [← ha]
      exact hcoded

/-- While a transaction runs, it passes over the account at `a`, above what it was charged. -/
theorem Passes.running_passesOver
    (h : Passes tx block precompiles (.ofSource source) (.running m) s) (a : Address) :
    m.top.Own ∧ ∃ c : State, c.view = tx.chargedView block source ∧
      Tiered (PassesOver a (tx.sender = a)) (Frame.RunsOnContract a) c
        (m.top :: m.waiting) m.state := by
  refine (h.running_induction (P := fun m => m.top.Own ∧
    ∃ c : State, c.view = tx.chargedView block source ∧
      Tiered (PassesOver a (tx.sender = a)) (Frame.RunsOnContract a) c (m.top :: m.waiting) m.state)
    (fun hwarmed hstart => ?_) fun _ hm hiterate => ?_).1
  · obtain ⟨-, hcharged, -⟩ := hwarmed.warmed_charged
    rw [← hcharged]
    obtain ⟨c, hview, hmoves, hown, hruns⟩ := start_frame_passesOver hstart a
    exact ⟨hown, c, hview, .cons (.nil (Std.Refl.refl c)) hruns hmoves⟩
  · obtain ⟨hown, c, hview, htiered⟩ := hm
    have hiterates := Machine.iterates_of_iterate hiterate
    refine ⟨hiterates.own, c, hview,
      hiterates.tiered (Frame.runsOnContract_lasting a _) ?_ ?_ htiered⟩
    · exact htiered.top.respects hown
    · exact fun hbegins => hbegins.child_runsOnContract hown

/-- **A transaction passes over an account** until it is settled. -/
theorem Passes.ended_passesOver (h : Passes tx block precompiles (.ofSource source) (.ended o) s)
    (a : Address) : PassesOver a (tx.sender = a) (tx.chargedView block source) s.view := by
  cases h with
  | skip hwarmed hstart =>
    obtain ⟨-, hcharged, hcovers⟩ := hwarmed.warmed_charged
    rw [← hcharged]
    exact start_done_passesOver hstart hcovers
  | finish hrunning hiterate =>
    obtain ⟨hown, c, hview, htiered⟩ := hrunning.running_passesOver a
    obtain ⟨hnone, -⟩ | ⟨o', ho, hwaiting, hleaves⟩ := Machine.iterate_cases hiterate
    · cases hnone
    · cases ho
      rw [hwaiting] at htiered
      rw [← hview]
      exact (hleaves.tiered (Frame.runsOnContract_lasting a _)
        (htiered.top.respects hown) htiered).respects

/-- Whatever a transaction changes is marked to be written back. -/
theorem Passes.ended_marks (h : Passes tx block precompiles (.ofSource source) (.ended o) s) :
    (State.ofSource source).view.Marks s.view :=
  h.executing_respects trivial (Conserves.respected.mono Conserves.marks) fun _ _ _ _ _ =>
    View.marks_setBalance

/-! ### Settling -/

/-- **What is left after a transaction** is what was there when its outermost frame had ended, with
what is given to the sender and to the coinbase then, except for contracts that destroyed themselves
and for touched accounts that are empty. -/
theorem source_of_apply (h : tx.apply block precompiles (.ofSource source) = .ok r s') :
    ∃ o s back fee, Passes tx block precompiles (.ofSource source) (.ended o) s ∧
      s'.world.created = s.view.created ∧
      s'.substate.touched = s.view.touched.insert block.coinbase ∧
      r.selfDestructed = s.view.selfDestructs.toList ∧
      ∀ a account, s'.world.source.accounts[a]? = some account ↔ a ∉ s.view.selfDestructs ∧
        ((s.view.credit tx.sender back).credit block.coinbase fee).account a = some account ∧
        (a ∈ s'.substate.touched → account.isEmpty = false) := by
  obtain ⟨o, s, hended, hsettle⟩ := exists_ended_of_apply h
  obtain ⟨s₁, s₂, hgrows, hview, hremove, hsource, hcreated, hsubstate, -⟩ :=
    (settles_of_settle hsettle).exists_removed
  obtain ⟨hdestructed, hremoved⟩ := removeAccounts_moves hremove
  obtain ⟨htouched₂, haccount⟩ := removeAccounts_account hremove
  -- crediting the sender and the coinbase marks both of them
  have hmarks₁ : s.view.Marks s₁.view := by
    rw [hview]
    exact ((s.view.marks_set tx.sender _).trans (View.marks_set _ block.coinbase _)).trans
      (.of_eq rfl rfl)
  obtain ⟨-, hshown⟩ := World.flushedSource_eq_shown
    (hended.ended_retains.trans (hgrows.trans hremoved.toGrows).toRetains)
    ((hended.ended_marks.trans hmarks₁).trans hremoved.respects.marks)
  have htouched₁ : s'.substate.touched = s₁.view.touched :=
    (congrArg Substate.touched hsubstate).trans htouched₂
  refine ⟨o, s, (tx.gasLimit - r.gasUsed) * tx.effectiveGasPrice block.baseFee,
    r.gasUsed * (tx.effectiveGasPrice block.baseFee - block.baseFee), hended, ?_, ?_, ?_,
    fun a account => ?_⟩
  · refine hcreated.trans ((removeAccounts_tidies hremove).created.trans ?_)
    rw [hview]
    rfl
  · exact htouched₁.trans (congrArg View.touched hview)
  · exact hdestructed.trans (congrArg (·.selfDestructs.toList) hview)
  · have hmarked : a ∈ s₁.view.selfDestructs ↔ a ∈ s.view.selfDestructs := by
      rw [hview]
      rfl
    have hpaid : s₁.view.account a = ((s.view.credit tx.sender
        ((tx.gasLimit - r.gasUsed) * tx.effectiveGasPrice block.baseFee)).credit block.coinbase
        (r.gasUsed * (tx.effectiveGasPrice block.baseFee - block.baseFee))).account a :=
      congrArg (·.account a) hview
    -- both sides say the same of the view before the removal
    rw [hsource, hshown, haccount, htouched₁, ← hmarked, ← hpaid]
    split_ifs with hdestroyed htouched
    · simp [hdestroyed]
    · simp [hdestroyed, htouched, Option.filter_eq_some_iff]
    · simp [hdestroyed, htouched]

/-- What is given to the sender and to the coinbase changes their balances only. -/
theorem code_of_apply {account : Account}
    (h : tx.apply block precompiles (.ofSource source) = .ok r s') (hcreated : a ∉ s'.world.created)
    (haccount : s'.world.source.accounts[a]? = some account) :
    account.code = (source.get a).code := by
  obtain ⟨o, s, back, fee, hended, hsame, -, -, hleft⟩ := source_of_apply h
  obtain ⟨-, hpaid, -⟩ := (hleft a account).mp haccount
  -- the account is there, so nothing is made up for it
  have hget : ((s.view.credit tx.sender back).credit block.coinbase fee).get a = account := by
    rw [View.get, hpaid, Option.getD_some]
  calc account.code
      = (((s.view.credit tx.sender back).credit block.coinbase fee).get a).code := by rw [hget]
    _ = ((s.view.credit tx.sender back).get a).code := (View.sameButBalance_credit ..).code
    _ = (s.view.get a).code := (View.sameButBalance_credit ..).code
    _ = ((tx.chargedView block source).get a).code :=
      (hended.ended_passesOver a).code (hsame ▸ hcreated)
    _ = (source.get a).code := tx.chargedView_code block source a

/-- **An account without code that was not touched is what it was**, unless it is the sender or a
contract was created there. -/
theorem account_of_untouched (h : tx.apply block precompiles (.ofSource source) = .ok r s')
    (hcode : (source.get a).code.size = 0) (hcreated : a ∉ s'.world.created)
    (htouched : a ∉ s'.substate.touched) (ha : a ≠ tx.sender) :
    s'.world.source.accounts[a]? = source.accounts[a]? := by
  obtain ⟨o, s, back, fee, hended, hsame, hmarked, -, hleft⟩ := source_of_apply h
  have hcreated₀ : a ∉ s.view.created := hsame ▸ hcreated
  have hunmarked : a ∉ s.view.selfDestructs :=
    (hended.ended_standsBy hcode).unmarked hcreated₀ Std.ExtTreeSet.not_mem_empty
  -- the coinbase was touched, so it is not the account in question
  rw [hmarked, Std.ExtTreeSet.mem_insert, Std.compare_eq_iff_eq, not_or] at htouched
  obtain ⟨hcoinbase, htouched₀⟩ := htouched
  have haccount : ((s.view.credit tx.sender back).credit block.coinbase fee).account a =
      source.accounts[a]? := by
    rw [View.credit, View.account_update, if_neg (Ne.symm hcoinbase), View.credit,
      View.account_update, if_neg ha]
    rw [← tx.chargedView_code block source] at hcode
    rw [(hended.ended_passesOver a).account hcreated₀ htouched₀ hcode (Ne.symm ha), chargedView,
      View.charged_account, if_neg ha]
    exact World.shown_ofSource source a
  ext account
  rw [hleft, haccount, hmarked, Std.ExtTreeSet.mem_insert, Std.compare_eq_iff_eq]
  tauto

/-- The sender is empty only if its nonce was `-1`. -/
theorem nonce_of_empty_sender {account : Account}
    (h : tx.apply block precompiles (.ofSource source) = .ok r s')
    (hcode : (source.get tx.sender).code.size = 0) (hcreated : tx.sender ∉ s'.world.created)
    (haccount : s'.world.source.accounts[tx.sender]? = some account)
    (hempty : account.isEmpty = true) :
    tx.nonce = -1 := by
  -- the nonce was raised by one, and an empty account has none
  obtain ⟨hbefore, hafter⟩ := nonce_of_apply h hcode hcreated
  rw [if_pos rfl, hbefore rfl, Source.get, haccount, Account.eq_of_isEmpty hempty] at hafter
  have hzero : 0 = tx.nonce + 1 := hafter
  omega

/-- **Which empty accounts a transaction leaves.** No contract that destroyed itself is there
afterwards. An account that is there and empty was not touched, and it was there and empty before,
or a contract was created at its address, or it is the sender, and its nonce was `-1` before. All
others that the transaction has emptied or brought into being are gone, and no empty account is gone
that was not touched. -/
theorem only_untouched_empty_accounts_remain (tx : Transaction) (block : Block)
    (precompiles : Std.ExtTreeMap Address Precompile) (source : Source) (r : Receipt) (s' : State)
    (happly : tx.apply block precompiles (.ofSource source) = .ok r s') :
    (∀ a ∈ r.selfDestructed, a ∉ s'.world.source.accounts) ∧
    (∀ a, s'.world.source.HoldsEmpty a → a ∉ s'.substate.touched ∧
      (source.HoldsEmpty a ∨ a ∈ s'.world.created ∨ a = tx.sender ∧ tx.nonce = -1)) ∧
    (∀ a, source.HoldsEmpty a → a ∉ s'.substate.touched → a ∉ s'.world.created → a ≠ tx.sender →
      s'.world.source.HoldsEmpty a) := by
  obtain ⟨o, s, back, fee, -, -, -, hself, hleft⟩ := source_of_apply happly
  refine ⟨fun a ha hmem => ?_, fun a hempty => ?_, fun a hempty htouched hcreated hsender => ?_⟩
  · -- what is left was not marked for deletion
    obtain ⟨account, haccount⟩ :=
      Option.isSome_iff_exists.mp (Std.ExtTreeMap.isSome_getElem?_iff_mem.mpr hmem)
    rw [hself, Std.ExtTreeSet.mem_toList] at ha
    exact ((hleft a account).mp haccount).1 ha
  · obtain ⟨account, haccount, hisEmpty⟩ := Source.holdsEmpty_iff.mp hempty
    have htouched : a ∉ s'.substate.touched := by
      intro hmem
      rw [((hleft a account).mp haccount).2.2 hmem] at hisEmpty
      cases hisEmpty
    refine ⟨htouched, ?_⟩
    by_cases hcreated : a ∈ s'.world.created
    · exact .inr (.inl hcreated)
    · -- it has no code now, so it had none before
      have hcode : (source.get a).code.size = 0 := by
        rw [← code_of_apply happly hcreated haccount]
        exact Account.code_of_isEmpty hisEmpty
      by_cases hsender : a = tx.sender
      · subst hsender
        exact .inr (.inr ⟨rfl, nonce_of_empty_sender happly hcode hcreated haccount hisEmpty⟩)
      · rw [Source.HoldsEmpty,
          account_of_untouched happly hcode hcreated htouched hsender] at hempty
        exact .inl hempty
  · obtain ⟨account, haccount, hisEmpty⟩ := Source.holdsEmpty_iff.mp hempty
    have hcode : (source.get a).code.size = 0 := by
      rw [Source.get, haccount]
      exact Account.code_of_isEmpty hisEmpty
    rw [Source.HoldsEmpty, account_of_untouched happly hcode hcreated htouched hsender]
    exact hempty

/-- A contract that calls one of two empty accounts and then destroys itself in favour of an address
that nobody has used. -/
theorem called_empty_account_is_removed :
    let source : Source :=
      { accounts :=
          ((((∅ : Std.ExtTreeMap Address Account).insert 1 { balance := 1000000 }).insert 2
          { code := ⟨#[0x60, 0, 0x60, 0, 0x60, 0, 0x60, 0, 0x60, 0, 0x60, 4, 0x5a, 0xf1,
              0x60, 5, 0xff]⟩ }).insert 3 {}).insert 4 {} }
    let tx : Transaction :=
      { sender := 1, nonce := 0, gasLimit := 100000, recipient := some 2, gasPrice := 1 }
    source.HoldsEmpty 3 ∧ source.HoldsEmpty 4 ∧
    ∃ r s', tx.apply {} ∅ (.ofSource source) = .ok r s' ∧
      r.selfDestructed = [2] ∧ (2 : Address) ∉ s'.world.source.accounts ∧
      s'.world.source.HoldsEmpty 3 ∧
      ¬s'.world.source.HoldsEmpty 4 ∧ ¬s'.world.source.HoldsEmpty 5 := by
  intro source tx
  have hempty : source.HoldsEmpty 3 ∧ source.HoldsEmpty 4 := by decide +kernel
  have hends : endsWith (fun r s' => decide (r.selfDestructed = [2] ∧
      (3 : Address) ∉ s'.substate.touched ∧ (3 : Address) ∉ s'.world.created ∧
      (4 : Address) ∈ s'.substate.touched ∧ (5 : Address) ∈ s'.substate.touched))
      (tx.apply {} ∅ (.ofSource source)) = true := by decide +kernel
  obtain ⟨r, s', happly, hends⟩ := endsWith_iff.mp hends
  obtain ⟨hself, huntouched, hcreated, hcalled, hpaid⟩ := of_decide_eq_true hends
  obtain ⟨hdestroyed, hremain, hkept⟩ :=
    only_untouched_empty_accounts_remain tx {} ∅ source r s' happly
  refine ⟨hempty.1, hempty.2, r, s', happly, hself, ?_, ?_, fun h => ?_, fun h => ?_⟩
  · exact hdestroyed 2 (hself ▸ List.mem_singleton.mpr rfl)
  · exact hkept 3 hempty.1 huntouched hcreated (by decide)
  · exact (hremain 4 h).1 hcalled
  · exact (hremain 5 h).1 hpaid

/-- **The sender can be left empty.** A sender without balance, code and storage whose nonce is `-1`
pays nothing for a transaction to somebody else, and has the nonce `0` afterwards. -/
theorem sender_with_negative_nonce_is_left_empty :
    let sender : Address := 0x5e5e5e5e5e5e5e5e5e5e5e5e5e5e5e5e5e5e5e5e
    let recipient : Address := 0xc0c0c0c0c0c0c0c0c0c0c0c0c0c0c0c0c0c0c0c0
    let source : Source :=
      { accounts := (∅ : Std.ExtTreeMap Address Account).insert sender { nonce := -1 } }
    let block : Block := { coinbase := 0xcbcbcbcbcbcbcbcbcbcbcbcbcbcbcbcbcbcbcbcb }
    let tx : Transaction := { sender, nonce := -1, gasLimit := 100000, recipient := some recipient }
    ¬source.HoldsEmpty sender ∧ ∃ r s', tx.apply block ∅ (.ofSource source) = .ok r s' ∧
      r.status = .success ∧ s'.world.source.HoldsEmpty sender ∧ sender ∉ s'.world.created := by
  intro sender recipient source block tx
  have hends : endsWith (fun r s' => decide (r.status = .success ∧
      s'.world.source.HoldsEmpty sender ∧ sender ∉ s'.world.created))
      (tx.apply block ∅ (.ofSource source)) = true := by decide +kernel
  obtain ⟨r, s', happly, hr⟩ := endsWith_iff.mp hends
  rw [decide_eq_true_eq] at hr
  exact ⟨by decide +kernel, r, s', happly, hr⟩

end Transaction

end EvmCore
