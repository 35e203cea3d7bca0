import EvmCore.Proofs.Recursion
import EvmCore.Proofs.WriteBack
import Mathlib

/-!
# Computations that take nothing from the source but what they load

Accounts are loaded when they are first asked for, and everything else works on what was loaded. So
a computation should not be able to tell two sources apart that differ only where it never looks. To
say so, the same computation is run twice, once on a state and once on that state with another
source in its place (`World.withSource`). `Local source x` says of `x` that however it ends, nothing
was written to the source and all that was loaded stays loaded; and if the two sources agree on what
is loaded when it ends (`State.Agrees`), the second run ends as the first one does, in the same
state but for the source.

That the sources need to agree only on what is loaded in the end is what makes this pass through
sequences: what was loaded halfway through is still loaded then (`State.Agrees.of_extends`). The one
operation that asks the source is `World.load` (`Local.load`), and no other proof here looks at the
source or at the cache. What starts with a look at the whole state is local if the look does not
depend on the source (`Local.get_bind`).
-/

namespace EvmCore

/-! ### Two sources -/

namespace State

/-- Nothing was written to the source, and what was loaded stays loaded. -/
structure Extends (s s' : State) : Prop where
  source : s'.world.source = s.world.source
  loaded : ∀ a, s.world.Loaded a → s'.world.Loaded a

/-- Another source holds what that of the state holds at every address that was loaded, and neither
of them fails to read. -/
structure Agrees (s : State) (source : Source) : Prop where
  readable : s.world.source.unreadable = ∅
  otherReadable : source.unreadable = ∅
  accounts : ∀ a, s.world.Loaded a → source.accounts[a]? = s.world.source.accounts[a]?

variable {s s₁ s₂ : State} {source : Source}

theorem Extends.refl (s : State) : s.Extends s := ⟨rfl, fun _ h => h⟩

theorem Extends.trans (h : s.Extends s₁) (h' : s₁.Extends s₂) : s.Extends s₂ :=
  ⟨h'.source.trans h.source, fun a ha => h'.loaded a (h.loaded a ha)⟩

/-- What agrees in the end agrees on the way. -/
theorem Agrees.of_extends (h : s₁.Agrees source) (hs : s.Extends s₁) : s.Agrees source where
  readable := hs.source ▸ h.readable
  otherReadable := h.otherReadable
  accounts a ha := hs.source ▸ h.accounts a (hs.loaded a ha)

end State

/-- What retains a state extends it. -/
theorem Retains.toExtends {s s' : State} (h : Retains s s') : s.Extends s' := ⟨h.source, h.loaded⟩

/-- Whatever has a state in it, in which the source can be replaced by another one. -/
class Stateful (σ : Type) where
  state : σ → State
  withSource : σ → Source → σ

instance : Stateful State := ⟨id, World.withSource⟩

instance : Stateful Activation :=
  ⟨Activation.state, fun a source => { a with state := World.withSource a.state source }⟩

instance : Stateful Machine :=
  ⟨Machine.state, fun m source => { m with state := World.withSource m.state source }⟩

open Stateful (state withSource)

/-- A change that loses nothing that was loaded and is the same with another source. -/
structure Overlooks {σ : Type} [Stateful σ] (source : Source) (f : σ → σ) : Prop where
  keeps : ∀ s, (state s).Extends (state (f s))
  withSource : ∀ s, f (withSource s source) = withSource (f s) source

/-- What changes neither the source nor the cache. -/
theorem Overlooks.of_cache_eq {source : Source} {f : State → State}
    (hf : ∀ s, (f s).world.source = s.world.source ∧ (f s).world.cache = s.world.cache)
    (hsource : ∀ s, f (Stateful.withSource s source) = Stateful.withSource (f s) source) :
    Overlooks source f where
  keeps s := by
    -- what is loaded is what has an entry in the cache
    obtain ⟨hsame, hcache⟩ := hf s
    refine ⟨hsame, fun a ha => ?_⟩
    change ((f s).world.cache[a]?).isSome
    rw [hcache]
    exact ha
  withSource := hsource

/-- What leaves the state alone. -/
theorem Overlooks.of_state_eq {σ : Type} [Stateful σ] {source : Source} {f : σ → σ}
    (hf : ∀ s, state (f s) = state s)
    (hsource : ∀ s, f (Stateful.withSource s source) = Stateful.withSource (f s) source) :
    Overlooks source f where
  keeps s := by
    rw [hf s]
    exact .refl (state s)
  withSource := hsource

/-- A change that is made at most once. -/
theorem Overlooks.unless {source : Source} {c : State → Bool} {f : State → State}
    (h : Overlooks source f) (hc : ∀ s, c (Stateful.withSource s source) = c s) :
    Overlooks source fun s => if c s = true then s else f s where
  keeps s := by
    -- whether the change was made before is the same with the other source
    by_cases hs : c s = true
    · rw [if_pos hs]
      exact .refl s
    · rw [if_neg hs]
      exact h.keeps s
  withSource s := by
    by_cases hs : c s = true
    · rw [if_pos hs, if_pos ((hc s).trans hs)]
    · rw [if_neg hs, if_neg fun hs' => hs ((hc s).symm.trans hs')]
      exact h.withSource s

/-- However `x` ends, it has extended the state; and with another source that agrees with what is
loaded then, it ends in the same way. -/
def Local {ε σ α : Type} [Stateful σ] (source : Source) (x : EStateM ε σ α) : Prop :=
  ∀ s, (state s).Extends (state (ended (x s))) ∧ ((state (ended (x s))).Agrees source →
    x (withSource s source) = mapResult id (withSource · source) (x s))

namespace Local

section Sequences

variable {ε σ α β : Type} [Stateful σ] {source : Source} {x y : EStateM ε σ α} {s s' : σ}

theorem ok {a : α} (h : Local source x) (hx : x s = .ok a s') : (state s).Extends (state s') ∧
    ((state s').Agrees source → x (withSource s source) = .ok a (withSource s' source)) := by
  have hs := h s
  rwa [hx] at hs

theorem error {e : ε} (h : Local source x) (hx : x s = .error e s') : (state s).Extends (state s') ∧
    ((state s').Agrees source → x (withSource s source) = .error e (withSource s' source)) := by
  have hs := h s
  rwa [hx] at hs

theorem pure (a : α) : Local source (pure a : EStateM ε σ α) := fun _ => ⟨.refl _, fun _ => rfl⟩

theorem throw (e : ε) : Local source (throw e : EStateM ε σ α) := fun _ => ⟨.refl _, fun _ => rfl⟩

theorem modify {f : σ → σ} (hf : Overlooks source f) :
    Local source (modify f : EStateM ε σ PUnit) :=
  fun s => ⟨hf.keeps s, fun _ => congrArg (EStateM.Result.ok PUnit.unit) (hf.withSource s)⟩

/-- **A sequence is local** if its parts are. -/
theorem bind {f : α → EStateM ε σ β} (hx : Local source x) (hf : ∀ a, Local source (f a)) :
    Local source (x >>= f) := by
  intro s
  cases h : x s with
  -- what ends the first part ends the whole, with the other source as well
  | error e s₁ =>
    rw [bind_error_iff.mpr (.inl h)]
    obtain ⟨hextends, hsame⟩ := hx.error h
    exact ⟨hextends, fun hagrees => bind_error_iff.mpr (.inl (hsame hagrees))⟩
  | ok a s₁ =>
    rw [bind_of_ok h]
    obtain ⟨hextends, hsame⟩ := hx.ok h
    obtain ⟨hextends', hsame'⟩ := hf a s₁
    refine ⟨hextends.trans hextends', fun hagrees => ?_⟩
    -- the first part has loaded no more than the whole
    rw [bind_of_ok (hsame (hagrees.of_extends hextends'))]
    exact hsame' hagrees

/-- What starts with a look at the state, as long as it makes no difference
which source that has. -/
theorem get_bind {f : σ → EStateM ε σ α} (hf : ∀ s, Local source (f s))
    (hsource : ∀ s, f (withSource s source) = f s) : Local source (get >>= f) := by
  intro s
  have hs := hf s s
  refine ⟨hs.1, fun hagrees => ?_⟩
  change f (withSource s source) (withSource s source) = _
  rw [hsource s]
  exact hs.2 hagrees

theorem ite {c : Prop} [Decidable c] (hx : Local source x) (hy : Local source y) :
    Local source (if c then x else y) := by
  split
  · exact hx
  · exact hy

theorem discard (hx : Local source x) : Local source (discard x) := by
  rw [discard_eq]
  exact hx.bind fun _ => pure ()

theorem forM {f : β → EStateM ε σ PUnit} {l : List β} (hf : ∀ b, Local source (f b)) :
    Local source (l.forM f) := by
  -- by induction on the list
  induction l with
  | nil => exact pure _
  | cons b l ih => exact (hf b).bind fun _ => ih

/-- What is done to a part of something, where the part has the state in it: for every whole `t`
there are its part `s` and a way to put the part back, and neither of them depends on the source. -/
theorem of_part {τ ε' : Type} [Stateful τ] {y : EStateM ε' τ α} {g : ε → ε'} (hx : Local source x)
    (hpart : ∀ t, ∃ (s : σ) (put : σ → τ), state t = state s ∧
      (∀ s, state (put s) = state s ∧ put (withSource s source) = withSource (put s) source) ∧
      y t = mapResult g put (x s) ∧
      y (withSource t source) = mapResult g put (x (withSource s source))) :
    Local source y := by
  intro t
  obtain ⟨s, put, hstate, hput, hy, hy'⟩ := hpart t
  obtain ⟨hextends, hsame⟩ := hx s
  rw [hy, hy', ended_mapResult, (hput _).1, hstate]
  refine ⟨hextends, fun hagrees => ?_⟩
  rw [hsame hagrees]
  -- the part is put back, however the computation ended
  cases x s with
  | ok a s' => exact congrArg (EStateM.Result.ok a) (hput s').2
  | error e s' => exact congrArg (EStateM.Result.error (g e)) (hput s').2

end Sequences

/-! ### Accounts -/

section Accounts

variable {α : Type} {source : Source}

theorem liftExcept (x : Except Fault α) : Local source (liftM x : Action α) := by
  cases x with
  | ok a => exact pure a
  | error e => exact throw e

/-- **Loading** asks the source, and what it asks for is loaded then. -/
theorem load (a : Address) : Local source (World.load a) := by
  intro s
  cases hcache : s.world.cache[a]? with
  | some entry =>
    -- the cache does not change with the source
    have hother : (World.withSource s source).world.cache[a]? = some entry := hcache
    rw [World.load_of_cached hcache]
    exact ⟨.refl s, fun _ => World.load_of_cached hother⟩
  | none =>
    have hother : (World.withSource s source).world.cache[a]? = none := hcache
    -- now the source is asked, and what it answers is cached
    by_cases hread : a ∈ s.world.source.unreadable
    · -- the second conjunct is about sources that can be read
      rw [World.load_of_unreadable hcache hread]
      refine ⟨.refl s, fun hagrees => ?_⟩
      have hreadable : s.world.source.unreadable = ∅ := hagrees.readable
      rw [hreadable] at hread
      exact absurd hread Std.ExtTreeSet.not_mem_empty
    · have hloaded : (World.fetched s a).world.Loaded a :=
        World.loaded_of_load (World.load_of_readable hcache hread)
      rw [World.load_of_readable hcache hread]
      refine ⟨(World.fetched_quiet hcache).toExtends, fun hagrees => ?_⟩
      have hsame : source.accounts[a]? = s.world.source.accounts[a]? := hagrees.accounts a hloaded
      have hother' : a ∉ (World.withSource s source).world.source.unreadable := by
        have hreadable : source.unreadable = ∅ := hagrees.otherReadable
        change a ∉ source.unreadable
        rw [hreadable]
        exact Std.ExtTreeSet.not_mem_empty
      refine (World.load_of_readable hother hother').trans ?_
      change EStateM.Result.ok source.accounts[a]? (World.fetched (World.withSource s source) a) =
        .ok s.world.source.accounts[a]? (World.withSource (World.fetched s a) source)
      -- the entry that is cached is the one that the other source holds
      have hfetched : World.fetched (World.withSource s source) a =
          World.withSource (World.fetched s a) source := by
        unfold World.fetched World.withSource
        dsimp only
        rw [hsame]
      rw [hfetched, hsame]

theorem put (a : Address) (account : Option Account) : Local source (World.put a account) := by
  refine modify ⟨fun s => ⟨rfl, fun b hb => ?_⟩, fun _ => rfl⟩
  exact World.setCurrent_loaded s.world a account hb

theorem account (a : Address) : Local source (World.account a) := (load a).bind fun _ => pure _

theorem isPresent (a : Address) : Local source (World.isPresent a) := (load a).bind fun _ => pure _

theorem isEmpty (a : Address) : Local source (World.isEmpty a) := (account a).bind fun _ => pure _

theorem balance (a : Address) : Local source (World.balance a) := (account a).bind fun _ => pure _

theorem nonce (a : Address) : Local source (World.nonce a) := (account a).bind fun _ => pure _

theorem code (a : Address) : Local source (World.code a) := (account a).bind fun _ => pure _

/-- The hash of the code, for which it matters whether there is an account. -/
theorem codeHash (a : Address) : Local source (World.codeHash a) := by
  refine (load a).bind fun account? => ?_
  cases account? with
  | none => exact pure _
  | some account => exact pure _

theorem storage (a : Address) (key : Word) : Local source (World.storage a key) :=
  (account a).bind fun _ => pure _

/-- The initial word of a slot, which is read off the cache after it was loaded. -/
theorem initial (a : Address) (key : Word) : Local source (World.initial a key) :=
  (load a).discard.bind fun _ => get_bind (fun _ => pure _) fun _ => rfl

theorem hasStorage (a : Address) : Local source (World.hasStorage a) :=
  (account a).bind fun _ => pure _

/-- **Changing an account** is loading it and replacing it. -/
theorem update (a : Address) (f : Account → Account) : Local source (World.update a f) :=
  (account a).bind fun _ => put _ _

theorem setBalance (a : Address) (v : Int) : Local source (World.setBalance a v) :=
  ite ((throw _).bind fun _ => update _ _) (update _ _)

theorem addBalance (a : Address) (v : Int) : Local source (World.addBalance a v) :=
  (balance a).bind fun _ => setBalance _ _

theorem subBalance (a : Address) (v : Int) : Local source (World.subBalance a v) :=
  (balance a).bind fun _ => setBalance _ _

theorem transfer (sender recipient : Address) (value : Int) :
    Local source (World.transfer sender recipient value) :=
  (subBalance _ _).bind fun _ => addBalance _ _

theorem setNonce (a : Address) (v : Int) : Local source (World.setNonce a v) := update _ _

theorem touch (a : Address) : Local source (World.touch a) :=
  (load a).bind fun _ => ite (put _ _) (pure _)

theorem create (a : Address) : Local source (World.create a) := by
  refine (balance a).bind fun _ => (put _ _).bind fun _ => ?_
  exact modify (.unless (.of_cache_eq (fun _ => ⟨rfl, rfl⟩) fun _ => rfl) fun _ => rfl)

theorem delete (a : Address) : Local source (World.delete a) :=
  (load a).discard.bind fun _ => put _ _

end Accounts

/-! ### The journal and the substate -/

section Journal

variable {source : Source}

theorem checkpoint : Local source State.checkpoint :=
  modify (.of_cache_eq (fun _ => ⟨rfl, rfl⟩) fun _ => rfl)

theorem emit (e : Event) : Local source (State.emit e) :=
  modify (.of_cache_eq (fun _ => ⟨rfl, rfl⟩) fun _ => rfl)

/-- Closing a layer and keeping its work. -/
theorem commit : Local source State.commit := by
  intro s
  have hjournal : (World.withSource s source).journal = s.journal := rfl
  change _ ∧ (_ → State.commit (World.withSource s source) = _)
  rw [State.commit, EvmCore.get_bind, EvmCore.get_bind, hjournal]
  -- whether a layer is open does not depend on the source
  cases s.journal.commit? with
  | none => exact ⟨.refl s, fun _ => rfl⟩
  | some journal => exact ⟨⟨rfl, fun _ h => h⟩, fun _ => rfl⟩

/-- What was recorded to undo a change does not depend on the source. -/
theorem undoAll_withSource (entries : List Undo) (s : State) :
    entries.foldl State.undo (World.withSource s source) =
      World.withSource (entries.foldl State.undo s) source := by
  induction entries generalizing s with
  | nil => rfl
  | cons u entries ih =>
    -- to undo a change is to put something back into the cache, the marks or the substate
    have hundo : (World.withSource s source).undo u = World.withSource (s.undo u) source := by
      cases u <;> rfl
    rw [List.foldl_cons, List.foldl_cons, hundo, ih]

/-- **Closing a layer and undoing its work** puts back what was recorded, and asks nobody. -/
theorem revert : Local source State.revert := by
  intro s
  have hjournal : (World.withSource s source).journal = s.journal := rfl
  change _ ∧ (_ → State.revert (World.withSource s source) = _)
  rw [State.revert, EvmCore.get_bind, EvmCore.get_bind, hjournal]
  cases s.journal.revert? with
  | none => exact ⟨.refl s, fun _ => rfl⟩
  -- what is undone keeps what was loaded
  | some result =>
    obtain ⟨entries, journal⟩ := result
    have hretains := State.undoAll_retains { s with journal } entries
    refine ⟨⟨hretains.source, hretains.loaded⟩, fun _ => ?_⟩
    exact congrArg (EStateM.Result.ok PUnit.unit) (undoAll_withSource entries { s with journal })

theorem addSelfDestruct (a : Address) : Local source (Substate.addSelfDestruct a) :=
  modify (.unless (.of_cache_eq (fun _ => ⟨rfl, rfl⟩) fun _ => rfl) fun _ => rfl)

theorem addLog (log : Log) : Local source (Substate.addLog log) :=
  modify (.of_cache_eq (fun _ => ⟨rfl, rfl⟩) fun _ => rfl)

theorem markTouched (a : Address) : Local source (Substate.touch a) :=
  modify (.unless (.of_cache_eq (fun _ => ⟨rfl, rfl⟩) fun _ => rfl) fun _ => rfl)

theorem addRefund (gas : Int) : Local source (Substate.addRefund gas) :=
  modify (.of_cache_eq (fun _ => ⟨rfl, rfl⟩) fun _ => rfl)

/-- Lowering the refund counter, which is refused or not with either source. -/
theorem subRefund (gas : Int) : Local source (Substate.subRefund gas) := by
  intro s
  have hrefund : (World.withSource s source).substate.refund = s.substate.refund := rfl
  change _ ∧ (_ → Substate.subRefund gas (World.withSource s source) = _)
  rw [Substate.subRefund, EvmCore.get_bind, EvmCore.get_bind, hrefund]
  by_cases h : s.substate.refund < gas
  · rw [if_pos h, if_pos h]
    exact ⟨.refl s, fun _ => rfl⟩
  · rw [if_neg h, if_neg h]
    exact ⟨⟨rfl, fun _ h => h⟩, fun _ => rfl⟩

theorem warmAccount (a : Address) : Local source (Substate.warmAccount a) :=
  fun _ => ⟨⟨rfl, fun _ h => h⟩, fun _ => rfl⟩

theorem warmSlot (slot : Slot) : Local source (Substate.warmSlot slot) :=
  fun _ => ⟨⟨rfl, fun _ h => h⟩, fun _ => rfl⟩

end Journal

/-! ### The dynamic cost -/

section Cost

variable {source : Source}

/-- Finding the dynamic cost asks for a slot of the account that runs, or
whether an account is empty. -/
theorem dynamic (cost : DynamicCost) (frame : Frame) (size : Int) :
    Local source (Gas.dynamic cost frame size) := by
  -- the questions that a cost may ask
  have hclosed : Gas.Closed frame.stack cost.operands fun _ x => Local source x :=
    { pure := pure
      bind := bind
      back := fun _ => liftExcept _
      backAddress := fun _ => liftExcept _
      warmAccount := warmAccount
      warmSlot := warmSlot
      storage := storage
      initial := initial
      isEmpty := isEmpty
      balance := balance }
  exact hclosed.dynamic size

end Cost

/-! ### Steps -/

section Steps

variable {α : Type} {source : Source}

theorem liftAction {x : Action α} (h : Local source x) : Local source (liftM x : StepM α) := by
  refine h.of_part (g := Stop.fault) ?_
  rintro ⟨f, s⟩
  exact ⟨s, Activation.mk f, rfl, fun _ => ⟨rfl, rfl⟩, Step.liftAction_apply ..,
    Step.liftAction_apply ..⟩

theorem liftValue (x : Except Fault α) : Local source (liftM x : StepM α) := by
  cases x with
  | ok a => exact pure a
  | error e => exact throw _

theorem queryAccount (a : Address) (query : AccountQuery) :
    Local source (Step.queryAccount a query) := by
  cases query with
  | balance => exact balance a
  | codeSize => exact (code a).bind fun _ => pure _
  | codeHash => exact (isEmpty a).bind fun _ => ite (pure _) ((codeHash a).bind fun _ => pure _)

/-- Writing a slot. -/
theorem storeSlot (a : Address) (key value : Word) : Local source (Step.storeSlot a key value) := by
  have hwrite : Local source (World.setStorage a key value) := update _ _
  -- the refund goes up, down, or stays
  refine (storage a key).bind fun _ => (initial a key).bind fun _ => ite ?_ (ite ?_ ?_)
  · exact (addRefund _).bind fun _ => hwrite
  · exact (subRefund _).bind fun _ => hwrite
  · exact hwrite

theorem selfDestruct (self beneficiary : Address) :
    Local source (Step.selfDestruct self beneficiary) :=
  (balance _).bind fun _ => (addBalance _ _).bind fun _ => (markTouched _).bind fun _ =>
    (setBalance _ _).bind fun _ => addSelfDestruct _

/-- **Whatever an instruction asks of the state** is local. -/
theorem asks {x : Action α} (h : Step.Asks x) : Local source x := by
  -- one case for each question or change
  cases h with
  | query a query => exact queryAccount a query
  | balance a => exact balance a
  | code a => exact code a
  | storage a key => exact storage a key
  | storeSlot a key value => exact storeSlot a key value
  | addLog log => exact addLog log
  | selfDestruct self beneficiary => exact selfDestruct self beneficiary
  | dynamic cost frame size => exact dynamic cost frame size

/-- **Whatever a step is put together from** reaches the accounts through the loader. -/
theorem closed : Step.Closed fun _ x => Local source x where
  pure := pure
  bind := bind
  getFrame := get_bind (fun _ => pure _) fun _ => rfl
  -- the frame is no part of the state
  modifyFrame _ := modify (.of_state_eq (fun _ => rfl) fun _ => rfl)
  value _ := liftValue _
  action h := liftAction (asks h)

/-- Recording a step, if steps are recorded. -/
theorem recordStep (op : Opcode) : Local source (Step.recordStep op) := by
  refine modify ⟨fun a => ?_, fun a => ?_⟩
  · dsimp only
    split
    · exact .refl _
    · exact ⟨rfl, fun _ h => h⟩
  · obtain ⟨f, world, substate, journal, events, trace⟩ := a
    cases trace with
    | none => rfl
    | some steps => rfl

theorem phases (ctx : Context) : Local source (Step.phases ctx) :=
  closed.phases (fun _ _ => throw _) recordStep ctx

/-- **A step**, whether or not the frame fails. -/
theorem step (ctx : Context) : Local source (EvmCore.step ctx) := by
  intro a
  unfold EvmCore.step
  -- where the frame fails the step ends with a value, and where there is a fault it does not
  cases hphases : Step.phases ctx a with
  | ok u a' =>
    obtain ⟨hextends, hsame⟩ := (phases ctx).ok hphases
    exact ⟨hextends, fun hagrees => by rw [hsame hagrees]; rfl⟩
  | error stop a' =>
    obtain ⟨hextends, hsame⟩ := (phases ctx).error hphases
    cases stop with
    | failure e => exact ⟨hextends, fun hagrees => by rw [hsame hagrees]; rfl⟩
    | fault e => exact ⟨hextends, fun hagrees => by rw [hsame hagrees]; rfl⟩

end Steps

end Local

end EvmCore
