import EvmCore.Proofs.WriteBack
import Mathlib

/-!
# Flushing again after a failure

A flush that the source refuses has written part of the accounts and forgotten nothing: the cache
and the marks are as before. So it can be done again. What is written a second time is what was
written the first time, and since every marked address is written with its cached account, whatever
the source holds there by then does not matter.

`Resumes s s'` says what makes a flush of `s'` come to the same as one of `s`: the same addresses
are marked, with the same cached accounts, and the source holds at each address what it held before
or what is to be written there. A flush that fails keeps to this (`Resumes.failed`), and so do
reading and a source that refuses other addresses than before. It therefore holds however often a
flush was tried in vain (`Retries.resumes`).
-/

namespace EvmCore

/-- The state over a source that refuses other addresses. -/
def State.refusing (s : State) (unreadable unwritable undeletable : AddressSet) : State :=
  World.withSource s { s.world.source with unreadable, unwritable, undeletable }

namespace World

variable {s s₁ s₂ : State}

/-- A source that refuses nothing accepts everything. -/
theorem flushable_refusing_empty (s : State) : Flushable (s.refusing ∅ ∅ ∅) := by
  intro a _
  cases (s.refusing ∅ ∅ ∅).world.cached a with
  | none => exact Std.ExtTreeSet.not_mem_empty
  | some account => exact Std.ExtTreeSet.not_mem_empty

/-- A flush of `s'` comes to the same as one of `s`. -/
structure Resumes (s s' : State) : Prop where
  dirty : s'.world.dirty = s.world.dirty
  cached : ∀ a ∈ s.world.dirty, s'.world.cached a = s.world.cached a
  /-- The source holds what it held before, or what is to be written. -/
  accounts : ∀ a, s'.world.source.accounts[a]? = s.world.source.accounts[a]? ∨
    a ∈ s.world.dirty ∧ s'.world.source.accounts[a]? = s.world.cached a

/-- One comes from `s` to the last state by flushes that fail, by reading, and by the source
refusing other addresses than before. -/
inductive Retries (s : State) : State → Prop
  | start : Retries s s
  | failed {s₁ s₂ : State} {e : Fault} : Retries s s₁ → flush s₁ = .error e s₂ → Retries s s₂
  /-- What is marked was loaded, as it is in every state that work on a source comes to. -/
  | read {s₁ s₂ : State} : Retries s s₁ → s₁.world.DirtyLoaded → Quiet s₁ s₂ → Retries s s₂
  | refusing {s₁ : State} (unreadable unwritable undeletable : AddressSet) :
      Retries s s₁ → Retries s (s₁.refusing unreadable unwritable undeletable)

namespace Resumes

theorem refl (s : State) : Resumes s s := ⟨rfl, fun _ _ => rfl, fun _ => .inl rfl⟩

/-- It does not matter what the source refuses. -/
theorem refusing (h : Resumes s s₁) (unreadable unwritable undeletable : AddressSet) :
    Resumes s (s₁.refusing unreadable unwritable undeletable) := ⟨h.dirty, h.cached, h.accounts⟩

/-- A flush that fails wrote some of what is to be written. -/
theorem failed {e : Fault} (h : Resumes s s₁) (hflush : flush s₁ = .error e s₂) : Resumes s s₂ := by
  obtain ⟨a, -, -, rfl⟩ := eq_of_flush_error hflush
  refine ⟨h.dirty, h.cached, fun b => ?_⟩
  have hbelow := s₁.world.sourceBelow_getElem? a b
  -- below the address that was refused it was written, and from there on it is as it was
  split at hbelow
  · next hb =>
    have hdirty : b ∈ s.world.dirty := h.dirty ▸ hb.1
    exact .inr ⟨hdirty, hbelow.trans (h.cached b hdirty)⟩
  · exact (h.accounts b).imp hbelow.trans (And.imp_right hbelow.trans)

/-- What is read is not what is to be written, which is in the cache. -/
theorem read (h : Resumes s s₁) (hloaded : s₁.world.DirtyLoaded) (hquiet : Quiet s₁ s₂) :
    Resumes s s₂ := by
  have hretains := hquiet.toRetains
  have hdirty : s₂.world.dirty = s₁.world.dirty := congrArg View.dirty hquiet.view_eq
  refine ⟨hdirty.trans h.dirty, fun a ha => ?_, fun a => ?_⟩
  · have hloaded₁ : s₁.world.Loaded a := hloaded a (h.dirty ▸ ha)
    -- what is marked was loaded, so reading does not load it again
    calc s₂.world.cached a
        = s₂.world.shown a := cached_eq_shown (hretains.loaded a hloaded₁)
      _ = s₁.world.shown a := congrFun (congrArg View.account hquiet.view_eq) a
      _ = s₁.world.cached a := (cached_eq_shown hloaded₁).symm
      _ = s.world.cached a := h.cached a ha
  · rw [hretains.source]
    exact h.accounts a

/-- **Both flushes leave the same accounts.** -/
theorem flushedSource_accounts (h : Resumes s s₁) :
    s₁.world.flushedSource.accounts = s.world.flushedSource.accounts := by
  refine Std.ExtTreeMap.ext_getElem? fun {a} => ?_
  rw [flushedSource, flushedSource, Source.appliedAll_getElem?, Source.appliedAll_getElem?, h.dirty]
  -- at an address that is marked, both write the account in the cache
  by_cases ha : a ∈ s.world.dirty
  · rw [if_pos (Std.ExtTreeSet.mem_toList.mpr ha), if_pos (Std.ExtTreeSet.mem_toList.mpr ha),
      h.cached a ha]
  · rw [if_neg (mt Std.ExtTreeSet.mem_toList.mp ha), if_neg (mt Std.ExtTreeSet.mem_toList.mp ha)]
    exact (h.accounts a).resolve_right fun hwritten => ha hwritten.1

end Resumes

/-- **However often a flush was tried in vain**, the next one comes to the same. -/
theorem Retries.resumes (h : Retries s s₁) : Resumes s s₁ := by
  -- by induction on the attempts
  induction h with
  | start => exact .refl s
  | failed _ hflush ih => exact ih.failed hflush
  | read _ hloaded hquiet ih => exact ih.read hloaded hquiet
  | refusing unreadable unwritable undeletable _ ih =>
    exact ih.refusing unreadable unwritable undeletable

/-- **A failed flush can be retried.** A flush succeeds exactly if the source accepts every
marked account, and then has written them all. Otherwise it fails at the first marked address,
in ascending order, that the source refuses. It has then written the marked accounts below that
one, each once and in order, and changed nothing but the source: not the cache, nor the marks.
However often it fails, and whatever the source refuses on the way, the first flush of which the
source accepts everything leaves the accounts that a single one would have left, had the source
accepted everything to begin with. -/
theorem failed_flush_can_be_retried (s : State) :
    ((∃ s', flush s = .ok () s') ↔ Flushable s) ∧
    (∀ s', flush s = .ok () s' → s'.world.dirty = ∅ ∧ s'.world.cache = s.world.cache ∧
      ∀ b, s'.world.source.accounts[b]? =
        if b ∈ s.world.dirty then s.world.cached b else s.world.source.accounts[b]?) ∧
    (¬Flushable s → ∃ a ∈ s.world.dirty, ∃ s', flush s = .error (.unwritable a) s' ∧
      ¬s.world.source.Accepts a (s.world.cached a) ∧
      (∀ b ∈ s.world.dirty, b < a → s.world.source.Accepts b (s.world.cached b)) ∧
      s' = withSource s s'.world.source ∧
      s'.world.cache = s.world.cache ∧ s'.world.dirty = s.world.dirty ∧
      s'.world.source.changes.toList = s.world.source.changes.toList ++
        (s.world.dirty.toList.filter (· < a)).map (fun b => Source.change b (s.world.cached b)) ∧
      ∀ b, s'.world.source.accounts[b]? =
        if b ∈ s.world.dirty ∧ b < a then s.world.cached b else s.world.source.accounts[b]?) ∧
    (∀ s₁ unreadable unwritable undeletable, Retries s s₁ → Flushable s₁ →
      Flushable (s.refusing unreadable unwritable undeletable) →
      ∃ s₂ s₃, flush s₁ = .ok () s₂ ∧
        flush (s.refusing unreadable unwritable undeletable) = .ok () s₃ ∧
        s₂.world.source.accounts = s₃.world.source.accounts ∧
        s₂.world.dirty = s₃.world.dirty) := by
  refine ⟨⟨fun ⟨s', hok⟩ => ?_, flush_of_flushable⟩, fun s' hok => ?_, fun hnot => ?_, ?_⟩
  · -- had the source refused an account, the flush would have failed
    refine (flushable_or_refused s).resolve_right fun ⟨a, ha, hrefused, hbefore⟩ => ?_
    cases hok.symm.trans (flush_eq_error ha hrefused hbefore)
  · obtain ⟨events, rfl⟩ := eq_of_flush hok
    refine ⟨rfl, rfl, fun b => ?_⟩
    change s.world.flushedSource.accounts[b]? = _
    rw [flushedSource, Source.appliedAll_getElem?]
    exact if_congr Std.ExtTreeSet.mem_toList rfl rfl
  · obtain ⟨a, ha, hrefused, hbefore⟩ := (flushable_or_refused s).resolve_left hnot
    exact ⟨a, ha, _, flush_eq_error ha hrefused hbefore, hrefused, hbefore, rfl, rfl, rfl,
      Source.appliedAll_changes _ _ _, s.world.sourceBelow_getElem? a⟩
  · intro s₁ unreadable unwritable undeletable hretries hflushable hworking
    obtain ⟨s₂, hretried⟩ := flush_of_flushable hflushable
    obtain ⟨s₃, hsingle⟩ := flush_of_flushable hworking
    refine ⟨s₂, s₃, hretried, hsingle, ?_⟩
    obtain ⟨events₂, rfl⟩ := eq_of_flush hretried
    obtain ⟨events₃, rfl⟩ := eq_of_flush hsingle
    have hsame := ((Resumes.refl s).refusing unreadable unwritable
      undeletable).flushedSource_accounts
    exact ⟨hretries.resumes.flushedSource_accounts.trans hsame.symm, rfl⟩

/-- A source that refuses to delete the second of three marked accounts: the first is written, the
third is not. Once it refuses nothing, flushing again writes the same as if it never had. -/
theorem refused_deletion_is_retried :
    let source : Source :=
      { accounts := ((∅ : Std.ExtTreeMap Address Account).insert 1 { balance := 9 }).insert 2
          { balance := 7 }
        undeletable := (∅ : AddressSet).insert 2 }
    let s : State :=
      { world :=
          { source
            cache := (((∅ : Std.ExtTreeMap Address CacheEntry).insert 1
              ⟨some { balance := 5 }, ∅⟩).insert 2 ⟨none, ∅⟩).insert 3 ⟨some { nonce := 1 }, ∅⟩
            dirty := (((∅ : AddressSet).insert 1).insert 2).insert 3 } }
    ∃ s₁ s₂ s₃, flush s = .error (.unwritable 2) s₁ ∧ s₁.world.dirty = s.world.dirty ∧
      (s₁.world.source.accounts[(1 : Address)]?).map Account.balance = some 5 ∧
      (s₁.world.source.accounts[(2 : Address)]?).map Account.balance = some 7 ∧
      (s₁.world.source.accounts[(3 : Address)]?).isNone ∧
      flush (s₁.refusing ∅ ∅ ∅) = .ok () s₂ ∧ flush (s.refusing ∅ ∅ ∅) = .ok () s₃ ∧
      s₂.world.source.accounts = s₃.world.source.accounts ∧
      (s₃.world.source.accounts[(2 : Address)]?).isNone := by
  intro source s
  have hfails : failsWith (fun e s₁ => decide (e = .unwritable 2 ∧
      (s₁.world.source.accounts[(1 : Address)]?).map Account.balance = some 5 ∧
      (s₁.world.source.accounts[(2 : Address)]?).map Account.balance = some 7 ∧
      (s₁.world.source.accounts[(3 : Address)]?).isNone)) (flush s) = true := by decide +kernel
  obtain ⟨e, s₁, hflush, htest⟩ := failsWith_iff.mp hfails
  rw [decide_eq_true_eq] at htest
  obtain ⟨rfl, hfirst, hsecond, hthird⟩ := htest
  obtain ⟨hsucceeds, -, hrefused, hretried⟩ := failed_flush_can_be_retried s
  have hnot : ¬Flushable s := by
    intro hflushable
    obtain ⟨s', hok⟩ := hsucceeds.mpr hflushable
    cases hok.symm.trans hflush
  obtain ⟨a, -, s', hfailed, -, -, -, -, hdirty, -, -⟩ := hrefused hnot
  obtain ⟨-, rfl⟩ := EStateM.Result.error.inj (hfailed.symm.trans hflush)
  obtain ⟨s₂, s₃, hagain, hsingle, haccounts, -⟩ :=
    hretried _ ∅ ∅ ∅ ((Retries.start.failed hflush).refusing ∅ ∅ ∅)
    (flushable_refusing_empty _) (flushable_refusing_empty s)
  have hdeleted := (failed_flush_can_be_retried (s.refusing ∅ ∅ ∅)).2.1 s₃ hsingle
  refine ⟨s', s₂, s₃, hflush, hdirty, hfirst, hsecond, hthird, hagain, hsingle, haccounts, ?_⟩
  rw [hdeleted.2.2 2]
  decide +kernel

end World

end EvmCore
