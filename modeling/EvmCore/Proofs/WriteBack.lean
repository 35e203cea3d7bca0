import EvmCore.Proofs.Mirror
import Mathlib

/-!
# Writing back

At the end of a transaction the marked accounts are written to the source, in ascending order, each
once. Two facts make the source then agree with what the state shows at every address.

* A marked account was loaded (`World.DirtyLoaded`), so that what is written is what is shown.
* An account that is not marked is still the one of the source. This is a relation between views,
  `View.Marks`: work marks every account it changes. Being reflexive and transitive, it holds along
  every run, whatever layers are opened, committed and reverted on the way.

A source may refuse an address. Writing stops there, and what was written before stays: a flush
succeeds if the source accepts every marked account (`World.flush_of_flushable`), and otherwise
fails at the first one that it refuses (`World.flush_eq_error`).
-/

namespace EvmCore

/-! ### Marking -/

/-- From `v` to `v'` marks are only added, and an account that is not marked is unchanged. -/
def View.Marks (v v' : View) : Prop := ∀ a, a ∉ v'.dirty → a ∉ v.dirty ∧ v'.account a = v.account a

namespace View

theorem Marks.refl (v : View) : v.Marks v := fun _ ha => ⟨ha, rfl⟩

theorem Marks.trans {v₁ v₂ v₃ : View} (h : v₁.Marks v₂) (h' : v₂.Marks v₃) : v₁.Marks v₃ := by
  intro a ha
  obtain ⟨ha₂, hv₃⟩ := h' a ha
  obtain ⟨ha₁, hv₂⟩ := h a ha₂
  exact ⟨ha₁, hv₃.trans hv₂⟩

instance : Std.Refl Marks := ⟨Marks.refl⟩

instance : IsTrans View Marks := ⟨fun _ _ _ h h' => h.trans h'⟩

/-- Replacing an account marks it. -/
theorem marks_set (v : View) (a : Address) (account : Option Account) :
    v.Marks (v.set a account) := by
  intro b hb
  -- an address that is not marked afterwards was not marked before, nor is it this one
  have hb' : ¬(a = b ∨ b ∈ v.dirty) := by
    rw [← Std.compare_eq_iff_eq (α := Address), ← Std.ExtTreeSet.mem_insert]
    exact hb
  rw [not_or] at hb'
  exact ⟨hb'.2, Function.update_of_ne (Ne.symm hb'.1) _ _⟩

/-- Whatever leaves the accounts and the marks alone. -/
theorem Marks.of_eq {v v' : View} (haccount : v'.account = v.account)
    (hdirty : v'.dirty = v.dirty) :
    v.Marks v' := by
  intro a ha
  rw [hdirty] at ha
  exact ⟨ha, by rw [haccount]⟩

end View

/-! ### The source -/

namespace Source

/-- The change that puts or removes the account at an address. -/
def change (a : Address) : Option Account → Change
  | some account => .write a account
  | none => .delete a

/-- The source after an account was put or removed. -/
def applied (src : Source) (a : Address) : Option Account → Source
  | some account =>
    { src with
      accounts := src.accounts.insert a account
      changes := src.changes.push (change a (some account)) }
  | none =>
    { src with accounts := src.accounts.erase a, changes := src.changes.push (change a none) }

/-- The source puts an account at an address, or removes the one there, when it is told to. -/
def Accepts (src : Source) (a : Address) : Option Account → Prop
  | some _ => a ∉ src.unwritable
  | none => a ∉ src.undeletable

/-- A source that accepts a change makes it. -/
theorem update_of_accepts {src : Source} {a : Address} {account : Option Account}
    (h : src.Accepts a account) : src.update a account = .ok (src.applied a account) := by
  cases account with
  | none => exact if_neg h
  | some account => exact if_neg h

/-- A source that refuses a change says which address it is about. -/
theorem update_of_not_accepts {src : Source} {a : Address} {account : Option Account}
    (h : ¬src.Accepts a account) : src.update a account = .error (.unwritable a) := by
  cases account with
  | none => exact if_pos (not_not.mp h)
  | some account => exact if_pos (not_not.mp h)

/-- A change that was made was accepted. -/
theorem eq_applied_of_update {src src' : Source} {a : Address} {account : Option Account}
    (h : src.update a account = .ok src') : src' = src.applied a account := by
  by_cases haccepts : src.Accepts a account
  · exact Except.ok.inj (h.symm.trans (update_of_accepts haccepts))
  · cases h.symm.trans (update_of_not_accepts haccepts)

/-- What a source refuses does not depend on the accounts that it holds. -/
theorem accepts_applied {src : Source} {a b : Address} {account account' : Option Account} :
    (src.applied b account').Accepts a account ↔ src.Accepts a account := by
  cases account' with
  | none => cases account <;> exact Iff.rfl
  | some account' => cases account <;> exact Iff.rfl

/-- A source that refuses nothing. -/
structure NeverFails (src : Source) : Prop where
  readable : src.unreadable = ∅
  writable : src.unwritable = ∅
  deletable : src.undeletable = ∅

/-- A source that refuses nothing accepts everything. -/
theorem NeverFails.accepts {src : Source} (h : src.NeverFails) (a : Address)
    (account : Option Account) :
    src.Accepts a account := by
  cases account with
  | none =>
    rw [Accepts, h.deletable]
    exact Std.ExtTreeSet.not_mem_empty
  | some account =>
    rw [Accepts, h.writable]
    exact Std.ExtTreeSet.not_mem_empty

/-- It goes on refusing nothing. -/
theorem NeverFails.applied {src : Source} (h : src.NeverFails) (a : Address)
    (account : Option Account) : (src.applied a account).NeverFails := by
  cases account with
  | none => exact ⟨h.readable, h.writable, h.deletable⟩
  | some account => exact ⟨h.readable, h.writable, h.deletable⟩

/-- What a source holds after one change. -/
theorem applied_getElem? (src : Source) (a b : Address) (account : Option Account) :
    (src.applied a account).accounts[b]? = if a = b then account else src.accounts[b]? := by
  cases account with
  | none =>
    rw [applied, Std.ExtTreeMap.getElem?_erase]
    simp only [Std.compare_eq_iff_eq]
  | some account =>
    rw [applied, Std.ExtTreeMap.getElem?_insert]
    simp only [Std.compare_eq_iff_eq]

/-- What a source was told after one change. -/
theorem applied_changes (src : Source) (a : Address) (account : Option Account) :
    (src.applied a account).changes = src.changes.push (change a account) := by
  cases account <;> rfl

/-- The source after the accounts at some addresses were put or removed in turn. -/
def appliedAll (src : Source) (accounts : Address → Option Account) (l : List Address) : Source :=
  l.foldl (fun src a => src.applied a (accounts a)) src

/-- **What a source holds after some changes.** -/
theorem appliedAll_getElem? (src : Source) (accounts : Address → Option Account)
    (l : List Address) (b : Address) :
    (src.appliedAll accounts l).accounts[b]? =
      if b ∈ l then accounts b else src.accounts[b]? := by
  -- the last write to an address decides, and all writes to it write the same
  induction l generalizing src with
  | nil => rw [if_neg List.not_mem_nil, appliedAll, List.foldl_nil]
  | cons a l ih =>
    change ((src.applied a (accounts a)).appliedAll accounts l).accounts[b]? = _
    rw [ih]
    by_cases hl : b ∈ l
    · rw [if_pos hl, if_pos (List.mem_cons_of_mem a hl)]
    · rw [if_neg hl, applied_getElem?]
      by_cases hab : a = b
      · rw [if_pos hab, if_pos (hab ▸ List.mem_cons_self), hab]
      · rw [if_neg hab, if_neg]
        intro hb
        rcases List.mem_cons.mp hb with rfl | hb
        · exact hab rfl
        · exact hl hb

/-- **What a source was told after some changes**: all of them, in order. -/
theorem appliedAll_changes (src : Source) (accounts : Address → Option Account)
    (l : List Address) : (src.appliedAll accounts l).changes.toList =
      src.changes.toList ++ l.map fun a => change a (accounts a) := by
  -- by induction on the addresses, the first of which comes first
  induction l generalizing src with
  | nil => rw [List.map_nil, List.append_nil, appliedAll, List.foldl_nil]
  | cons a l ih =>
    change ((src.applied a (accounts a)).appliedAll accounts l).changes.toList = _
    rw [ih, applied_changes, Array.toList_push, List.append_assoc, List.map_cons,
      List.singleton_append]

/-- What a source refuses does not depend on how much it was told. -/
theorem accepts_appliedAll {src : Source} {a : Address} {account : Option Account}
    (accounts : Address → Option Account) (l : List Address) :
    (src.appliedAll accounts l).Accepts a account ↔ src.Accepts a account := by
  induction l generalizing src with
  | nil => exact Iff.rfl
  | cons b l ih => exact ih.trans accepts_applied

end Source

/-! ### Flushing -/

namespace World

/-- The state with another source in place of its own. -/
def withSource (s : State) (source : Source) : State := { s with world := { s.world with source } }

/-- One account is written, and then the others. -/
theorem writeBack_cons (a : Address) (l : List Address) (s : State) : writeBack (a :: l) s =
    match s.world.source.update a (s.world.cached a) with
    | .error fault => .error fault s
    | .ok source => writeBack l (withSource s source) := by
  rw [writeBack, get_bind]
  cases s.world.source.update a (s.world.cached a) <;> rfl

/-- **Writing back**, where it succeeds, applies the cached accounts to the source in turn. -/
theorem eq_appliedAll_of_writeBack {l : List Address} {s s' : State}
    (h : writeBack l s = .ok () s') :
    s' = withSource s (s.world.source.appliedAll s.world.cached l) := by
  -- by induction on the addresses: what is cached does not change on the way
  induction l generalizing s with
  | nil => exact (pure_ok_iff.mp h).2.symm
  | cons a l ih =>
    rw [writeBack_cons] at h
    cases hupdate : s.world.source.update a (s.world.cached a) with
    | error fault =>
      rw [hupdate] at h
      cases h
    | ok source =>
      rw [hupdate] at h
      rw [ih h, Source.eq_applied_of_update hupdate]
      rfl

/-- **Writing back goes on** behind what the source accepts. -/
theorem writeBack_append {s : State} {written : List Address} (rest : List Address)
    (h : ∀ a ∈ written, s.world.source.Accepts a (s.world.cached a)) :
    writeBack (written ++ rest) s =
      writeBack rest (withSource s (s.world.source.appliedAll s.world.cached written)) := by
  -- by induction on what is accepted
  induction written generalizing s with
  | nil => rfl
  | cons a written ih =>
    obtain ⟨ha, hwritten⟩ := List.forall_mem_cons.mp h
    rw [List.cons_append, writeBack_cons, Source.update_of_accepts ha]
    exact ih fun b hb => Source.accepts_applied.mpr (hwritten b hb)

/-- Where everything is accepted, all of it is written. -/
theorem writeBack_of_accepts {s : State} {l : List Address}
    (h : ∀ a ∈ l, s.world.source.Accepts a (s.world.cached a)) :
    writeBack l s = .ok () (withSource s (s.world.source.appliedAll s.world.cached l)) := by
  have hwrite := writeBack_append [] h
  rw [List.append_nil] at hwrite
  exact hwrite

/-- In particular by a source that refuses nothing. -/
theorem writeBack_of_neverFails (l : List Address) {s : State} (h : s.world.source.NeverFails) :
    writeBack l s = .ok () (withSource s (s.world.source.appliedAll s.world.cached l)) :=
  writeBack_of_accepts fun a _ => h.accepts a (s.world.cached a)

/-- The addresses to write back, in ascending order and each once. -/
theorem dirty_toList_sorted (w : World) : w.dirty.toList.Pairwise (· < ·) := by
  exact w.dirty.ordered_toList.imp compareOfLessAndEq_eq_lt.mp

/-- The source after a flush: what is marked was written as it was cached. -/
def flushedSource (w : World) : Source := w.source.appliedAll w.cached w.dirty.toList

/-- The source after a flush holds what was shown before it, at every address. -/
theorem flushedSource_getElem? {w : World} (hloaded : w.DirtyLoaded)
    (hclean : ∀ a, a ∉ w.dirty → w.shown a = w.source.accounts[a]?) (a : Address) :
    w.flushedSource.accounts[a]? = w.shown a := by
  rw [flushedSource, Source.appliedAll_getElem?]
  -- what is marked is cached, and what is not marked was never changed
  by_cases ha : a ∈ w.dirty
  · rw [if_pos (Std.ExtTreeSet.mem_toList.mpr ha), cached_eq_shown (hloaded a ha)]
  · rw [if_neg (fun h => ha (Std.ExtTreeSet.mem_toList.mp h)), hclean a ha]

/-- A flush replaces the source and takes the marks off. -/
theorem eq_of_flush {s s' : State} (h : flush s = .ok () s') : ∃ events,
    s' = { s with
      world := { s.world with source := s.world.flushedSource, dirty := ∅ }
      events } := by
  rw [flush, get_bind] at h
  obtain ⟨_, s₁, hwrite, h⟩ := bind_ok_iff.mp h
  obtain ⟨_, s₂, hemit, h⟩ := bind_ok_iff.mp h
  rw [eq_appliedAll_of_writeBack hwrite] at hemit
  refine ⟨s₂.events, ?_⟩
  rw [← modify_ok_iff.mp h, ← modify_ok_iff.mp hemit]
  rfl

/-- A fresh state shows what its source holds. -/
theorem shown_ofSource (source : Source) (a : Address) :
    (State.ofSource source).world.shown a = source.accounts[a]? := by
  change World.shown { source } a = source.accounts[a]?
  rw [shown, Std.ExtTreeMap.getElem?_empty]

/-- **Flushing after any work on a fresh state** leaves the source with what is shown. -/
theorem flushedSource_eq_shown {source : Source} {s : State}
    (hretains : Retains (.ofSource source) s) (hmarks : (State.ofSource source).view.Marks s.view) :
    s.world.DirtyLoaded ∧ ∀ a, s.world.flushedSource.accounts[a]? = s.view.account a := by
  -- at first nothing is marked, so whatever is marked later was loaded
  have hloaded : s.world.DirtyLoaded :=
    hretains.dirtyLoaded fun a ha => absurd ha Std.ExtTreeSet.not_mem_empty
  refine ⟨hloaded, flushedSource_getElem? hloaded fun a ha => ?_⟩
  have hsource : s.world.source = source := hretains.source
  calc s.world.shown a
      = (State.ofSource source).world.shown a := (hmarks a ha).2
    _ = source.accounts[a]? := shown_ofSource source a
    _ = s.world.source.accounts[a]? := by rw [hsource]

/-! ### How a flush ends -/

/-- The source accepts everything that a flush would write. -/
def Flushable (s : State) : Prop := ∀ a ∈ s.world.dirty, s.world.source.Accepts a (s.world.cached a)

/-- A flush succeeds if the source accepts all that it is told. -/
theorem flush_of_flushable {s : State} (h : Flushable s) : ∃ s', flush s = .ok () s' := by
  have hwrite := writeBack_of_accepts fun a ha => h a (Std.ExtTreeSet.mem_toList.mp ha)
  rw [flush, get_bind]
  exact ⟨_, (bind_of_ok hwrite).trans rfl⟩

/-- In particular on a source that refuses nothing. -/
theorem flush_of_neverFails {s : State} (h : s.world.source.NeverFails) :
    ∃ s', flush s = .ok () s' :=
  flush_of_flushable fun a _ => h.accepts a (s.world.cached a)

/-- In an ascending list, what stands before an item is what is smaller. -/
theorem mem_of_ascending {l written rest : List Address} {a : Address}
    (hsorted : l.Pairwise (· < ·)) (hl : l = written ++ a :: rest) (b : Address) :
    b ∈ written ↔ b ∈ l ∧ b < a := by
  subst hl
  obtain ⟨-, hrest, hbefore⟩ := List.pairwise_append.mp hsorted
  constructor
  · intro hb
    exact ⟨List.mem_append_left _ hb, hbefore b hb a List.mem_cons_self⟩
  · rintro ⟨hb, hlt⟩
    rcases List.mem_append.mp hb with hb | hb
    · exact hb
    · rcases List.mem_cons.mp hb with rfl | hb
      · exact absurd hlt (BitVec.lt_irrefl b)
      · exact absurd ((List.pairwise_cons.mp hrest).1 b hb) (BitVec.lt_asymm hlt)

/-- The addresses before one of them, in ascending order. -/
theorem filter_lt_of_ascending {l written rest : List Address} {a : Address}
    (hsorted : l.Pairwise (· < ·)) (hl : l = written ++ a :: rest) :
    l.filter (· < a) = written := by
  have hbefore (b : Address) := mem_of_ascending hsorted hl b
  have hwritten : written.filter (· < a) = written :=
    List.filter_eq_self.mpr fun b hb => decide_eq_true ((hbefore b).mp hb).2
  have hrest : (a :: rest).filter (· < a) = [] := by
    refine List.filter_eq_nil_iff.mpr fun b hb hlt => ?_
    have hmem : b ∈ written :=
      (hbefore b).mpr ⟨hl ▸ List.mem_append_right _ hb, of_decide_eq_true hlt⟩
    -- an address stands once in the list
    rw [hl] at hsorted
    exact BitVec.lt_irrefl b ((List.pairwise_append.mp hsorted).2.2 b hmem b hb)
  rw [hl, List.filter_append, hwritten, hrest, List.append_nil]

/-- The source after the marked accounts below an address were written. -/
def sourceBelow (w : World) (a : Address) : Source :=
  w.source.appliedAll w.cached (w.dirty.toList.filter (· < a))

/-- What the source holds after the marked accounts below an address were written. -/
theorem sourceBelow_getElem? (w : World) (a b : Address) : (w.sourceBelow a).accounts[b]? =
    if b ∈ w.dirty ∧ b < a then w.cached b else w.source.accounts[b]? := by
  have hmem : b ∈ w.dirty.toList.filter (· < a) ↔ b ∈ w.dirty ∧ b < a := by
    rw [List.mem_filter, Std.ExtTreeSet.mem_toList, decide_eq_true_eq]
  rw [sourceBelow, Source.appliedAll_getElem?]
  exact if_congr hmem rfl rfl

/-- **A flush stops at the first marked address that the source refuses.** -/
theorem flush_eq_error {s : State} {a : Address} (ha : a ∈ s.world.dirty)
    (hrefused : ¬s.world.source.Accepts a (s.world.cached a))
    (hbefore : ∀ b ∈ s.world.dirty, b < a → s.world.source.Accepts b (s.world.cached b)) :
    flush s = .error (.unwritable a) (withSource s (s.world.sourceBelow a)) := by
  obtain ⟨written, rest, hl⟩ := List.append_of_mem (Std.ExtTreeSet.mem_toList.mpr ha)
  have hsorted := s.world.dirty_toList_sorted
  -- what stands before an address in the list is below it
  have haccepts : ∀ b ∈ written, s.world.source.Accepts b (s.world.cached b) := by
    intro b hb
    obtain ⟨hmem, hlt⟩ := (mem_of_ascending hsorted hl b).mp hb
    exact hbefore b (Std.ExtTreeSet.mem_toList.mp hmem) hlt
  -- the source still refuses the address once the others are written
  have hupdate := Source.update_of_not_accepts
    (mt (Source.accepts_appliedAll s.world.cached written).mp hrefused)
  rw [sourceBelow, filter_lt_of_ascending hsorted hl, flush, get_bind]
  refine bind_error_iff.mpr (.inl ?_)
  rw [hl, writeBack_append (a :: rest) haccepts, writeBack_cons]
  change (match (s.world.source.appliedAll s.world.cached written).update a (s.world.cached a) with
    | .error fault => _
    | .ok source => _) = _
  rw [hupdate]

/-- There is a first refusal, unless everything is accepted. -/
theorem flushable_or_refused (s : State) : Flushable s ∨ ∃ a ∈ s.world.dirty,
    ¬s.world.source.Accepts a (s.world.cached a) ∧
    ∀ b ∈ s.world.dirty, b < a → s.world.source.Accepts b (s.world.cached b) := by
  classical
  -- the first refusal in the list, if there is one
  cases hfind : s.world.dirty.toList.find? fun a =>
    ¬s.world.source.Accepts a (s.world.cached a) with
  | none =>
    refine .inl fun a ha => ?_
    have hnot := List.find?_eq_none.mp hfind a (Std.ExtTreeSet.mem_toList.mpr ha)
    exact not_not.mp fun h => hnot (decide_eq_true h)
  | some a =>
    obtain ⟨hrefused, written, rest, hl, hwritten⟩ := List.find?_eq_some_iff_append.mp hfind
    refine .inr ⟨a, ?_, of_decide_eq_true hrefused, fun b hb hlt => ?_⟩
    · exact Std.ExtTreeSet.mem_toList.mp (hl ▸ List.mem_append_right _ List.mem_cons_self)
    · have hmem := (mem_of_ascending s.world.dirty_toList_sorted hl b).mpr
        ⟨Std.ExtTreeSet.mem_toList.mpr hb, hlt⟩
      simpa using hwritten b hmem

/-- **How a flush fails**: at the first refusal, with what is below it written. -/
theorem eq_of_flush_error {s s' : State} {e : Fault} (h : flush s = .error e s') :
    ∃ a ∈ s.world.dirty, e = .unwritable a ∧ s' = withSource s (s.world.sourceBelow a) := by
  rcases flushable_or_refused s with hflushable | ⟨a, ha, hrefused, hbefore⟩
  · obtain ⟨s₁, hok⟩ := flush_of_flushable hflushable
    cases hok.symm.trans h
  · obtain ⟨rfl, rfl⟩ :=
      EStateM.Result.error.inj ((flush_eq_error ha hrefused hbefore).symm.trans h)
    exact ⟨a, ha, rfl, rfl⟩

end World

end EvmCore
