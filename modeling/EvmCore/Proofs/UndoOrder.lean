import EvmCore.Proofs.Computation
import EvmCore.State
import Mathlib

/-!
# What a revert undoes, and in which order

A journal keeps its entries in nested layers, which commits merge. To its user there are no layers,
only a history of uses: entries were recorded, checkpoints taken, and each commit or revert closed
the latest checkpoint that was still open. Here the journal is compared with that history, in which
a use is known by the time at which it was made.

The history is flat. After `t` uses it has the times of the checkpoints that are open (`opened`) and
the times of the entries that were recorded and not undone (`live`), both with the latest first. A
revert has to undo the live entries that are later than the checkpoint it closes (`due`). The layers
of the journal are the live entries, cut at the open checkpoints (`Layers`); every use keeps them so
(`layers_after`), whence what a revert hands out is what is due.
-/

namespace EvmCore

namespace Journal

variable {Entry : Type}

/-! ### Uses of a journal -/

/-- One use of a journal. -/
inductive Use (Entry : Type) where
  | record (e : Entry)
  | checkpoint
  | commit
  | revert

/-- Puts a journal to use. The answer is the entries to be undone, in the order
in which they are to be. -/
def use : Use Entry → Journal Entry → EStateM.Result Fault (Journal Entry) (List Entry)
  | .record e, j => .ok [] (j.record e)
  | .checkpoint, j => .ok [] j.checkpoint
  | .commit, j =>
    match j.commit? with
    | none => .error .commitWithoutCheckpoint j
    | some j' => .ok [] j'
  | .revert, j =>
    match j.revert? with
    | none => .error .revertWithoutCheckpoint j
    | some (entries, j') => .ok entries j'

/-- A new journal after the first uses of a list, carrying on after one that is refused. -/
def after (uses : List (Use Entry)) : Nat → Journal Entry
  | 0 => {}
  | t + 1 =>
    match uses[t]? with
    | some u => ended (use u (after uses t))
    | none => after uses t

/-! ### The flat history -/

variable (uses : List (Use Entry))

/-- The entry is recorded at the time `i`. -/
def RecordedAt (i : Nat) (e : Entry) : Prop := uses[i]? = some (.record e)

/-- The times of the checkpoints that are open before the use at a time, latest first. -/
def opened : Nat → List Nat
  | 0 => []
  | t + 1 =>
    match uses[t]? with
    | some .checkpoint => t :: opened t
    -- without an open checkpoint the use is refused, and there is none to take off
    | some .commit | some .revert => (opened t).tail
    | _ => opened t

/-- The times of the entries that were recorded and not undone before the use
at a time, latest first. -/
def live : Nat → List Nat
  | 0 => []
  | t + 1 =>
    match uses[t]?, opened uses t with
    | some (.record _), _ => t :: live t
    | some .revert, c :: _ => (live t).filter (· < c)
    | _, _ => live t

/-- The times of the entries that the use at a time has to undo, latest first. -/
def due (t : Nat) : List Nat :=
  match uses[t]?, opened uses t with
  | some .revert, c :: _ => (live uses t).filter (c < ·)
  | _, _ => []

variable {uses} {c i t : Nat}

/-- What is open was taken before, as a checkpoint. -/
theorem mem_opened (h : c ∈ opened uses t) : c < t ∧ uses[c]? = some .checkpoint := by
  -- by induction on the time; a use adds at most the checkpoint it takes
  induction t with
  | zero => cases h
  | succ t ih =>
    have hstep : c = t ∧ uses[t]? = some .checkpoint ∨ c ∈ opened uses t := by
      rw [opened] at h
      split at h
      · next hu => exact (List.mem_cons.mp h).imp_left (⟨·, hu⟩)
      · exact .inr (List.mem_of_mem_tail h)
      · exact .inr (List.mem_of_mem_tail h)
      · exact .inr h
    obtain ⟨rfl, hu⟩ | h := hstep
    · exact ⟨Nat.lt_succ_self c, hu⟩
    · exact (ih h).imp_left Nat.lt_succ_of_lt

/-- What is live was recorded before. -/
theorem mem_live (h : i ∈ live uses t) : i < t ∧ ∃ e, RecordedAt uses i e := by
  -- by induction on the time; a use adds at most the entry it records
  induction t with
  | zero => cases h
  | succ t ih =>
    have hstep : i = t ∧ (∃ e, RecordedAt uses t e) ∨ i ∈ live uses t := by
      rw [live] at h
      split at h
      · next _ e hu => exact (List.mem_cons.mp h).imp_left (⟨·, e, hu⟩)
      · exact .inr (List.mem_of_mem_filter h)
      · exact .inr h
    obtain ⟨rfl, hrecorded⟩ | h := hstep
    · exact ⟨Nat.lt_succ_self i, hrecorded⟩
    · exact (ih h).imp_left Nat.lt_succ_of_lt

/-- The live entries are in the order of their times, latest first. -/
theorem pairwise_live (uses : List (Use Entry)) (t : Nat) : (live uses t).Pairwise (· > ·) := by
  induction t with
  | zero => exact .nil
  | succ t ih =>
    rw [live]
    split
    · exact .cons (fun i h => (mem_live h).1) ih
    · exact ih.filter _
    · exact ih

/-- What is due is live and later than the checkpoint that a revert closes. -/
theorem mem_due : i ∈ due uses t ↔ uses[t]? = some .revert ∧
    ∃ c, (opened uses t).head? = some c ∧ c < i ∧ i ∈ live uses t := by
  rw [due]
  split
  · next c rest hu hopened => simp [hu, hopened, and_comm]
  · next hother =>
    refine ⟨nofun, fun ⟨hu, c, hc, _⟩ => ?_⟩
    obtain ⟨rest, hopened⟩ := List.head?_eq_some_iff.mp hc
    exact absurd hopened (hother c rest hu)

/-- No entry is recorded when a checkpoint is taken. -/
theorem ne_of_mem_opened (hi : i ∈ live uses t) (hc : c ∈ opened uses t) : i ≠ c := by
  rintro rfl
  obtain ⟨-, e, he⟩ := mem_live hi
  have hcheckpoint := (mem_opened hc).2
  rw [he] at hcheckpoint
  cases hcheckpoint

/-- One use adds the entry that it records, and takes away those that it has to undo. -/
theorem mem_live_succ : i ∈ live uses (t + 1) ↔
    i = t ∧ (∃ e, RecordedAt uses t e) ∨ i ∈ live uses t ∧ i ∉ due uses t := by
  rw [live]
  split
  · next _ e hu => simp [RecordedAt, due, hu]
  · next c rest hu hopened =>
    -- no entry has the time of the checkpoint, so what is not earlier is later
    have hkept : i ∈ live uses t ∧ i < c ↔ i ∈ live uses t ∧ ¬c < i := by
      refine and_congr_right fun hi => ?_
      have hne : i ≠ c := ne_of_mem_opened hi (hopened ▸ List.mem_cons_self)
      omega
    simp +contextual [RecordedAt, due, hu, hopened, hkept]
  · next hrecord hrevert =>
    have hrecorded : ¬∃ e, RecordedAt uses t e := fun ⟨e, he⟩ => hrecord e he
    have hdue : due uses t = [] := by
      rw [due]
      split
      · next c rest hu hopened => exact absurd hopened (hrevert c rest hu)
      · rfl
    simp [hrecorded, hdue]

/-- **What is live** was recorded, and no use before had to undo it. -/
theorem mem_live_iff : i ∈ live uses t ↔
    i < t ∧ (∃ e, RecordedAt uses i e) ∧ ∀ r < t, i ∉ due uses r := by
  induction t with
  | zero => simp [live]
  | succ t ih =>
    rw [mem_live_succ, ih]
    constructor
    · rintro (⟨rfl, hrecorded⟩ | ⟨⟨hlt, hrecorded, hdue⟩, hlast⟩)
      · -- what is undone was recorded before
        refine ⟨Nat.lt_succ_self i, hrecorded, fun r hr hi => ?_⟩
        obtain ⟨-, c, -, -, hlive⟩ := mem_due.mp hi
        have := (mem_live hlive).1
        omega
      · refine ⟨Nat.lt_succ_of_lt hlt, hrecorded, fun r hr => ?_⟩
        obtain hr | rfl := Nat.lt_succ_iff_lt_or_eq.mp hr
        · exact hdue r hr
        · exact hlast
    · rintro ⟨hlt, hrecorded, hdue⟩
      obtain hlt | rfl := Nat.lt_succ_iff_lt_or_eq.mp hlt
      · exact .inr ⟨⟨hlt, hrecorded, fun r hr => hdue r (Nat.lt_succ_of_lt hr)⟩,
          hdue t (Nat.lt_succ_self t)⟩
      · exact .inl ⟨rfl, hrecorded⟩

/-- **What is due** was recorded since the checkpoint that is closed and was not undone before. -/
theorem mem_due_iff_not_undone (hu : uses[t]? = some .revert)
    (hc : (opened uses t).head? = some c) :
    i ∈ due uses t ↔ c < i ∧ i < t ∧ (∃ e, RecordedAt uses i e) ∧ ∀ r < t, i ∉ due uses r := by
  rw [mem_due, ← mem_live_iff]
  constructor
  · rintro ⟨-, c', hc', hlt, hlive⟩
    cases hc.symm.trans hc'
    exact ⟨hlt, hlive⟩
  · rintro ⟨hlt, hlive⟩
    exact ⟨hu, c, hc, hlt, hlive⟩

/-- What is due was recorded since the checkpoint that is closed, in no layer
that was reverted since. -/
theorem mem_due_iff_not_reverted (hu : uses[t]? = some .revert)
    (hc : (opened uses t).head? = some c) :
    i ∈ due uses t ↔ c < i ∧ i < t ∧ (∃ e, RecordedAt uses i e) ∧
      ∀ r < t, i < r → uses[r]? = some .revert → ∀ c', (opened uses r).head? = some c' →
        i < c' := by
  rw [mem_due_iff_not_undone hu hc]
  refine and_congr_right fun _ => and_congr_right fun _ => and_congr_right fun hrecorded => ?_
  constructor
  · -- otherwise it was due at that revert, being still live then
    intro hdue r hr hi hrevert c' hc'
    by_contra hle
    have hlive : i ∈ live uses r :=
      mem_live_iff.mpr ⟨hi, hrecorded, fun r' hr' => hdue r' (hr'.trans hr)⟩
    have hne : i ≠ c' := ne_of_mem_opened hlive (List.mem_of_head? hc')
    exact hdue r hr (mem_due.mpr ⟨hrevert, c', hc', by omega, hlive⟩)
  · -- what was due at an earlier revert is later than the checkpoint which that one closed
    intro hkept r hr hi
    obtain ⟨hrevert, c', hc', hlt, hlive⟩ := mem_due.mp hi
    exact absurd (hkept r hr (mem_live hlive).1 hrevert c' hc') (Nat.lt_asymm hlt)

/-- So are the entries that are due. -/
theorem pairwise_due (uses : List (Use Entry)) (t : Nat) : (due uses t).Pairwise (· > ·) := by
  rw [due]
  split
  · exact (pairwise_live uses t).filter _
  · exact .nil

/-! ### The layers of the journal -/

/-- The entries recorded at the times of a list, cut at the times of another one,
are the layers of a journal. -/
inductive Layers (uses : List (Use Entry)) : List Nat → List Nat → Journal Entry → Prop
  | outermost {live : List Nat} {current : List Entry} :
      List.Forall₂ (RecordedAt uses) live current → Layers uses live [] ⟨current, []⟩
  | inner {since before cuts : List Nat} {c : Nat} {current layer : List Entry}
      {outer : List (List Entry)} :
      List.Forall₂ (RecordedAt uses) since current → (∀ i ∈ since, c < i) →
      (∀ i ∈ before, i < c) → (∀ c' ∈ cuts, c' < c) → Layers uses before cuts ⟨layer, outer⟩ →
      Layers uses (since ++ before) (c :: cuts) ⟨current, layer :: outer⟩

namespace Layers

variable {live cuts : List Nat} {j : Journal Entry} {e : Entry}

/-- There are as many layers open as there are cuts. -/
theorem depth_eq (h : Layers uses live cuts j) : j.depth = cuts.length := by
  induction h with
  | outermost _ => rfl
  | inner _ _ _ _ _ ih => exact congrArg Nat.succ ih

/-- An entry that is recorded goes to the innermost layer. -/
theorem record (h : Layers uses live cuts j) (he : RecordedAt uses t e)
    (hcuts : ∀ c ∈ cuts, c < t) :
    Layers uses (t :: live) cuts (j.record e) := by
  cases h with
  | outermost hcurrent => exact .outermost (.cons he hcurrent)
  | inner hcurrent hsince hbefore hcuts' houter =>
    refine .inner (.cons he hcurrent) (fun i hi => ?_) hbefore hcuts' houter
    obtain rfl | hi := List.mem_cons.mp hi
    · exact hcuts _ List.mem_cons_self
    · exact hsince i hi

theorem checkpoint (h : Layers uses live cuts j) (hlive : ∀ i ∈ live, i < t)
    (hcuts : ∀ c ∈ cuts, c < t) :
    Layers uses live (t :: cuts) j.checkpoint :=
  .inner .nil nofun hlive hcuts h

/-- A commit takes a cut away and leaves the entries. -/
theorem commit (h : Layers uses live (c :: cuts) j) :
    ∃ j', j.commit? = some j' ∧ Layers uses live cuts j' := by
  cases h with
  | inner hcurrent hsince _ hcuts houter =>
    refine ⟨_, rfl, ?_⟩
    cases houter with
    | outermost hlayer => exact .outermost (List.rel_append hcurrent hlayer)
    -- what is later than the cut that goes is later than the next one out
    | inner hlayer hsince' hbefore' hcuts' houter =>
      rw [← List.append_assoc]
      refine .inner (List.rel_append hcurrent hlayer) (fun i hi => ?_) hbefore' hcuts' houter
      obtain hi | hi := List.mem_append.mp hi
      · exact (hcuts _ List.mem_cons_self).trans (hsince i hi)
      · exact hsince' i hi

/-- A revert takes away a cut with what is later, and hands that out. -/
theorem revert (h : Layers uses live (c :: cuts) j) :
    ∃ entries j', j.revert? = some (entries, j') ∧
      List.Forall₂ (RecordedAt uses) (live.filter (c < ·)) entries ∧
      Layers uses (live.filter (· < c)) cuts j' := by
  cases h with
  | @inner since before _ _ _ _ _ hcurrent hsince hbefore _ houter =>
    have hlater : (since ++ before).filter (c < ·) = since := by
      rw [List.filter_append, List.filter_eq_self.mpr (by simpa using hsince),
        List.filter_eq_nil_iff.mpr (by simpa using fun i hi => (hbefore i hi).le), List.append_nil]
    have hearlier : (since ++ before).filter (· < c) = before := by
      rw [List.filter_append,
        List.filter_eq_nil_iff.mpr (by simpa using fun i hi => (hsince i hi).le),
        List.filter_eq_self.mpr (by simpa using hbefore), List.nil_append]
    rw [hlater, hearlier]
    exact ⟨_, _, rfl, hcurrent, houter⟩

/-- Without a cut, nothing can be closed. -/
theorem refused (h : Layers uses live [] j) : j.commit? = none ∧ j.revert? = none := by
  cases h with
  | outermost _ => exact ⟨rfl, rfl⟩

end Layers

/-- **The layers are the history cut at its open checkpoints**, after any number of uses. -/
theorem layers_after (uses : List (Use Entry)) (t : Nat) :
    Layers uses (live uses t) (opened uses t) (after uses t) := by
  induction t with
  | zero => exact .outermost .nil
  | succ t ih =>
    -- the history and the journal are both unfolded at the use made at `t`
    have hcuts : ∀ c ∈ opened uses t, c < t := fun c hc => (mem_opened hc).1
    rw [live, opened, after]
    cases hu : uses[t]? with
    | none => exact ih
    | some u =>
      cases u with
      | record e => exact ih.record hu hcuts
      | checkpoint => exact ih.checkpoint (fun i hi => (mem_live hi).1) hcuts
      | commit =>
        cases hopened : opened uses t with
        | nil =>
          rw [hopened] at ih
          simp only [use, ih.refused.1]
          exact ih
        | cons c cuts =>
          rw [hopened] at ih
          obtain ⟨j', hcommit, hlayers⟩ := ih.commit
          simp only [use, hcommit]
          exact hlayers
      | revert =>
        cases hopened : opened uses t with
        | nil =>
          rw [hopened] at ih
          simp only [use, ih.refused.2]
          exact ih
        | cons c cuts =>
          rw [hopened] at ih
          obtain ⟨entries, j', hrevert, -, hlayers⟩ := ih.revert
          simp only [use, hrevert]
          exact hlayers

/-- **The depth of the journal** is the number of checkpoints that are open. -/
theorem depth_after (uses : List (Use Entry)) (t : Nat) :
    (after uses t).depth = (opened uses t).length :=
  (layers_after uses t).depth_eq

/-- **A revert hands out what is due.** -/
theorem revert_after (hu : uses[t]? = some .revert) (hc : (opened uses t).head? = some c) :
    ∃ entries, use .revert (after uses t) = .ok entries (after uses (t + 1)) ∧
      List.Forall₂ (RecordedAt uses) (due uses t) entries := by
  obtain ⟨cuts, hopened⟩ := List.head?_eq_some_iff.mp hc
  have hlayers := layers_after uses t
  rw [hopened] at hlayers
  obtain ⟨entries, j', hrevert, hentries, -⟩ := hlayers.revert
  have huse : use .revert (after uses t) = .ok entries j' := by rw [use, hrevert]
  refine ⟨entries, ?_, ?_⟩
  · rw [after, hu]
    simp only [huse, ended]
  · rwa [due, hu, hopened]

/-- At depth zero there is nothing to close, and the journal stays as it is. -/
theorem use_of_depth_eq_zero {j : Journal Entry} (h : j.depth = 0) :
    use .commit j = .error .commitWithoutCheckpoint j ∧
      use .revert j = .error .revertWithoutCheckpoint j := by
  have houter : j.outer = [] := List.length_eq_zero_iff.mp h
  simp [use, commit?, revert?, houter]

end Journal

/-! ### The journal of a state -/

namespace State

/-- Puts the journal of a state to use, and undoes what it hands out. -/
def useJournal (u : Journal.Use Undo) : Action Unit := fun s =>
  match Journal.use u s.journal with
  | .ok entries journal => .ok () (entries.foldl undo { s with journal })
  | .error fault journal => .error fault { s with journal }

/-- Committing is a use of the journal that has nothing to undo. -/
theorem commit_eq_useJournal : commit = useJournal .commit := by
  funext s
  rw [commit, get_bind, useJournal, Journal.use]
  cases s.journal.commit? with
  | none => rfl
  | some journal => rfl

/-- Reverting is a use of the journal, and undoes what is handed out. -/
theorem revert_eq_useJournal : revert = useJournal .revert := by
  funext s
  rw [revert, get_bind, useJournal, Journal.use]
  cases s.journal.revert? with
  | none => rfl
  | some undone => rfl

end State

namespace Journal

/-- **Reverts undo newest first**, along every list of uses of a new journal.

A revert that closes the checkpoint taken at the time `c` hands out the entries recorded at the
times `due uses t`, in that order. These times descend, so that no entry comes twice; they are
exactly those since the checkpoint at which an entry was recorded that no revert before has undone.
An inner layer that was committed makes no difference, and of one that was reverted nothing is left:
an entry is due unless a revert since then closed a checkpoint taken before it. A commit or revert
at depth zero is refused, and the journal is as before. A state puts its journal to these uses and
undoes, in the order of the answer, what it is handed. -/
theorem reverts_undo_newest_first (uses : List (Use Entry)) :
    (∀ t, (after uses t).depth = (opened uses t).length) ∧
    (∀ t c, uses[t]? = some .revert → (opened uses t).head? = some c →
      (∃ entries, use .revert (after uses t) = .ok entries (after uses (t + 1)) ∧
        List.Forall₂ (RecordedAt uses) (due uses t) entries) ∧
      (due uses t).Pairwise (· > ·) ∧
      (∀ i, i ∈ due uses t ↔ c < i ∧ i < t ∧ (∃ e, RecordedAt uses i e) ∧ ∀ r < t, i ∉ due uses r) ∧
      (∀ i, i ∈ due uses t ↔ c < i ∧ i < t ∧ (∃ e, RecordedAt uses i e) ∧
        ∀ r < t, i < r → uses[r]? = some .revert →
          ∀ c', (opened uses r).head? = some c' → i < c')) ∧
    (∀ t, (after uses t).depth = 0 →
      use .commit (after uses t) = .error .commitWithoutCheckpoint (after uses t) ∧
      use .revert (after uses t) = .error .revertWithoutCheckpoint (after uses t)) ∧
    (∀ u, (modify (State.record · u) : Action Unit) = State.useJournal (.record u)) ∧
    State.checkpoint = State.useJournal .checkpoint ∧
    State.commit = State.useJournal .commit ∧
    State.revert = State.useJournal .revert := by
  refine ⟨depth_after uses, fun t c hu hc => ⟨revert_after hu hc, pairwise_due uses t, fun i => ?_,
    fun i => ?_⟩, fun t => use_of_depth_eq_zero, fun u => rfl, rfl, State.commit_eq_useJournal,
    State.revert_eq_useJournal⟩
  · exact mem_due_iff_not_undone hu hc
  · exact mem_due_iff_not_reverted hu hc

/-- Within the layer that is reverted at last, one inner layer was committed
and another one reverted. -/
theorem revert_after_inner_layers :
    let uses : List (Use Nat) :=
      [.checkpoint, .record 10, .checkpoint, .record 11, .record 12, .commit, .checkpoint,
        .record 13, .revert, .record 14, .revert]
    uses[10]? = some .revert ∧ (opened uses 10).head? = some 0 ∧
      (∃ entries, use .revert (after uses 10) = .ok entries (after uses 11) ∧
        List.Forall₂ (RecordedAt uses) [9, 4, 3, 1] entries) ∧
      (after uses 11).depth = 0 ∧
      use .revert (after uses 11) = .error .revertWithoutCheckpoint (after uses 11) := by
  intro uses
  have hu : uses[10]? = some .revert := rfl
  have hc : (opened uses 10).head? = some 0 := rfl
  have hdepth : (after uses 11).depth = 0 := rfl
  obtain ⟨-, hreverts, hrefused, -⟩ := reverts_undo_newest_first uses
  exact ⟨hu, hc, (hreverts 10 0 hu hc).1, hdepth, (hrefused 11 hdepth).2⟩

end Journal

end EvmCore
