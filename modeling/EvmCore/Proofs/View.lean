import EvmCore.Proofs.Computation
import Mathlib

/-!
# What a state shows

The cache of a state is filled on demand, so two states can hold different caches and still answer
every question about accounts alike. `State.view` forgets the difference: it is the account, and the
initial storage, that a question about an address would be answered with, together with the parts of
the world and the substate that the journal restores.

`Grows s s'` says what a computation that opens and closes no layer may do to a state. It leaves the
source alone, loads and warms, and adds entries to the innermost layer; and, what matters, those
entries *undo* it: replayed on what `s'` shows they give back what `s` shows. The relation is
reflexive and transitive (`Grows.refl`, `Grows.trans`), since the entries of two computations are
replayed one list after the other.

An entry about an account can be replayed on views only if the account is in the cache
(`Undo.Cached`): restoring an account that was never loaded would also fix its initial storage.
`Grows` keeps track of that for the entries it adds. It also keeps track of balances: where none is
negative, none becomes so (`State.Solvent`). That is meant of every balance there is, also of those
that only the journal still holds.
-/

namespace EvmCore

/-- What a state shows of the accounts, and what it accrued that a revert takes back. -/
@[ext] structure View where
  /-- The account at an address. -/
  account : Address → Option Account
  /-- The storage of an address when the transaction began. -/
  initial : Address → Storage
  created : AddressSet
  dirty : AddressSet
  selfDestructs : AddressSet
  logs : Array Log
  touched : AddressSet
  refund : Int

namespace World

/-- The account at an address, whether or not it was loaded already. -/
def shown (w : World) (a : Address) : Option Account :=
  match w.cache[a]? with
  | some entry => entry.current
  | none => w.source.accounts[a]?

/-- The storage of an address when the transaction began, whether or not it was loaded already. -/
def shownInitial (w : World) (a : Address) : Storage :=
  match w.cache[a]? with
  | some entry => entry.initial
  | none => ((w.source.accounts[a]?).map Account.storage).getD ∅

/-- Whether an address was loaded. -/
def Loaded (w : World) (a : Address) : Prop := (w.cache[a]?).isSome

/-- Only accounts that were loaded are marked to be written back. -/
def DirtyLoaded (w : World) : Prop := ∀ a ∈ w.dirty, w.Loaded a

/-- For a loaded account, the cache has the answer. -/
theorem cached_eq_shown {w : World} {a : Address} (h : w.Loaded a) : w.cached a = w.shown a := by
  obtain ⟨entry, hentry⟩ := Option.isSome_iff_exists.mp h
  simp only [cached, shown, hentry]

/-- The same for the storage that it had at the beginning. -/
theorem initialStorage_eq_shown {w : World} {a : Address} (h : w.Loaded a) :
    w.initialStorage a = w.shownInitial a := by
  obtain ⟨entry, hentry⟩ := Option.isSome_iff_exists.mp h
  simp only [initialStorage, shownInitial, hentry]

section SetCurrent

variable (w : World) (a : Address) (account : Option Account)

/-- What the cache holds after one account was set there. -/
theorem setCurrent_getElem? (b : Address) : (w.setCurrent a account).cache[b]? =
    if a = b then some ⟨account, w.initialStorage a⟩ else w.cache[b]? := by
  unfold setCurrent
  rw [Std.ExtTreeMap.getElem?_insert]
  simp only [Std.compare_eq_iff_eq]

/-- Setting an account loads it, and unloads no other. -/
theorem setCurrent_loaded {b : Address} (h : w.Loaded b) : (w.setCurrent a account).Loaded b := by
  unfold Loaded
  rw [setCurrent_getElem?]
  split
  · rfl
  · exact h

/-- Setting an account shows it, and no other one differently. -/
theorem setCurrent_shown : (w.setCurrent a account).shown = Function.update w.shown a account := by
  funext b
  unfold shown
  rw [setCurrent_getElem?]
  by_cases hb : b = a
  · subst hb
    rw [if_pos rfl, Function.update_self]
  · rw [if_neg (Ne.symm hb), Function.update_of_ne hb]
    rfl

/-- Only an account that was loaded keeps its initial storage. -/
theorem setCurrent_shownInitial (h : w.Loaded a) :
    (w.setCurrent a account).shownInitial = w.shownInitial := by
  funext b
  by_cases hb : a = b
  · -- the entry is rebuilt with the initial storage of the old one, which is
    -- only there if there was one
    subst hb
    rw [← initialStorage_eq_shown h]
    unfold shownInitial
    rw [setCurrent_getElem?, if_pos rfl]
  · unfold shownInitial
    rw [setCurrent_getElem?, if_neg hb]
    rfl

end SetCurrent

end World

/-- What a state shows. -/
def State.view (s : State) : View where
  account := s.world.shown
  initial := s.world.shownInitial
  created := s.world.created
  dirty := s.world.dirty
  selfDestructs := s.substate.selfDestructs
  logs := s.substate.logs
  touched := s.substate.touched
  refund := s.substate.refund

/-! ### Undoing on views -/

/-- Undoes one change to what is shown. -/
def View.undo (v : View) : Undo → View
  | .account a previous wasDirty =>
    { v with
      account := Function.update v.account a previous
      dirty := if wasDirty then v.dirty else v.dirty.erase a }
  | .created a => { v with created := v.created.erase a }
  | .selfDestruct a => { v with selfDestructs := v.selfDestructs.erase a }
  | .log => { v with logs := v.logs.pop }
  | .touched a => { v with touched := v.touched.erase a }
  | .refund amount => { v with refund := v.refund + amount }

/-- Undoes some changes, newest first. -/
def View.undoAll (v : View) (entries : List Undo) : View := entries.foldl View.undo v

@[simp] theorem View.undoAll_nil (v : View) : v.undoAll [] = v := rfl

@[simp] theorem View.undoAll_cons (v : View) (u : Undo) (entries : List Undo) :
    v.undoAll (u :: entries) = (v.undo u).undoAll entries := rfl

/-- Entries are undone newest first, one list after the other. -/
theorem View.undoAll_append (v : View) (new old : List Undo) :
    v.undoAll (new ++ old) = (v.undoAll new).undoAll old :=
  List.foldl_append

/-- An entry can be replayed on what a world shows. -/
def Undo.Cached (w : World) : Undo → Prop
  | .account a _ _ => w.Loaded a
  | _ => True

/-- An entry that could be replayed still can be, as long as nothing is unloaded. -/
theorem Undo.Cached.mono {w w' : World} {u : Undo} (h : u.Cached w)
    (hw : ∀ a, w.Loaded a → w'.Loaded a) : u.Cached w' := by
  cases u with
  | account a previous wasDirty => exact hw a h
  | _ => trivial

/-- **Undoing commutes with showing.** Replaying an entry on a state and then looking is looking and
then replaying it. -/
theorem State.view_undo (s : State) {u : Undo} (h : u.Cached s.world) :
    (s.undo u).view = s.view.undo u := by
  cases u with
  | account a previous wasDirty =>
    refine View.ext ?_ ?_ rfl rfl rfl rfl rfl rfl
    · -- the account at the place, and the storage that it had at the beginning
      exact s.world.setCurrent_shown a previous
    · exact s.world.setCurrent_shownInitial a previous h
  | _ => rfl

/-! ### What is never taken back -/

/-- The source is the same, and what was loaded or warm still is. -/
structure Retains (s s' : State) : Prop where
  source : s'.world.source = s.world.source
  loaded : ∀ a, s.world.Loaded a → s'.world.Loaded a
  dirtyLoaded : s.world.DirtyLoaded → s'.world.DirtyLoaded
  warmAccounts : ∀ a ∈ s.substate.warmAccounts, a ∈ s'.substate.warmAccounts
  warmSlots : ∀ slot ∈ s.substate.warmSlots, slot ∈ s'.substate.warmSlots

/-- What touches neither the cache nor the warm sets. -/
theorem Retains.of_eq {s s' : State} (hsource : s'.world.source = s.world.source)
    (hcache : s'.world.cache = s.world.cache) (hdirty : s'.world.dirty = s.world.dirty)
    (haccounts : s'.substate.warmAccounts = s.substate.warmAccounts)
    (hslots : s'.substate.warmSlots = s.substate.warmSlots) : Retains s s' where
  source := hsource
  loaded a ha := by rwa [World.Loaded, hcache]
  dirtyLoaded h a ha := by
    rw [hdirty] at ha
    rw [World.Loaded, hcache]
    exact h a ha
  warmAccounts a ha := haccounts ▸ ha
  warmSlots slot hslot := hslots ▸ hslot

theorem Retains.refl (s : State) : Retains s s := .of_eq rfl rfl rfl rfl rfl

/-- What is retained by two computations is retained by one after the other. -/
theorem Retains.trans {s₁ s₂ s₃ : State} (h : Retains s₁ s₂) (h' : Retains s₂ s₃) :
    Retains s₁ s₃ where
  source := h'.source.trans h.source
  loaded a ha := h'.loaded a (h.loaded a ha)
  dirtyLoaded hs := h'.dirtyLoaded (h.dirtyLoaded hs)
  warmAccounts a ha := h'.warmAccounts a (h.warmAccounts a ha)
  warmSlots slot hslot := h'.warmSlots slot (h.warmSlots slot hslot)

/-- **Undoing takes nothing back** of what is retained: the account stays in
the cache, as it was. -/
theorem State.undo_retains (s : State) (u : Undo) : Retains s (s.undo u) := by
  cases u with
  | account a previous wasDirty =>
    have hloaded (b : Address) (hb : s.world.Loaded b) :=
      s.world.setCurrent_loaded a previous hb
    refine ⟨rfl, hloaded, fun h b hb => hloaded b (h b ?_), fun _ h => h, fun _ h => h⟩
    -- undoing marks no account, it only takes a mark off
    change b ∈ (if wasDirty then s.world.dirty else s.world.dirty.erase a) at hb
    split at hb
    · exact hb
    · exact Std.ExtTreeSet.mem_of_mem_erase hb
  | _ => exact .of_eq rfl rfl rfl rfl rfl

/-- Undoing a change leaves the journal alone, from which the entry was taken before. -/
theorem State.undo_journal (s : State) (u : Undo) : (s.undo u).journal = s.journal := by
  cases u <;> rfl

/-- So it is for any number of entries. -/
theorem State.undoAll_retains (s : State) (entries : List Undo) :
    Retains s (entries.foldl State.undo s) := by
  induction entries generalizing s with
  | nil => exact Retains.refl s
  | cons u entries ih => exact (s.undo_retains u).trans (ih (s.undo u))

/-- The journal after any number of them. -/
theorem State.undoAll_journal (s : State) (entries : List Undo) :
    (entries.foldl State.undo s).journal = s.journal := by
  induction entries generalizing s with
  | nil => rfl
  | cons u entries ih =>
    rw [List.foldl_cons, ih]
    exact s.undo_journal u

/-- **Undoing many entries commutes with showing**, if each of them can be replayed. -/
theorem State.view_undoAll (s : State) {entries : List Undo}
    (h : ∀ u ∈ entries, u.Cached s.world) :
    (entries.foldl State.undo s).view = s.view.undoAll entries := by
  induction entries generalizing s with
  | nil => rfl
  | cons u entries ih =>
    -- the entries that are left can still be replayed, since undoing unloads nothing
    have hrest : ∀ u' ∈ entries, u'.Cached (s.undo u).world := fun u' hu' =>
      (h u' (List.mem_cons_of_mem u hu')).mono (s.undo_retains u).loaded
    rw [List.foldl_cons, ih (s.undo u) hrest, s.view_undo (h u List.mem_cons_self),
      View.undoAll_cons]

/-! ### Balances -/

/-- No account that is shown has a negative balance. -/
def View.Solvent (v : View) : Prop := ∀ a account, v.account a = some account → 0 ≤ account.balance

/-- An account that is to be restored has no negative balance. -/
def Undo.Solvent : Undo → Prop
  | .account _ (some holder) _ => 0 ≤ holder.balance
  | _ => True

/-- The entries of all layers. -/
def Journal.entries {Entry : Type} (j : Journal Entry) : List Entry := j.current ++ j.outer.flatten

/-- No balance is negative: of an account that is shown, of one in the source, or of one that the
journal keeps to be restored. -/
structure State.Solvent (s : State) : Prop where
  view : s.view.Solvent
  source : ∀ (a : Address) (account : Account), s.world.source.accounts[a]? = some account →
    0 ≤ account.balance
  recorded : ∀ u ∈ s.journal.entries, u.Solvent

/-- What an entry restores was shown before. -/
theorem Undo.solvent_of_undo {v v' : View} {u : Undo} (h : v'.undo u = v) (hv : v.Solvent) :
    u.Solvent := by
  cases u with
  | account a previous wasDirty =>
    cases previous with
    | none => trivial
    | some account =>
      refine hv a account ?_
      rw [← h]
      exact Function.update_self a (some account) v'.account
  | _ => trivial

/-! ### Growth of the innermost layer -/

/-- `s'` comes from `s` by work within one layer: nothing is taken back, and entries are added to
the innermost layer that undo what was done. -/
structure Grows (s s' : State) : Prop extends Retains s s' where
  entries : ∃ new : List Undo,
    s'.journal = { s.journal with current := new ++ s.journal.current } ∧
    (∀ u ∈ new, u.Cached s'.world) ∧ s'.view.undoAll new = s.view
  solvent : s.Solvent → s'.Solvent

/-- Work that shows the same and records nothing adds no entries. -/
theorem Grows.of_view_eq {s s' : State} (h : Retains s s') (hj : s'.journal = s.journal)
    (hv : s'.view = s.view) : Grows s s' where
  toRetains := h
  entries := ⟨[], hj, fun _ hu => absurd hu (List.not_mem_nil), hv⟩
  solvent hs := ⟨hv ▸ hs.view, h.source ▸ hs.source, hj ▸ hs.recorded⟩

/-- One change with the entry that undoes it. -/
theorem Grows.of_undo {s s' : State} {u : Undo} (h : Retains s s')
    (hj : s'.journal = s.journal.record u) (hu : u.Cached s'.world) (hv : s'.view.undo u = s.view)
    (hsolvent : s.view.Solvent → s'.view.Solvent) : Grows s s' where
  toRetains := h
  entries := ⟨[u], hj, fun _ hu' => List.mem_singleton.mp hu' ▸ hu, hv⟩
  solvent hs := by
    refine ⟨hsolvent hs.view, h.source ▸ hs.source, ?_⟩
    rw [hj]
    intro u' hu'
    -- the new entry restores what was shown, the older ones were there before
    rcases List.mem_cons.mp hu' with rfl | hu'
    · exact Undo.solvent_of_undo hv hs.view
    · exact hs.recorded u' hu'

theorem Grows.refl (s : State) : Grows s s := .of_view_eq (Retains.refl s) rfl rfl

/-- **Work goes on within one layer**: its entries are put before those that were there. -/
theorem Grows.trans {s₁ s₂ s₃ : State} (h : Grows s₁ s₂) (h' : Grows s₂ s₃) : Grows s₁ s₃ := by
  obtain ⟨old, hj, hcached, hview⟩ := h.entries
  obtain ⟨new, hj', hcached', hview'⟩ := h'.entries
  refine ⟨h.toRetains.trans h'.toRetains, ⟨new ++ old, ?_, ?_, ?_⟩,
    fun hs => h'.solvent (h.solvent hs)⟩
  · rw [hj', hj, List.append_assoc]
  · intro u hu
    rcases List.mem_append.mp hu with hu | hu
    · -- what the older entries need to be loaded still is
      exact hcached' u hu
    · exact (hcached u hu).mono h'.loaded
  · -- replayed newest first, they lead back through the state in between
    rw [View.undoAll_append, hview', hview]

/-- Work within one layer that changes nothing that is shown. -/
structure Quiet (s s' : State) : Prop extends Grows s s' where
  view_eq : s'.view = s.view

/-- What shows the same and records nothing is quiet. -/
theorem Quiet.of_retains {s s' : State} (h : Retains s s') (hj : s'.journal = s.journal)
    (hv : s'.view = s.view) : Quiet s s' :=
  ⟨.of_view_eq h hj hv, hv⟩

instance : Std.Refl Quiet := ⟨fun s => ⟨Grows.refl s, rfl⟩⟩

instance : IsTrans State Quiet :=
  ⟨fun _ _ _ h h' => ⟨h.toGrows.trans h'.toGrows, h'.view_eq.trans h.view_eq⟩⟩

/-! ### What undoing does to single parts -/

/-- Undoing takes logs off the end only. -/
theorem View.undoAll_logs_prefix (v : View) (entries : List Undo) :
    (v.undoAll entries).logs.toList <+: v.logs.toList := by
  induction entries generalizing v with
  | nil => exact List.prefix_rfl
  | cons u entries ih =>
    rw [View.undoAll_cons]
    refine (ih (v.undo u)).trans ?_
    cases u with
    -- only one kind of entry takes a log off
    | log =>
      change v.logs.pop.toList <+: v.logs.toList
      rw [Array.toList_pop]
      exact List.dropLast_prefix _
    | _ => exact List.prefix_rfl

/-- Work within one layer keeps the logs that there were, at the front. -/
theorem Grows.logs_prefix {s s' : State} (h : Grows s s') :
    s.substate.logs.toList <+: s'.substate.logs.toList := by
  obtain ⟨new, -, -, hview⟩ := h.entries
  have hprefix := s'.view.undoAll_logs_prefix new
  rwa [hview] at hprefix

end EvmCore
