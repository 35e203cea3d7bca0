import EvmCore.Proofs.Layer
import Mathlib

/-!
# Operations on accounts, seen on views

Every operation on the accounts and on the substate has a plain counterpart on views: reading
looks an account up in a total map, and changing replaces it there. `Mirrors x y` ties the two
together: the computation `x` works within one layer, and does to what a state shows, and
answers, what `y` does and answers on views. The only other way for `x` to end is that the
source failed to read an account.

`load` and `put` are the only primitives that touch the cache. All other operations on accounts
follow from them by the rules for sequences.
-/

namespace EvmCore

/-- A computation on views. -/
abbrev ViewM := EStateM Fault View

namespace View

/-- The account at an address, one that holds nothing if there is none. -/
def get (v : View) (a : Address) : Account := (v.account a).getD {}

/-- Replaces the account at an address. -/
def set (v : View) (a : Address) (account : Option Account) : View :=
  { v with account := Function.update v.account a account, dirty := v.dirty.insert a }

/-- Changes the account at an address, starting from one that holds nothing if there is none. -/
def update (v : View) (a : Address) (f : Account → Account) : View := v.set a (some (f (v.get a)))

/-- What is found after one account was replaced. -/
theorem get_set (v : View) (a : Address) (account : Option Account) (b : Address) :
    (v.set a account).get b = if b = a then account.getD {} else v.get b := by
  change (Function.update v.account a account b).getD {} = _
  rw [Function.update_apply]
  split
  · rfl
  · rfl

/-- What is found after one account was changed. -/
theorem get_update (v : View) (a : Address) (f : Account → Account) (b : Address) :
    (v.update a f).get b = if b = a then f (v.get a) else v.get b :=
  v.get_set a _ b

theorem Solvent.get {v : View} (h : v.Solvent) (a : Address) : 0 ≤ (v.get a).balance := by
  rw [View.get]
  cases ha : v.account a with
  | none => exact le_rfl
  | some account => exact h a account ha

/-- No balance becomes negative if the one that is set is not. -/
theorem Solvent.set {v : View} (h : v.Solvent) {a : Address} {account : Option Account}
    (haccount : 0 ≤ (account.getD {}).balance) : (v.set a account).Solvent := by
  intro b account' hb
  change Function.update v.account a account b = some account' at hb
  by_cases hab : b = a
  · -- the account that was set
    rw [hab, Function.update_self] at hb
    rwa [hb] at haccount
  · rw [Function.update_of_ne hab] at hb
    exact h b account' hb

/-- Answers a question about a view. -/
def reads {α : Type} (f : View → α) : ViewM α := fun v => .ok (f v) v

/-- Changes a view. -/
def writes (f : View → View) : ViewM Unit := fun v => .ok () (f v)

/-- The word that a storage slot held before the transaction. -/
def initialWord (v : View) (a : Address) (key : Word) : Word :=
  if v.created.contains a then 0 else (v.initial a).read key

/-- The hash of the code of an address; 32 zeros if there is no account. -/
def codeHash (v : View) (a : Address) : ByteArray :=
  (v.account a).elim (Bytes.zeros 32) fun account => Keccak.hash account.code

/-- Sets the balance of an address. -/
def setBalance (a : Address) (x : Int) : ViewM Unit := fun v =>
  if x < 0 then .error .negativeBalance v else .ok () (v.update a ({ · with balance := x }))

/-- Moves a value from one address to another. -/
def transfer (sender recipient : Address) (value : Int) : ViewM Unit := do
  let v ← MonadState.get
  setBalance sender ((v.get sender).balance - value)
  let v ← MonadState.get
  setBalance recipient ((v.get recipient).balance + value)

/-- Makes sure that there is an account at an address. -/
def touch (v : View) (a : Address) : View :=
  if (v.account a).isNone then v.set a (some {}) else v

/-- Starts a fresh contract at an address, which keeps its balance. -/
def create (v : View) (a : Address) : View :=
  { v.set a (some { balance := (v.get a).balance }) with created := v.created.insert a }

/-- Marks a contract to be deleted at settlement. -/
def addSelfDestruct (v : View) (a : Address) : View :=
  { v with selfDestructs := v.selfDestructs.insert a }

/-- Appends a log. -/
def addLog (v : View) (log : Log) : View := { v with logs := v.logs.push log }

/-- Marks an account to be deleted at settlement if it is empty then. -/
def markTouched (v : View) (a : Address) : View := { v with touched := v.touched.insert a }

/-- Raises the refund counter. -/
def addRefund (v : View) (gas : Int) : View := { v with refund := v.refund + gas }

/-- Lowers the refund counter, which must not fall below zero. -/
def subRefund (gas : Int) : ViewM Unit := fun v =>
  if v.refund < gas then .error (.negativeRefund gas v.refund) v
  else .ok () { v with refund := v.refund - gas }

end View

/-! ### Mirroring -/

/-- From `s` on, `x` works within one layer and is, on what is shown, the computation `y`, unless
the source fails to read. -/
def MirrorsAt {α : Type} (s : State) (x : Action α) (y : ViewM α) : Prop :=
  match x s with
  | .ok a s' => Grows s s' ∧ y s.view = .ok a s'.view
  | .error e s' => Grows s s' ∧
    (y s.view = .error e s'.view ∨ ∃ a ∈ s.world.source.unreadable, e = .unreadable a)

/-- To mirror from one state on, where the computation ends with a value. -/
theorem MirrorsAt.of_ok {α : Type} {s s' : State} {x : Action α} {y : ViewM α} {a : α}
    (hx : x s = .ok a s') (hgrows : Grows s s') (hy : y s.view = .ok a s'.view) :
    MirrorsAt s x y := by
  rw [MirrorsAt, hx]
  exact ⟨hgrows, hy⟩

/-- `x` works within one layer and is, on what is shown, the computation `y`,
unless the source fails to read. -/
def Mirrors {α : Type} (x : Action α) (y : ViewM α) : Prop := ∀ s, MirrorsAt s x y

namespace Mirrors

variable {α β : Type} {x : Action α} {y : ViewM α} {s s' : State}

theorem ok {a : α} (h : Mirrors x y) (hx : x s = .ok a s') :
    Grows s s' ∧ y s.view = .ok a s'.view := by
  have hs := h s
  rwa [MirrorsAt, hx] at hs

theorem error {e : Fault} (h : Mirrors x y) (hx : x s = .error e s') : Grows s s' ∧
    (y s.view = .error e s'.view ∨ ∃ a ∈ s.world.source.unreadable, e = .unreadable a) := by
  have hs := h s
  rwa [MirrorsAt, hx] at hs

/-- Whatever is mirrored is work within one layer. -/
theorem grows (h : Mirrors x y) : Keeps Grows x := fun _ _ _ hx => (h.ok hx).1

theorem pure (a : α) : Mirrors (pure a) (pure a) := fun s => ⟨Grows.refl s, rfl⟩

theorem throw (e : Fault) : Mirrors (throw e : Action α) (throw e) :=
  fun s => ⟨Grows.refl s, .inl rfl⟩

/-- **Sequences are mirrored** by sequences. -/
theorem bind {f : α → Action β} {g : α → ViewM β} (hx : Mirrors x y)
    (hf : ∀ a, Mirrors (f a) (g a)) : Mirrors (x >>= f) (y >>= g) := by
  intro s
  unfold MirrorsAt
  cases h : (x >>= f) s with
  | ok b s' =>
    obtain ⟨a, s₁, h₁, h₂⟩ := bind_ok_iff.mp h
    -- the two parts one after the other, on the state and on what it shows
    obtain ⟨hgrows₁, hy⟩ := hx.ok h₁
    obtain ⟨hgrows₂, hg⟩ := (hf a).ok h₂
    exact ⟨hgrows₁.trans hgrows₂, bind_ok_iff.mpr ⟨a, s₁.view, hy, hg⟩⟩
  | error e s' =>
    rcases bind_error_iff.mp h with h₁ | ⟨a, s₁, h₁, h₂⟩
    · -- the first part ends the sequence
      obtain ⟨hgrows, hy⟩ := hx.error h₁
      exact ⟨hgrows, hy.imp_left fun hy => bind_error_iff.mpr (.inl hy)⟩
    · obtain ⟨hgrows₁, hy⟩ := hx.ok h₁
      obtain ⟨hgrows₂, hg⟩ := (hf a).error h₂
      refine ⟨hgrows₁.trans hgrows₂, ?_⟩
      -- `x` does not change the source, so an address that is unreadable for `f` was so before
      rw [hgrows₁.source] at hg
      exact hg.imp_left fun hg => bind_error_iff.mpr (.inr ⟨a, s₁.view, hy, hg⟩)

theorem congr {y' : ViewM α} (h : Mirrors x y) (hy : ∀ v, y v = y' v) : Mirrors x y' := by
  obtain rfl : y = y' := funext hy
  exact h

theorem ite {c : Prop} [Decidable c] {x' : Action α} {y' : ViewM α} (h : Mirrors x y)
    (h' : Mirrors x' y') : Mirrors (if c then x else x') (if c then y else y') := by
  split
  · exact h
  · exact h'

/-- A question that is answered through another one. -/
theorem read {f : View → α} (h : Mirrors x (View.reads f)) (g : α → β) :
    Mirrors (x >>= fun a => Pure.pure (g a)) (View.reads fun v => g (f v)) :=
  (h.bind fun a => Mirrors.pure (g a)).congr fun _ => rfl

/-- Asking changes nothing that is shown. -/
theorem quiet {f : View → α} (h : Mirrors x (View.reads f)) : Keeps Quiet x := by
  intro s a s' hx
  obtain ⟨hgrows, hy⟩ := h.ok hx
  obtain ⟨-, hview⟩ := EStateM.Result.ok.inj hy
  exact ⟨hgrows, hview.symm⟩

/-- What is answered is what the view has to say. -/
theorem answer {f : View → α} {a : α} (h : Mirrors x (View.reads f)) (hx : x s = .ok a s') :
    a = f s.view :=
  (EStateM.Result.ok.inj (h.ok hx).2).1.symm

/-- What is shown after a change. -/
theorem view_eq {x : Action Unit} {f : View → View} (h : Mirrors x (View.writes f))
    (hx : x s = .ok () s') : s'.view = f s.view :=
  (EStateM.Result.ok.inj (h.ok hx).2).2.symm

end Mirrors

/-! ### Loading and replacing -/

namespace World

/-- The state after an address was loaded for the first time. -/
def fetched (s : State) (a : Address) : State :=
  let account := s.world.source.accounts[a]?
  let initial := (account.map Account.storage).getD ∅
  { s with world := { s.world with cache := s.world.cache.insert a ⟨account, initial⟩ } }

/-- What the cache holds after one address was loaded. -/
theorem fetched_getElem? (s : State) (a b : Address) : (fetched s a).world.cache[b]? =
    if a = b then
      some ⟨s.world.source.accounts[a]?, ((s.world.source.accounts[a]?).map Account.storage).getD ∅⟩
    else s.world.cache[b]? := by
  unfold fetched
  rw [Std.ExtTreeMap.getElem?_insert]
  simp only [Std.compare_eq_iff_eq]

/-- Loading an address that was not loaded changes nothing that is shown. -/
theorem fetched_quiet {s : State} {a : Address} (h : s.world.cache[a]? = none) :
    Quiet s (fetched s a) := by
  -- The entry that is added holds what the source has, which is what was shown without an entry.
  have hshown : (fetched s a).world.shown = s.world.shown := by
    funext b
    unfold shown
    rw [fetched_getElem?]
    by_cases hb : a = b
    · subst hb
      rw [if_pos rfl, h]
    · rw [if_neg hb]
      rfl
  have hinitial : (fetched s a).world.shownInitial = s.world.shownInitial := by
    funext b
    unfold shownInitial
    rw [fetched_getElem?]
    by_cases hb : a = b
    · subst hb
      rw [if_pos rfl, h]
    · rw [if_neg hb]
      rfl
  have hloaded : ∀ b, s.world.Loaded b → (fetched s a).world.Loaded b := by
    intro b hb
    unfold Loaded
    rw [fetched_getElem?]
    split
    · rfl
    · exact hb
  have hretains : Retains s (fetched s a) :=
    ⟨rfl, hloaded, fun h b hb => hloaded b (h b hb), fun _ h => h, fun _ h => h⟩
  exact .of_retains hretains rfl
    (View.ext hshown hinitial rfl rfl rfl rfl rfl rfl)

/-- A loaded account is taken from the cache, and nothing changes. -/
theorem load_of_cached {s : State} {a : Address} {entry : CacheEntry}
    (h : s.world.cache[a]? = some entry) : load a s = .ok entry.current s := by
  rw [load, bind_ok_iff]
  refine ⟨s, s, rfl, ?_⟩
  rw [h]
  rfl

/-- An account that was not loaded is taken from the source, if it can be read there. -/
theorem load_of_readable {s : State} {a : Address} (h : s.world.cache[a]? = none)
    (hread : a ∉ s.world.source.unreadable) :
    load a s = .ok s.world.source.accounts[a]? (fetched s a) := by
  rw [load, bind_ok_iff]
  refine ⟨s, s, rfl, ?_⟩
  rw [h, Source.read, if_neg hread]
  rfl

/-- Otherwise the fault names the address. -/
theorem load_of_unreadable {s : State} {a : Address} (h : s.world.cache[a]? = none)
    (hread : a ∈ s.world.source.unreadable) : load a s = .error (.unreadable a) s := by
  rw [load, bind_error_iff]
  refine .inr ⟨s, s, rfl, ?_⟩
  rw [h, Source.read, if_pos hread]
  rfl

/-- **Loading** answers with the account that is shown. -/
theorem load_mirrors (a : Address) : Mirrors (load a) (View.reads fun v => v.account a) := by
  intro s
  unfold MirrorsAt
  cases hc : s.world.cache[a]? with
  | some entry =>
    rw [load_of_cached hc]
    -- what the cache holds is what is shown
    have hshown : s.world.shown a = entry.current := by rw [shown, hc]
    exact ⟨Grows.refl s, congrArg (EStateM.Result.ok · s.view) hshown⟩
  | none =>
    by_cases hread : a ∈ s.world.source.unreadable
    · rw [load_of_unreadable hc hread]
      exact ⟨Grows.refl s, .inr ⟨a, hread, rfl⟩⟩
    · rw [load_of_readable hc hread]
      have hquiet := fetched_quiet hc
      -- without an entry, the source is what is shown
      have hshown : s.world.shown a = s.world.source.accounts[a]? := by rw [shown, hc]
      refine ⟨hquiet.toGrows, ?_⟩
      rw [hquiet.view_eq]
      exact congrArg (EStateM.Result.ok · s.view) hshown

/-- Whatever a load answers, the address is loaded afterwards. -/
theorem loaded_of_load {s s' : State} {a : Address} {account : Option Account}
    (h : load a s = .ok account s') : s'.world.Loaded a := by
  cases hc : s.world.cache[a]? with
  | some entry =>
    rw [load_of_cached hc] at h
    obtain ⟨-, rfl⟩ := EStateM.Result.ok.inj h
    rw [Loaded, hc]
    rfl
  | none =>
    by_cases hread : a ∈ s.world.source.unreadable
    · rw [load_of_unreadable hc hread] at h
      cases h
    · rw [load_of_readable hc hread] at h
      obtain ⟨-, rfl⟩ := EStateM.Result.ok.inj h
      rw [Loaded, fetched_getElem?, if_pos rfl]
      rfl

/-- What follows after loading an address need be mirrored only where the address is loaded. -/
theorem mirrors_of_load {α : Type} {a : Address} {f : Option Account → Action α} {y : ViewM α}
    (h : ∀ s, s.world.Loaded a → MirrorsAt s (f (s.view.account a)) y) :
    Mirrors (load a >>= f) y := by
  intro s
  unfold MirrorsAt
  cases hl : load a s with
  | error e s₁ =>
    have hx : (load a >>= f) s = .error e s₁ := bind_error_iff.mpr (.inl hl)
    rw [hx]
    obtain ⟨hgrows, hview | hread⟩ := (load_mirrors a).error hl
    · -- on views every account can be read
      cases hview
    · exact ⟨hgrows, .inr hread⟩
  | ok account s₁ =>
    -- Loading is quiet, so what `f` does afterwards can be read from the state before it.
    have hquiet := (load_mirrors a).quiet hl
    have hs₁ := h s₁ (loaded_of_load hl)
    rw [hquiet.view_eq, ← (load_mirrors a).answer hl, MirrorsAt, hquiet.view_eq,
      hquiet.source] at hs₁
    rw [bind_of_ok hl]
    cases hf : f account s₁ with
    | ok b s' =>
      rw [hf] at hs₁
      exact ⟨hquiet.toGrows.trans hs₁.1, hs₁.2⟩
    | error e s' =>
      rw [hf] at hs₁
      exact ⟨hquiet.toGrows.trans hs₁.1, hs₁.2⟩

end World

/-! ### Sets -/

section Sets

variable {α : Type} [Ord α] [Std.TransOrd α] [Std.LawfulEqOrd α]

/-- Inserting what is already there changes nothing. -/
theorem ExtTreeSet.insert_of_mem {S : Std.ExtTreeSet α} {a : α} (h : a ∈ S) : S.insert a = S := by
  refine Std.ExtTreeSet.ext_mem fun b => ?_
  rw [Std.ExtTreeSet.mem_insert, Std.compare_eq_iff_eq]
  refine ⟨?_, .inr⟩
  rintro (rfl | hb)
  · exact h
  · exact hb

/-- The order in which two members come in does not matter. -/
theorem ExtTreeSet.insert_comm (S : Std.ExtTreeSet α) (a b : α) :
    (S.insert a).insert b = (S.insert b).insert a := by
  refine Std.ExtTreeSet.ext_mem fun c => ?_
  simp only [Std.ExtTreeSet.mem_insert]
  exact or_left_comm

end Sets

/-- A new member can be taken off again. -/
theorem AddressSet.erase_insert {S : AddressSet} {a : Address} (h : a ∉ S) :
    (S.insert a).erase a = S := by
  refine Std.ExtTreeSet.ext_mem fun b => ?_
  rw [Std.ExtTreeSet.mem_erase, Std.ExtTreeSet.mem_insert, ne_eq, Std.compare_eq_iff_eq]
  constructor
  · rintro ⟨hne, rfl | hb⟩
    · exact absurd rfl hne
    · exact hb
  · intro hb
    exact ⟨fun hab => h (hab ▸ hb), .inr hb⟩

/-- Replacing an account and restoring it, with its mark, changes nothing. -/
theorem View.undo_set (v : View) (a : Address) (account : Option Account) :
    (v.set a account).undo (.account a (v.account a) (v.dirty.contains a)) = v := by
  refine View.ext ?_ rfl rfl ?_ rfl rfl rfl rfl
  · -- the account first, and then its mark
    change Function.update (Function.update v.account a account) a (v.account a) = v.account
    rw [Function.update_idem, Function.update_eq_self]
  · change (if v.dirty.contains a then v.dirty.insert a else (v.dirty.insert a).erase a) = v.dirty
    -- the mark is taken off again only if the change put it there
    by_cases h : a ∈ v.dirty
    · rw [if_pos (Std.ExtTreeSet.contains_iff_mem.mpr h), ExtTreeSet.insert_of_mem h]
    · rw [if_neg (fun hc => h (Std.ExtTreeSet.contains_iff_mem.mp hc)), AddressSet.erase_insert h]

/-- Adding an address to a set unless it is there, with the entry that takes it off again. -/
theorem Mirrors.mark {f : State → State} {g : View → View} {S : View → AddressSet} {a : Address}
    {u : Undo} (hcached : ∀ w, u.Cached w) (hretains : ∀ s, Retains s (f s))
    (hjournal : ∀ s, (f s).journal = s.journal.record u) (hview : ∀ s, (f s).view = g s.view)
    (haccount : ∀ v, (g v).account = v.account)
    (hmem : ∀ v, a ∈ S v → g v = v) (hnot : ∀ v, a ∉ S v → (g v).undo u = v) :
    Mirrors (modify fun s => if (S s.view).contains a then s else f s) (View.writes g) := by
  intro s
  by_cases h : a ∈ S s.view
  · -- the address is in the set: nothing is recorded, and there is nothing to undo
    have hmark : (modify fun s => if (S s.view).contains a then s else f s : Action Unit) s =
        .ok () s :=
      modify_ok_iff.mpr (if_pos (Std.ExtTreeSet.contains_iff_mem.mpr h))
    refine .of_ok hmark (Grows.refl s) ?_
    rw [View.writes, hmem s.view h]
  · have hmark : (modify fun s => if (S s.view).contains a then s else f s : Action Unit) s =
        .ok () (f s) :=
      modify_ok_iff.mpr (if_neg fun h' => h (Std.ExtTreeSet.contains_iff_mem.mp h'))
    have hundo := hnot s.view h
    rw [← hview s] at hundo
    refine .of_ok hmark (.of_undo (hretains s) (hjournal s) (hcached _) hundo fun hs => ?_) ?_
    · rw [hview s, View.Solvent, haccount]
      exact hs
    · rw [View.writes, hview s]

namespace World

/-- **Replacing** a loaded account. -/
theorem put_of_loaded {s : State} {a : Address} (h : s.world.Loaded a) (account : Option Account)
    (hbalance : s.view.Solvent → 0 ≤ (account.getD {}).balance) :
    ∃ s', put a account s = .ok () s' ∧ Grows s s' ∧ s'.view = s.view.set a account := by
  -- the state that `put` leaves, written out so that its view can be computed
  let world := { s.world.setCurrent a account with dirty := s.world.dirty.insert a }
  let entry := Undo.account a (s.world.cached a) (s.world.dirty.contains a)
  let s' : State := { s with world, journal := s.journal.record entry }
  have hview : s'.view = s.view.set a account :=
    View.ext (s.world.setCurrent_shown a account) (s.world.setCurrent_shownInitial a account h)
      rfl rfl rfl rfl rfl rfl
  have hloaded : ∀ b, s.world.Loaded b → s'.world.Loaded b := fun b hb =>
    s.world.setCurrent_loaded a account hb
  have hdirty : s.world.DirtyLoaded → s'.world.DirtyLoaded := by
    intro hs b hb
    rcases Std.ExtTreeSet.mem_insert.mp hb with hab | hb
    · exact hloaded b (Std.compare_eq_iff_eq.mp hab ▸ h)
    · exact hloaded b (hs b hb)
  refine ⟨s', rfl, ?_, hview⟩
  refine .of_undo ⟨rfl, hloaded, hdirty, fun _ h => h, fun _ h => h⟩ rfl (hloaded a h) ?_
    fun hs => ?_
  · rw [hview]
    change (s.view.set a account).undo (.account a (s.world.cached a) _) = s.view
    -- the entry keeps what the cache had, which is what was shown since the address is loaded
    rw [cached_eq_shown h]
    exact s.view.undo_set a account
  · rw [hview]
    exact hs.set (hbalance hs)

/-- **Changing** an account is loading and then replacing it. -/
theorem load_put_mirrors (a : Address) {f : Option Account → Option Account}
    (hf : ∀ account : Option Account, 0 ≤ (account.getD {}).balance →
      0 ≤ ((f account).getD {}).balance) :
    Mirrors (load a >>= fun account => put a (f account))
      (View.writes fun v => v.set a (f (v.account a))) := by
  refine mirrors_of_load fun s hs => ?_
  -- the new balance need only be one that a solvent state allows
  obtain ⟨s', hput, hgrows, hview⟩ := put_of_loaded hs _ fun h => hf (s.view.account a) (h.get a)
  refine .of_ok hput hgrows ?_
  rw [hview]
  rfl

/-! ### Reading -/

theorem account_mirrors (a : Address) : Mirrors (account a) (View.reads fun v => v.get a) :=
  (load_mirrors a).read _

theorem isPresent_mirrors (a : Address) :
    Mirrors (isPresent a) (View.reads fun v => (v.account a).isSome) :=
  (load_mirrors a).read _

theorem isEmpty_mirrors (a : Address) :
    Mirrors (isEmpty a) (View.reads fun v => (v.get a).isEmpty) :=
  (account_mirrors a).read _

theorem balance_mirrors (a : Address) :
    Mirrors (balance a) (View.reads fun v => (v.get a).balance) :=
  (account_mirrors a).read _

theorem nonce_mirrors (a : Address) : Mirrors (nonce a) (View.reads fun v => (v.get a).nonce) :=
  (account_mirrors a).read _

theorem code_mirrors (a : Address) : Mirrors (code a) (View.reads fun v => (v.get a).code) :=
  (account_mirrors a).read _

/-- The hash of the code, for which it matters whether there is an account. -/
theorem codeHash_mirrors (a : Address) :
    Mirrors (codeHash a) (View.reads fun v => v.codeHash a) := by
  refine ((load_mirrors a).bind (g := fun account => pure (account.elim (Bytes.zeros 32)
    fun account => Keccak.hash account.code)) fun account => ?_).congr fun _ => rfl
  cases account with
  | none => exact Mirrors.pure _
  | some account => exact Mirrors.pure _

theorem storage_mirrors (a : Address) (key : Word) :
    Mirrors (storage a key) (View.reads fun v => (v.get a).storage.read key) :=
  (account_mirrors a).read _

theorem hasStorage_mirrors (a : Address) :
    Mirrors (hasStorage a) (View.reads fun v => !(v.get a).storage.isEmpty) :=
  (account_mirrors a).read _

/-- The initial word of a slot is read off the cache, which holds the address by then. -/
theorem initial_mirrors (a : Address) (key : Word) :
    Mirrors (initial a key) (View.reads fun v => v.initialWord a key) := by
  have h : initial a key = load a >>= fun _ => do
      let s ← get
      return if s.world.created.contains a then 0 else (s.world.initialStorage a).read key := by
    -- the answer of the load is not used, only that it was made
    change ((load a >>= fun _ => pure ()) >>= _) = _
    rw [bind_assoc]
    rfl
  rw [h]
  -- only now the cache can be asked: without an entry it has no initial storage
  refine mirrors_of_load fun s hs => .of_ok rfl (Grows.refl s) ?_
  rw [initialStorage_eq_shown hs]
  rfl

/-! ### Changing -/

/-- **Changing an account** by a function that makes no balance negative. -/
theorem update_mirrors (a : Address) {f : Account → Account}
    (hf : ∀ account, 0 ≤ account.balance → 0 ≤ (f account).balance) :
    Mirrors (update a f) (View.writes fun v => v.update a f) := by
  have h : update a f = load a >>= fun account => put a (some (f (account.getD {}))) := by
    -- the account is asked for by loading it
    rw [update, account, bind_assoc]
    rfl
  rw [h]
  exact load_put_mirrors a fun account => hf (account.getD {})

/-- Setting a balance is refused below zero, and is a change of the account otherwise. -/
theorem setBalance_mirrors (a : Address) (x : Int) :
    Mirrors (setBalance a x) (View.setBalance a x) := by
  -- the two cases are decided before the state is looked at
  by_cases hx : x < 0
  · have h : setBalance a x = throw .negativeBalance := by
      rw [setBalance]
      simp only [if_pos hx]
      rfl
    rw [h]
    refine (Mirrors.throw .negativeBalance).congr fun v => ?_
    rw [View.setBalance, if_pos hx]
    rfl
  · have h : setBalance a x = update a ({ · with balance := x }) := by
      rw [setBalance]
      simp only [if_neg hx]
    rw [h]
    refine (update_mirrors a fun _ _ => not_lt.mp hx).congr fun v => ?_
    rw [View.setBalance, if_neg hx]
    rfl

theorem addBalance_mirrors (a : Address) (x : Int) :
    Mirrors (addBalance a x) fun v => View.setBalance a ((v.get a).balance + x) v :=
  ((balance_mirrors a).bind fun b => setBalance_mirrors a (b + x)).congr fun _ => rfl

theorem subBalance_mirrors (a : Address) (x : Int) :
    Mirrors (subBalance a x) fun v => View.setBalance a ((v.get a).balance - x) v :=
  ((balance_mirrors a).bind fun b => setBalance_mirrors a (b - x)).congr fun _ => rfl

/-- **Moving value** is taking it from one balance and adding it to another. -/
theorem transfer_mirrors (sender recipient : Address) (value : Int) :
    Mirrors (transfer sender recipient value) (View.transfer sender recipient value) :=
  ((subBalance_mirrors sender value).bind fun _ => addBalance_mirrors recipient value).congr
    fun _ => rfl

theorem setNonce_mirrors (a : Address) (x : Int) :
    Mirrors (setNonce a x) (View.writes fun v => v.update a ({ · with nonce := x })) :=
  update_mirrors a fun _ h => h

theorem incrementNonce_mirrors (a : Address) : Mirrors (incrementNonce a)
    (View.writes fun v => v.update a fun account => { account with nonce := account.nonce + 1 }) :=
  ((nonce_mirrors a).bind fun n => setNonce_mirrors a (n + 1)).congr fun _ => rfl

theorem setCode_mirrors (a : Address) (code : ByteArray) :
    Mirrors (setCode a code) (View.writes fun v => v.update a ({ · with code })) :=
  update_mirrors a fun _ h => h

theorem setStorage_mirrors (a : Address) (key value : Word) :
    Mirrors (setStorage a key value) (View.writes fun v => v.update a fun account =>
      { account with storage := account.storage.write key value }) :=
  update_mirrors a fun _ h => h

/-- Touching an address puts an empty account there, if there is none. -/
theorem touch_mirrors (a : Address) : Mirrors (touch a) (View.writes fun v => v.touch a) := by
  refine mirrors_of_load fun s hs => ?_
  -- an account that is there is left as it is, and nothing is recorded
  by_cases habsent : (s.view.account a).isNone
  · obtain ⟨s', hput, hgrows, hview⟩ := put_of_loaded hs (some {}) fun _ => le_rfl
    rw [if_pos habsent]
    refine .of_ok hput hgrows ?_
    rw [hview, View.writes, View.touch, if_pos habsent]
  · rw [if_neg habsent]
    refine .of_ok rfl (Grows.refl s) ?_
    rw [View.writes, View.touch, if_neg habsent]

/-- Deleting an account, whether or not there is one. -/
theorem delete_mirrors (a : Address) : Mirrors (delete a) (View.writes fun v => v.set a none) := by
  have h : delete a = load a >>= fun _ => put a none := by
    change ((load a >>= fun _ => pure ()) >>= fun _ => put a none) = _
    rw [bind_assoc]
    rfl
  rw [h]
  exact load_put_mirrors a fun _ _ => le_rfl

/-- A fresh contract is an account replaced and an address marked. -/
theorem create_mirrors (a : Address) : Mirrors (create a) (View.writes fun v => v.create a) := by
  -- the address is marked after its account was replaced, so the two changes
  -- are mirrored one by one
  have h : create a =
    (load a >>= fun account => put a (some { balance := (account.getD {}).balance }))
      >>= fun _ => modify fun s =>
        if s.world.created.contains a then s
        else
          let s := s.record (.created a)
          { s with world := { s.world with created := s.world.created.insert a } } := by
    rw [create, balance, account, bind_assoc, bind_assoc, bind_assoc]
    rfl
  rw [h]
  have hput := load_put_mirrors a
    (f := fun account => some { balance := (account.getD {}).balance }) fun _ h => h
  refine (hput.bind fun _ => ?_).congr
    (y := View.writes _ >>= fun _ => View.writes fun v => { v with created := v.created.insert a })
    fun _ => rfl
  refine Mirrors.mark (S := View.created) (u := .created a) (fun _ => trivial)
    (fun _ => .of_eq rfl rfl rfl rfl rfl) (fun _ => rfl) (fun _ => rfl) (fun _ => rfl)
    (fun v hv => ?_) fun v hv => ?_
  · -- an address that was marked before is recorded no second time
    rw [ExtTreeSet.insert_of_mem hv]
  · rw [View.undo, AddressSet.erase_insert hv]

end World

/-! ### What is accrued -/

/-- Events are recorded beside everything that is shown. -/
theorem State.emit_mirrors (e : Event) : Mirrors (State.emit e) (View.writes id) := by
  intro s
  exact .of_ok rfl (.of_view_eq (.of_eq rfl rfl rfl rfl rfl) rfl rfl) rfl

/-- So they are quiet. -/
theorem State.emit_quiet (e : Event) : Keeps Quiet (State.emit e) := by
  intro s u s' h
  exact ⟨(State.emit_mirrors e).grows h, (State.emit_mirrors e).view_eq h⟩

namespace Substate

/-- Marking a contract to be deleted, once. -/
theorem addSelfDestruct_mirrors (a : Address) :
    Mirrors (addSelfDestruct a) (View.writes fun v => v.addSelfDestruct a) := by
  refine Mirrors.mark (S := View.selfDestructs) (u := .selfDestruct a) (fun _ => trivial)
    (fun _ => .of_eq rfl rfl rfl rfl rfl) (fun _ => rfl) (fun _ => rfl) (fun _ => rfl)
    (fun v hv => ?_) fun v hv => ?_
  · rw [View.addSelfDestruct, ExtTreeSet.insert_of_mem hv]
  · rw [View.addSelfDestruct, View.undo, AddressSet.erase_insert hv]

/-- Marking an account to be deleted if it is empty, once. -/
theorem touch_mirrors (a : Address) : Mirrors (touch a) (View.writes fun v => v.markTouched a) := by
  refine Mirrors.mark (S := View.touched) (u := .touched a) (fun _ => trivial)
    (fun _ => .of_eq rfl rfl rfl rfl rfl) (fun _ => rfl) (fun _ => rfl) (fun _ => rfl)
    (fun v hv => ?_) fun v hv => ?_
  · rw [View.markTouched, ExtTreeSet.insert_of_mem hv]
  · rw [View.markTouched, View.undo, AddressSet.erase_insert hv]

/-- Appending a log. -/
theorem addLog_mirrors (log : Log) : Mirrors (addLog log) (View.writes fun v => v.addLog log) := by
  intro s
  -- the entry takes off the last log
  refine .of_ok rfl (.of_undo (u := .log) (.of_eq rfl rfl rfl rfl rfl) rfl
    trivial ?_ fun h => h) rfl
  refine View.ext rfl rfl rfl rfl rfl ?_ rfl rfl
  exact Array.pop_push

/-- Raising the refund counter, which is undone by lowering it. -/
theorem addRefund_mirrors (gas : Int) :
    Mirrors (addRefund gas) (View.writes fun v => v.addRefund gas) := by
  intro s
  refine .of_ok rfl (.of_undo (u := .refund (-gas)) (.of_eq rfl rfl rfl rfl rfl)
    rfl trivial ?_ fun h => h) rfl
  refine View.ext rfl rfl rfl rfl rfl rfl rfl ?_
  -- what was added is taken off again
  exact Int.add_neg_cancel_right s.substate.refund gas

/-- Lowering the refund counter, which is refused below zero. -/
theorem subRefund_mirrors (gas : Int) : Mirrors (subRefund gas) (View.subRefund gas) := by
  intro s
  -- whether it is refused depends on the counter alone
  by_cases h : s.substate.refund < gas
  · have hx : subRefund gas s = .error (.negativeRefund gas s.substate.refund) s := by
      rw [subRefund, get_bind]
      simp only [if_pos h]
      rfl
    have hy : View.subRefund gas s.view = .error (.negativeRefund gas s.substate.refund) s.view :=
      if_pos h
    rw [MirrorsAt, hx]
    exact ⟨Grows.refl s, .inl hy⟩
  · have hx : subRefund gas s = .ok () { s.record (.refund gas) with
        substate := { s.substate with refund := s.substate.refund - gas } } := by
      rw [subRefund, get_bind]
      simp only [if_neg h]
      rfl
    refine .of_ok hx (.of_undo (u := .refund gas) (.of_eq rfl rfl rfl rfl rfl)
      rfl trivial ?_ fun h => h) (if_neg h)
    refine View.ext rfl rfl rfl rfl rfl rfl rfl ?_
    exact Int.sub_add_cancel s.substate.refund gas

/-! ### Warming -/

/-- Warming an account is quiet, and is never taken back. -/
theorem warmAccount_quiet (a : Address) : Keeps Quiet (warmAccount a) := by
  intro s warm s' h
  obtain ⟨-, rfl⟩ := EStateM.Result.ok.inj h
  -- what is warm is not shown
  exact .of_retains ⟨rfl, fun _ h => h, fun h => h,
    fun _ h => Std.ExtTreeSet.mem_insert.mpr (.inr h), fun _ h => h⟩ rfl rfl

/-- So is warming a slot. -/
theorem warmSlot_quiet (slot : Slot) : Keeps Quiet (warmSlot slot) := by
  intro s warm s' h
  obtain ⟨-, rfl⟩ := EStateM.Result.ok.inj h
  exact .of_retains ⟨rfl, fun _ h => h, fun h => h, fun _ h => h,
    fun _ h => Std.ExtTreeSet.mem_insert.mpr (.inr h)⟩ rfl rfl

end Substate

end EvmCore
