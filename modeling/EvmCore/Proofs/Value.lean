import EvmCore.Proofs.Nesting
import EvmCore.Proofs.WriteBack
import Mathlib

/-!
# The value that accounts hold

`View.total` is the sum of all balances that are shown. Money moves in single writes to an account,
so everything rests on one lemma: replacing an account changes the total by the difference of the
two balances (`View.total_set`). It holds whoever the parties of a movement are, and covers
movements from an account to itself. A relation that respects each of these writes on its own
(`View.Payable`) respects all movements.

`Conserves v v'` collects what is known of all work between `v` and `v'`: it marks the accounts that
it changes, it makes no balance negative, and it never raises the total. The total can only fall
when a contract destroys itself in favour of itself, and then there is a contract to delete; as long
as there is none, the total is the same. Every change that a machine makes is of this kind
(`Conserves.respected`).
-/

namespace EvmCore

namespace View

/-- The sum of all balances. -/
def total (v : View) : Int := ∑ a : Address, (v.get a).balance

/-- **Replacing an account** changes the total by the difference of the balances. -/
theorem total_set (v : View) (a : Address) (account : Option Account) :
    (v.set a account).total = v.total - (v.get a).balance + (account.getD {}).balance := by
  -- at one address the balance changes by the difference, and nowhere else
  have hpoint : ∀ b, ((v.set a account).get b).balance = (v.get b).balance +
      if b = a then (account.getD {}).balance - (v.get a).balance else 0 := by
    intro b
    rw [get_set]
    split
    · next hb => rw [hb, add_sub_cancel]
    · rw [add_zero]
  calc (v.set a account).total
      = ∑ b, ((v.get b).balance +
          if b = a then (account.getD {}).balance - (v.get a).balance else 0) :=
        Finset.sum_congr rfl fun b _ => hpoint b
    _ = v.total + ((account.getD {}).balance - (v.get a).balance) := by
        rw [Finset.sum_add_distrib, Finset.sum_ite_eq', if_pos (Finset.mem_univ a)]
        rfl
    _ = v.total - (v.get a).balance + (account.getD {}).balance := by ring

/-- Views that show the same accounts have the same total. -/
theorem total_eq_of_account {v v' : View} (h : v'.account = v.account) : v'.total = v.total := by
  unfold total get
  rw [h]

/-- Setting a balance, where it succeeds. -/
theorem setBalance_ok {a : Address} {x : Int} {v v' : View} (h : setBalance a x v = .ok () v') :
    0 ≤ x ∧ v' = v.update a ({ · with balance := x }) := by
  rw [setBalance] at h
  split at h
  · cases h
  · next hx => exact ⟨not_lt.mp hx, (EStateM.Result.ok.inj h).2.symm⟩

/-- Setting a balance changes the total by the difference. -/
theorem total_setBalance {a : Address} {x : Int} {v v' : View} (h : setBalance a x v = .ok () v') :
    v'.total = v.total - (v.get a).balance + x := by
  obtain ⟨-, rfl⟩ := setBalance_ok h
  exact v.total_set a _

/-- The balances after one of them was set. -/
theorem get_setBalance {a b : Address} {x : Int} {v v' : View} (h : setBalance a x v = .ok () v') :
    (v'.get b).balance = if b = a then x else (v.get b).balance := by
  obtain ⟨-, rfl⟩ := setBalance_ok h
  rw [get_update]
  split
  · rfl
  · rfl

theorem Solvent.setBalance {a : Address} {x : Int} {v v' : View} (hv : v.Solvent)
    (h : View.setBalance a x v = .ok () v') : v'.Solvent := by
  obtain ⟨hx, rfl⟩ := setBalance_ok h
  exact hv.set hx

/-- Setting a balance marks the account. -/
theorem marks_setBalance {a : Address} {x : Int} {v v' : View} (h : setBalance a x v = .ok () v') :
    v.Marks v' := by
  obtain ⟨-, rfl⟩ := setBalance_ok h
  exact v.marks_set a _

end View

/-! ### What the operations show -/

/-- An account whose balance was added to. -/
def Account.credited (account : Account) (x : Int) : Account :=
  { account with balance := account.balance + x }

namespace View

variable {v v' : View}

/-- Adds to the balance of an account. -/
def credit (v : View) (a : Address) (x : Int) : View := v.update a (·.credited x)

/-- Touching an address does nothing, or writes back what is seen there: an absent
account is seen as an empty one. -/
theorem touch_cases (v : View) (a : Address) : v.touch a = v ∨ v.touch a = v.update a id := by
  rw [touch]
  split
  · next habsent =>
    refine .inr ?_
    rw [update, get, Option.isNone_iff_eq_none.mp habsent]
    rfl
  · exact .inl rfl

/-- Touching an address changes nothing that is found anywhere. -/
theorem get_touch (v : View) (a b : Address) : (v.touch a).get b = v.get b := by
  obtain htouch | htouch := v.touch_cases a
  · rw [htouch]
  · rw [htouch, get_update]
    split
    · next hb => rw [hb, id]
    · rfl

/-- What moving value leaves, where it succeeds. -/
theorem transfer_ok {sender recipient : Address} {value : Int}
    (h : transfer sender recipient value v = .ok () v') :
    v' = (v.credit sender (-value)).credit recipient value := by
  rw [transfer, get_bind] at h
  obtain ⟨_, v₁, hsub, hadd⟩ := bind_ok_iff.mp h
  obtain ⟨-, rfl⟩ := setBalance_ok hsub
  obtain ⟨-, rfl⟩ := setBalance_ok hadd
  rw [sub_eq_add_neg]
  rfl

/-- What destroying a contract leaves, where it succeeds. -/
theorem selfDestruct_ok {self beneficiary : Address}
    (h : selfDestruct self beneficiary v = .ok () v') :
    v' = (((v.credit beneficiary (v.get self).balance).markTouched beneficiary).update self
      ({ · with balance := 0 })).addSelfDestruct self := by
  rw [selfDestruct, get_bind] at h
  obtain ⟨_, v₁, hadd, h⟩ := bind_ok_iff.mp h
  obtain ⟨_, v₂, hmark, h⟩ := bind_ok_iff.mp h
  -- the mark between the two payments changes no balance
  obtain ⟨-, rfl⟩ := EStateM.Result.ok.inj hmark
  obtain ⟨_, v₃, hclear, h⟩ := bind_ok_iff.mp h
  obtain ⟨-, rfl⟩ := EStateM.Result.ok.inj h
  obtain ⟨-, rfl⟩ := setBalance_ok hadd
  obtain ⟨-, rfl⟩ := setBalance_ok hclear
  rfl

/-- Whichever way the refund counter goes, nothing else changes. -/
theorem adjustRefund_ok {amount : Int} (h : adjustRefund amount v = .ok () v') :
    ∃ refund, v' = { v with refund } := by
  rw [adjustRefund] at h
  -- the counter goes up, down, or stays
  split at h
  · exact ⟨_, (EStateM.Result.ok.inj h).2.symm⟩
  · split at h
    · rw [subRefund] at h
      split at h
      · cases h
      · exact ⟨_, (EStateM.Result.ok.inj h).2.symm⟩
    · exact ⟨v.refund, (pure_ok_iff.mp h).2.symm⟩

/-- What writing a slot leaves, where it succeeds. -/
theorem storeSlot_ok {self : Address} {key value : Word}
    (h : storeSlot self key value v = .ok () v') :
    ∃ refund, v' = { v with refund }.update self fun account =>
      { account with storage := account.storage.write key value } := by
  rw [storeSlot, get_bind] at h
  obtain ⟨_, v₁, hrefund, hwrite⟩ := bind_ok_iff.mp h
  obtain ⟨-, rfl⟩ := EStateM.Result.ok.inj hwrite
  obtain ⟨refund, rfl⟩ := adjustRefund_ok hrefund
  exact ⟨refund, rfl⟩

/-- A relation that holds of every change holds of the computation that makes it. -/
theorem writes_keeps {Ψ : View → View → Prop} {f : View → View} (h : ∀ v, Ψ v (f v)) :
    Keeps Ψ (writes f) := by
  intro v _ v' hwrites
  obtain ⟨-, rfl⟩ := EStateM.Result.ok.inj hwrites
  exact h v

/-- A relation that respects every single change by which value moves: balances are set, and
accounts are touched or marked for deletion. -/
structure Payable (Ψ : View → View → Prop) : Prop where
  balance : ∀ {v : View} {a : Address} {x : Int}, 0 ≤ x → Ψ v (v.update a ({ · with balance := x }))
  touch : ∀ (v : View) (a : Address), Ψ v (v.touch a)
  markTouched : ∀ (v : View) (a : Address), Ψ v (v.markTouched a)
  addSelfDestruct : ∀ (v : View) (a : Address), Ψ v (v.addSelfDestruct a)

namespace Payable

variable {Ψ : View → View → Prop}

theorem setBalance (h : Payable Ψ) (a : Address) (x : Int) : Keeps Ψ (View.setBalance a x) := by
  intro v _ v' hset
  obtain ⟨hx, rfl⟩ := setBalance_ok hset
  exact h.balance hx

variable [Std.Refl Ψ] [IsTrans View Ψ]

theorem transfer (h : Payable Ψ) (sender recipient : Address) (value : Int) :
    Keeps Ψ (View.transfer sender recipient value) :=
  Keeps.get.bind fun _ => (h.setBalance _ _).bind fun _ => Keeps.get.bind fun _ => h.setBalance _ _

theorem selfDestruct (h : Payable Ψ) (self beneficiary : Address) :
    Keeps Ψ (View.selfDestruct self beneficiary) :=
  Keeps.get.bind fun _ => (h.setBalance _ _).bind fun _ =>
    (writes_keeps fun v => h.markTouched v _).bind fun _ => (h.setBalance _ _).bind fun _ =>
    writes_keeps fun v => h.addSelfDestruct v _

/-- Moving the value of a call touches and marks its address first. -/
theorem moveValue (h : Payable Ψ) (c : Call) : Keeps Ψ c.moveOnView := by
  refine Keeps.ite ?_ (Keeps.pure ())
  exact (writes_keeps fun v => h.touch v _).bind fun _ =>
    (writes_keeps fun v => h.markTouched v _).bind fun _ =>
      Keeps.ite (h.transfer _ _ _) (Keeps.pure ())

/-- Starting a contract is a change of its own, which not all of these
relations respect everywhere. -/
theorem enterCreation (h : Payable Ψ) {c : Creation} (hcreate : Ψ v (v.create c.address))
    (hentered : c.enterOnView v = .ok () v') : Ψ v v' := by
  obtain rfl | ⟨-, hpaid⟩ := c.enterOnView_ok hentered
  · exact hcreate
  · exact IsTrans.trans _ _ _ hcreate (h.transfer _ _ _ hpaid)

end Payable

end View

/-! ### Conservation -/

/-- What all work between two views does to the balances. -/
structure Conserves (v v' : View) : Prop where
  marks : v.Marks v'
  selfDestructs : ∀ a ∈ v.selfDestructs, a ∈ v'.selfDestructs
  solvent : v.Solvent → v'.Solvent
  total_le : v.Solvent → v'.total ≤ v.total
  total_eq : v'.selfDestructs = ∅ → v'.total = v.total

namespace Conserves

variable {v v' v₁ v₂ v₃ : View}

theorem refl (v : View) : Conserves v v :=
  ⟨View.Marks.refl v, fun _ h => h, id, fun _ => le_rfl, fun _ => rfl⟩

/-- A contract that is to be deleted stays so. -/
theorem selfDestructs_eq_empty (h : Conserves v v') (hnone : v'.selfDestructs = ∅) :
    v.selfDestructs = ∅ := by
  refine Std.ExtTreeSet.ext_mem fun a => ⟨fun ha => ?_, fun ha => ?_⟩
  · exact hnone ▸ h.selfDestructs a ha
  · exact absurd ha Std.ExtTreeSet.not_mem_empty

/-- What is conserved twice is conserved. -/
theorem trans (h : Conserves v₁ v₂) (h' : Conserves v₂ v₃) : Conserves v₁ v₃ where
  marks := h.marks.trans h'.marks
  selfDestructs a ha := h'.selfDestructs a (h.selfDestructs a ha)
  solvent hv := h'.solvent (h.solvent hv)
  total_le hv := (h'.total_le (h.solvent hv)).trans (h.total_le hv)
  -- no contract is to be deleted in the end, so none was on the way
  total_eq hnone := by rw [h'.total_eq hnone, h.total_eq (h'.selfDestructs_eq_empty hnone)]

instance : Std.Refl Conserves := ⟨refl⟩

instance : IsTrans View Conserves := ⟨fun _ _ _ h h' => h.trans h'⟩

/-- Whatever leaves the accounts alone and unmarks no contract. -/
theorem of_account_eq (haccount : v'.account = v.account) (hdirty : v'.dirty = v.dirty)
    (hself : ∀ a ∈ v.selfDestructs, a ∈ v'.selfDestructs) : Conserves v v' where
  marks := .of_eq haccount hdirty
  selfDestructs := hself
  solvent hv := by
    rw [View.Solvent, haccount]
    exact hv
  total_le _ := (View.total_eq_of_account haccount).le
  total_eq _ := View.total_eq_of_account haccount

/-- Replacing an account by one with the same balance. -/
theorem set {a : Address} {account : Option Account}
    (h : (account.getD {}).balance = (v.get a).balance) : Conserves v (v.set a account) := by
  have htotal : (v.set a account).total = v.total := by
    rw [View.total_set, h, sub_add_cancel]
  exact
    { marks := v.marks_set a account
      selfDestructs := fun _ ha => ha
      solvent := fun hv => hv.set (h ▸ hv.get a)
      total_le := fun _ => htotal.le
      total_eq := fun _ => htotal }

/-- Changing an account, but not its balance. -/
theorem update (v : View) (a : Address) {f : Account → Account}
    (hf : ∀ account, (f account).balance = account.balance) : Conserves v (v.update a f) :=
  set (hf (v.get a))

/-- **Moving value** from one account to another, or to itself. -/
theorem transfer {sender recipient : Address} {value : Int}
    (h : View.transfer sender recipient value v = .ok () v') : Conserves v v' := by
  rw [View.transfer, get_bind] at h
  obtain ⟨_, v₁, hsub, hadd⟩ := bind_ok_iff.mp h
  change View.setBalance recipient ((v₁.get recipient).balance + value) v₁ = .ok () v' at hadd
  have htotal : v'.total = v.total := by
    rw [View.total_setBalance hadd, View.total_setBalance hsub]
    ring
  obtain ⟨-, hv₁⟩ := View.setBalance_ok hsub
  obtain ⟨-, hv'⟩ := View.setBalance_ok hadd
  exact
    { marks := (View.marks_setBalance hsub).trans (View.marks_setBalance hadd)
      selfDestructs := fun a ha => by
        rw [hv', hv₁]
        exact ha
      solvent := fun hv => (hv.setBalance hsub).setBalance hadd
      total_le := fun _ => htotal.le
      total_eq := fun _ => htotal }

/-- **Destroying a contract**, whoever its balance goes to. -/
theorem selfDestruct {self beneficiary : Address}
    (h : View.selfDestruct self beneficiary v = .ok () v') : Conserves v v' := by
  rw [View.selfDestruct, get_bind] at h
  obtain ⟨_, v₁, hadd, h⟩ := bind_ok_iff.mp h
  obtain ⟨_, v₂, hmark, h⟩ := bind_ok_iff.mp h
  obtain ⟨-, rfl⟩ := EStateM.Result.ok.inj hmark
  obtain ⟨_, v₃, hclear, h⟩ := bind_ok_iff.mp h
  obtain ⟨-, rfl⟩ := EStateM.Result.ok.inj h
  obtain ⟨-, hv₁⟩ := View.setBalance_ok hadd
  obtain ⟨-, hv₃⟩ := View.setBalance_ok hclear
  have hself : self ∈ (v₃.addSelfDestruct self).selfDestructs :=
    Std.ExtTreeSet.mem_insert.mpr (.inl Std.ReflOrd.compare_self)
  have hmarked : (v₁.markTouched beneficiary).total = v₁.total := View.total_eq_of_account rfl
  refine ⟨?_, ?_, ?_, ?_, ?_⟩
  · refine (View.marks_setBalance hadd).trans (.trans (.of_eq rfl rfl) ?_)
    exact (View.marks_setBalance hclear).trans (.of_eq rfl rfl)
  · intro a ha
    refine Std.ExtTreeSet.mem_insert.mpr (.inr ?_)
    rw [hv₃, hv₁]
    exact ha
  · intro hv
    have hsolvent₁ : v₁.Solvent := hv.setBalance hadd
    have hsolvent₃ : v₃.Solvent :=
      View.Solvent.setBalance (v := v₁.markTouched beneficiary) hsolvent₁ hclear
    exact hsolvent₃
  · intro hv
    -- if the contract is its own beneficiary, its balance is added to it and then lost twice
    have htotal : (v₃.addSelfDestruct self).total = v.total + (v.get self).balance -
        (v₁.get self).balance := by
      calc (v₃.addSelfDestruct self).total
          = v₃.total := View.total_eq_of_account rfl
        _ = (v₁.markTouched beneficiary).total - (v₁.get self).balance + 0 :=
            View.total_setBalance hclear
        _ = v.total + (v.get self).balance - (v₁.get self).balance := by
            rw [hmarked, View.total_setBalance hadd]
            ring
    have hself₁ : (v.get self).balance ≤ (v₁.get self).balance := by
      rw [View.get_setBalance hadd]
      split
      · have := hv.get beneficiary
        omega
      · exact le_rfl
    change (v₃.addSelfDestruct self).total ≤ v.total
    omega
  · -- there is a contract to delete, this one
    intro hnone
    rw [hnone] at hself
    exact absurd hself Std.ExtTreeSet.not_mem_empty

/-- Deleting a contract that destroyed itself. -/
theorem delete {a : Address} (h : a ∈ v.selfDestructs) : Conserves v (v.set a none) where
  marks := v.marks_set a none
  selfDestructs _ hb := hb
  solvent hv := hv.set le_rfl
  total_le hv := by
    have hbalance := hv.get a
    rw [View.total_set]
    change v.total - (v.get a).balance + 0 ≤ v.total
    omega
  total_eq hnone := by
    change v.selfDestructs = ∅ at hnone
    rw [hnone] at h
    exact absurd h Std.ExtTreeSet.not_mem_empty

theorem touch (v : View) (a : Address) : Conserves v (v.touch a) := by
  obtain htouch | htouch := v.touch_cases a
  · rw [htouch]
    exact refl v
  · rw [htouch]
    exact update v a fun _ => rfl

theorem storeSlot {a : Address} {key value : Word}
    (h : View.storeSlot a key value v = .ok () v') : Conserves v v' := by
  obtain ⟨refund, rfl⟩ := View.storeSlot_ok h
  -- the refund counter is no balance
  have hrefunded : Conserves v { v with refund } := of_account_eq rfl rfl fun _ h => h
  exact hrefunded.trans (update _ a fun _ => rfl)

/-- **Moving the value of a call.** -/
theorem moveValue {c : Call} (h : c.moveOnView v = .ok () v') : Conserves v v' := by
  have hmarked : Conserves v ((v.touch c.address).markTouched c.address) :=
    (touch v c.address).trans (of_account_eq rfl rfl fun _ h => h)
  obtain rfl | ⟨-, rfl | ⟨-, h⟩⟩ := c.moveOnView_ok h
  · exact refl _
  · exact hmarked
  · exact hmarked.trans (transfer h)

/-- A new contract keeps the balance of its address. -/
theorem create (v : View) (a : Address) : Conserves v (v.create a) := by
  have hset : Conserves v (v.set a (some { balance := (v.get a).balance })) := set rfl
  exact hset.trans (of_account_eq rfl rfl fun _ h => h)

/-- **Entering a creation**, which may be paid. -/
theorem enterCreation {c : Creation} (h : c.enterOnView v = .ok () v') : Conserves v v' := by
  obtain rfl | ⟨-, h⟩ := c.enterOnView_ok h
  · exact create v c.address
  · exact (create v c.address).trans (transfer h)

/-- **All that a machine does conserves value.** -/
theorem respected : Respected Conserves fun _ => True where
  storeSlot _ h := storeSlot h
  addLog _ _ := of_account_eq rfl rfl fun _ h => h
  selfDestruct h := selfDestruct h
  moveValue _ h := moveValue h
  spendNonce c v := update v c.creator fun _ => rfl
  enterCreation _ h := enterCreation h
  deployCode v a _ := update v a fun _ => rfl

end Conserves

end EvmCore
