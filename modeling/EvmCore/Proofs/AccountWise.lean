import EvmCore.Proofs.Nesting
import EvmCore.Proofs.Value
import Mathlib

/-!
# Changes, account by account

Much of what is known about a run is known of each account on its own: that no word in its storage
is negative, or that its code stays what it is. `View.AccountWise R v v'` relates every account of
`v` by `R` to what stands at the same address in `v'`. A machine changes accounts in few ways, and
all but one of them leave the code alone: balances are set, nonces are counted up, words are stored,
and a contract is started at an address that holds no code. If `R` allows for these
(`Account.Allows R ok`), then it holds account by account of everything that a frame does, except
that init code which halts deploys its output (`Account.Allows.frame`).
-/

namespace EvmCore

/-- The address of the account is free for a new contract. -/
structure Account.Free (account : Account) : Prop where
  nonce : account.nonce = 0
  code : account.code.size = 0
  storage : account.storage.isEmpty = true

/-- The relation `R` holds between an account before and after all that happens to one, as long as
the words that are stored are `ok`, except for the deployment of code. -/
structure Account.Allows (R : Account → Account → Prop) (ok : Word → Prop) : Prop where
  balance : ∀ (account : Account) (x : Int), 0 ≤ x → R account { account with balance := x }
  nonce : ∀ account : Account, R account { account with nonce := account.nonce + 1 }
  storage : ∀ (account : Account) (key value : Word), ok value →
    R account { account with storage := account.storage.write key value }
  fresh : ∀ account : Account, account.Free → R account { balance := account.balance }

/-- What holds before holds after. -/
def Carries {α : Type} (P : α → Prop) (x y : α) : Prop := P x → P y

instance {α : Type} (P : α → Prop) : Std.Refl (Carries P) := ⟨fun _ => id⟩

instance {α : Type} (P : α → Prop) : IsTrans α (Carries P) := ⟨fun _ _ _ h h' hx => h' (h hx)⟩

/-- Every account is related by `R` to what stands at its address afterwards. -/
def View.AccountWise (R : Account → Account → Prop) (v v' : View) : Prop :=
  ∀ a, R (v.get a) (v'.get a)

namespace View.AccountWise

variable {R : Account → Account → Prop} {v v' : View}

instance [Std.Refl R] : Std.Refl (AccountWise R) := ⟨fun _ _ => Std.Refl.refl _⟩

instance [IsTrans Account R] : IsTrans View (AccountWise R) :=
  ⟨fun _ _ _ h h' a => IsTrans.trans _ _ _ (h a) (h' a)⟩

variable [Std.Refl R]

/-- What changes no account at all. -/
theorem of_account_eq (h : v'.account = v.account) : AccountWise R v v' := by
  intro a
  rw [View.get, View.get, h]
  exact Std.Refl.refl _

/-- What changes one account is judged by that account alone. -/
theorem set {a : Address} {account : Option Account} (h : R (v.get a) (account.getD {})) :
    AccountWise R v (v.set a account) := by
  intro b
  rw [get_set]
  split
  · -- the account that was set, and then any other one
    next hb => exact hb ▸ h
  · exact Std.Refl.refl _

/-- An update of one account, which starts from the empty one if there is none. -/
theorem update {a : Address} {f : Account → Account} (h : R (v.get a) (f (v.get a))) :
    AccountWise R v (v.update a f) :=
  set h

theorem touch (v : View) (a : Address) : AccountWise R v (v.touch a) := by
  intro b
  rw [get_touch]
  exact Std.Refl.refl _

end View.AccountWise

namespace Account.Allows

open View (AccountWise)

variable {R : Account → Account → Prop} [Std.Refl R] {ok : Word → Prop} {v v' : View}

/-- Value moves by changes of balances, which are allowed, and by marks, which are on no account. -/
theorem payable (hR : Allows R ok) : View.Payable (AccountWise R) where
  balance hx := .update (hR.balance _ _ hx)
  touch v a := .touch v a
  markTouched _ _ := .of_account_eq rfl
  addSelfDestruct _ _ := .of_account_eq rfl

/-- The nonce that a creation spends is counted up. -/
theorem spendNonce (hR : Allows R ok) (c : Creation) (v : View) :
    AccountWise R v (c.spendNonce v) :=
  .update (hR.nonce _)

/-- A contract is started at an address that is free. -/
theorem create (hR : Allows R ok) {a : Address} (hfree : (v.get a).Free) :
    AccountWise R v (v.create a) := by
  have hset : AccountWise R v (v.set a (some { balance := (v.get a).balance })) :=
    .set (hR.fresh _ hfree)
  exact hset

variable [IsTrans Account R]

/-- A store changes one word and the refund counter, which belongs to no account. -/
theorem storeSlot (hR : Allows R ok) (a : Address) (key : Word) {value : Word} (hvalue : ok value) :
    Keeps (AccountWise R) (View.storeSlot a key value) := by
  intro v _ v' h
  obtain ⟨refund, rfl⟩ := View.storeSlot_ok h
  have hrefunded : AccountWise R v { v with refund } := .of_account_eq rfl
  exact IsTrans.trans _ _ _ hrefunded (.update (hR.storage _ key value hvalue))

/-- **A creation is allowed**: it spends a nonce, and starts a contract where nothing was. -/
theorem creation (hR : Allows R ok) (c : Creation) (v : View) :
    c.Respects (AccountWise R) v where
  spendNonce := hR.spendNonce c v
  enter v' _ hfree hentered := by
    -- an address that is not taken is one that `fresh` speaks about
    rw [Creation.TakenOn, not_or, not_or, not_not, not_not, Bool.not_eq_false] at hfree
    exact hR.payable.enterCreation (hR.create ⟨hfree.1, hfree.2.1, hfree.2.2⟩) hentered

/-- **What a frame does is allowed, account by account**, as long as deploying its output is. -/
theorem frame (hR : Allows R ok) {f : Frame} (hstack : f.mode = .running → ∀ w ∈ f.stack, ok w)
    (hdeploy : f.mode = .exited .halted → f.message.isInit = true →
      deployFailure? f.output f.gas = none →
      R (v.get f.message.self) { v.get f.message.self with code := f.output }) :
    f.Respects (AccountWise R) v where
  write := by
    intro v' hmode _ hwrites
    cases hwrites with
    -- what is stored was on the stack
    | storeSlot hvalue hstored => exact hR.storeSlot _ _ (hstack hmode _ hvalue) hstored
    | addLog log => exact .of_account_eq rfl
    | selfDestruct hdestructed => exact hR.payable.selfDestruct _ _ hdestructed
  -- calls and creations move value, the latter also start a contract
  call _ := fun _ _ hmoved => hR.payable.moveValue _ hmoved
  create _ _ := hR.creation _ v
  deploy hmode hinit hdeployable := .update (hdeploy hmode hinit hdeployable)

end Account.Allows

end EvmCore
