import EvmCore.Proofs.Refund
import EvmCore.Proofs.WordRange
import Mathlib

/-!
# Regular accounts

What is shown of the accounts is regular (`View.Regular`) if no balance is negative, all balances
together are a word, the nonces and storage slots are what the machine itself would write, and the
refund counter is covered. Whatever a frame does keeps this (`View.Regular.respects`): the total
never rises, each account is changed in ways that keep its numbers in range, and the refund counter
is a matter of its own. So each balance is a word at any time.
-/

namespace EvmCore

open Word (InRange)

/-! ### One account -/

/-- An account whose nonce, code and storage are in range. -/
structure Account.InBounds (account : Account) : Prop where
  nonce : 0 ≤ account.nonce
  code : (account.code.size : Int) < Word.modulus
  storage : ∀ key, InRange (account.storage.read key)

/-- An account that holds nothing but a balance. -/
theorem Account.InBounds.of_balance (balance : Int) : Account.InBounds { balance } where
  nonce := le_rfl
  code := Word.modulus_pos
  storage _ := Word.inRange_zero

/-- Each change that an account may undergo keeps it in bounds. -/
theorem Account.InBounds.allows : Account.Allows (Carries Account.InBounds) InRange where
  balance _ _ _ h := ⟨h.nonce, h.code, h.storage⟩
  nonce _ h := ⟨Int.add_nonneg h.nonce Int.one_nonneg, h.code, h.storage⟩
  storage account key value hvalue h := by
    refine ⟨h.nonce, h.code, ?_⟩
    intro key'
    -- the slot that was written holds a word, and the others what they held
    dsimp only
    rw [Storage.read_write]
    split
    · exact hvalue
    · exact h.storage key'
  fresh account _ _ := .of_balance account.balance

/-! ### All that is shown -/

/-- All balances are non-negative and together a word, the accounts are in bounds and
the refund counter is covered. -/
structure View.Regular (v : View) : Prop where
  solvent : v.Solvent
  total : v.total < Word.modulus
  accounts : ∀ a, (v.get a).InBounds
  refund : v.RefundCovered

namespace View

/-- Where nothing is owed, no balance is larger than all of them together. -/
theorem Solvent.balance_le_total {v : View} (h : v.Solvent) (a : Address) :
    (v.get a).balance ≤ v.total :=
  Finset.single_le_sum (f := fun a => (v.get a).balance) (fun b _ => h.get b) (Finset.mem_univ a)

/-- So each balance is a word. -/
theorem Regular.inRange_balance {v : View} (h : v.Regular) (a : Address) :
    InRange (v.get a).balance :=
  ⟨h.solvent.get a, (h.solvent.balance_le_total a).trans_lt h.total⟩

/-- In particular nothing that is shown is negative. -/
theorem Regular.nonNegative {v : View} (h : v.Regular) : v.NonNegative where
  solvent := h.solvent
  storage a key := ((h.accounts a).storage key).1

/-- What is learnt of a regular account is a word. -/
theorem Regular.inRange_query {v : View} (h : v.Regular) (a : Address) (query : AccountQuery) :
    InRange (v.query a query) := by
  cases query with
  | balance => exact h.inRange_balance a
  | codeSize => exact ⟨Int.natCast_nonneg _, (h.accounts a).code⟩
  | codeHash =>
    rw [View.query]
    split
    · exact Word.inRange_zero
    · -- where there is no account the hash is one of 32 zeros
      rw [View.codeHash]
      cases v.account a with
      | none => exact Bytes.inRange_toWord (Bytes.size_zeros 32).le
      | some account => exact Bytes.inRange_toWord (Keccak.size_hash account.code).le

/-- What keeps a view regular, in its three parts. -/
def KeepsRegular (v v' : View) : Prop :=
  Conserves v v' ∧ AccountWise (Carries Account.InBounds) v v' ∧ Carries RefundCovered v v'

/-- The three parts together. -/
theorem KeepsRegular.carries {v v' : View} (h : KeepsRegular v v') : Carries Regular v v' := by
  obtain ⟨hconserves, haccounts, hrefund⟩ := h
  intro hv
  exact
    { solvent := hconserves.solvent hv.solvent
      -- the total never rises
      total := (hconserves.total_le hv.solvent).trans_lt hv.total
      accounts := fun a => haccounts a (hv.accounts a)
      refund := hrefund hv.refund }

/-- A call keeps what is shown regular. -/
theorem Regular.call (c : Call) (v : View) : c.Respects (Carries Regular) v := by
  intro v' hfunded hmoved
  exact KeepsRegular.carries
    ⟨Conserves.moveValue hmoved, Account.InBounds.allows.payable.moveValue c hmoved,
      RefundCovered.respected.moveValue hfunded hmoved⟩

/-- So does a creation, when it spends the nonce and when it enters. -/
theorem Regular.creation (c : Creation) (v : View) : c.Respects (Carries Regular) v := by
  have haccounts := Account.InBounds.allows.creation c v
  have hrefund := RefundCovered.respected.creation c v
  have hconserves := Conserves.respected.creation c v
  refine ⟨KeepsRegular.carries
    ⟨hconserves.spendNonce, haccounts.spendNonce, hrefund.spendNonce⟩, ?_⟩
  intro v' hfunded hfree hentered
  exact KeepsRegular.carries
    ⟨hconserves.enter hfunded hfree hentered, haccounts.enter hfunded hfree hentered,
      hrefund.enter hfunded hfree hentered⟩

/-- Code that can be deployed is no longer than code may be. -/
theorem size_lt_of_deployable {code : ByteArray} {gas : Int} (h : deployFailure? code gas = none) :
    (code.size : Int) < Word.modulus := by
  -- code that is too long is refused
  have hle : code.size ≤ maxCodeSize := by
    by_contra hlarge
    rw [deployFailure?, if_pos (not_le.mp hlarge)] at h
    cases h
  have hmax : (maxCodeSize : Int) < Word.modulus := by decide
  exact (Int.ofNat_le.mpr hle).trans_lt hmax

/-- **A frame keeps what is shown regular**, as long as its stack holds words only. -/
theorem Regular.respects {f : Frame} (hstack : f.mode = .running → ∀ w ∈ f.stack, InRange w)
    (v : View) :
    f.Respects (Carries Regular) v := by
  -- the three parts are respected for reasons of their own, and only the second needs the stack
  have haccounts : f.Respects (AccountWise (Carries Account.InBounds)) v :=
    Account.InBounds.allows.frame hstack fun _ _ hdeployable haccount =>
      ⟨haccount.nonce, size_lt_of_deployable hdeployable, haccount.storage⟩
  have hconserves : f.Respects Conserves v := Conserves.respected.frame (fun _ _ _ => trivial) v
  have hrefund : f.Respects (Carries RefundCovered) v :=
    RefundCovered.respected.frame (fun _ _ _ => trivial) v
  exact
    { write := fun _ hmode hwritable hwrites => KeepsRegular.carries
        ⟨hconserves.write hmode hwritable hwrites, haccounts.write hmode hwritable hwrites,
          hrefund.write hmode hwritable hwrites⟩
      call := fun _ => Regular.call _ v
      create := fun _ _ => Regular.creation _ v
      deploy := fun hmode hinit hdeployable => KeepsRegular.carries
        ⟨hconserves.deploy hmode hinit hdeployable, haccounts.deploy hmode hinit hdeployable,
          hrefund.deploy hmode hinit hdeployable⟩ }

end View

end EvmCore
