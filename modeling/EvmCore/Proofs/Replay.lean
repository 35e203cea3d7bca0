import EvmCore.Proofs.Atomicity
import EvmCore.Proofs.Bystander
import Mathlib

/-!
# No transaction is accepted twice

A transaction names the nonce that its sender has to have, and applying it counts that nonce up. So
that this protects against replays, the nonce must not come down again, over all that is applied in
between: transactions of others, with whatever code they run, transactions that are refused, and
transactions that fail on the way.

A history is a list of transactions, each with the block that it is applied in. Along a history, an
account without code at whose address no contract is created stays without code (`Source.Codeless`),
and its nonce never falls. Each transaction of its own that is accepted raises it by one, so the
nonces that are accepted are different from each other. The account is there afterwards, as its
nonce is not zero, unless the nonce was negative before.
-/

namespace EvmCore

/-! ### Sources that refuse nothing -/

/-- A source that refuses nothing does not begin to when it is written to. -/
theorem Source.NeverFails.appliedAll {source : Source} (h : source.NeverFails)
    (accounts : Address → Option Account) (l : List Address) :
    (source.appliedAll accounts l).NeverFails := by
  -- by induction on the accounts that are written
  induction l generalizing source with
  | nil => exact h
  | cons a l ih => exact ih (h.applied a (accounts a))

/-! ### Transactions -/

namespace Transaction

variable {tx : Transaction} {block : Block} {precompiles : Std.ExtTreeMap Address Precompile}
  {source : Source} {s' : State} {r : Receipt} {a : Address}

/-- A source that refuses nothing is left so by a transaction that was accepted. -/
theorem neverFails_of_apply (hsource : source.NeverFails)
    (h : tx.apply block precompiles (.ofSource source) = .ok r s') :
    s'.world.source.NeverFails := by
  obtain ⟨o, s, hended, hsettle⟩ := exists_ended_of_apply h
  obtain ⟨s₁, s₂, hgrows, -, hremove, hwritten, -⟩ := (settles_of_settle hsettle).exists_removed
  have hretains : Retains (.ofSource source) s₂ := hended.ended_retains.trans
    (hgrows.trans (removeAccounts_moves hremove).2.toGrows).toRetains
  have hbefore : s₂.world.source = source := hretains.source
  rw [hwritten, World.flushedSource, hbefore]
  exact hsource.appliedAll _ _

/-- Being charged raises the nonce of the sender, and no other. -/
theorem chargedView_nonce (tx : Transaction) (block : Block) (source : Source) (a : Address) :
    ((tx.chargedView block source).get a).nonce =
      if a = tx.sender then (source.get a).nonce + 1 else (source.get a).nonce := by
  rw [chargedView, View.get, View.charged_account, ← State.get_ofSource]
  split
  · next ha => rw [ha, Option.getD_some]
  · rfl

/-- **What a transaction does to nonces.** That of the sender was the one that
the transaction names. -/
theorem nonce_of_apply (h : tx.apply block precompiles (.ofSource source) = .ok r s')
    (hcode : (source.get a).code.size = 0) (hcreated : a ∉ s'.world.created) :
    (a = tx.sender → (source.get a).nonce = tx.nonce) ∧
    (s'.world.source.get a).nonce =
      if a = tx.sender then (source.get a).nonce + 1 else (source.get a).nonce := by
  refine ⟨fun ha => ?_, ?_⟩
  · rw [ha, ← State.get_ofSource]
    exact (admissible_of_apply h).nonce.symm
  · rw [(sameButBalance_of_apply h hcode hcreated).nonce, chargedView_nonce]

end Transaction

/-! ### Histories -/

/-- A transaction, the block that it is applied in, and the contracts that are
built into the machine there. -/
structure Application where
  tx : Transaction
  block : Block := {}
  precompiles : Std.ExtTreeMap Address Precompile := ∅

namespace Application

/-- Applies the transaction to the accounts of a source. -/
def applyTo (p : Application) (source : Source) : EStateM.Result Fault State Receipt :=
  p.tx.apply p.block p.precompiles (.ofSource source)

/-- The source after the transaction, however it ended. -/
def sourceAfter (p : Application) (source : Source) : Source :=
  (ended (p.applyTo source)).world.source

/-- The source after a transaction that was accepted. -/
theorem sourceAfter_of_ok {p : Application} {source : Source} {r : Receipt} {s' : State}
    (h : p.applyTo source = .ok r s') : p.sourceAfter source = s'.world.source := by
  rw [sourceAfter, h]
  rfl

/-- A transaction that was not accepted leaves the source as it was. -/
theorem sourceAfter_of_error {p : Application} {source : Source} {e : Fault} {s' : State}
    (hsource : source.NeverFails) (h : p.applyTo source = .error e s') :
    p.sourceAfter source = source := by
  rw [sourceAfter, h]
  exact Transaction.source_of_error hsource h

end Application

namespace Source

variable {source : Source} {p : Application} {a : Address}

/-- The source after the transactions of a history, applied one after another. -/
def after (source : Source) (history : List Application) : Source :=
  history.foldl (fun source p => p.sourceAfter source) source

/-- A source that refuses nothing, with no code at `a`. -/
structure Codeless (a : Address) (source : Source) : Prop where
  neverFails : source.NeverFails
  code : (source.get a).code.size = 0

/-- **A transaction**, accepted or not, leaves an account without code, and
does not lower its nonce. -/
theorem Codeless.sourceAfter (h : source.Codeless a)
    (hcreated : ∀ {r : Receipt} {s' : State}, p.applyTo source = .ok r s' → a ∉ s'.world.created) :
    (p.sourceAfter source).Codeless a ∧
    (source.get a).nonce ≤ ((p.sourceAfter source).get a).nonce := by
  -- whatever is not accepted leaves the source alone
  cases happly : p.applyTo source with
  | error e s' =>
    rw [Application.sourceAfter_of_error h.neverFails happly]
    exact ⟨h, le_rfl⟩
  | ok r s' =>
    rw [Application.sourceAfter_of_ok happly]
    have hsame := Transaction.sameButBalance_of_apply happly h.code (hcreated happly)
    have hnonce := (Transaction.nonce_of_apply happly h.code (hcreated happly)).2
    refine ⟨⟨Transaction.neverFails_of_apply h.neverFails happly, ?_⟩, ?_⟩
    · rw [hsame.code, Transaction.chargedView_code]
      exact h.code
    · rw [hnonce]
      split
      · omega
      · exact le_rfl

end Source

/-- The transaction at position `i` of a history was accepted, and left its
receipt `r` and the state `s'`. -/
structure Accepts (source : Source) (history : List Application) (i : Nat) (p : Application)
    (r : Receipt) (s' : State) : Prop where
  item : history[i]? = some p
  applied : p.applyTo (source.after (history.take i)) = .ok r s'

section History

variable {source : Source} {history : List Application} {a : Address} {i j : Nat}
  {p q : Application} {r r' : Receipt} {s s' : State}

/-- The next transaction of a history is applied to what those before it have left. -/
theorem Source.after_take_succ (h : history[i]? = some p) :
    source.after (history.take (i + 1)) = p.sourceAfter (source.after (history.take i)) := by
  rw [List.take_add_one, h, Source.after, List.foldl_append]
  rfl

/-- No contract is created at `a` in a history. -/
def Uncreated (a : Address) (source : Source) (history : List Application) : Prop :=
  ∀ {i : Nat} {p : Application} {r : Receipt} {s' : State}, Accepts source history i p r s' →
    a ∉ s'.world.created

/-- One item more of a history. -/
theorem Source.Codeless.after_take_succ (h : (source.after (history.take i)).Codeless a)
    (hcreated : Uncreated a source history) :
    (source.after (history.take (i + 1))).Codeless a ∧
      ((source.after (history.take i)).get a).nonce ≤
        ((source.after (history.take (i + 1))).get a).nonce := by
  cases hitem : history[i]? with
  | none =>
    -- past its end a history goes on without change
    rw [List.take_add_one, hitem, Option.toList_none, List.append_nil]
    exact ⟨h, le_rfl⟩
  | some p =>
    rw [Source.after_take_succ hitem]
    exact h.sourceAfter fun happly => hcreated ⟨hitem, happly⟩

/-- At every point of a history the account is without code. -/
theorem Source.Codeless.after_take (h : source.Codeless a) (hcreated : Uncreated a source history)
    (i : Nat) : (source.after (history.take i)).Codeless a := by
  -- by induction on the length of the history so far
  induction i with
  | zero => exact h
  | succ i ih => exact (ih.after_take_succ hcreated).1

/-- **The nonce never falls** over a history. -/
theorem Source.Codeless.nonce_monotone (h : source.Codeless a)
    (hcreated : Uncreated a source history) :
    Monotone fun i => ((source.after (history.take i)).get a).nonce :=
  monotone_nat_of_le_succ fun i => ((h.after_take hcreated i).after_take_succ hcreated).2

/-- **What accepting a transaction of `a` takes and leaves.** -/
theorem Accepts.nonce (haccepts : Accepts source history i p r s') (h : source.Codeless a)
    (hcreated : Uncreated a source history) (hsender : p.tx.sender = a) :
    ((source.after (history.take i)).get a).nonce = p.tx.nonce ∧
      (s'.world.source.get a).nonce = p.tx.nonce + 1 ∧
      source.after (history.take (i + 1)) = s'.world.source := by
  obtain ⟨hbefore, hafter⟩ :=
    Transaction.nonce_of_apply haccepts.applied (h.after_take hcreated i).code (hcreated haccepts)
  rw [if_pos hsender.symm] at hafter
  refine ⟨hbefore hsender.symm, ?_, ?_⟩
  · rw [hafter, hbefore hsender.symm]
  · rw [Source.after_take_succ haccepts.item, Application.sourceAfter_of_ok haccepts.applied]

/-- The later of two transactions has the higher nonce. -/
theorem Accepts.nonce_lt (hp : Accepts source history i p r s)
    (hq : Accepts source history j q r' s') (h : source.Codeless a)
    (hcreated : Uncreated a source history) (hsender : p.tx.sender = a) (hsender' : q.tx.sender = a)
    (hij : i < j) : p.tx.nonce < q.tx.nonce := by
  obtain ⟨-, hafter, hsource⟩ := hp.nonce h hcreated hsender
  obtain ⟨hbefore, -, -⟩ := hq.nonce h hcreated hsender'
  -- the nonce has not come down in between
  have hmono : ((source.after (history.take (i + 1))).get a).nonce ≤
      ((source.after (history.take j)).get a).nonce := h.nonce_monotone hcreated hij
  rw [hsource, hafter, hbefore] at hmono
  exact Int.lt_of_add_one_le hmono

end History

/-- **No transaction is accepted twice.** Let a source refuse nothing, and hold no code at `a`. Over
every history in which no contract is created at `a`, the transactions of `a` that are accepted have
different nonces, the later ones higher ones. After each of them the nonce of `a` is one more than
the transaction named, and the account is there, unless that makes zero. -/
theorem no_nonce_is_accepted_twice (source : Source) (history : List Application) (a : Address)
    (hsource : source.NeverFails) (hcode : (source.get a).code.size = 0)
    (hcreated : ∀ {i : Nat} {p : Application} {r : Receipt} {s' : State},
      Accepts source history i p r s' → a ∉ s'.world.created) :
    (∀ {i : Nat} {p : Application} {r : Receipt} {s' : State}, Accepts source history i p r s' →
      p.tx.sender = a →
      (s'.world.source.get a).nonce = p.tx.nonce + 1 ∧
      (p.tx.nonce ≠ -1 → a ∈ s'.world.source.accounts)) ∧
    (∀ {i j : Nat} {p q : Application} {r r' : Receipt} {s s' : State},
      Accepts source history i p r s → Accepts source history j q r' s' → p.tx.sender = a →
      q.tx.sender = a →
      (i < j → p.tx.nonce < q.tx.nonce) ∧ (p.tx.nonce = q.tx.nonce → i = j)) := by
  have h : source.Codeless a := ⟨hsource, hcode⟩
  refine ⟨fun haccepts hsender => ?_,
    fun {i j p q r r' s s'} hp hq hsender hsender' => ⟨?_, fun hsame => ?_⟩⟩
  · obtain ⟨-, hnonce, -⟩ := haccepts.nonce h hcreated hsender
    refine ⟨hnonce, fun hne => ?_⟩
    -- an account that is not there would have the nonce zero
    by_contra habsent
    rw [Source.get, Std.ExtTreeMap.getElem?_eq_none habsent] at hnonce
    change (0 : Int) = _ at hnonce
    omega
  · exact hp.nonce_lt hq h hcreated hsender hsender'
  · -- the one that came later would have the higher nonce
    rcases lt_trichotomy i j with hlt | heq | hgt
    · exact absurd hsame (hp.nonce_lt hq h hcreated hsender hsender' hlt).ne
    · exact heq
    · exact absurd hsame (hq.nonce_lt hp h hcreated hsender' hsender hgt).ne'

/-- A transfer, the same transfer again, a creation, a transaction of somebody else, and a call that
fails: three transactions of the sender are accepted, with three nonces, and the second is not. -/
theorem repeated_transfer_is_not_accepted :
    let source : Source :=
      { accounts :=
          (((∅ : Std.ExtTreeMap Address Account).insert 1 { balance := 10000000 }).insert 2
          { code := ⟨#[0xfe]⟩ }).insert 4 { balance := 10000000 } }
    let call (sender : Address) (nonce : Int) (recipient : Option Address) : Application :=
      { tx := { sender, nonce, gasLimit := 60000, recipient, gasPrice := 1 },
        block := { coinbase := 9 } }
    let history : List Application :=
      [call 1 0 (some 3), call 1 0 (some 3), call 1 1 none, call 4 0 (some 1), call 1 2 (some 2)]
    source.NeverFails ∧ (source.get 1).code.size = 0 ∧
    (∀ {i : Nat} {p : Application} {r : Receipt} {s' : State}, Accepts source history i p r s' →
      (1 : Address) ∉ s'.world.created) ∧
    (∃ r s, Accepts source history 0 (call 1 0 (some 3)) r s) ∧
    (∀ r s', ¬Accepts source history 1 (call 1 0 (some 3)) r s') ∧
    (∃ r s', Accepts source history 4 (call 1 2 (some 2)) r s' ∧ r.status = .failure ∧
      (s'.world.source.get 1).nonce = 3 ∧ 1 ∈ s'.world.source.accounts) := by
  intro source call history
  have hsource : source.NeverFails := ⟨rfl, rfl, rfl⟩
  have hcode : (source.get 1).code.size = 0 := by decide +kernel
  have htest : ∀ i < 5, (match history[i]? with
      | none => false
      | some p => endsWith (fun _ s' => decide ((1 : Address) ∈ s'.world.created))
        (p.applyTo (source.after (history.take i)))) = false := by decide +kernel
  have hcreated : ∀ {i : Nat} {p : Application} {r : Receipt} {s' : State},
      Accepts source history i p r s' → (1 : Address) ∉ s'.world.created := by
    intro i p r s' haccepts
    have hi : i < 5 := (List.getElem?_eq_some_iff.mp haccepts.item).1
    have hitem := htest i hi
    rw [haccepts.item] at hitem
    dsimp only at hitem
    rw [haccepts.applied] at hitem
    exact of_decide_eq_false hitem
  obtain ⟨hnonce, hdistinct⟩ := no_nonce_is_accepted_twice source history 1 hsource hcode hcreated
  have hfirst : endsWith (fun _ _ => true)
      ((call 1 0 (some 3)).applyTo (source.after (history.take 0))) = true := by decide +kernel
  have hlast : endsWith (fun r _ => decide (r.status = .failure))
      ((call 1 2 (some 2)).applyTo (source.after (history.take 4))) = true := by decide +kernel
  obtain ⟨r, s, hfirst, -⟩ := endsWith_iff.mp hfirst
  obtain ⟨r', s', hlast, hstatus⟩ := endsWith_iff.mp hlast
  have haccepts : Accepts source history 0 (call 1 0 (some 3)) r s := ⟨rfl, hfirst⟩
  have haccepts' : Accepts source history 4 (call 1 2 (some 2)) r' s' := ⟨rfl, hlast⟩
  obtain ⟨hafter, hpresent⟩ := hnonce haccepts' rfl
  refine ⟨hsource, hcode, hcreated, ⟨r, s, haccepts⟩, fun r₁ s₁ hagain => ?_,
    r', s', haccepts', of_decide_eq_true hstatus, hafter, hpresent (by decide)⟩
  exact absurd ((hdistinct haccepts hagain rfl rfl).2 rfl) (by decide)

/-- **A sender can be gone after its transaction was accepted.** One with the nonce minus
one and nothing else, that calls itself at no price, has the nonce zero afterwards, and
is removed for being empty. -/
theorem sender_with_negative_nonce_is_removed :
    let sender : Address := 0x5e5e5e5e5e5e5e5e5e5e5e5e5e5e5e5e5e5e5e5e
    let source : Source :=
      { accounts := (∅ : Std.ExtTreeMap Address Account).insert sender { nonce := -1 } }
    let p : Application :=
      { tx := { sender, nonce := -1, gasLimit := 100000, recipient := some sender }
        block := { coinbase := 0xcbcbcbcbcbcbcbcbcbcbcbcbcbcbcbcbcbcbcbcb } }
    ∃ r s', Accepts source [p] 0 p r s' ∧ source.NeverFails ∧ (source.get sender).code.size = 0 ∧
      sender ∉ s'.world.created ∧ r.status = .success ∧
      s'.world.source.accounts[sender]?.isNone = true := by
  intro sender source p
  have hends : endsWith (fun r s' => decide (sender ∉ s'.world.created ∧ r.status = .success ∧
      s'.world.source.accounts[sender]?.isNone = true)) (p.applyTo source) = true := by
    decide +kernel
  obtain ⟨r, s', happly, hends⟩ := endsWith_iff.mp hends
  exact ⟨r, s', ⟨rfl, happly⟩, ⟨rfl, rfl, rfl⟩, by decide +kernel, of_decide_eq_true hends⟩

end EvmCore
