import EvmCore.Proofs.AccountWise
import Mathlib

/-!
# Numbers that are not negative

The machine computes on integers and its prices are read off operands, so that a negative operand
would give gas back: a log of a negative length is cheaper than none. This module proves that no
such operand ever comes up. Where the context, the accounts and the entry frame hold no negative
number, every instruction leaves only non-negative words on the stack and only non-negative requests
(`Executes.nonNegative`), and all that a machine does to the accounts keeps them so
(`View.Preserves.respects`).
-/

namespace EvmCore

/-! ### Words -/

namespace Word

variable {x y z : Word}

theorem twoPow_pos (n : Nat) : 0 < twoPow n := Int.natCast_pos.mpr (Nat.two_pow_pos n)

theorem twoPow_le {m n : Nat} (h : m ≤ n) : twoPow m ≤ twoPow n :=
  Int.ofNat_le.mpr (Nat.pow_le_pow_right Nat.two_pos h)

theorem wrap_nonneg (v : Int) : 0 ≤ wrap v := Int.emod_nonneg v (twoPow_pos 256).ne'

theorem ofBool_nonneg (b : Bool) : 0 ≤ ofBool b := by
  cases b with
  | true => exact Int.one_nonneg
  | false => exact le_rfl

theorem and_nonneg (hx : 0 ≤ x) (hy : 0 ≤ y) : 0 ≤ and x y := by
  obtain ⟨m, rfl⟩ := Int.eq_ofNat_of_zero_le hx
  obtain ⟨n, rfl⟩ := Int.eq_ofNat_of_zero_le hy
  exact Int.natCast_nonneg (m &&& n)

theorem or_nonneg (hx : 0 ≤ x) (hy : 0 ≤ y) : 0 ≤ or x y := by
  obtain ⟨m, rfl⟩ := Int.eq_ofNat_of_zero_le hx
  obtain ⟨n, rfl⟩ := Int.eq_ofNat_of_zero_le hy
  exact Int.natCast_nonneg (m ||| n)

theorem xor_nonneg (hx : 0 ≤ x) (hy : 0 ≤ y) : 0 ≤ xor x y := by
  obtain ⟨m, rfl⟩ := Int.eq_ofNat_of_zero_le hx
  obtain ⟨n, rfl⟩ := Int.eq_ofNat_of_zero_le hy
  exact Int.natCast_nonneg (m ^^^ n)

theorem not_nonneg (hx : 0 ≤ x) : 0 ≤ not x :=
  xor_nonneg hx (Int.le_sub_one_of_lt (twoPow_pos 256))

/-- Division is by floor, and by zero gives zero. -/
theorem div_nonneg (hx : 0 ≤ x) (hy : 0 ≤ y) : 0 ≤ div x y := by
  rw [div]
  split
  · exact le_rfl
  · exact Int.fdiv_nonneg hx hy

/-- A remainder has the sign of the divisor. -/
theorem mod_nonneg (x : Int) (hy : 0 ≤ y) : 0 ≤ mod x y := by
  rw [mod]
  split
  · exact le_rfl
  · next hzero => exact Int.fmod_nonneg_of_pos x (lt_of_le_of_ne hy (Ne.symm hzero))

/-- Signed division wraps its result. -/
theorem sdiv_nonneg (x y : Word) : 0 ≤ sdiv x y := by
  rw [sdiv]
  split
  · exact le_rfl
  · exact wrap_nonneg _

/-- So does the signed remainder. -/
theorem smod_nonneg (x y : Word) : 0 ≤ smod x y := by
  rw [smod]
  split
  · exact le_rfl
  · exact wrap_nonneg _

/-- By the recursion of repeated squaring. -/
theorem pow_nonneg (base : Int) (n : Nat) : 0 ≤ pow base n := by
  -- one, the value for half the exponent, or something that is wrapped
  fun_induction pow base n with
  | case1 => exact Int.one_nonneg
  | case2 base n _ half _ ih => exact ih
  | case3 base n _ half _ _ => exact wrap_nonneg _

theorem exp_nonneg (x y : Word) : 0 ≤ exp x y := by
  rw [exp]
  split
  · exact pow_nonneg _ _
  · exact pow_nonneg _ _

/-- Sign extension fills with ones within the word, or cuts off. -/
theorem signExtend_nonneg (x : Word) (hy : 0 ≤ y) : 0 ≤ signExtend x y := by
  rw [signExtend]
  split
  · next hx =>
    dsimp only
    split
    · -- the sign bit lies within the word
      have hbit (k : Int) (hk : k < 31) : (k * 8 + 7).toNat ≤ 256 := by omega
      have hlow : twoPow (x * 8 + 7).toNat ≤ modulus := twoPow_le (hbit x hx)
      exact or_nonneg hy (sub_nonneg.mpr hlow)
    · exact Int.emod_nonneg y (twoPow_pos _).ne'
  · exact hy

theorem shiftRight_nonneg (hx : 0 ≤ x) (n : Nat) : 0 ≤ Int.shiftRight x n := by
  obtain ⟨m, rfl⟩ := Int.eq_ofNat_of_zero_le hx
  exact Int.natCast_nonneg (m >>> n)

theorem byte_nonneg (x y : Word) : 0 ≤ byte x y := by
  rw [byte]
  split
  · exact Int.emod_nonneg _ (by decide)
  · exact le_rfl

theorem shl_nonneg (x y : Word) : 0 ≤ shl x y := by
  rw [shl]
  split
  · exact wrap_nonneg _
  · exact le_rfl

theorem shr_nonneg (x : Word) (hy : 0 ≤ y) : 0 ≤ shr x y := by
  rw [shr]
  split
  · exact shiftRight_nonneg hy _
  · exact le_rfl

/-- An arithmetic shift ends in all zeros, in all ones, or is wrapped. -/
theorem sar_nonneg (x y : Word) : 0 ≤ sar x y := by
  unfold sar
  extract_lets s
  split
  · split
    · exact le_rfl
    · exact Int.le_sub_one_of_lt (twoPow_pos 256)
  · exact wrap_nonneg _

end Word

theorem Unary.eval_nonneg (op : Unary) {x : Word} (hx : 0 ≤ x) : 0 ≤ op.eval x := by
  cases op with
  | isZero => exact Word.ofBool_nonneg _
  | not => exact Word.not_nonneg hx

/-- **The value of an operation on two words.** -/
theorem Binary.eval_nonneg (op : Binary) {x y : Word} (hx : 0 ≤ x) (hy : 0 ≤ y) :
    -- most of them wrap or compare, and the others need what is known of the operands
    0 ≤ op.eval x y := by
  cases op with
  | add | mul | sub => exact Word.wrap_nonneg _
  | div => exact Word.div_nonneg hx hy
  | sdiv => exact Word.sdiv_nonneg x y
  | mod => exact Word.mod_nonneg x hy
  | smod => exact Word.smod_nonneg x y
  | exp => exact Word.exp_nonneg x y
  | signExtend => exact Word.signExtend_nonneg x hy
  | lt | gt | slt | sgt | eq => exact Word.ofBool_nonneg _
  | and => exact Word.and_nonneg hx hy
  | or => exact Word.or_nonneg hx hy
  | xor => exact Word.xor_nonneg hx hy
  | byte => exact Word.byte_nonneg x y
  | shl => exact Word.shl_nonneg x y
  | shr => exact Word.shr_nonneg x hy
  | sar => exact Word.sar_nonneg x y

/-- The value of an operation on three words, the last of which is the modulus. -/
theorem Ternary.eval_nonneg (op : Ternary) (x y : Word) {z : Word} (hz : 0 ≤ z) :
    0 ≤ op.eval x y z := by
  cases op with
  | addMod => exact Word.mod_nonneg _ hz
  | mulMod => exact Word.mod_nonneg _ hz

theorem Bytes.toWord_nonneg (b : ByteArray) : 0 ≤ Bytes.toWord b := Int.natCast_nonneg _

theorem Address.toWord_nonneg (a : Address) : 0 ≤ a.toWord := Int.natCast_nonneg _

/-- A block hash, which is zero where there is none. -/
theorem Block.hash_nonneg (b : Block) (number : Word) : 0 ≤ b.hash number := by
  unfold hash
  extract_lets oldest
  split
  · split
    · exact Bytes.toWord_nonneg _
    · exact le_rfl
  · exact le_rfl

/-! ### Accounts -/

/-- What is read from storage after a slot was written. -/
theorem Storage.read_write (s : Storage) (key value key' : Word) :
    (s.write key value).read key' = if key = key' then value else s.read key' := by
  unfold read write
  -- a slot that is set to zero is removed
  by_cases hvalue : value = 0
  · rw [if_pos hvalue, Std.ExtTreeMap.getElem?_erase]
    simp only [Std.compare_eq_iff_eq]
    split
    · exact hvalue.symm
    · rfl
  · rw [if_neg hvalue, Std.ExtTreeMap.getElem?_insert]
    simp only [Std.compare_eq_iff_eq]
    split
    · rfl
    · rfl

/-- Neither the balance nor any word in storage is negative. -/
structure Account.NonNegative (account : Account) : Prop where
  balance : 0 ≤ account.balance
  storage : ∀ key, 0 ≤ account.storage.read key

/-- No negative number comes into an account, as long as none is stored. -/
theorem Account.NonNegative.allows : Account.Allows (Carries Account.NonNegative) (0 ≤ ·) where
  balance _ _ hx h := ⟨hx, h.storage⟩
  nonce _ h := ⟨h.balance, h.storage⟩
  storage account key value hvalue h := by
    refine ⟨h.balance, fun key' => ?_⟩
    rw [Storage.read_write]
    split
    · exact hvalue
    · exact h.storage key'
  -- a fresh contract has no storage
  fresh _ _ h := ⟨h.balance, fun _ => le_rfl⟩

/-- No balance and no word in storage is negative. -/
structure View.NonNegative (v : View) : Prop where
  solvent : v.Solvent
  storage : ∀ a key, 0 ≤ (v.get a).storage.read key

/-- Work between two views that brings no negative number in. -/
def View.Preserves (v v' : View) : Prop := v.NonNegative → v'.NonNegative

namespace View

instance : Std.Refl Preserves := ⟨fun _ => id⟩

instance : IsTrans View Preserves := ⟨fun _ _ _ h h' hv => h' (h hv)⟩

/-- To be solvent is a matter of what is found at each address. -/
theorem solvent_of_get {v : View} (h : ∀ a, 0 ≤ (v.get a).balance) : v.Solvent := by
  intro a account haccount
  have hbalance := h a
  rw [View.get, haccount] at hbalance
  exact hbalance

/-- What brings no negative number into any account brings none in at all. -/
theorem Preserves.of_accountWise {v v' : View}
    (h : AccountWise (Carries Account.NonNegative) v v') :
    Preserves v v' := by
  intro hv
  have hv' (a : Address) : (v'.get a).NonNegative := h a ⟨hv.solvent.get a, hv.storage a⟩
  exact ⟨solvent_of_get fun a => (hv' a).balance, fun a => (hv' a).storage⟩

/-- **No negative number comes into the accounts**, as long as there is none on the stack. -/
theorem Preserves.respects {f : Frame} (hstack : f.mode = .running → ∀ w ∈ f.stack, 0 ≤ w)
    (v : View) :
    f.Respects Preserves v := by
  -- deploying sets the code, which is no number
  have hdeploy : Carries Account.NonNegative (v.get f.message.self)
      { v.get f.message.self with code := f.output } := fun h => ⟨h.balance, h.storage⟩
  exact (Account.NonNegative.allows.frame hstack fun _ _ _ => hdeploy).mono .of_accountWise

end View

/-! ### Stacks and frames -/

namespace Stack

variable {stack stack' rest : Stack} {n : Nat} {w x y z : Word} {P : Word → Prop}

theorem forall_of_cons (h : ∀ w ∈ stack, P w) (hstack : stack = x :: rest) :
    P x ∧ ∀ w ∈ rest, P w := by
  rw [hstack] at h
  exact List.forall_mem_cons.mp h

theorem forall_of_cons_cons (h : ∀ w ∈ stack, P w) (hstack : stack = x :: y :: rest) :
    P x ∧ P y ∧ ∀ w ∈ rest, P w := by
  obtain ⟨hx, hrest⟩ := forall_of_cons h hstack
  exact ⟨hx, List.forall_mem_cons.mp hrest⟩

/-- What holds on a stack holds of its first three words and of the rest. -/
theorem forall_of_cons_cons_cons (h : ∀ w ∈ stack, P w) (hstack : stack = x :: y :: z :: rest) :
    P x ∧ P y ∧ P z ∧ ∀ w ∈ rest, P w := by
  obtain ⟨hx, hy, hrest⟩ := forall_of_cons_cons h hstack
  exact ⟨hx, hy, List.forall_mem_cons.mp hrest⟩

/-- A word that is found on the stack is on it. -/
theorem mem_of_back (h : stack.back n = .ok w) : w ∈ stack := by
  rw [back] at h
  split at h
  · next hn =>
    cases h
    exact List.mem_of_getElem? hn
  · cases h

/-- To copy a word brings no other one in. -/
theorem mem_of_mem_dup (h : stack.dup n = .ok stack') (hw : w ∈ stack') : w ∈ stack := by
  rw [dup] at h
  split at h
  · next hn =>
    cases h
    -- the new top is the word that was copied
    rcases List.mem_cons.mp hw with rfl | hw
    · exact List.mem_of_getElem? hn
    · exact hw
  · cases h

/-- To swap two words brings no other one in. -/
theorem mem_of_mem_swap (h : stack.swap n = .ok stack') (hw : w ∈ stack') : w ∈ stack := by
  rw [swap] at h
  split at h
  · next top v htop hv =>
    cases h
    -- the two places that change hold words of the stack
    rcases List.mem_or_eq_of_mem_set hw with hw | rfl
    · rcases List.mem_or_eq_of_mem_set hw with hw | rfl
      · exact hw
      · exact List.mem_of_getElem? hv
    · exact List.mem_of_getElem? htop
  · cases h

/-- To discard words brings none in. -/
theorem mem_of_mem_discard (hw : w ∈ stack.discard n) : w ∈ stack := List.mem_of_mem_drop hw

end Stack

/-- Nothing that a transaction runs under is negative. In particular no contract that is built into
the machine has a negative price. -/
structure Context.NonNegative (ctx : Context) : Prop where
  gasPrice : 0 ≤ ctx.gasPrice
  gasLimit : 0 ≤ ctx.block.gasLimit
  number : 0 ≤ ctx.block.number
  time : 0 ≤ ctx.block.time
  difficulty : 0 ≤ ctx.block.difficulty
  baseFee : 0 ≤ ctx.block.baseFee
  chainId : 0 ≤ ctx.block.chainId
  cost : ∀ {a : Address} {precompile : Precompile} {input output : ByteArray} {gas cost : Int},
    ctx.precompiles[a]? = some precompile → precompile input gas = .ok (output, cost) → 0 ≤ cost

/-- The context without a block, a price or contracts that are built in. -/
theorem Context.nonNegative_default : ({} : Context).NonNegative := by
  refine ⟨le_rfl, by decide, le_rfl, le_rfl, le_rfl, le_rfl, by decide, fun h => ?_⟩
  rw [Std.ExtTreeMap.getElem?_empty] at h
  cases h

/-- No number that a frame holds is negative. -/
structure Frame.NonNegative (f : Frame) : Prop where
  gas : 0 ≤ f.gas
  value : 0 ≤ f.message.value
  pc : 0 ≤ f.pc
  stack : ∀ w ∈ f.stack, 0 ≤ w
  call : ∀ r, f.mode = .awaitingCall (some r) → 0 ≤ r.gas ∧ 0 ≤ r.value
  create : ∀ r, f.mode = .awaitingCreate (some r) → 0 ≤ r.value

namespace Frame.NonNegative

variable {f : Frame} {stack rest : Stack} {w : Word}

theorem next (h : f.NonNegative) (hstack : ∀ w ∈ stack, 0 ≤ w) : (f.next stack).NonNegative :=
  ⟨h.gas, h.value, Int.add_nonneg h.pc Int.one_nonneg, hstack, h.call, h.create⟩

/-- The next instruction, with a word on top of what is left of the stack. -/
theorem next_cons (h : f.NonNegative) (hw : 0 ≤ w) (hrest : ∀ w ∈ rest, 0 ≤ w) :
    (f.next (w :: rest)).NonNegative :=
  h.next (List.forall_mem_cons.mpr ⟨hw, hrest⟩)

theorem withMemory (h : f.NonNegative) (memory : Memory) : { f with memory : Frame }.NonNegative :=
  ⟨h.gas, h.value, h.pc, h.stack, h.call, h.create⟩

/-- A frame that has ended and holds no request. -/
theorem exited (h : f.NonNegative) (hstack : ∀ w ∈ stack, 0 ≤ w) (output : ByteArray)
    (exit : Exit) :
    { f with stack, output, mode := .exited exit : Frame }.NonNegative where
  gas := h.gas
  value := h.value
  pc := h.pc
  stack := hstack
  call r hr := by cases hr
  create r hr := by cases hr

end Frame.NonNegative

/-- What is learnt of an account is not negative. -/
theorem View.query_nonneg {v : View} (hv : v.NonNegative) (a : Address) (query : AccountQuery) :
    0 ≤ v.query a query := by
  cases query with
  | balance => exact hv.solvent.get a
  | codeSize => exact Int.natCast_nonneg _
  | codeHash =>
    rw [View.query]
    split
    · exact le_rfl
    · exact Bytes.toWord_nonneg _

/-- What is learnt of the environment is not negative. -/
theorem Step.environment_nonneg {ctx : Context} (hctx : ctx.NonNegative) {f : Frame}
    (hf : f.NonNegative) (item : Environment) : 0 ≤ environment ctx f item := by
  cases item with
  -- what is an address or a size, and then what the frame and the context hold
  | address | origin | caller | coinbase => exact Address.toWord_nonneg _
  | callDataSize | codeSize | returnDataSize | memorySize => exact Int.natCast_nonneg _
  | callValue => exact hf.value
  | gasPrice => exact hctx.gasPrice
  | timestamp => exact hctx.time
  | number => exact hctx.number
  | difficulty => exact hctx.difficulty
  | gasLimit => exact hctx.gasLimit
  | chainId => exact hctx.chainId
  | baseFee => exact hctx.baseFee
  | pc => exact hf.pc
  | gas => exact hf.gas

/-! ### Instructions -/

/-- What a call requests is not negative. -/
theorem Frame.NonNegative.of_callRequest {kind : CallKind} {f : Frame} {forwarded : Int}
    {r : CallRequest} (hf : f.NonNegative) (hforwarded : 0 ≤ forwarded)
    (h : Step.callRequest kind f forwarded = .ok r) : 0 ≤ r.gas ∧ 0 ≤ r.value := by
  obtain ⟨-, -, -, -, ⟨-, hvalue, hgas, -⟩ | ⟨-, hvalue, hgas, -⟩⟩ := Step.callRequest_cases h
  · -- the value is on the stack, and the gas may have a stipend added
    refine ⟨?_, hf.stack _ (Stack.mem_of_back hvalue)⟩
    rw [hgas]
    split
    · exact Int.add_nonneg hforwarded (by decide)
    · exact hforwarded
  · -- the value is none, or that of the frame itself
    refine ⟨hgas ▸ hforwarded, ?_⟩
    rw [hvalue]
    split
    · exact le_rfl
    · exact hf.value

/-- **Instructions bring no negative number in.** -/
theorem Executes.nonNegative {ctx : Context} {forwarded : Int} {op : Opcode} {f f' : Frame}
    {s s' : State} (h : Executes ctx forwarded op f s f' s') (hctx : ctx.NonNegative)
    (hview : s.view.NonNegative) (hf : f.NonNegative) (hforwarded : 0 ≤ forwarded) :
    f'.NonNegative := by
  cases h with
  -- arithmetic
  | unary hstack =>
    obtain ⟨hx, hrest⟩ := Stack.forall_of_cons hf.stack hstack
    exact hf.next_cons (Unary.eval_nonneg _ hx) hrest
  | binary hstack _ =>
    obtain ⟨hx, hy, hrest⟩ := Stack.forall_of_cons_cons hf.stack hstack
    exact hf.next_cons (Binary.eval_nonneg _ hx hy) hrest
  | ternary hstack =>
    obtain ⟨-, -, hz, hrest⟩ := Stack.forall_of_cons_cons_cons hf.stack hstack
    exact hf.next_cons (Ternary.eval_nonneg _ _ _ hz) hrest
  -- bytes, read as a word
  | keccak hstack =>
    exact hf.next_cons (Bytes.toWord_nonneg _) (Stack.forall_of_cons_cons hf.stack hstack).2.2
  | callDataLoad hstack =>
    exact hf.next_cons (Bytes.toWord_nonneg _) (Stack.forall_of_cons hf.stack hstack).2
  | memoryLoad hstack =>
    exact hf.next_cons (Bytes.toWord_nonneg _) (Stack.forall_of_cons hf.stack hstack).2
  | push =>
    exact ⟨hf.gas, hf.value, Int.add_nonneg (Int.add_nonneg hf.pc Int.one_nonneg)
      (Int.natCast_nonneg _), List.forall_mem_cons.mpr ⟨Bytes.toWord_nonneg _, hf.stack⟩,
      hf.call, hf.create⟩
  -- what the context and the accounts hold
  | environment => exact hf.next_cons (Step.environment_nonneg hctx hf _) hf.stack
  | blockHash hstack =>
    exact hf.next_cons (Block.hash_nonneg _ _) (Stack.forall_of_cons hf.stack hstack).2
  | account hstack _ =>
    exact hf.next_cons (View.query_nonneg hview _ _) (Stack.forall_of_cons hf.stack hstack).2
  | selfBalance _ => exact hf.next_cons (hview.solvent.get _) hf.stack
  | storageLoad hstack _ =>
    exact hf.next_cons (hview.storage _ _) (Stack.forall_of_cons hf.stack hstack).2
  -- words that were on the stack before
  | pop hstack => exact hf.next (Stack.forall_of_cons hf.stack hstack).2
  | dup hstack => exact hf.next fun w hw => hf.stack w (Stack.mem_of_mem_dup hstack hw)
  | swap hstack => exact hf.next fun w hw => hf.stack w (Stack.mem_of_mem_swap hstack hw)
  | jumpDest => exact hf.next hf.stack
  | jumpIfSkipped hstack => exact hf.next (Stack.forall_of_cons_cons hf.stack hstack).2.2
  | storageStore hstack _ _ => exact hf.next (Stack.forall_of_cons_cons hf.stack hstack).2.2
  | log hstack _ _ _ _ =>
    exact hf.next fun w hw =>
      (Stack.forall_of_cons_cons hf.stack hstack).2.2 w (List.mem_append_right _ hw)
  | copy hstack _ _ =>
    exact (hf.next (Stack.forall_of_cons_cons_cons hf.stack hstack).2.2.2).withMemory _
  | copyReturnData hstack _ =>
    exact (hf.next (Stack.forall_of_cons_cons_cons hf.stack hstack).2.2.2).withMemory _
  | accountCodeCopy hstack _ _ =>
    obtain ⟨-, -, -, hrest⟩ := Stack.forall_of_cons_cons_cons hf.stack hstack
    exact (hf.next (List.forall_mem_cons.mp hrest).2).withMemory _
  | memoryStore hstack _ =>
    exact (hf.next (Stack.forall_of_cons_cons hf.stack hstack).2.2).withMemory _
  | memoryStoreByte hstack _ =>
    exact (hf.next (Stack.forall_of_cons_cons hf.stack hstack).2.2).withMemory _
  -- a jump goes to a word of the stack
  | jump hstack _ =>
    obtain ⟨hdest, hrest⟩ := Stack.forall_of_cons hf.stack hstack
    exact ⟨hf.gas, hf.value, hdest, hrest, hf.call, hf.create⟩
  | jumpIfTaken hstack _ _ =>
    obtain ⟨hdest, -, hrest⟩ := Stack.forall_of_cons_cons hf.stack hstack
    exact ⟨hf.gas, hf.value, hdest, hrest, hf.call, hf.create⟩
  -- requests
  | create hstack _ =>
    obtain ⟨hvalue, -, -, hrest⟩ := Stack.forall_of_cons_cons_cons hf.stack hstack
    refine ⟨hf.gas, hf.value, hf.pc, fun w hw => hrest w (List.mem_append_right _ hw), ?_, ?_⟩
    · intro r hr
      cases hr
    · intro r hr
      cases hr
      exact hvalue
  | call hrequest =>
    refine ⟨hf.gas, hf.value, hf.pc, fun w hw => hf.stack w (Stack.mem_of_mem_discard hw), ?_, ?_⟩
    · intro r hr
      cases hr
      exact hf.of_callRequest hforwarded hrequest
    · intro r hr
      cases hr
  -- the end of the frame
  | stop => exact hf.exited hf.stack _ _
  | «return» hstack => exact hf.exited (Stack.forall_of_cons_cons hf.stack hstack).2.2 _ _
  | revert hstack => exact hf.exited (Stack.forall_of_cons_cons hf.stack hstack).2.2 _ _
  | selfDestruct hstack _ _ => exact hf.exited (Stack.forall_of_cons hf.stack hstack).2 _ _

end EvmCore
