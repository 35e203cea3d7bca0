import EvmCore.Proofs.Assembly
import EvmCore.Proofs.Mirror
import Mathlib

/-!
# The parts of a step

A step is put together from a few parts: taking and leaving words on the stack, reading and writing
memory, asking the state. For each of them there is one fact about how it ends with a value, as an
equation for what it leaves behind, so that a successful instruction can be read off from the front.

A part can also stop the step with a failure of the frame. Most parts never do (`NeverFails`); what
they report is a fault, which ends everything.
-/

namespace EvmCore

/-! ### Changing memory -/

namespace Bytes

/-- A number is written in as many bytes as were asked for. -/
theorem size_ofNat (n k : Nat) : (ofNat n k).size = n := by
  induction n generalizing k with
  | zero => rfl
  | succ n ih => rw [ofNat, ByteArray.size_push, ih]

/-- A word is written in 32 bytes. -/
theorem size_of_ofWord? {w : Word} {bytes : ByteArray} (h : ofWord? w = some bytes) :
    bytes.size = 32 := by
  rw [ofWord?] at h
  split at h
  · rw [← Option.some.inj h]
    exact size_ofNat 32 _
  · cases h

/-- Any size up to the bound can be made. -/
theorem checkedSize_of_le {size : Int} (hnonneg : 0 ≤ size) (hle : size ≤ storableSize) :
    checkedSize size = .ok size.toNat := by
  -- what can be stored can be addressed as well
  have hstorable : storableSize ≤ addressableSize := by decide
  rw [checkedSize, if_neg (not_lt.mpr hnonneg), if_neg (not_lt.mpr (hle.trans hstorable)),
    if_neg (not_lt.mpr hle)]

end Bytes

namespace Memory

variable {m m' : Memory} {offset size : Int} {data : ByteArray}

/-- Bytes are written where they were allowed to be. -/
theorem write_ok_iff : m.write offset data = .ok m' ↔
    m.checkWrite offset data.size = .ok () ∧ m' = m.overwrite offset data := by
  rw [write]
  cases m.checkWrite offset data.size with
  | ok u => exact ⟨fun h => ⟨rfl, (Except.ok.inj h).symm⟩, fun h => congrArg Except.ok h.2.symm⟩
  | error e => exact ⟨nofun, nofun⟩

/-- A word is written like any other 32 bytes. -/
theorem writeWord_eq_write (h : data.size = 32) :
    -- 32 bytes are some bytes, so there is something to overwrite
    m.writeWord offset data = m.write offset data := by
  rw [writeWord, write, overwrite, h, if_neg (by decide)]
  rfl

/-- Memory becomes as large as was asked for. -/
theorem eq_grow_of_resize (h : m.resize size = .ok m') : m' = m.grow size.toNat := by
  -- only the size of what is added is checked
  rw [resize] at h
  cases hsize : Bytes.checkedSize (max 0 (size - m.size)) with
  | ok n =>
    rw [hsize] at h
    exact (Except.ok.inj h).symm
  | error e =>
    rw [hsize] at h
    cases h

/-- There is room for any memory that can be paid for. -/
theorem resize_of_le (h : size ≤ Gas.maxMemorySize) : m.resize size = .ok (m.grow size.toNat) := by
  have hmax : Gas.maxMemorySize ≤ Bytes.storableSize := by decide
  have hsize : Bytes.checkedSize (max 0 (size - m.size)) = .ok (max 0 (size - m.size)).toNat :=
    Bytes.checkedSize_of_le (le_max_left _ _) (max_le (by decide) (by omega))
  rw [resize, hsize]
  rfl

end Memory

namespace Step

section Ok

variable {f : Frame} {s : State} {a' : Activation} {α : Type}

/-! ### Lifted computations -/

/-- A computation on the state leaves the frame alone, and its errors are faults. -/
theorem liftAction_apply (x : Action α) (f : Frame) (s : State) :
    (liftM x : StepM α) ⟨f, s⟩ = mapResult Stop.fault (Activation.mk f) (x s) := by
  simp only [liftM, monadLift, MonadLift.monadLift]
  cases x s with
  | ok a s' => rfl
  | error e s' => rfl

theorem liftAction_ok_iff {x : Action α} {r : α} :
    (liftM x : StepM α) ⟨f, s⟩ = .ok r a' ↔ ∃ s', x s = .ok r s' ∧ a' = ⟨f, s'⟩ := by
  rw [liftAction_apply]
  exact mapResult_ok_iff

/-- A value that was computed apart leaves everything as it was. -/
theorem liftExcept_ok_iff {x : Except Fault α} {a : Activation} {r : α} :
    (liftM x : StepM α) a = .ok r a' ↔ x = .ok r ∧ a' = a := by
  cases x with
  | ok b =>
    change (pure b : StepM α) a = _ ↔ _
    rw [pure_ok_iff, Except.ok.injEq, eq_comm (a := a)]
  | error e =>
    change (throw (Stop.fault e) : StepM α) a = _ ↔ _
    refine ⟨fun h => absurd h throw_ne_ok, ?_⟩
    rintro ⟨h, -⟩
    cases h

/-! ### The frame -/

theorem getFrame_bind {g : Frame → StepM α} : (getFrame >>= g) ⟨f, s⟩ = g f ⟨f, s⟩ := rfl

theorem getFrame_ok {f₁ : Frame} (h : getFrame ⟨f, s⟩ = .ok f₁ a') : f₁ = f ∧ a' = ⟨f, s⟩ := by
  obtain ⟨rfl, rfl⟩ := EStateM.Result.ok.inj h
  exact ⟨rfl, rfl⟩

theorem modifyFrame_ok_iff {g : Frame → Frame} {u : Unit} :
    modifyFrame g ⟨f, s⟩ = .ok u a' ↔ a' = ⟨g f, s⟩ := by
  change EStateM.Result.ok () _ = _ ↔ _
  rw [EStateM.Result.ok.injEq, eq_comm (b := a')]
  simp

/-- To advance is to count the program counter up. -/
theorem advance_ok_iff {u : Unit} :
    advance ⟨f, s⟩ = .ok u a' ↔ a' = ⟨{ f with pc := f.pc + 1 }, s⟩ :=
  modifyFrame_ok_iff

theorem setMode_ok_iff {mode : Mode} {u : Unit} :
    setMode mode ⟨f, s⟩ = .ok u a' ↔ a' = ⟨{ f with mode }, s⟩ :=
  modifyFrame_ok_iff

/-- Gas that is there is taken off. -/
theorem useGas_of_le {gas : Int} (h : gas ≤ f.gas) :
    useGas gas ⟨f, s⟩ = .ok () ⟨{ f with gas := f.gas - gas }, s⟩ := by
  rw [useGas_eq, getFrame_bind, if_neg (not_lt.mpr h)]
  rfl

/-- Gas that is not there ends the frame, and none is taken off. -/
theorem useGas_of_lt {gas : Int} (h : f.gas < gas) :
    useGas gas ⟨f, s⟩ = .error (.failure .outOfGas) ⟨f, s⟩ := by
  rw [useGas_eq, getFrame_bind, if_pos h]
  rfl

/-- Using gas succeeds exactly if there is enough. -/
theorem useGas_ok_iff {gas : Int} {u : Unit} : useGas gas ⟨f, s⟩ = .ok u a' ↔
    gas ≤ f.gas ∧ a' = ⟨{ f with gas := f.gas - gas }, s⟩ := by
  by_cases h : gas ≤ f.gas
  · rw [useGas_of_le h, EStateM.Result.ok.injEq, eq_comm (b := a')]
    simp [h]
  · rw [useGas_of_lt (not_le.mp h)]
    simp [h]

/-! ### The stack -/

/-- Taking a word off the stack, which must hold one. -/
theorem pop_ok {v : Word} (h : pop ⟨f, s⟩ = .ok v a') :
    ∃ rest, f.stack = v :: rest ∧ a' = ⟨{ f with stack := rest }, s⟩ := by
  rw [pop, getFrame_bind] at h
  obtain ⟨⟨w, rest⟩, a₁, hpop, h⟩ := bind_ok_iff.mp h
  obtain ⟨hstack, rfl⟩ := liftExcept_ok_iff.mp hpop
  obtain ⟨rfl, rfl⟩ := EStateM.Result.ok.inj h
  refine ⟨rest, ?_, rfl⟩
  -- an empty stack would have been a fault
  cases hs : f.stack with
  | nil =>
    rw [hs] at hstack
    cases hstack
  | cons x xs =>
    rw [hs] at hstack
    cases hstack
    rfl

/-- Looking at the topmost word takes nothing off. -/
theorem peek_ok {v : Word} (h : peek ⟨f, s⟩ = .ok v a') :
    (∃ rest, f.stack = v :: rest) ∧ a' = ⟨f, s⟩ := by
  rw [peek, getFrame_bind] at h
  obtain ⟨hstack, rfl⟩ := liftExcept_ok_iff.mp h
  refine ⟨?_, rfl⟩
  cases hs : f.stack with
  | nil =>
    rw [hs] at hstack
    cases hstack
  | cons x xs =>
    rw [hs] at hstack
    cases hstack
    exact ⟨xs, rfl⟩

/-- Replacing the topmost word. -/
theorem poke_ok {v : Word} {u : Unit} (h : poke v ⟨f, s⟩ = .ok u a') :
    ∃ top rest, f.stack = top :: rest ∧ a' = ⟨{ f with stack := v :: rest }, s⟩ := by
  rw [poke, getFrame_bind] at h
  obtain ⟨stack, a₁, hpoke, h⟩ := bind_ok_iff.mp h
  obtain ⟨hstack, rfl⟩ := liftExcept_ok_iff.mp hpoke
  rw [setStack, modifyFrame_ok_iff] at h
  cases hs : f.stack with
  | nil =>
    rw [hs] at hstack
    cases hstack
  | cons x xs =>
    rw [hs] at hstack
    cases hstack
    exact ⟨x, xs, rfl, h⟩

/-- Taking a word off the stack as its 32 bytes. -/
theorem popBytes_ok {b : ByteArray} (h : popBytes ⟨f, s⟩ = .ok b a') :
    ∃ v rest, f.stack = v :: rest ∧ Bytes.ofWord? v = some b ∧
      a' = ⟨{ f with stack := rest }, s⟩ := by
  obtain ⟨v, a₁, hpop, h⟩ := bind_ok_iff.mp h
  obtain ⟨rest, hstack, rfl⟩ := pop_ok hpop
  -- a word that is out of range has no bytes
  cases hb : Bytes.ofWord? v with
  | none =>
    rw [hb] at h
    cases h
  | some b' =>
    rw [hb] at h
    obtain ⟨rfl, rfl⟩ := pure_ok_iff.mp h
    exact ⟨v, rest, hstack, hb, rfl⟩

/-- The topics come off the stack one by one, and nothing else changes. -/
theorem popTopics_ok {n : Nat} {topics : List ByteArray}
    (h : popTopics n ⟨f, s⟩ = .ok topics a') :
    ∃ words rest, f.stack = words ++ rest ∧ words.length = n ∧
      words.map Bytes.ofWord? = topics.map some ∧ a' = ⟨{ f with stack := rest }, s⟩ := by
  -- by the number of topics, the first of them being the topmost word
  induction n generalizing f topics a' with
  | zero =>
    obtain ⟨rfl, rfl⟩ := pure_ok_iff.mp h
    exact ⟨[], f.stack, rfl, rfl, rfl, rfl⟩
  | succ n ih =>
    obtain ⟨topic, a₁, hpop, h⟩ := bind_ok_iff.mp h
    obtain ⟨v, rest₁, hstack, hv, rfl⟩ := popBytes_ok hpop
    obtain ⟨more, a₂, hmore, h⟩ := bind_ok_iff.mp h
    obtain ⟨words, rest, hrest, hlength, hwords, rfl⟩ := ih hmore
    obtain ⟨rfl, rfl⟩ := pure_ok_iff.mp h
    refine ⟨v :: words, rest, ?_, ?_, ?_, rfl⟩
    · rw [hstack, List.cons_append, ← hrest]
    · rw [List.length_cons, hlength]
    · rw [List.map_cons, List.map_cons, hv, hwords]

/-! ### Memory -/

/-- A change of memory that can be made. -/
theorem modifyMemory_of_ok {g : Memory → Except Fault Memory} {m : Memory}
    (h : g f.memory = .ok m) :
    modifyMemory g ⟨f, s⟩ = .ok () ⟨{ f with memory := m }, s⟩ := by
  rw [modifyMemory, h]

/-- A change of memory that cannot be made is a fault. -/
theorem modifyMemory_of_error {g : Memory → Except Fault Memory} {e : Fault}
    (h : g f.memory = .error e) :
    modifyMemory g ⟨f, s⟩ = .error (.fault e) ⟨f, s⟩ := by
  rw [modifyMemory, h]

/-- What a change of memory leaves, if it succeeds. -/
theorem modifyMemory_ok {g : Memory → Except Fault Memory} {u : Unit}
    (h : modifyMemory g ⟨f, s⟩ = .ok u a') :
    ∃ m, g f.memory = .ok m ∧ a' = ⟨{ f with memory := m }, s⟩ := by
  rw [modifyMemory_eq, getFrame_bind] at h
  obtain ⟨m, a₁, hlift, h⟩ := bind_ok_iff.mp h
  obtain ⟨hm, rfl⟩ := liftExcept_ok_iff.mp hlift
  exact ⟨m, hm, modifyFrame_ok_iff.mp h⟩

/-- What writing to memory leaves, if it succeeds. -/
theorem writeMemory_ok {offset : Int} {data : ByteArray} {u : Unit}
    (h : writeMemory offset data ⟨f, s⟩ = .ok u a') :
    a' = ⟨{ f with memory := f.memory.overwrite offset data }, s⟩ := by
  obtain ⟨m, hm, rfl⟩ := modifyMemory_ok h
  rw [(Memory.write_ok_iff.mp hm).2]

/-! ### A part and what follows it

The same facts with the rest of the instruction attached: each takes one part off the front and
leaves the rest running from what the part left behind. -/

section Front

variable {r : α}

theorem pop_bind_ok {g : Word → StepM α} (h : (pop >>= g) ⟨f, s⟩ = .ok r a') :
    ∃ v rest, f.stack = v :: rest ∧ g v ⟨{ f with stack := rest }, s⟩ = .ok r a' := by
  obtain ⟨v, a₁, hpop, h⟩ := bind_ok_iff.mp h
  obtain ⟨rest, hstack, rfl⟩ := pop_ok hpop
  exact ⟨v, rest, hstack, h⟩

theorem peek_bind_ok {g : Word → StepM α} (h : (peek >>= g) ⟨f, s⟩ = .ok r a') :
    ∃ v rest, f.stack = v :: rest ∧ g v ⟨f, s⟩ = .ok r a' := by
  obtain ⟨v, a₁, hpeek, h⟩ := bind_ok_iff.mp h
  obtain ⟨⟨rest, hstack⟩, rfl⟩ := peek_ok hpeek
  exact ⟨v, rest, hstack, h⟩

theorem readMemory_bind {offset size : Int} {g : ByteArray → StepM α} :
    (readMemory offset size >>= g) ⟨f, s⟩ = g (f.memory.read offset size) ⟨f, s⟩ := rfl

theorem modifyFrame_bind {k : Frame → Frame} {g : Unit → StepM α} :
    (modifyFrame k >>= g) ⟨f, s⟩ = g () ⟨k f, s⟩ := rfl

/-- A value is computed apart, and the rest goes on with it. -/
theorem liftExcept_bind_ok {β : Type} {x : Except Fault β} {g : β → StepM α}
    (h : ((liftM x : StepM β) >>= g) ⟨f, s⟩ = .ok r a') :
    ∃ b, x = .ok b ∧ g b ⟨f, s⟩ = .ok r a' := by
  obtain ⟨b, a₁, hlift, h⟩ := bind_ok_iff.mp h
  obtain ⟨hx, rfl⟩ := liftExcept_ok_iff.mp hlift
  exact ⟨b, hx, h⟩

/-- The state is asked or changed, and the rest goes on with the answer. -/
theorem liftAction_bind_ok {β : Type} {x : Action β} {g : β → StepM α}
    (h : ((liftM x : StepM β) >>= g) ⟨f, s⟩ = .ok r a') :
    ∃ b s', x s = .ok b s' ∧ g b ⟨f, s'⟩ = .ok r a' := by
  obtain ⟨b, a₁, hlift, h⟩ := bind_ok_iff.mp h
  obtain ⟨s', hx, rfl⟩ := liftAction_ok_iff.mp hlift
  exact ⟨b, s', hx, h⟩

end Front

end Ok

/-! ### Failing -/

/-- Whatever stops `x`, it is no failure of the frame. -/
def NeverFails {α : Type} (x : StepM α) : Prop :=
  ∀ ⦃a : Activation⦄ ⦃e : Failure⦄ ⦃a' : Activation⦄, x a ≠ .error (.failure e) a'

namespace NeverFails

variable {α β : Type}

theorem pure (v : α) : NeverFails (pure v : StepM α) := fun _ _ _ => pure_ne_error

theorem fault (e : Fault) : NeverFails (throw (.fault e) : StepM α) := by
  intro a e' a' h
  obtain ⟨h, -⟩ := throw_error_iff.mp h
  cases h

theorem bind {x : StepM α} {g : α → StepM β} (hx : NeverFails x) (hg : ∀ v, NeverFails (g v)) :
    NeverFails (x >>= g) := by
  intro a e a' h
  rcases bind_error_iff.mp h with h | ⟨v, a₁, -, h⟩
  · exact hx h
  · exact hg v h

theorem modifyFrame (g : Frame → Frame) : NeverFails (modifyFrame g) :=
  fun _ _ _ => modify_ne_error

theorem liftAction (x : Action α) : NeverFails (liftM x : StepM α) := by
  rintro ⟨f, s⟩ e a' h
  rw [liftAction_apply] at h
  obtain ⟨e', s', -, he, -⟩ := mapResult_error_iff.mp h
  cases he

theorem liftExcept (x : Except Fault α) : NeverFails (liftM x : StepM α) := by
  cases x with
  | ok v => exact pure v
  | error e => exact fault e

theorem getFrame : NeverFails getFrame := by
  intro a e a' h
  -- it is asked by reading the activation
  rcases bind_error_iff.mp h with h | ⟨_, _, _, h⟩
  · exact get_ne_error h
  · exact pure_ne_error h

/-- What is put together from such parts is one of them. -/
theorem closed : Closed fun _ x => NeverFails x where
  pure := pure
  bind := bind
  getFrame := getFrame
  modifyFrame _ := modifyFrame _
  value _ := liftExcept _
  action _ := liftAction _

end NeverFails

/-- Whenever `x` stops with a failure of the frame, `R` relates where it
started to where it stopped. -/
def Fails {α : Type} (R : Activation → Activation → Prop) (x : StepM α) : Prop :=
  ∀ ⦃a : Activation⦄ ⦃e : Failure⦄ ⦃a' : Activation⦄, x a = .error (.failure e) a' → R a a'

section Fails

variable {R : Activation → Activation → Prop} {α β : Type} {x : StepM α}

/-- What never fails may be related by anything. -/
theorem NeverFails.fails (h : NeverFails x) : Fails R x := fun _ _ _ hx => (h hx).elim

/-- To fail at once leaves everything as it was. -/
theorem Fails.fail [Std.Refl R] (e : Failure) : Fails R (fail e : StepM α) := by
  intro a e' a' h
  obtain ⟨-, rfl⟩ := throw_error_iff.mp h
  exact Std.Refl.refl a

/-- A sequence fails in its first part, or in its second after the first has succeeded. -/
theorem Fails.bind [IsTrans Activation R] {g : α → StepM β} (hx : Fails R x) (hkeeps : Keeps R x)
    (hg : ∀ v, Fails R (g v)) : Fails R (x >>= g) := by
  intro a e a' h
  rcases bind_error_iff.mp h with h | ⟨v, a₁, h₁, h⟩
  · exact hx h
  · exact IsTrans.trans a a₁ a' (hkeeps h₁) (hg v h)

theorem Fails.ite {c : Prop} [Decidable c] {y : StepM α} (hx : Fails R x) (hy : Fails R y) :
    Fails R (if c then x else y) := by
  split
  · exact hx
  · exact hy

end Fails

end Step

end EvmCore
