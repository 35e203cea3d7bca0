import EvmCore.Proofs.Budget
import EvmCore.Proofs.WordRange
import Mathlib

/-!
# The stack of frames stands for recursion

The machine keeps the frames that wait on a list and never calls itself. Its loop still does what a
recursive interpreter would: run the child to its end, then go on with the parent.

Everything rests on one equation, `Machine.iterate_above`. `m.above below` is the machine `m` with
the frames `below` waiting under all of its own, and an iteration of it is an iteration of `m`
with the same frames put back underneath. Only the iteration that would end `m` is another one:
there the outcome goes to the topmost of the frames below (`Machine.handDown`). A run of the child
above other frames is therefore the run of the child alone, step by step
(`Machine.runsAbove_iff`), and `Machine.run_above` takes a run of a child and its parent apart at
the point where the child is left.

`Evaluates` is the recursive interpreter, with a premise for the child of each call and creation. It
gives the same outcome and the same state as the loop (`evaluates_iff`).

What an outcome changes in the frame that waited for it is said by `GoesOn`, in full.
-/

namespace EvmCore

/-! ### Overwriting part of the memory -/

namespace Memory

variable {m : Memory} {offset : Int} {data : ByteArray}

/-- **Overwriting changes the bytes in range and no others.** -/
theorem getElem?_overwrite (hoffset : 0 ≤ offset) (h : m.checkWrite offset data.size = .ok ())
    (i : Nat) : (m.overwrite offset data).data[i]? =
      if offset ≤ i ∧ i < offset + data.size then data.data[(i - offset).toNat]?
        else m.data[i]? := by
  by_cases hdata : data.size = 0
  · rw [overwrite, if_pos hdata, if_neg (by omega)]
  · have hle : offset + data.size ≤ m.size := (checkWrite_ok_iff.mp h).resolve_left hdata
    obtain ⟨first, rfl⟩ := Int.eq_ofNat_of_zero_le hoffset
    rw [overwrite_eq hoffset hle hdata]
    simp only [Int.toNat_natCast, ByteArray.data_append, ByteArray.data_extract,
      Array.getElem?_append, Array.getElem?_extract, Array.size_append, Array.size_extract,
      ByteArray.size_data, Nat.zero_add, Nat.sub_zero]
    replace hle : first + data.size ≤ m.size := by omega
    rw [Nat.min_eq_left (Nat.le_of_add_right_le hle)]
    -- before, within and after what is written
    by_cases hbefore : i < first
    · rw [if_pos (by omega), if_pos hbefore, if_pos hbefore, if_neg (by omega)]
    · by_cases hwithin : i < first + data.size
      · rw [if_pos hwithin, if_neg hbefore, if_pos (by omega)]
        congr 1
        omega
      · have hoff : ¬((first : Int) ≤ i ∧ (i : Int) < first + data.size) := by omega
        rw [if_neg hwithin, if_neg hoff]
        split
        · congr 1
          omega
        · next hafter =>
          refine (Array.getElem?_eq_none ?_).symm
          rw [ByteArray.size_data]
          omega

end Memory

namespace Machine

variable {ctx : Context} {parent : Frame} {below rest : List Frame} {m m' : Machine}

/-- The machine with more frames waiting below its own. -/
def above (m : Machine) (below : List Frame) : Machine := { m with waiting := m.waiting ++ below }

/-- Hands an outcome to the frame that waits for it. -/
def handOver (o : Outcome) (parent : Frame) (rest : List Frame) (s : State) :
    EStateM.Result Fault Machine (Option Outcome) :=
  match Frame.resume o parent with
  | .ok _ parent' => .ok none ⟨parent', rest, s⟩
  | .error e parent' => .error e ⟨parent', rest, s⟩

/-- What an iteration comes to if frames wait below: they stay where they are, and an outcome goes
to the topmost of them. -/
def handDown (parent : Frame) (rest : List Frame) :
    EStateM.Result Fault Machine (Option Outcome) → EStateM.Result Fault Machine (Option Outcome)
  | .ok none m => .ok none (m.above (parent :: rest))
  | .ok (some o) m => handOver o parent rest m.state
  | .error e m => .error e (m.above (parent :: rest))

/-- As long as there is no outcome, the frames below only stay where they are. -/
theorem handDown_of_none {r : EStateM.Result Fault Machine (Option Outcome)}
    (h : ∀ o m, r ≠ .ok (some o) m) :
    handDown parent rest r = mapResult id (·.above (parent :: rest)) r := by
  cases r with
  | error e m => rfl
  | ok o? m =>
    cases o? with
    | none => rfl
    | some o => exact absurd rfl (h o m)

/-- A computation that does not look at the frames that wait. -/
def Local {α : Type} (x : EStateM Fault Machine α) : Prop :=
  ∀ (m : Machine) (below : List Frame), x (m.above below) = mapResult id (·.above below) (x m)

namespace Local

variable {α β : Type} {x : EStateM Fault Machine α}

theorem pure (a : α) : Local (Pure.pure a) := fun _ _ => rfl

/-- Two computations that do not look, one after the other. -/
theorem bind {g : α → EStateM Fault Machine β} (hx : Local x) (hg : ∀ a, Local (g a)) :
    Local (x >>= g) := by
  intro m below
  change EStateM.bind x g (m.above below) = mapResult id (·.above below) (EStateM.bind x g m)
  rw [EStateM.bind, EStateM.bind, hx m below]
  cases x m with
  | ok a m₁ => exact hg a m₁ below
  | error e m₁ => rfl

/-- Work of the top frame. -/
theorem withTop (action : EStateM Fault Activation α) : Local (withTop action) := by
  rintro ⟨top, waiting, s⟩ below
  change Machine.withTop action ⟨top, waiting ++ below, s⟩ = _
  rw [Machine.withTop, Machine.withTop]
  cases action ⟨top, s⟩ with
  | ok a a' => rfl
  | error e a' => rfl

theorem enter (start : Start) : Local (enter start) := by
  cases start with
  | frame child => exact fun _ _ => rfl
  | done o => exact withTop _

end Local

/-- Leaving the top frame, with what comes of it for the frames that wait. -/
theorem leave_eq (top : Frame) (waiting : List Frame) (s : State) :
    leave ⟨top, waiting, s⟩ =
      match Frame.leave ⟨top, s⟩, waiting with
      | .error e a, _ => .error e ⟨a.frame, waiting, a.state⟩
      | .ok o a, [] => .ok (some o) ⟨a.frame, [], a.state⟩
      | .ok o a, parent :: rest => handOver o parent rest a.state := by
  -- leaving itself looks at the top frame only
  cases hleave : Frame.leave ⟨top, s⟩ with
  | error e a =>
    change EStateM.bind (withTop Frame.leave) _ _ = _
    rw [EStateM.bind, withTop, hleave]
  | ok o a =>
    rw [leave, bind_of_ok (withTop_ok_iff.mpr ⟨a.frame, a.state, hleave, rfl⟩), get_bind]
    cases waiting with
    | nil => rfl
    | cons parent rest =>
      change EStateM.bind (withTop (liftM (Frame.resume o))) _ ⟨parent, rest, a.state⟩ =
        handOver o parent rest a.state
      rw [EStateM.bind, withTop, handOver]
      simp only [liftM, monadLift, MonadLift.monadLift]
      cases Frame.resume o parent with
      | ok _ parent' => rfl
      | error e parent' => rfl

/-- An outcome that was handed over is not handed down as well. -/
theorem handDown_handOver (o : Outcome) (f parent : Frame) (waiting rest : List Frame) (s : State) :
    handDown parent rest (handOver o f waiting s) =
      handOver o f (waiting ++ parent :: rest) s := by
  rw [handOver, handOver]
  cases Frame.resume o f with
  | ok _ f' => rfl
  | error e f' => rfl

end Machine

/-- Begins what a frame requests. -/
def Frame.begin (ctx : Context) (f : Frame) : EStateM Fault Activation Start :=
  match f.mode with
  | .awaitingCall (some r) => beginCall ctx r
  | .awaitingCreate (some r) => beginCreate r
  | _ => lackRequest

namespace Machine

variable {ctx : Context} {parent : Frame} {rest : List Frame} {m m' : Machine}

/-- A frame that runs takes a step. -/
theorem iterate_of_running (h : m.top.mode = .running) :
    iterate ctx m = (withTop (step ctx) >>= fun _ => pure none) m := by
  rw [iterate, get_bind]
  simp only [h]

/-- A frame that has ended is left. -/
theorem iterate_of_exited {exit : Exit} (h : m.top.mode = .exited exit) :
    iterate ctx m = leave m := by
  rw [iterate, get_bind]
  simp only [h]

/-- A frame that waits begins what it requests, and enters what was started. -/
theorem iterate_of_waits (hactive : m.top.Active) (hmode : m.top.mode ≠ .running) :
    iterate ctx m =
      (withTop (m.top.begin ctx) >>= fun start => enter start >>= fun _ => pure none) m := by
  rw [iterate, get_bind, Frame.begin]
  cases hm : m.top.mode with
  | running => exact absurd hm hmode
  | awaitingCall request =>
    cases request with
    | none => rfl
    | some r => rfl
  | awaitingCreate request =>
    cases request with
    | none => rfl
    | some r => rfl
  | exited exit => exact absurd hm (hactive exit)

/-- **One iteration above waiting frames.** -/
theorem iterate_above (ctx : Context) (m : Machine) (parent : Frame) (rest : List Frame) :
    iterate ctx (m.above (parent :: rest)) = handDown parent rest (iterate ctx m) := by
  by_cases hactive : m.top.Active
  · -- as long as the top frame is not left, nothing looks at the frames that wait
    have hnone : ∀ o m', iterate ctx m ≠ .ok (some o) m' := by
      intro o m' h
      obtain ⟨exit, hexit⟩ := (leaves_of_iterate h).2.mode
      exact hactive exit hexit
    rw [handDown_of_none hnone]
    by_cases hmode : m.top.mode = .running
    · rw [iterate_of_running hmode, iterate_of_running (m := m.above (parent :: rest)) hmode]
      exact ((Local.withTop (step ctx)).bind fun _ => .pure none) m _
    · rw [iterate_of_waits hactive hmode,
        iterate_of_waits (m := m.above (parent :: rest)) hactive hmode]
      exact ((Local.withTop _).bind fun start => (Local.enter start).bind fun _ => .pure none) m _
  · -- the frame that is left hands its outcome to its own parent, or to the one further below
    obtain ⟨exit, hmode⟩ := Frame.exited_of_not_active hactive
    rw [iterate_of_exited hmode, iterate_of_exited (m := m.above (parent :: rest)) hmode]
    obtain ⟨top, waiting, s⟩ := m
    change leave ⟨top, waiting ++ parent :: rest, s⟩ = _
    rw [leave_eq, leave_eq]
    cases Frame.leave ⟨top, s⟩ with
    | error e a => rfl
    | ok o a =>
      cases waiting with
      | nil => rfl
      | cons f waiting => exact (handDown_handOver o f parent waiting rest a.state).symm

/-! ### Runs above waiting frames -/

/-- The frame that is handed an outcome goes on, or there is a fault. -/
theorem handOver_ok {o : Outcome} {o? : Option Outcome} {s : State}
    (h : handOver o parent rest s = .ok o? m') :
    o? = none ∧ ∃ parent', Frame.resume o parent = .ok () parent' ∧ m' = ⟨parent', rest, s⟩ := by
  rw [handOver] at h
  cases hresume : Frame.resume o parent with
  | error e parent' =>
    rw [hresume] at h
    cases h
  | ok _ parent' =>
    rw [hresume] at h
    cases h
    exact ⟨rfl, parent', rfl, rfl⟩

/-- An iteration above waiting frames that does not end the execution: it is one of the machine
alone, or it is where the last frame of that is left. -/
theorem iterate_above_cases (h : iterate ctx (m.above (parent :: rest)) = .ok none m') :
    (∃ m₁, iterate ctx m = .ok none m₁ ∧ m' = m₁.above (parent :: rest)) ∨
    (∃ o m₁ parent', iterate ctx m = .ok (some o) m₁ ∧ Frame.resume o parent = .ok () parent' ∧
      m' = ⟨parent', rest, m₁.state⟩) := by
  rw [iterate_above] at h
  cases hiterate : iterate ctx m with
  | error e m₁ =>
    rw [hiterate] at h
    cases h
  | ok o? m₁ =>
    rw [hiterate] at h
    cases o? with
    | none =>
      cases h
      exact .inl ⟨m₁, rfl, rfl⟩
    | some o =>
      obtain ⟨-, parent', hresume, rfl⟩ := handOver_ok h
      exact .inr ⟨o, m₁, parent', rfl, hresume, rfl⟩

/-- **The course of a machine above waiting frames** is its course alone, and the
frames below stay as they are. -/
theorem runsAbove_iff : RunsAbove ctx (rest.length + 1) (m.above (parent :: rest)) m' ↔
    ∃ m₀, RunsAbove ctx 0 m m₀ ∧ m' = m₀.above (parent :: rest) := by
  -- in both directions by induction on the run
  constructor
  · intro h
    induction h with
    | refl => exact ⟨m, .refl, rfl⟩
    | tail _ hlast ih =>
      obtain ⟨m₀, hruns, rfl⟩ := ih
      obtain ⟨hiterate, hlength⟩ := hlast
      obtain ⟨m₁, hm₁, rfl⟩ | ⟨o, m₁, parent', -, -, rfl⟩ := iterate_above_cases hiterate
      · exact ⟨m₁, hruns.tail ⟨hm₁, Nat.zero_le _⟩, rfl⟩
      · -- the frame below was resumed, so that too few frames wait
        exact absurd hlength (Nat.not_succ_le_self _)
  · rintro ⟨m₀, hruns, rfl⟩
    induction hruns with
    | refl => exact .refl
    | @tail m₁ m₂ _ hlast ih =>
      refine ih.tail ⟨?_, ?_⟩
      · rw [iterate_above, hlast.1]
        rfl
      · -- the frames of `m₂` only add to the length
        change rest.length + 1 ≤ (m₂.waiting ++ parent :: rest).length
        rw [List.length_append, List.length_cons]
        omega

/-- How a run goes on, for at most `j` iterations, when a child of `parent` has ended. -/
def goOn (ctx : Context) (j : Nat) (parent : Frame) (rest : List Frame) :
    EStateM.Result Fault Machine Outcome → EStateM.Result Fault Machine Outcome
  | .ok o m =>
    match Frame.resume o parent with
    | .ok _ parent' => run ctx j ⟨parent', rest, m.state⟩
    | .error e parent' => .error e ⟨parent', rest, m.state⟩
  | .error e m => .error e (m.above (parent :: rest))

/-- **A run above waiting frames** is the run of the machine alone and then one of the parent. -/
theorem run_above {n : Nat} {r : EStateM.Result Fault Machine Outcome} (h : EndsIn ctx n m r)
    (j : Nat) :
    run ctx (n + j) (m.above (parent :: rest)) = goOn ctx j parent rest r := by
  -- by induction on the number of iterations of the machine alone
  induction h with
  | @outcome m m₁ o hiterate =>
    rw [Nat.add_comm, run, iterate_above, hiterate, goOn, handDown, handOver]
    cases Frame.resume o parent with
    | ok _ parent' => rfl
    | error e parent' => rfl
  | fault hiterate =>
    rw [Nat.add_comm, run, iterate_above, hiterate]
    rfl
  | next hiterate _ ih =>
    rw [Nat.add_right_comm, run, iterate_above, hiterate]
    exact ih

/-- A run that ends with an outcome does so after some number of iterations. -/
theorem endsIn_of_run {k : Nat} {o : Outcome} (h : run ctx k m = .ok o m') :
    ∃ n ≤ k, EndsIn ctx n m (.ok o m') := by
  -- by induction on the bound
  induction k generalizing m with
  | zero => cases h
  | succ k ih =>
    rw [run] at h
    cases hiterate : iterate ctx m with
    | error e m₁ =>
      rw [hiterate] at h
      cases h
    | ok o? m₁ =>
      rw [hiterate] at h
      cases o? with
      | some o₁ =>
        cases h
        exact ⟨1, Nat.le_add_left _ _, .outcome hiterate⟩
      | none =>
        obtain ⟨n, hn, hends⟩ := ih h
        exact ⟨n + 1, Nat.succ_le_succ hn, .next hiterate hends⟩

/-- A run above waiting frames that ends with an outcome passes the point where
the machine alone ends. -/
theorem exists_child_of_run_above {k : Nat} {o : Outcome}
    (h : run ctx k (m.above (parent :: rest)) = .ok o m') :
    ∃ n j o₁ m₁ parent', EndsIn ctx n m (.ok o₁ m₁) ∧ n + j = k ∧
      Frame.resume o₁ parent = .ok () parent' ∧ run ctx j ⟨parent', rest, m₁.state⟩ = .ok o m' := by
  -- by induction on the bound: each iteration is one of the machine alone, up to its last
  induction k generalizing m with
  | zero => cases h
  | succ k ih =>
    rw [run] at h
    cases hiterate : iterate ctx (m.above (parent :: rest)) with
    | error e m₁ =>
      rw [hiterate] at h
      cases h
    | ok o? m₁ =>
      rw [hiterate] at h
      cases o? with
      | some o₁ =>
        -- with frames below, no iteration is the last one
        have hwaiting : m.waiting ++ parent :: rest = [] := (leaves_of_iterate hiterate).1
        exact absurd hwaiting (List.append_ne_nil_of_right_ne_nil _ (List.cons_ne_nil _ _))
      | none =>
        obtain ⟨m₂, hm₂, rfl⟩ | ⟨o₁, m₂, parent', hm₂, hresume, rfl⟩ := iterate_above_cases hiterate
        · obtain ⟨n, j, o₁, m₃, parent', hends, rfl, hresume, hrun⟩ := ih h
          exact ⟨n + 1, j, o₁, m₃, parent', .next hm₂ hends, Nat.add_right_comm _ _ _,
            hresume, hrun⟩
        · exact ⟨1, k, o₁, m₂, parent', .outcome hm₂, Nat.add_comm _ _, hresume, h⟩

end Machine

/-! ### The recursive interpreter -/

/-- A frame, run to its end by recursion: `o` is its outcome and `s'` the state it leaves. -/
inductive Evaluates (ctx : Context) : Frame → State → Outcome → State → Prop
  /-- The frame has ended. -/
  | leave {f : Frame} {s : State} {exit : Exit} {o : Outcome} {a : Activation} :
      f.mode = .exited exit → Frame.leave ⟨f, s⟩ = .ok o a → Evaluates ctx f s o a.state
  /-- The frame takes a step. -/
  | step {f f₁ : Frame} {s s₁ s' : State} {o : Outcome} : f.mode = .running →
      EvmCore.step ctx ⟨f, s⟩ = .ok () ⟨f₁, s₁⟩ → Evaluates ctx f₁ s₁ o s' → Evaluates ctx f s o s'
  /-- What the frame requests comes to nothing. -/
  | immediate {f f₁ f₂ : Frame} {s s₁ s' : State} {o o₁ : Outcome} : f.Active → f.mode ≠ .running →
      f.begin ctx ⟨f, s⟩ = .ok (.done o₁) ⟨f₁, s₁⟩ → Frame.resume o₁ f₁ = .ok () f₂ →
      Evaluates ctx f₂ s₁ o s' → Evaluates ctx f s o s'
  /-- What the frame requests has code to run. -/
  | recurse {f f₁ f₂ child : Frame} {s s₁ s₂ s' : State} {o o₁ : Outcome} : f.Active →
      f.mode ≠ .running → f.begin ctx ⟨f, s⟩ = .ok (.frame child) ⟨f₁, s₁⟩ →
      Evaluates ctx child s₁ o₁ s₂ → Frame.resume o₁ f₁ = .ok () f₂ →
      Evaluates ctx f₂ s₂ o s' → Evaluates ctx f s o s'

namespace Machine

variable {ctx : Context} {f f₁ f₂ child : Frame} {s s₁ s' : State} {o : Outcome}

/-- An iteration in which what was requested comes to nothing. -/
theorem iterate_start_of_done (hactive : f.Active) (hmode : f.mode ≠ .running)
    (hbegin : f.begin ctx ⟨f, s⟩ = .ok (.done o) ⟨f₁, s₁⟩)
    (hresume : Frame.resume o f₁ = .ok () f₂) :
    iterate ctx (start f s) = .ok none (start f₂ s₁) := by
  rw [iterate_of_waits hactive hmode]
  refine (bind_of_ok (withTop_ok_iff.mpr ⟨f₁, s₁, hbegin, rfl⟩)).trans ?_
  exact bind_of_ok (withTop_ok_iff.mpr ⟨f₂, s₁, liftFrame_ok_iff.mpr ⟨f₂, hresume, rfl⟩, rfl⟩)

/-- An iteration in which a child is put on top. -/
theorem iterate_start_of_frame (hactive : f.Active) (hmode : f.mode ≠ .running)
    (hbegin : f.begin ctx ⟨f, s⟩ = .ok (.frame child) ⟨f₁, s₁⟩) :
    iterate ctx (start f s) = .ok none ((start child s₁).above [f₁]) := by
  rw [iterate_of_waits hactive hmode]
  exact bind_of_ok (withTop_ok_iff.mpr ⟨f₁, s₁, hbegin, rfl⟩)

/-- What an iteration of a machine with one frame comes to. -/
theorem iterate_start_cases {o? : Option Outcome} {m' : Machine}
    (h : iterate ctx (start f s) = .ok o? m') :
    (∃ exit o a, f.mode = .exited exit ∧ Frame.leave ⟨f, s⟩ = .ok o a ∧ o? = some o ∧
      m'.state = a.state) ∨
    (o? = none ∧ ((∃ f₁ s₁, f.mode = .running ∧ step ctx ⟨f, s⟩ = .ok () ⟨f₁, s₁⟩ ∧
        m' = start f₁ s₁) ∨
      (f.Active ∧ f.mode ≠ .running ∧ ∃ f₁ s₁,
        (∃ o f₂, f.begin ctx ⟨f, s⟩ = .ok (.done o) ⟨f₁, s₁⟩ ∧ Frame.resume o f₁ = .ok () f₂ ∧
          m' = start f₂ s₁) ∨
        ∃ child, f.begin ctx ⟨f, s⟩ = .ok (.frame child) ⟨f₁, s₁⟩ ∧
          m' = (start child s₁).above [f₁]))) := by
  by_cases hactive : f.Active
  · by_cases hmode : f.mode = .running
    · rw [iterate_of_running hmode] at h
      obtain ⟨_, m₁, htop, h⟩ := bind_ok_iff.mp h
      obtain ⟨rfl, rfl⟩ := pure_ok_iff.mp h
      obtain ⟨f₁, s₁, hstep, rfl⟩ := withTop_ok_iff.mp htop
      exact .inr ⟨rfl, .inl ⟨f₁, s₁, hmode, hstep, rfl⟩⟩
    · rw [iterate_of_waits hactive hmode] at h
      obtain ⟨start, m₁, htop, h⟩ := bind_ok_iff.mp h
      obtain ⟨f₁, s₁, hbegin, rfl⟩ := withTop_ok_iff.mp htop
      obtain ⟨_, m₂, henter, h⟩ := bind_ok_iff.mp h
      obtain ⟨rfl, rfl⟩ := pure_ok_iff.mp h
      refine .inr ⟨rfl, .inr ⟨hactive, hmode, f₁, s₁, ?_⟩⟩
      cases start with
      | frame child =>
        obtain rfl := modify_ok_iff.mp henter
        exact .inr ⟨child, hbegin, rfl⟩
      | done o =>
        obtain ⟨f₂, s₂, hlift, rfl⟩ := withTop_ok_iff.mp henter
        obtain ⟨f₃, hresume, hf⟩ := liftFrame_ok_iff.mp hlift
        cases hf
        exact .inl ⟨o, f₂, hbegin, hresume, rfl⟩
  · obtain ⟨exit, hmode⟩ := Frame.exited_of_not_active hactive
    rw [iterate_of_exited hmode, start, leave_eq] at h
    cases hleave : Frame.leave ⟨f, s⟩ with
    | error e a =>
      rw [hleave] at h
      cases h
    | ok o a =>
      rw [hleave] at h
      cases h
      exact .inl ⟨exit, o, a, hmode, rfl, rfl, rfl⟩

end Machine

section Evaluates

variable {ctx : Context} {f : Frame} {s s' : State} {o : Outcome}

open Machine

/-- What the recursive interpreter does is done by the loop. -/
theorem Evaluates.exists_run (h : Evaluates ctx f s o s') :
    ∃ n m', run ctx n (.start f s) = .ok o m' ∧ m'.state = s' := by
  -- by induction on the evaluation; the iterations of a child come before those of its parent
  induction h with
  | @leave f s exit o a hmode hleave =>
    refine ⟨1, ⟨a.frame, [], a.state⟩, ?_, rfl⟩
    rw [run, iterate_of_exited hmode, start, leave_eq, hleave]
  | step hmode hstep _ ih =>
    obtain ⟨n, m', hrun, hstate⟩ := ih
    refine ⟨n + 1, m', ?_, hstate⟩
    rw [run, iterate_of_running hmode, start, bind_of_ok (withTop_ok_iff.mpr ⟨_, _, hstep, rfl⟩)]
    exact hrun
  | immediate hactive hmode hbegin hresume _ ih =>
    obtain ⟨n, m', hrun, hstate⟩ := ih
    refine ⟨n + 1, m', ?_, hstate⟩
    rw [run, iterate_start_of_done hactive hmode hbegin hresume]
    exact hrun
  | recurse hactive hmode hbegin _ hresume _ ihchild ih =>
    obtain ⟨k, m₁, hchild, rfl⟩ := ihchild
    obtain ⟨n, m', hrun, hstate⟩ := ih
    obtain ⟨l, -, hends⟩ := endsIn_of_run hchild
    refine ⟨l + n + 1, m', ?_, hstate⟩
    rw [run, iterate_start_of_frame hactive hmode hbegin]
    dsimp only
    rw [run_above hends, goOn, hresume]
    exact hrun

/-- What the loop does is done by the recursive interpreter. -/
theorem evaluates_of_run {n : Nat} {m' : Machine} (h : run ctx n (.start f s) = .ok o m') :
    Evaluates ctx f s o m'.state := by
  -- by strong induction, since the child and what follows it share the iterations
  induction n using Nat.strong_induction_on generalizing f s o m' with
  | _ n ih =>
    cases n with
    | zero => cases h
    | succ n =>
      rw [run] at h
      cases hiterate : iterate ctx (.start f s) with
      | error e m₁ =>
        rw [hiterate] at h
        cases h
      | ok o? m₁ =>
        rw [hiterate] at h
        obtain ⟨exit, o₁, a, hmode, hleave, rfl, hstate⟩ | ⟨rfl, hcases⟩ :=
          iterate_start_cases hiterate
        · cases h
          rw [hstate]
          exact .leave hmode hleave
        · obtain ⟨f₁, s₁, hmode, hstep, rfl⟩ | ⟨hactive, hmode, f₁, s₁, hbegun⟩ := hcases
          · exact .step hmode hstep (ih n (Nat.lt_succ_self n) h)
          · obtain ⟨o₁, f₂, hbegin, hresume, rfl⟩ | ⟨child, hbegin, rfl⟩ := hbegun
            · exact .immediate hactive hmode hbegin hresume (ih n (Nat.lt_succ_self n) h)
            · obtain ⟨k, j, o₁, m₂, f₂, hends, rfl, hresume, hrun⟩ := exists_child_of_run_above h
              refine .recurse hactive hmode hbegin
                (ih k (by omega) (run_of_endsIn hends (le_refl k))) hresume (ih j ?_ hrun)
              omega

/-- **The loop computes the recursive interpreter.** -/
theorem evaluates_iff : Evaluates ctx f s o s' ↔
    ∃ n m', run ctx n (.start f s) = .ok o m' ∧ m'.state = s' := by
  refine ⟨Evaluates.exists_run, ?_⟩
  rintro ⟨n, m', hrun, rfl⟩
  exact evaluates_of_run hrun

end Evaluates

/-! ### What an outcome changes in the frame that waited for it -/

/-- The memory `m` of a caller becomes `m'` by the output of its call: the part that the caller
asked for is written from `returnOffset` on, and every byte outside of that range stays. -/
structure CallRequest.Receives (r : CallRequest) (output : ByteArray) (m m' : Memory) : Prop where
  overwritten : m' = m.overwrite r.returnOffset (r.returned output)
  size_eq : 0 ≤ r.returnOffset → m'.size = m.size
  bytes : 0 ≤ r.returnOffset → 0 ≤ r.returnSize → ∀ i : Nat, m'.data[i]? =
    if r.returnOffset ≤ i ∧ i < r.returnOffset + min r.returnSize output.size then
      output.data[(i - r.returnOffset).toNat]?
    else m.data[i]?

/-- A frame that waited goes on with an outcome. Everything that is not mentioned stays. -/
inductive GoesOn (f : Frame) (o : Outcome) : Frame → Prop
  | call {request : Option CallRequest} {memory : Memory} : f.mode = .awaitingCall request →
      (o.success || o.reverted → ∃ r, request = some r ∧ r.Receives o.output f.memory memory) →
      (¬(o.success || o.reverted) → memory = f.memory) →
      GoesOn f o
        { f with
          gas := f.gas + o.gasLeft
          stack := Word.ofBool o.success :: f.stack
          memory
          returnData := if o.success || o.reverted then o.output else .empty
          mode := .running
          pc := f.pc + 1 }
  | create {request : Option CreateRequest} {created : Word} : f.mode = .awaitingCreate request →
      o.createdWord = .ok created →
      GoesOn f o
        { f with
          gas := f.gas + o.gasLeft
          stack := created :: f.stack
          returnData := if o.reverted then o.output else .empty
          mode := .running
          pc := f.pc + 1 }

/-- A byte of the part that is returned is one of the output. -/
theorem CallRequest.getElem?_returned {r : CallRequest} (hsize : 0 ≤ r.returnSize)
    (output : ByteArray) :
    ((r.returned output).size : Int) = min r.returnSize output.size ∧
    ∀ i < (r.returned output).size, (r.returned output).data[i]? = output.data[i]? := by
  have hstop : Bytes.position output.size (min r.returnSize output.size) =
      (min r.returnSize output.size).toNat := by
    rw [Bytes.position_of_nonneg (by omega)]
    omega
  have hstart : Bytes.position output.size 0 = 0 := rfl
  have hreturned : r.returned output = output.extract 0 (min r.returnSize output.size).toNat := by
    rw [returned, Bytes.slice, hstart, hstop]
  have hlength : (r.returned output).size = (min r.returnSize output.size).toNat := by
    rw [hreturned, ByteArray.size_extract]
    omega
  refine ⟨by omega, fun i hi => ?_⟩
  rw [hreturned, ByteArray.data_extract, Array.getElem?_extract, if_pos, Nat.zero_add]
  rw [ByteArray.size_data]
  omega

/-- **What a caller receives**, byte by byte. -/
theorem CallRequest.receives_of_copyOutput {r : CallRequest} {output : ByteArray} {f f' : Frame}
    {u : Unit} (h : r.copyOutput output f = .ok u f') :
    ∃ memory, f' = { f with memory } ∧ r.Receives output f.memory memory := by
  obtain ⟨hcheck, rfl⟩ := Frame.copyOutput_ok h
  refine ⟨_, rfl, rfl, fun hoffset => Memory.size_overwrite hoffset hcheck,
    fun hoffset hsize i => ?_⟩
  obtain ⟨hlength, hbytes⟩ := r.getElem?_returned hsize output
  rw [Memory.getElem?_overwrite hoffset hcheck, hlength]
  refine ite_congr rfl (fun hi => hbytes _ ?_) fun _ => rfl
  omega

namespace Frame

variable {f f' : Frame} {o : Outcome} {u : Unit}

/-- Going on with the outcome of a call. -/
theorem goesOn_of_resumeCall {request : Option CallRequest} (hmode : f.mode = .awaitingCall request)
    (h : resumeCall request o f = .ok u f') : GoesOn f o f' := by
  obtain ⟨_, f₁, hpush, h⟩ := bind_ok_iff.mp h
  obtain rfl := modify_ok_iff.mp hpush
  -- there is output to take only if the callee halted or reverted
  by_cases hreturns : (o.success || o.reverted) = true
  · rw [if_pos hreturns] at h
    obtain ⟨_, f₂, hdata, h⟩ := bind_ok_iff.mp h
    obtain rfl := modify_ok_iff.mp hdata
    cases request with
    | none => cases h
    | some r =>
      obtain ⟨_, f₃, hcopy, h⟩ := bind_ok_iff.mp h
      obtain ⟨memory, rfl, hreceives⟩ := CallRequest.receives_of_copyOutput hcopy
      obtain rfl := modify_ok_iff.mp h
      have hgoes := GoesOn.call (f := f) (o := o) hmode (fun _ => ⟨r, rfl, hreceives⟩)
        (fun hnot => absurd hreturns hnot)
      rw [if_pos hreturns] at hgoes
      exact hgoes
  · rw [if_neg hreturns] at h
    obtain rfl := modify_ok_iff.mp h
    have hgoes := GoesOn.call (f := f) (o := o) hmode (fun hyes => absurd hyes hreturns)
      (fun _ => rfl)
    rw [if_neg hreturns] at hgoes
    exact hgoes

/-- **What going on with an outcome changes.** -/
theorem goesOn_of_resume (h : resume o f = .ok u f') : GoesOn f o f' := by
  rw [resume, get_bind] at h
  cases hmode : f.mode with
  | awaitingCall request =>
    rw [hmode] at h
    exact goesOn_of_resumeCall hmode h
  | awaitingCreate request =>
    rw [hmode] at h
    obtain ⟨_, f₁, hgas, h⟩ := bind_ok_iff.mp h
    obtain rfl := modify_ok_iff.mp hgas
    cases hword : o.createdWord with
    | error e =>
      rw [hword] at h
      cases h
    | ok created =>
      rw [hword] at h
      obtain rfl := modify_ok_iff.mp h
      exact .create hmode hword
  | _ =>
    rw [hmode] at h
    cases h

end Frame

/-- **The explicit stack of frames implements recursive calls.** A child that is put on top of
waiting frames goes through the same machines as alone, with these frames unchanged below, and ends
with the same outcome or fault and in the same state; the run goes on with the topmost of them, as
if it had called the child. An outcome changes nothing in that frame but what `GoesOn` says. So the
loop gives what the recursive interpreter does. -/
theorem waiting_frames_stand_for_recursion (ctx : Context) (c parent : Frame) (rest : List Frame)
    (s : State) :
    (∀ m, Machine.RunsAbove ctx (parent :: rest).length ⟨c, parent :: rest, s⟩ m ↔
      ∃ m₀, Machine.RunsAbove ctx 0 (.start c s) m₀ ∧ m = m₀.above (parent :: rest)) ∧
    (∀ m₀ : Machine, (m₀.above (parent :: rest)).iterate ctx =
      Machine.handDown parent rest (m₀.iterate ctx)) ∧
    (∀ o m', execute ctx c s = .ok o m' →
      ∃ n ≤ iterationBound c.gas, Machine.EndsIn ctx n (.start c s) (.ok o m')) ∧
    (∀ n r, Machine.EndsIn ctx n (.start c s) r → ∀ j,
      Machine.run ctx (n + j) ⟨c, parent :: rest, s⟩ = Machine.goOn ctx j parent rest r) ∧
    (∀ o parent', Frame.resume o parent = .ok () parent' → GoesOn parent o parent') ∧
    (∀ o s', Evaluates ctx c s o s' ↔
      ∃ n m', Machine.run ctx n (.start c s) = .ok o m' ∧ m'.state = s') := by
  refine ⟨fun m => ?_, fun m₀ => Machine.iterate_above ctx m₀ parent rest,
    fun o m' hexecute => Machine.endsIn_of_run hexecute, fun n r hends j => ?_,
    fun o parent' hresume => Frame.goesOn_of_resume hresume, fun o s' => evaluates_iff⟩
  · exact Machine.runsAbove_iff (m := .start c s)
  · exact Machine.run_above (m := .start c s) hends j

/-- A callee that returns three bytes, of which the caller asked for two. -/
theorem caller_receives_two_bytes :
    let s := (State.ofSource {}).opened
    let code := Code.ofBytes ⟨#[0x60, 0xff, 0x60, 0, 0x53, 0x60, 3, 0x60, 0, 0xf3]⟩
    let c : Frame :=
      { message := { self := 2, caller := 1, codeAddress := 2, code, depth := 1 }, gas := 1000 }
    let request : CallRequest :=
      { kind := .call, caller := 1, address := 2, codeAddress := 2, value := 0, gas := 1000
        readOnly := false, transfersValue := true
        inputOffset := 0, inputSize := 0, returnOffset := 1, returnSize := 2 }
    let parent : Frame :=
      { message := { self := 1, caller := 3, codeAddress := 1, code := .ofBytes .empty }
        gas := 50, pc := 7, memory := ⟨#[1, 2, 3, 4]⟩, mode := .awaitingCall (some request) }
    ∃ n o m' parent', Machine.EndsIn {} n (.start c s) (.ok o m') ∧
      Evaluates {} c s o m'.state ∧ Frame.resume o parent = .ok () parent' ∧
      GoesOn parent o parent' ∧
      parent'.memory.data = #[1, 0xff, 0, 4] ∧
      ∀ j, Machine.run {} (n + j) ⟨c, [parent], s⟩ = Machine.run {} j ⟨parent', [], m'.state⟩ := by
  intro s code c request parent
  obtain ⟨-, -, hexecute, hruns, hgoes, hevaluates⟩ :=
    waiting_frames_stand_for_recursion {} c parent [] s
  have hreturns : endsWith (fun o _ => endsWith (fun _ parent' =>
      decide (parent'.memory.data = #[1, 0xff, 0, 4])) (Frame.resume o parent))
      (execute {} c s) = true := by decide +kernel
  obtain ⟨o, m', hrun, hreturns⟩ := endsWith_iff.mp hreturns
  obtain ⟨_, parent', hresume, hmemory⟩ := endsWith_iff.mp hreturns
  obtain ⟨n, -, hends⟩ := hexecute o m' hrun
  refine ⟨n, o, m', parent', hends, (hevaluates o m'.state).mpr ⟨_, m', hrun, rfl⟩, hresume,
    hgoes o parent' hresume, of_decide_eq_true hmemory, fun j => ?_⟩
  rw [hruns n _ hends j, Machine.goOn, hresume]

/-- A return offset below zero, which a negative block number leads to, counts back from the end of
the memory: the four bytes that the caller asked for at -1 are inserted before its last byte. -/
theorem negative_return_offset_inserts_output :
    let ctx : Context := { block := { number := -1 } }
    let callee : Account :=
      { code := ⟨#[0x63, 0xaa, 0xbb, 0xcc, 0xdd, 0x60, 0, 0x52, 0x60, 4, 0x60, 0x1c, 0xf3]⟩ }
    let s := (State.ofSource { accounts := Std.ExtTreeMap.empty.insert 2 callee }).opened
    let caller : Frame :=
      { message :=
          { self := 1, caller := 3, codeAddress := 1
            code := .ofBytes
              ⟨#[0x60, 4, 0x43, 0x60, 0, 0x60, 0, 0x60, 0, 0x60, 2, 0x5a, 0xf1, 0]⟩ }
        gas := 100000 }
    let request : CallRequest :=
      { kind := .call, caller := 1, address := 2, codeAddress := 2, value := 0, gas := 95857
        readOnly := false, transfersValue := true
        inputOffset := 0, inputSize := 0, returnOffset := -1, returnSize := 4 }
    ∃ m parent o m' parent', Machine.run ctx 9 (.start caller s) = .error .unbounded m ∧
      m.waiting = [parent] ∧ parent.mode = .awaitingCall (some request) ∧
      execute ctx m.top m.state = .ok o m' ∧ o.output.size = 4 ∧
      Frame.resume o parent = .ok () parent' ∧
      parent.memory.size = 32 ∧ parent'.memory.size = 36 ∧
      parent.memory.data[31]? = some 0 ∧ parent'.memory.data[31]? = some 0xaa := by
  intro ctx callee s caller request
  -- after nine iterations the callee is on top and the caller waits for it
  have hcalls : failsWith (fun e m => decide (e = .unbounded ∧ m.waiting.length = 1) &&
      m.waiting.all fun parent => decide (parent.mode = .awaitingCall (some request)) &&
        endsWith (fun o _ => decide (o.output.size = 4) && endsWith (fun _ parent' =>
          decide (parent.memory.size = 32 ∧ parent'.memory.size = 36 ∧
            parent.memory.data[31]? = some 0 ∧ parent'.memory.data[31]? = some 0xaa))
          (Frame.resume o parent)) (execute ctx m.top m.state))
      (Machine.run ctx 9 (.start caller s)) = true := by decide +kernel
  obtain ⟨e, m, hrun, htest⟩ := failsWith_iff.mp hcalls
  obtain ⟨hunbounded, hall⟩ := Bool.and_eq_true_iff.mp htest
  obtain ⟨rfl, hlength⟩ := of_decide_eq_true hunbounded
  obtain ⟨parent, hwaiting⟩ := List.length_eq_one_iff.mp hlength
  obtain ⟨hmode, hends⟩ :=
    Bool.and_eq_true_iff.mp (List.all_eq_true.mp hall parent (by simp [hwaiting]))
  obtain ⟨o, m', hexecute, hends⟩ := endsWith_iff.mp hends
  obtain ⟨hsize, hends⟩ := Bool.and_eq_true_iff.mp hends
  obtain ⟨_, parent', hresume, hmemory⟩ := endsWith_iff.mp hends
  exact ⟨m, parent, o, m', parent', hrun, hwaiting, of_decide_eq_true hmode, hexecute,
    of_decide_eq_true hsize, hresume, of_decide_eq_true hmemory⟩

end EvmCore
