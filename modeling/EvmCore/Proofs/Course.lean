import EvmCore.Proofs.Depth
import EvmCore.Proofs.Recursion
import Mathlib

/-!
# The course of one frame

A frame is on top of a machine for some iterations, waits while others run above it, and goes on
with what became of them. `m.frameAt n` is the frame of `m` that has `n` frames below it. What an
iteration comes to for this one frame is said by `Machine.Turn`: it takes a step, it begins
something and waits, it goes on with an outcome, or it stays as it is while others are at work.
Where the machine does not go below it, every iteration is such a turn (`Machine.turn_of_iterate`),
so that whatever each turn keeps holds all along the course of the frame
(`Machine.RunsAbove.course`). `Machine.Visits` is such a run with all that it has passed through,
for what depends on the whole course.

`Machine.Resolves` is a run from a frame on top that waits up to where it goes on, through the whole
life of the child if there is one.
-/

namespace EvmCore

/-- Beginning what a frame waits for, as a relation. -/
theorem Frame.begins_of_begin {ctx : Context} {f f' : Frame} {s s' : State} {start : Start}
    (h : f.begin ctx ⟨f, s⟩ = .ok start ⟨f', s'⟩) : Begins ctx f s f' start s' := by
  -- only a frame that waits, and knows for what, can begin it
  rw [Frame.begin] at h
  cases hmode : f.mode with
  | awaitingCall request =>
    rw [hmode] at h
    cases request with
    | none => exact absurd h lackRequest_ne_ok
    | some r => exact begins_of_beginCall hmode h
  | awaitingCreate request =>
    rw [hmode] at h
    cases request with
    | none => exact absurd h lackRequest_ne_ok
    | some r => exact begins_of_beginCreate hmode h
  | _ =>
    rw [hmode] at h
    exact absurd h lackRequest_ne_ok

/-- A frame that begins something does not run meanwhile, and has not ended. -/
theorem Frame.waits_of_begin {ctx : Context} {f : Frame} {s : State} {start : Start}
    {a : Activation} (h : f.begin ctx ⟨f, s⟩ = .ok start a) : f.Waits := by
  obtain ⟨f', s'⟩ := a
  have hbegins := begins_of_begin h
  obtain ⟨r, hr⟩ | ⟨r, hr⟩ := hbegins.waits
  · exact .inl ⟨r, hbegins.mode_eq.symm.trans hr⟩
  · exact .inr ⟨r, hbegins.mode_eq.symm.trans hr⟩

namespace Machine

variable {ctx : Context} {n : Nat} {m m' : Machine}

/-! ### The computations of an iteration -/

/-- One iteration that does not end the execution, with the computations that it performs. -/
inductive Performs (ctx : Context) (m : Machine) : Machine → Prop
  | step {f : Frame} {s : State} : m.top.mode = .running →
      EvmCore.step ctx ⟨m.top, m.state⟩ = .ok () ⟨f, s⟩ → Performs ctx m ⟨f, m.waiting, s⟩
  | push {f child : Frame} {s : State} :
      m.top.begin ctx ⟨m.top, m.state⟩ = .ok (.frame child) ⟨f, s⟩ →
      Performs ctx m ⟨child, f :: m.waiting, s⟩
  | settle {f₁ f : Frame} {s : State} {o : Outcome} :
      m.top.begin ctx ⟨m.top, m.state⟩ = .ok (.done o) ⟨f₁, s⟩ → Frame.resume o f₁ = .ok () f →
      Performs ctx m ⟨f, m.waiting, s⟩
  | pop {parent f : Frame} {rest : List Frame} {a : Activation} {o : Outcome} :
      Frame.leave ⟨m.top, m.state⟩ = .ok o a → m.waiting = parent :: rest →
      Frame.resume o parent = .ok () f → Performs ctx m ⟨f, rest, a.state⟩

/-- What an iteration performs, by the mode of the frame on top. -/
theorem performs_of_iterate (h : iterate ctx m = .ok none m') : Performs ctx m m' := by
  obtain ⟨top, waiting, s⟩ := m
  cases waiting with
  | nil =>
    obtain ⟨exit, o, a, -, -, ho, -⟩ | ⟨-, ⟨f, s', hmode, hstep, rfl⟩ | ⟨-, -, f₁, s', hbegun⟩⟩ :=
      iterate_start_cases h
    · cases ho
    · exact .step hmode hstep
    · obtain ⟨o, f, hbegin, hresume, rfl⟩ | ⟨child, hbegin, rfl⟩ := hbegun
      · exact .settle hbegin hresume
      · exact .push hbegin
  | cons parent rest =>
    -- the frames below make no difference until the top frame is left
    obtain ⟨m₁, hm₁, rfl⟩ | ⟨o, m₁, f, hm₁, hresume, rfl⟩ :=
      iterate_above_cases (m := start top s) h
    · obtain ⟨exit, o, a, -, -, ho, -⟩ | ⟨-, ⟨f, s', hmode, hstep, rfl⟩ | ⟨-, -, f₁, s', hbegun⟩⟩ :=
        iterate_start_cases hm₁
      · cases ho
      · exact .step hmode hstep
      · obtain ⟨o, f, hbegin, hresume, rfl⟩ | ⟨child, hbegin, rfl⟩ := hbegun
        · exact .settle hbegin hresume
        · exact .push hbegin
    · obtain ⟨exit, o', a, -, hleave, ho, hstate⟩ | ⟨ho, -⟩ := iterate_start_cases hm₁
      · cases ho
        rw [hstate]
        exact .pop hleave rfl hresume
      · cases ho

/-- An iteration of a machine whose top frame runs is a step of that frame. -/
theorem step_of_iterate (h : iterate ctx m = .ok none m')
    (hmode : m.top.mode = .running) :
    m'.waiting = m.waiting ∧ EvmCore.step ctx ⟨m.top, m.state⟩ = .ok () ⟨m'.top, m'.state⟩ := by
  cases performs_of_iterate h with
  | step _ hstep => exact ⟨rfl, hstep⟩
  | push hbegin => exact absurd hmode (Frame.waits_of_begin hbegin).ne_running
  | settle hbegin _ => exact absurd hmode (Frame.waits_of_begin hbegin).ne_running
  | pop hleave _ _ =>
    obtain ⟨exit, hexit⟩ := (Frame.leaves_of_leave hleave).mode
    cases hmode.symm.trans hexit

/-! ### One frame among the others -/

/-- The frame that has `n` frames below it. -/
def frameAt (n : Nat) (m : Machine) : Frame := m.waiting.reverse[n]?.getD m.top

/-- The frame on top has all that wait below it. -/
theorem frameAt_length (h : m.waiting.length = n) : m.frameAt n = m.top := by
  rw [frameAt, List.getElem?_eq_none (by rw [List.length_reverse, h])]
  rfl

/-- Below the top frame, the topmost of those that wait counts as the top. -/
theorem frameAt_cons {top f : Frame} {waiting : List Frame} {s t : State} (h : n ≤ waiting.length) :
    frameAt n ⟨top, f :: waiting, s⟩ = frameAt n ⟨f, waiting, t⟩ := by
  rw [frameAt, frameAt]
  dsimp only
  rw [List.reverse_cons]
  rcases h.lt_or_eq with hlt | rfl
  · rw [List.getElem?_append_left (by rwa [List.length_reverse]),
      List.getElem?_eq_getElem (by rwa [List.length_reverse])]
    rfl
  · rw [List.getElem?_append_right (by rw [List.length_reverse]), List.length_reverse, Nat.sub_self,
      List.getElem?_eq_none (l := waiting.reverse) (by rw [List.length_reverse])]
    rfl

/-- A frame below the top one is one of those that wait. -/
theorem frameAt_of_lt (h : n < m.waiting.length) (top : Frame) (s : State) :
    m.frameAt n = frameAt n ⟨top, m.waiting, s⟩ := by
  rw [frameAt, frameAt, List.getElem?_eq_getElem (by rwa [List.length_reverse])]
  rfl

/-- What an iteration comes to for the frame that has `n` frames below it. -/
inductive Turn (ctx : Context) (n : Nat) (m m' : Machine) : Prop
  /-- Others are at work above it. -/
  | rest : n < m.waiting.length → n < m'.waiting.length → m'.frameAt n = m.frameAt n →
      Turn ctx n m m'
  /-- It takes a step. -/
  | step : m.waiting.length = n → m'.waiting.length = n → (m.frameAt n).mode = .running →
      EvmCore.step ctx ⟨m.frameAt n, m.state⟩ = .ok () ⟨m'.frameAt n, m'.state⟩ → Turn ctx n m m'
  /-- It begins something, and a child is put on top of it. -/
  | push : m.waiting.length = n → m'.waiting.length = n + 1 →
      (m.frameAt n).begin ctx ⟨m.frameAt n, m.state⟩ =
        .ok (.frame m'.top) ⟨m'.frameAt n, m'.state⟩ →
      Turn ctx n m m'
  /-- It begins something that comes to nothing. -/
  | settle {f : Frame} {o : Outcome} : m.waiting.length = n → m'.waiting.length = n →
      (m.frameAt n).begin ctx ⟨m.frameAt n, m.state⟩ = .ok (.done o) ⟨f, m'.state⟩ →
      Frame.resume o f = .ok () (m'.frameAt n) → Turn ctx n m m'
  /-- Its child is left, and it goes on. -/
  | pop {a : Activation} {o : Outcome} : m.waiting.length = n + 1 → m'.waiting.length = n →
      Frame.leave ⟨m.top, m.state⟩ = .ok o a → m'.state = a.state →
      Frame.resume o (m.frameAt n) = .ok () (m'.frameAt n) → Turn ctx n m m'

/-- **Every iteration is a turn** of each frame that it does not leave. -/
theorem turn_of_iterate (h : iterate ctx m = .ok none m') (hn : n ≤ m.waiting.length)
    (hn' : n ≤ m'.waiting.length) : Turn ctx n m m' := by
  -- the frame is among those that wait, or on top
  rcases hn.lt_or_eq with hlt | heq
  · -- the frame waits, and goes on if its child is left
    cases performs_of_iterate h with
    | step _ _ => exact .rest hlt hlt (frameAt_of_lt hlt _ _).symm
    | settle _ _ => exact .rest hlt hlt (frameAt_of_lt hlt _ _).symm
    | push _ =>
      refine .rest hlt (Nat.lt_succ_of_lt hlt) ?_
      rw [frameAt_cons (t := m.state) hn]
      exact (frameAt_of_lt hlt _ _).symm
    | @pop parent f rest a o hleave hwaiting hresume =>
      dsimp only at hn'
      have hframe : m.frameAt n = frameAt n ⟨parent, rest, a.state⟩ := by
        rw [frameAt_of_lt hlt m.top m.state, hwaiting]
        exact frameAt_cons hn'
      rcases hn'.lt_or_eq with hlt' | heq'
      · refine .rest hlt hlt' ?_
        rw [hframe]
        exact frameAt_of_lt (m := ⟨f, rest, a.state⟩) hlt' _ _
      · refine .pop (by rw [hwaiting, List.length_cons, heq']) heq'.symm hleave rfl ?_
        rw [hframe, frameAt_length heq'.symm, frameAt_length heq'.symm]
        exact hresume
  · -- the frame is on top
    have hframe (f : Frame) (s : State) : frameAt n ⟨f, m.waiting, s⟩ = f := frameAt_length heq.symm
    have htop : m.frameAt n = m.top := hframe m.top m.state
    cases performs_of_iterate h with
    | step hmode hstep =>
      refine .step heq.symm heq.symm (htop ▸ hmode) ?_
      rw [htop, hframe]
      exact hstep
    | settle hbegin hresume =>
      refine .settle heq.symm heq.symm (htop ▸ hbegin) ?_
      rw [hframe]
      exact hresume
    | push hbegin =>
      refine .push heq.symm (by rw [List.length_cons, heq]) ?_
      rw [htop, frameAt_cons (t := m.state) hn, hframe]
      exact hbegin
    | pop _ hwaiting _ =>
      rw [hwaiting, List.length_cons] at heq
      dsimp only at hn'
      omega

/-- A turn does not change what the frame was sent. -/
theorem Turn.message (h : Turn ctx n m m') : (m'.frameAt n).message = (m.frameAt n).message := by
  cases h with
  | rest _ _ hframe => rw [hframe]
  | step _ _ _ hstep => exact (steps_of_step hstep).message
  | push _ _ hbegin => exact (Frame.begins_of_begin hbegin).message
  | settle _ _ hbegin hresume =>
    exact (Frame.resumes_of_resume hresume).message.trans (Frame.begins_of_begin hbegin).message
  | pop _ _ _ _ hresume => exact (Frame.resumes_of_resume hresume).message

/-- A run that does not go below a frame does not end below it. -/
theorem RunsAbove.le_length (h : RunsAbove ctx n m m') (hn : n ≤ m.waiting.length) :
    n ≤ m'.waiting.length := by
  cases h with
  | refl => exact hn
  | tail _ hlast => exact hlast.2

/-- **What every turn of a frame keeps holds all along its course.** -/
theorem RunsAbove.course {I : Machine → Prop} (h : RunsAbove ctx n m m') (hn : n ≤ m.waiting.length)
    (hturn : ∀ {m m' : Machine}, Turn ctx n m m' → I m → I m') (hm : I m) : I m' := by
  -- by induction on the run, whose last iteration is one more turn
  induction h with
  | refl => exact hm
  | tail hruns hlast ih =>
    exact hturn (turn_of_iterate hlast.1 (RunsAbove.le_length hruns hn) hlast.2) ih

/-- A run that does not go below the frame at `n`, with the machines that it has passed
through, the last one first. -/
inductive Visits (ctx : Context) (n : Nat) (m₀ : Machine) : List Machine → Machine → Prop
  | refl : Visits ctx n m₀ [] m₀
  | tail {past : List Machine} {m m' : Machine} : Visits ctx n m₀ past m →
      iterate ctx m = .ok none m' → n ≤ m'.waiting.length → Visits ctx n m₀ (m :: past) m'

/-- A run that is recorded is a run. -/
theorem Visits.runsAbove {m₀ : Machine} {past : List Machine} (h : Visits ctx n m₀ past m) :
    RunsAbove ctx n m₀ m := by
  induction h with
  | refl => exact .refl
  | tail _ hiterate hn ih => exact .tail ih ⟨hiterate, hn⟩

/-- Every run has a history, so that what holds of all histories holds wherever a run comes to. -/
theorem RunsAbove.exists_visits (h : RunsAbove ctx n m m') : ∃ past, Visits ctx n m past m' := by
  induction h with
  | refl => exact ⟨[], .refl⟩
  | @tail m₁ _ _ hlast ih =>
    obtain ⟨past, hpast⟩ := ih
    exact ⟨m₁ :: past, .tail hpast hlast.1 hlast.2⟩

/-- Tells by running the machine whether a test holds of its course after a number of iterations. -/
def holdsAfter (ctx : Context) (test : List Machine → Machine → Bool) :
    Nat → List Machine → Machine → Bool
  | 0, past, m => test past m
  | k + 1, past, m =>
    endsWith (fun o m' => o.isNone && holdsAfter ctx test k (m :: past) m') (m.iterate ctx)

/-- What was found by running the machine holds somewhere on its course. -/
theorem Visits.exists_of_holdsAfter {m₀ : Machine} {past : List Machine}
    {test : List Machine → Machine → Bool} {k : Nat} (h : Visits ctx 0 m₀ past m)
    (htest : holdsAfter ctx test k past m = true) :
    ∃ past' m', Visits ctx 0 m₀ past' m' ∧ test past' m' = true := by
  -- by induction on the iterations that are left to try
  induction k generalizing past m with
  | zero => exact ⟨past, m, h, htest⟩
  | succ k ih =>
    obtain ⟨o, m', hiterate, htest⟩ := endsWith_iff.mp htest
    rw [Bool.and_eq_true, Option.isNone_iff_eq_none] at htest
    obtain ⟨rfl, htest⟩ := htest
    exact ih (.tail h hiterate (Nat.zero_le _)) htest

/-- **What every turn of a frame adds to holds of its whole course.** -/
theorem Visits.course {I : List Machine → Machine → Prop} {m₀ : Machine} {past : List Machine}
    (h : Visits ctx n m₀ past m) (hn : n ≤ m₀.waiting.length) (hstart : I [] m₀)
    (hturn : ∀ {past : List Machine} {m m' : Machine}, iterate ctx m = .ok none m' →
      Turn ctx n m m' → I past m → I (m :: past) m') :
    I past m := by
  induction h with
  | refl => exact hstart
  | tail hpast hiterate hn' ih =>
    exact hturn hiterate (turn_of_iterate hiterate (hpast.runsAbove.le_length hn) hn') ih

/-- A frame that is active holds no negative number, wherever it is. -/
theorem NonNegative.frameAt (h : m.NonNegative) (hactive : (m.frameAt n).Active) :
    (m.frameAt n).NonNegative := by
  rw [Machine.frameAt] at hactive ⊢
  cases hframe : m.waiting.reverse[n]? with
  | none =>
    rw [hframe] at hactive
    exact h.top hactive
  | some f => exact h.waiting f (List.mem_reverse.mp (List.mem_of_getElem? hframe))

/-- Nor does any machine that was visited. -/
theorem Visits.nonNegative {m₀ : Machine} {past : List Machine} (h : Visits ctx n m₀ past m)
    (hctx : ctx.NonNegative) (hm₀ : m₀.NonNegative) :
    m.NonNegative ∧ ∀ m₁ ∈ past, m₁.NonNegative := by
  induction h with
  | refl => exact ⟨hm₀, List.forall_mem_nil _⟩
  | tail _ hiterate _ ih =>
    exact ⟨(iterates_of_iterate hiterate).nonNegative hctx ih.1, List.forall_mem_cons.mpr ih⟩

/-- There is no negative number where there are no accounts. -/
theorem start_empty_nonNegative {entry : Frame} (hentry : entry.NonNegative) :
    (start entry (.ofSource {})).NonNegative := by
  have hget (a : Address) : ((State.ofSource {}).view.get a) = {} := by
    change ((State.ofSource {}).world.shown a).getD {} = {}
    rw [World.shown_ofSource, Std.ExtTreeMap.getElem?_empty]
    rfl
  refine start_nonNegative hentry ⟨View.solvent_of_get fun a => ?_, fun a key => ?_⟩
  · rw [hget]
  · rw [hget]
    exact le_rfl

/-! ### Until a frame goes on -/

/-- What the top frame of `m` waits for is settled, and it goes on in `m'`: at once, or when a child
has run to its end, where `last` is the child as it ended. -/
inductive Resolves (ctx : Context) (m : Machine) : (last : Option Frame) → Machine → Prop
  | atOnce {m' : Machine} : iterate ctx m = .ok none m' → m'.waiting.length = m.waiting.length →
      Resolves ctx m none m'
  | child {m₁ m₂ m' : Machine} : iterate ctx m = .ok none m₁ →
      m₁.waiting.length = m.waiting.length + 1 → RunsAbove ctx (m.waiting.length + 1) m₁ m₂ →
      iterate ctx m₂ = .ok none m' → m'.waiting.length = m.waiting.length →
      Resolves ctx m (some m₂.top) m'

/-- A child that runs to its end alone hands its outcome to the frame that began it. -/
theorem resolves_of_run {child f f' : Frame} {s : State} {m₀ : Machine} {o : Outcome} {k : Nat}
    (h : iterate ctx m = .ok none ⟨child, f :: m.waiting, s⟩)
    (hrun : run ctx k (start child s) = .ok o m₀) (hresume : Frame.resume o f = .ok () f') :
    ∃ last, Resolves ctx m (some last) ⟨f', m.waiting, m₀.state⟩ := by
  obtain ⟨m₁, hruns, hlast⟩ := exists_runsAbove_of_run hrun
  have habove : RunsAbove ctx (m.waiting.length + 1) ⟨child, f :: m.waiting, s⟩
      (m₁.above (f :: m.waiting)) :=
    (runsAbove_iff (m := start child s)).mpr ⟨m₁, hruns, rfl⟩
  have hpop : iterate ctx (m₁.above (f :: m.waiting)) = .ok none ⟨f', m.waiting, m₀.state⟩ := by
    rw [iterate_above, hlast, handDown, handOver, hresume]
  exact ⟨(m₁.above (f :: m.waiting)).top, .child h rfl habove hpop rfl⟩

/-- Tells by running a child that was put on top whether it ends within `k` iterations and the frame
below goes on and passes a test. -/
def childEndsWith (ctx : Context) (k : Nat) (test : Frame → Bool) (m : Machine) : Bool :=
  match m.waiting with
  | [] => false
  | f :: _ =>
    endsWith (fun o _ => endsWith (fun _ f' => test f') (Frame.resume o f))
      (run ctx k (start m.top m.state))

/-- What was found by running a child holds where the frame below goes on. -/
theorem exists_resolves_of_childEndsWith {k : Nat} {t : Frame → Bool} (hm : m.waiting = [])
    (h : endsWith (fun o m₁ => o.isNone && m₁.waiting.length == 1 && childEndsWith ctx k t m₁)
      (iterate ctx m) = true) :
    ∃ last m', Resolves ctx m (some last) m' ∧ t m'.top = true := by
  obtain ⟨o?, m₁, hiterate, h⟩ := endsWith_iff.mp h
  rw [Bool.and_eq_true, Bool.and_eq_true, Option.isNone_iff_eq_none, beq_iff_eq] at h
  obtain ⟨⟨rfl, hlength⟩, h⟩ := h
  obtain ⟨child, waiting, s⟩ := m₁
  obtain ⟨f, rfl⟩ := List.length_eq_one_iff.mp hlength
  obtain ⟨o, m₀, hrun, h⟩ := endsWith_iff.mp h
  obtain ⟨_, f', hresume, htest⟩ := endsWith_iff.mp h
  rw [← hm] at hiterate
  obtain ⟨last, hresolves⟩ := resolves_of_run hiterate hrun hresume
  exact ⟨last, _, hresolves, htest⟩

/-- A child that is on top again and is left: the frame below it is the one that began it. -/
theorem RunsAbove.pop_of_length {child parent : Frame} {rest : List Frame} {s : State}
    {m₂ : Machine} (hruns : RunsAbove ctx (rest.length + 1) ⟨child, parent :: rest, s⟩ m₂)
    (h : iterate ctx m₂ = .ok none m') (hlength : m'.waiting.length = rest.length) :
    m₂.waiting = parent :: rest ∧ m'.waiting = rest ∧
    ∃ o a, Frame.leave ⟨m₂.top, m₂.state⟩ = .ok o a ∧
      Frame.resume o parent = .ok () m'.top ∧ m'.state = a.state := by
  obtain ⟨m₀, -, rfl⟩ := (runsAbove_iff (m := start child s)).mp hruns
  have habove : (m₀.above (parent :: rest)).waiting = m₀.waiting ++ parent :: rest := rfl
  have hle : rest.length + 1 ≤ (m₀.above (parent :: rest)).waiting.length := by
    rw [habove, List.length_append, List.length_cons]
    omega
  -- only leaving a frame makes the machine shallower
  cases performs_of_iterate h with
  | step _ _ => exact absurd hlength (by dsimp only; omega)
  | settle _ _ => exact absurd hlength (by dsimp only; omega)
  | push _ => exact absurd hlength (by rw [List.length_cons]; omega)
  | pop hleave hwaiting hresume =>
    dsimp only at hlength
    -- by their number, no frame of the child is left below it
    have hnil : m₀.waiting = [] := by
      rw [habove] at hwaiting
      have hlengths := congrArg List.length hwaiting
      rw [List.length_append, List.length_cons, List.length_cons, hlength] at hlengths
      exact List.length_eq_zero_iff.mp (by omega)
    rw [habove, hnil, List.nil_append] at hwaiting ⊢
    obtain ⟨rfl, rfl⟩ := List.cons.inj hwaiting
    exact ⟨rfl, rfl, _, _, hleave, hresume, rfl⟩

/-- **What happens until a frame goes on.** -/
theorem Resolves.elim {last : Option Frame} (h : Resolves ctx m last m') (hm : m.top.Waits) :
    m'.waiting = m.waiting ∧
    ((last = none ∧ ∃ f o, m.top.begin ctx ⟨m.top, m.state⟩ = .ok (.done o) ⟨f, m'.state⟩ ∧
      Frame.resume o f = .ok () m'.top) ∨
    ∃ child f s m₂ o a, last = some m₂.top ∧
      m.top.begin ctx ⟨m.top, m.state⟩ = .ok (.frame child) ⟨f, s⟩ ∧
      RunsAbove ctx (m.waiting.length + 1) ⟨child, f :: m.waiting, s⟩ m₂ ∧
      m₂.waiting.length = m.waiting.length + 1 ∧ Frame.leave ⟨m₂.top, m₂.state⟩ = .ok o a ∧
      Frame.resume o f = .ok () m'.top ∧ m'.state = a.state) := by
  cases h with
  -- what is settled at once is neither a step nor a frame more or less
  | atOnce hiterate hlength =>
    cases performs_of_iterate hiterate with
    | step hmode _ => exact absurd hmode hm.ne_running
    | push _ => exact absurd hlength (Nat.succ_ne_self _)
    | settle hbegin hresume => exact ⟨rfl, .inl ⟨rfl, _, _, hbegin, hresume⟩⟩
    | pop _ hwaiting _ =>
      rw [hwaiting, List.length_cons] at hlength
      exact absurd hlength (Nat.succ_ne_self _).symm
  | child hiterate hlength₁ hruns hlast hlength =>
    cases performs_of_iterate hiterate with
    | step hmode _ => exact absurd hmode hm.ne_running
    | settle _ _ => exact absurd hlength₁ (Nat.succ_ne_self _).symm
    | pop _ hwaiting _ =>
      rw [hwaiting, List.length_cons] at hlength₁
      dsimp only at hlength₁
      omega
    | push hbegin =>
      obtain ⟨hwaiting₂, hwaiting, o, a, hleave, hresume, hstate⟩ :=
        hruns.pop_of_length hlast hlength
      exact ⟨hwaiting, .inr ⟨_, _, _, _, o, a, rfl, hbegin, hruns,
        by rw [hwaiting₂, List.length_cons], hleave, hresume, hstate⟩⟩

end Machine

end EvmCore
