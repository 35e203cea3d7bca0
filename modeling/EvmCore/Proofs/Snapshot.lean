import EvmCore.Proofs.WriteBack
import Mathlib

/-!
# The cache refines plain snapshots

The accounts of a transaction are loaded on demand, changed in a cache, and rolled back by replaying
a journal. None of this can be told from outside. The reference is as plain as can be: a total map
of accounts, held eagerly, and a stack of full copies of it, one per checkpoint (`Snapshots`). A
checkpoint pushes a copy, a commit drops the last one, a revert goes back to it.

A *session* performs any list of commands, carrying on after a command that is refused. The relation
`Tracks` between a state and the reference is kept by every command (`perform_matches`), so along
every session the answers agree, and a flush leaves the source as the reference has it.
-/

namespace EvmCore

/-! ### Commands -/

/-- A question about the accounts, or a change to them. -/
inductive Access where
  | account (a : Address)
  | isPresent (a : Address)
  | isEmpty (a : Address)
  | isAlive (a : Address)
  | balance (a : Address)
  | nonce (a : Address)
  | code (a : Address)
  | codeHash (a : Address)
  | storage (a : Address) (key : Word)
  | initial (a : Address) (key : Word)
  | hasStorage (a : Address)
  | setBalance (a : Address) (x : Int)
  | addBalance (a : Address) (x : Int)
  | subBalance (a : Address) (x : Int)
  | transfer (sender recipient : Address) (value : Int)
  | setNonce (a : Address) (x : Int)
  | incrementNonce (a : Address)
  | setCode (a : Address) (code : ByteArray)
  | setStorage (a : Address) (key value : Word)
  | touch (a : Address)
  | create (a : Address)
  | delete (a : Address)

/-- What is answered. -/
inductive Answer where
  | done
  | account (account : Option Account)
  | flag (b : Bool)
  | number (n : Int)
  | bytes (b : ByteArray)

/-- What can be asked of a store of accounts. -/
inductive StoreCommand where
  | access (op : Access)
  | checkpoint
  | commit
  | revert

/-- Answers that a change was made, after making it. -/
def Answer.after {σ : Type} (change : EStateM Fault σ Unit) : EStateM Fault σ Answer :=
  change >>= fun _ => return .done

/-- What an access does to the state of a transaction. -/
def Access.run : Access → Action Answer
  | .account a => return .account (← World.load a)
  | .isPresent a => return .flag (← World.isPresent a)
  | .isEmpty a => return .flag (← World.isEmpty a)
  | .isAlive a => return .flag !(← World.isEmpty a)
  | .balance a => return .number (← World.balance a)
  | .nonce a => return .number (← World.nonce a)
  | .code a => return .bytes (← World.code a)
  | .codeHash a => return .bytes (← World.codeHash a)
  | .storage a key => return .number (← World.storage a key)
  | .initial a key => return .number (← World.initial a key)
  | .hasStorage a => return .flag (← World.hasStorage a)
  | .setBalance a x => Answer.after (World.setBalance a x)
  | .addBalance a x => Answer.after (World.addBalance a x)
  | .subBalance a x => Answer.after (World.subBalance a x)
  | .transfer sender recipient value => Answer.after (World.transfer sender recipient value)
  | .setNonce a x => Answer.after (World.setNonce a x)
  | .incrementNonce a => Answer.after (World.incrementNonce a)
  | .setCode a bytes => Answer.after (World.setCode a bytes)
  | .setStorage a key value => Answer.after (World.setStorage a key value)
  | .touch a => Answer.after (World.touch a)
  | .create a => Answer.after (World.create a)
  | .delete a => Answer.after (World.delete a)

/-- What a command does to the state of a transaction. -/
def StoreCommand.run : StoreCommand → Action Answer
  | .access op => op.run
  | .checkpoint => Answer.after State.checkpoint
  | .commit => Answer.after State.commit
  | .revert => Answer.after State.revert

/-! ### The reference -/

/-- The accounts of a source, before anything was changed. -/
def View.ofSource (source : Source) : View where
  account a := source.accounts[a]?
  initial a := ((source.accounts[a]?).map Account.storage).getD ∅
  created := ∅
  dirty := ∅
  selfDestructs := ∅
  logs := #[]
  touched := ∅
  refund := 0

/-- What an access does to a plain map of accounts. -/
def Access.onView : Access → ViewM Answer
  | .account a => View.reads fun v => .account (v.account a)
  | .isPresent a => View.reads fun v => .flag (v.account a).isSome
  | .isEmpty a => View.reads fun v => .flag (v.get a).isEmpty
  | .isAlive a => View.reads fun v => .flag !(v.get a).isEmpty
  | .balance a => View.reads fun v => .number (v.get a).balance
  | .nonce a => View.reads fun v => .number (v.get a).nonce
  | .code a => View.reads fun v => .bytes (v.get a).code
  | .codeHash a => View.reads fun v => .bytes (v.codeHash a)
  | .storage a key => View.reads fun v => .number ((v.get a).storage.read key)
  | .initial a key => View.reads fun v => .number (v.initialWord a key)
  | .hasStorage a => View.reads fun v => .flag !(v.get a).storage.isEmpty
  | .setBalance a x => Answer.after (View.setBalance a x)
  | .addBalance a x => Answer.after fun v => View.setBalance a ((v.get a).balance + x) v
  | .subBalance a x => Answer.after fun v => View.setBalance a ((v.get a).balance - x) v
  | .transfer sender recipient value => Answer.after (View.transfer sender recipient value)
  | .setNonce a x => Answer.after (View.writes fun v => v.update a ({ · with nonce := x }))
  | .incrementNonce a =>
    Answer.after (View.writes fun v => v.update a
      fun account => { account with nonce := account.nonce + 1 })
  | .setCode a bytes => Answer.after (View.writes fun v => v.update a ({ · with code := bytes }))
  | .setStorage a key value =>
    Answer.after (View.writes fun v => v.update a fun account =>
      { account with storage := account.storage.write key value })
  | .touch a => Answer.after (View.writes fun v => v.touch a)
  | .create a => Answer.after (View.writes fun v => v.create a)
  | .delete a => Answer.after (View.writes fun v => v.set a none)

/-- The accounts as they are now, and a full copy of them for every open checkpoint. -/
structure Snapshots where
  now : View
  /-- Newest first. -/
  copies : List View := []

namespace Snapshots

/-- The reference before anything was changed. -/
def ofSource (source : Source) : Snapshots where
  now := .ofSource source

/-- What a command does to the reference. -/
def perform : StoreCommand → EStateM Fault Snapshots Answer
  | .access op => fun t =>
    match op.onView t.now with
    | .ok answer now => .ok answer { t with now }
    | .error fault now => .error fault { t with now }
  | .checkpoint => fun t => .ok .done { t with copies := t.now :: t.copies }
  | .commit => fun t =>
    match t.copies with
    | [] => .error .commitWithoutCheckpoint t
    | _ :: copies => .ok .done { t with copies }
  | .revert => fun t =>
    match t.copies with
    | [] => .error .revertWithoutCheckpoint t
    | now :: copies => .ok .done { now, copies }

end Snapshots

/-- Performs commands in turn, carrying on after one that is refused, and collects the answers. -/
def session {σ : Type} (perform : StoreCommand → EStateM Fault σ Answer) :
    List StoreCommand → σ → List (Except Fault Answer) × σ
  | [], s => ([], s)
  | command :: rest, s =>
    match perform command s with
    | .ok answer s => (.ok answer :: (session perform rest s).1, (session perform rest s).2)
    | .error fault s => (.error fault :: (session perform rest s).1, (session perform rest s).2)

/-! ### One access -/

/-- A change and its counterpart still go together when they are answered. -/
theorem Mirrors.after {x : Action Unit} {y : ViewM Unit} (h : Mirrors x y) :
    Mirrors (Answer.after x) (Answer.after y) :=
  h.bind fun _ => Mirrors.pure Answer.done

namespace Access

/-- An access does to the cache what it does to the plain map. -/
theorem mirrors (op : Access) : Mirrors op.run op.onView := by
  -- for each access there is a lemma on the operation that it stands for
  cases op with
  | account a => exact (World.load_mirrors a).read Answer.account
  | isPresent a => exact (World.isPresent_mirrors a).read Answer.flag
  | isEmpty a => exact (World.isEmpty_mirrors a).read Answer.flag
  | isAlive a => exact (World.isEmpty_mirrors a).read fun b => Answer.flag !b
  | balance a => exact (World.balance_mirrors a).read Answer.number
  | nonce a => exact (World.nonce_mirrors a).read Answer.number
  | code a => exact (World.code_mirrors a).read Answer.bytes
  | codeHash a => exact (World.codeHash_mirrors a).read Answer.bytes
  | storage a key => exact (World.storage_mirrors a key).read Answer.number
  | initial a key => exact (World.initial_mirrors a key).read Answer.number
  | hasStorage a => exact (World.hasStorage_mirrors a).read Answer.flag
  | setBalance a x => exact (World.setBalance_mirrors a x).after
  | addBalance a x => exact (World.addBalance_mirrors a x).after
  | subBalance a x => exact (World.subBalance_mirrors a x).after
  | transfer sender recipient value => exact (World.transfer_mirrors sender recipient value).after
  | setNonce a x => exact (World.setNonce_mirrors a x).after
  | incrementNonce a => exact (World.incrementNonce_mirrors a).after
  | setCode a bytes => exact (World.setCode_mirrors a bytes).after
  | setStorage a key value => exact (World.setStorage_mirrors a key value).after
  | touch a => exact (World.touch_mirrors a).after
  | create a => exact (World.create_mirrors a).after
  | delete a => exact (World.delete_mirrors a).after

/-- Answering does not change where a change has ended. -/
theorem ended_after (y : ViewM Unit) (v : View) : ended (Answer.after y v) = ended (y v) := by
  cases h : y v with
  | ok u v' => rw [Answer.after, bind_of_ok h]; rfl
  | error e v' =>
    have hafter : Answer.after y v = .error e v' := bind_error_iff.mpr (.inl h)
    rw [hafter]
    rfl

/-- Setting a balance marks what it changes. -/
theorem setBalance_marks (a : Address) (x : Int) (v : View) :
    v.Marks (ended (View.setBalance a x v)) := by
  rw [View.setBalance]
  split
  · exact .refl v
  · exact v.marks_set a _

/-- A transfer marks what it changes, also if it is refused halfway. -/
theorem transfer_marks (sender recipient : Address) (value : Int) (v : View) :
    v.Marks (ended (View.transfer sender recipient value v)) := by
  have hdebit := setBalance_marks sender ((v.get sender).balance - value) v
  -- if taking the value is refused, nothing is given
  cases h : View.setBalance sender ((v.get sender).balance - value) v with
  | error e v₁ =>
    have htransfer : View.transfer sender recipient value v = .error e v₁ :=
      bind_error_iff.mpr (.inr ⟨v, v, rfl, bind_error_iff.mpr (.inl h)⟩)
    rw [htransfer]
    rwa [h] at hdebit
  | ok u v₁ =>
    have htransfer : View.transfer sender recipient value v =
        View.setBalance recipient ((v₁.get recipient).balance + value) v₁ := by
      rw [View.transfer, get_bind, bind_of_ok h]
      rfl
    rw [h] at hdebit
    rw [htransfer]
    exact hdebit.trans (setBalance_marks recipient _ v₁)

/-- An access marks what it changes, even if it is refused halfway. -/
theorem marks (op : Access) (v : View) : v.Marks (ended (op.onView v)) := by
  cases op with
  | setBalance a x => exact ended_after _ v ▸ setBalance_marks a x v
  | addBalance a x => exact ended_after _ v ▸ setBalance_marks a ((v.get a).balance + x) v
  | subBalance a x => exact ended_after _ v ▸ setBalance_marks a ((v.get a).balance - x) v
  | transfer sender recipient value =>
    exact ended_after _ v ▸ transfer_marks sender recipient value v
  | setNonce a x => exact v.marks_set a _
  | incrementNonce a => exact v.marks_set a _
  | setCode a bytes => exact v.marks_set a _
  | setStorage a key value => exact v.marks_set a _
  | touch a =>
    change v.Marks (v.touch a)
    rw [View.touch]
    split
    · exact v.marks_set a _
    · exact .refl v
  | create a => exact (v.marks_set a _).trans (.of_eq rfl rfl)
  | delete a => exact v.marks_set a _
  | _ => exact .refl v

end Access

/-! ### One command -/

/-- Two computations ended alike: with the same answer or the same fault, in related states. -/
def Matches {σ τ : Type} (R : σ → τ → Prop) :
    EStateM.Result Fault σ Answer → EStateM.Result Fault τ Answer → Prop
  | .ok answer s, .ok answer' t => answer = answer' ∧ R s t
  | .error fault s, .error fault' t => fault = fault' ∧ R s t
  | _, _ => False

/-- The reference holds what a state shows, and for every open layer what was shown when it was
opened. -/
def Tracks (source : Source) (s : State) (t : Snapshots) : Prop :=
  ∃ cs, Layered View.Marks (.ofSource source) cs s ∧ t = ⟨s.view, cs.map State.view⟩

/-- A new state shows the source. -/
theorem State.ofSource_view (source : Source) :
    (State.ofSource source).view = .ofSource source := by
  -- nothing is in the cache yet, so all is shown as the source has it
  refine View.ext ?_ ?_ rfl rfl rfl rfl rfl rfl
  · funext a
    exact World.shown_ofSource source a
  · funext a
    change World.shownInitial { source } a = ((source.accounts[a]?).map Account.storage).getD ∅
    rw [World.shownInitial, Std.ExtTreeMap.getElem?_empty]

/-- In the beginning, the reference holds what the state shows. -/
theorem tracks_ofSource (source : Source) :
    Tracks source (.ofSource source) (.ofSource source) := by
  refine ⟨[], .root (Std.Refl.refl _), ?_⟩
  rw [State.ofSource_view]
  rfl

section Perform

variable {source : Source} {s : State} {t : Snapshots}

/-- An access keeps the reference in step. Since the source can be read, the two end alike. -/
theorem access_matches (hsource : source.NeverFails) (op : Access) (h : Tracks source s t) :
    Matches (Tracks source) (op.run s) (Snapshots.perform (.access op) t) := by
  obtain ⟨cs, hlayered, rfl⟩ := h
  have hmarks := op.marks s.view
  cases hx : op.run s with
  | ok answer s' =>
    obtain ⟨hgrows, hy⟩ := op.mirrors.ok hx
    rw [hy] at hmarks
    simp only [Snapshots.perform, hy]
    exact ⟨rfl, cs, hlayered.move ⟨hgrows, hmarks⟩, rfl⟩
  | error fault s' =>
    obtain ⟨hgrows, hy | ⟨a, ha, -⟩⟩ := op.mirrors.error hx
    · rw [hy] at hmarks
      simp only [Snapshots.perform, hy]
      exact ⟨rfl, cs, hlayered.move ⟨hgrows, hmarks⟩, rfl⟩
    · -- the source never changed since, so it still has nothing that cannot be read
      rw [hlayered.retains.source] at ha
      change a ∈ source.unreadable at ha
      rw [hsource.readable] at ha
      exact absurd ha Std.ExtTreeSet.not_mem_empty

/-- A checkpoint pushes a copy. -/
theorem checkpoint_matches (h : Tracks source s t) :
    Matches (Tracks source) (StoreCommand.checkpoint.run s) (Snapshots.perform .checkpoint t) := by
  obtain ⟨cs, hlayered, rfl⟩ := h
  exact ⟨rfl, s :: cs, hlayered.opened (Std.Refl.refl s) (Std.Refl.refl s.opened), rfl⟩

/-- With no layer open, there is nothing to commit or to revert. -/
theorem outer_eq_nil (h : Layered View.Marks (.ofSource source) [] s) : s.journal.outer = [] :=
  List.eq_nil_of_length_eq_zero h.depth_eq

/-- A commit drops a copy and leaves the accounts, or there is none and both refuse. -/
theorem commit_matches (h : Tracks source s t) :
    Matches (Tracks source) (StoreCommand.commit.run s) (Snapshots.perform .commit t) := by
  obtain ⟨cs, hlayered, rfl⟩ := h
  cases cs with
  | nil =>
    have hrun : StoreCommand.commit.run s = .error .commitWithoutCheckpoint s := by
      refine bind_error_iff.mpr (.inl ?_)
      rw [State.commit, get_bind, Journal.commit?, outer_eq_nil hlayered]
      rfl
    rw [hrun]
    exact ⟨rfl, [], hlayered, rfl⟩
  -- the layers merge, which nothing shown depends on
  | cons c cs =>
    obtain ⟨s', hcommit, hlayered', hview⟩ := hlayered.commit
    have hrun : StoreCommand.commit.run s = .ok .done s' :=
      bind_ok_iff.mpr ⟨(), s', hcommit, rfl⟩
    rw [hrun]
    refine ⟨rfl, cs, hlayered', ?_⟩
    rw [hview]

/-- A revert goes back to the last copy, or there is none and both refuse. -/
theorem revert_matches (h : Tracks source s t) :
    Matches (Tracks source) (StoreCommand.revert.run s) (Snapshots.perform .revert t) := by
  obtain ⟨cs, hlayered, rfl⟩ := h
  cases cs with
  | nil =>
    have hrun : StoreCommand.revert.run s = .error .revertWithoutCheckpoint s := by
      refine bind_error_iff.mpr (.inl ?_)
      rw [State.revert, get_bind, Journal.revert?, outer_eq_nil hlayered]
      rfl
    rw [hrun]
    exact ⟨rfl, [], hlayered, rfl⟩
  -- what is shown is again what was shown when the layer was opened
  | cons c cs =>
    obtain ⟨s', hrevert, hlayered', hview⟩ := hlayered.revert
    have hrun : StoreCommand.revert.run s = .ok .done s' :=
      bind_ok_iff.mpr ⟨(), s', hrevert, rfl⟩
    rw [hrun]
    refine ⟨rfl, cs, hlayered', ?_⟩
    rw [hview]

/-- **One command** is answered alike and keeps the reference in step. -/
theorem perform_matches (hsource : source.NeverFails) (command : StoreCommand)
    (h : Tracks source s t) :
    Matches (Tracks source) (command.run s) (Snapshots.perform command t) := by
  cases command with
  | access op => exact access_matches hsource op h
  | checkpoint => exact checkpoint_matches h
  | commit => exact commit_matches h
  | revert => exact revert_matches h

end Perform

/-! ### Sessions -/

/-- What one command keeps, a session keeps. -/
theorem session_matches {σ τ : Type} {R : σ → τ → Prop}
    {p : StoreCommand → EStateM Fault σ Answer} {q : StoreCommand → EStateM Fault τ Answer}
    (hstep : ∀ command s t, R s t → Matches R (p command s) (q command t))
    (commands : List StoreCommand) {s : σ} {t : τ} (h : R s t) :
    (session p commands s).1 = (session q commands t).1 ∧
      R (session p commands s).2 (session q commands t).2 := by
  -- by induction on the commands
  induction commands generalizing s t with
  | nil => exact ⟨rfl, h⟩
  | cons command rest ih =>
    -- Related states answer alike and stay related, also after a fault; the two mixed cases are
    -- what `Matches` excludes.
    have hmatches := hstep command s t h
    rw [session, session]
    cases hp : p command s with
    | ok answer s' =>
      cases hq : q command t with
      | ok answer' t' =>
        rw [hp, hq] at hmatches
        obtain ⟨rfl, hrest⟩ := hmatches
        obtain ⟨hanswers, hend⟩ := ih hrest
        exact ⟨congrArg (Except.ok answer :: ·) hanswers, hend⟩
      | error fault t' =>
        rw [hp, hq] at hmatches
        exact hmatches.elim
    | error fault s' =>
      cases hq : q command t with
      | ok answer' t' =>
        rw [hp, hq] at hmatches
        exact hmatches.elim
      | error fault' t' =>
        rw [hp, hq] at hmatches
        obtain ⟨rfl, hrest⟩ := hmatches
        obtain ⟨hanswers, hend⟩ := ih hrest
        exact ⟨congrArg (Except.error fault :: ·) hanswers, hend⟩

/-- Writing back a state that the reference tracks. -/
theorem Tracks.flush {source : Source} {s : State} {t : Snapshots} (hsource : source.NeverFails)
    (h : Tracks source s t) : ∃ s', World.flush s = .ok () s' ∧
      (∀ a, s'.world.source.accounts[a]? = t.now.account a) ∧
      s'.world.source.changes.toList = source.changes.toList ++
        t.now.dirty.toList.map fun a => Source.change a (t.now.account a) := by
  obtain ⟨cs, hlayered, rfl⟩ := h
  have hsame : s.world.source = source := hlayered.retains.source
  obtain ⟨hloaded, hshown⟩ := World.flushedSource_eq_shown hlayered.retains hlayered.respects
  obtain ⟨s', hflush⟩ := World.flush_of_neverFails (s := s) (hsame ▸ hsource)
  obtain ⟨events, rfl⟩ := World.eq_of_flush hflush
  refine ⟨_, hflush, hshown, ?_⟩
  change s.world.flushedSource.changes.toList = _
  rw [World.flushedSource, Source.appliedAll_changes, hsame]
  -- a marked account was loaded, so what is written is what is shown
  refine congrArg (source.changes.toList ++ ·) (List.map_congr_left fun a ha => ?_)
  rw [World.cached_eq_shown (hloaded a (Std.ExtTreeSet.mem_toList.mp ha))]
  rfl

/-- **The journaled cache refines plain snapshots.** Over a source that does not fail, every session
gets the answers of the reference, and has as many layers open as the reference has copies. A flush
then succeeds and leaves at every address what the reference holds there; it writes or deletes
exactly the addresses with a change that was not reverted, each once and in ascending order. -/
theorem session_refines_snapshots {source : Source} (hsource : source.NeverFails)
    (commands : List StoreCommand) :
    let (answers, s) := session StoreCommand.run commands (.ofSource source)
    let (expected, t) := session Snapshots.perform commands (.ofSource source)
    answers = expected ∧ s.journal.depth = t.copies.length ∧
      ∃ s', World.flush s = .ok () s' ∧
        (∀ a, s'.world.source.accounts[a]? = t.now.account a) ∧
        ∃ written : List Address, written.Pairwise (· < ·) ∧ (∀ a, a ∈ written ↔ a ∈ t.now.dirty) ∧
          s'.world.source.changes.toList = source.changes.toList ++
            written.map fun a => Source.change a (t.now.account a) := by
  obtain ⟨hanswers, htracks⟩ := session_matches
    (fun command s t => perform_matches hsource command (s := s) (t := t)) commands
    (tracks_ofSource source)
  -- what is written back is stated of the reference, so the layers are no longer needed
  obtain ⟨s', hflush, haccounts, hchanges⟩ := htracks.flush hsource
  obtain ⟨cs, hlayered, ht⟩ := htracks
  refine ⟨hanswers, ?_, s', hflush, haccounts, _, ?_, fun a => Std.ExtTreeSet.mem_toList, hchanges⟩
  · rw [hlayered.depth_eq, ht, List.length_map]
    exact Nat.zero_add _
  · rw [ht]
    exact World.dirty_toList_sorted _

/-- A session with a layer that is reverted: what it changed, created and marked is gone. -/
theorem reverted_session_refines_snapshots :
    let source : Source :=
      { accounts := (∅ : Std.ExtTreeMap Address Account).insert 1 { balance := 5 } }
    let commands : List StoreCommand :=
      [.access (.addBalance 1 2), .checkpoint, .access (.create 1), .access (.transfer 1 2 3),
        .access (.delete 3), .revert, .access (.account 1), .commit]
    source.NeverFails ∧
      (session StoreCommand.run commands (.ofSource source)).1 =
        (session Snapshots.perform commands (.ofSource source)).1 ∧
      ∃ s', World.flush (session StoreCommand.run commands (.ofSource source)).2 = .ok () s' :=
  have hsource : Source.NeverFails
      { accounts := (∅ : Std.ExtTreeMap Address Account).insert 1 { balance := 5 } } :=
        ⟨rfl, rfl, rfl⟩
  have h := session_refines_snapshots hsource
    [.access (.addBalance 1 2), .checkpoint, .access (.create 1), .access (.transfer 1 2 3),
      .access (.delete 3), .revert, .access (.account 1), .commit]
  ⟨hsource, h.1, h.2.2.imp fun _ h => h.1⟩

end EvmCore
