import SmscGateway.Common.Goroutine
import SmscGateway.Store.Writer

/-!
# Shutting the store down

`StoreSubmit`, `Close` and `batchWriteLoop` step by step. `StoreSubmit` reads
the `closed` flag and sends later; `Close` sets the flag and tells the writer
to drain; the writer drains the channel, closes it, flushes and exits. The
flag does not stop a call that has read it already: its send may come after
the writer has found the channel empty. The write then stays in the channel,
or the send panics once the channel is closed.

`shutdown_safe` says that this is all that can go wrong, next to a commit that
fails: the writer only logs it.
-/

namespace SmscGateway

open List

namespace Shutdown

/-! ## State and actions -/

/-- Where `batchWriteLoop` stands. -/
inductive Writer
  /-- In the outer `select`. -/
  | receiving
  /-- In the loop that drains the channel. -/
  | draining
  /-- Past that loop; the channel is still open. -/
  | drained
  /-- The channel is closed; the last batch is not flushed yet. -/
  | sealed
  | exited
  deriving DecidableEq

/-- Has the writer found the channel empty for the last time? -/
def Writer.isDone : Writer → Bool
  | receiving | draining => false
  | drained | sealed | exited => true

/-- The store, its two channels' states and the writer. -/
structure Store where
  submits : Submits
  stopChClosed : Bool
  writeChClosed : Bool
  writer : Writer
  dbClosed : Bool
  deriving DecidableEq

/-- A step of one of the three functions. -/
inductive Action
  /-- `StoreSubmit` up to its reading of the flag. -/
  | storeSubmit (r : SubmitRecord)
  /-- Its `select`. -/
  | send (op : WriteOp)
  /-- The synchronous fallback. -/
  | set (op : WriteOp)
  /-- `Close` sets the flag. -/
  | close
  | closeStopCh
  | wait
  | closeDB
  | batchWriteLoop
  deriving DecidableEq

/-- The case a `select` of the writer takes when several are ready. -/
inductive Ready
  | writeCh
  | ticker
  | stopCh
  deriving DecidableEq

/-- What the environment contributes. -/
structure Input where
  ready : Ready := .writeCh
  /-- Does the database take what it is given? -/
  written : Bool := true
  deriving DecidableEq

/-- What an observer sees. -/
inductive Obs
  /-- `StoreSubmit` returns nil. -/
  | returned (op : WriteOp)
  /-- `StoreSubmit` sends on the closed channel. -/
  | panicked (op : WriteOp)
  /-- The database takes a write. -/
  | wrote (op : WriteOp)
  deriving DecidableEq

/-- The writes the database has taken, in their order. -/
def writes (trace : List Obs) : List WriteOp :=
  trace.filterMap fun o => match o with
    | .wrote op => some op
    | _ => none

theorem writes_append (l m : List Obs) : writes (l ++ m) = writes l ++ writes m :=
  filterMap_append

theorem writes_map_wrote (ops : List WriteOp) : writes (ops.map .wrote) = ops := by
  simp only [writes, filterMap_map, Function.comp_def]
  exact filterMap_some

theorem mem_writes {trace : List Obs} {op : WriteOp} : op ∈ writes trace ↔ .wrote op ∈ trace := by
  rw [writes, mem_filterMap]
  constructor
  · rintro ⟨o, ho, hop⟩
    cases o with
    | wrote op' =>
      cases hop
      exact ho
    | returned op' => cases hop
    | panicked op' => cases hop
  · intro h
    exact ⟨_, h, rfl⟩

theorem commit_append (ops ops' : List WriteOp) (db : SortedMap Bytes SubmitRecord) :
    Submits.commit (ops ++ ops') db = Submits.commit ops' (Submits.commit ops db) :=
  foldl_append

/-! ## What the steps do -/

/-- The `flush` of the writer: a batch that could not be committed is
dropped. -/
def flush (s : Store) (written : Bool) : Store × List Obs :=
  if written then ({ s with submits := s.submits.flush }, s.submits.batch.map .wrote)
  else ({ s with submits := { s.submits with batch := [] } }, [])

/-- The writer puts a write it received in its batch. -/
def batched (s : Store) (op : WriteOp) (rest : List WriteOp) : Store :=
  { s with submits := { s.submits with writeCh := rest, batch := s.submits.batch ++ [op] } }

/-- The last flush of the writer, and its return. -/
def exit (s : Store) (written : Bool) : Store × List Obs :=
  ({ (flush s written).1 with writer := .exited }, (flush s written).2)

/-- One step of `batchWriteLoop`. -/
def batchWriteLoop (s : Store) (i : Input) : Option (Store × List Obs) :=
  match s.writer with
  | .receiving =>
    match i.ready with
    | .writeCh =>
      match s.submits.writeCh with
      | op :: rest =>
        let s' := batched s op rest
        some (if maxBatch ≤ s'.submits.batch.length then flush s' i.written else (s', []))
      | [] => if s.writeChClosed then some (exit s i.written) else none
    | .ticker => some (flush s i.written)
    | .stopCh => if s.stopChClosed then some ({ s with writer := .draining }, []) else none
  | .draining =>
    match s.submits.writeCh with
    | op :: rest => some (batched s op rest, [])
    | [] =>
      if s.writeChClosed then some (exit s i.written) else some ({ s with writer := .drained }, [])
  | .drained => some ({ s with writeChClosed := true, writer := .sealed }, [])
  | .sealed => some (exit s i.written)
  | .exited => none

/-- One step of any of the three functions. -/
def exec (s : Store) (i : Input) : Action → Option (Effect Store Action Obs)
  | .storeSubmit r =>
    let op : WriteOp := ⟨r.key, r.json⟩
    some { state := s, next := if s.submits.closed then [.set op] else [.send op] }
  | .send op =>
    if s.writeChClosed then some { state := s, seen := [.panicked op] }
    else if s.submits.writeCh.length < writeChCap then
      some
        { state := { s with submits := { s.submits with writeCh := s.submits.writeCh ++ [op] } }
          seen := [.returned op] }
    else some { state := s, next := [.set op] }
  | .set op =>
    -- on a closed database Set panics; otherwise its error is returned
    if i.written = false ∨ s.dbClosed then some { state := s }
    else
      some
        { state := { s with
            submits := { s.submits with db := s.submits.db.insert op.key op.data } }
          seen := [.wrote op, .returned op] }
  | .close =>
    some { state := { s with submits := { s.submits with closed := true } }, next := [.closeStopCh] }
  | .closeStopCh => some { state := { s with stopChClosed := true }, next := [.wait] }
  | .wait => if s.writer = .exited then some { state := s, next := [.closeDB] } else none
  | .closeDB => some { state := { s with dbClosed := true } }
  | .batchWriteLoop =>
    (batchWriteLoop s i).map fun r => { state := r.1, next := [.batchWriteLoop], seen := r.2 }

/-- Any number of `StoreSubmit` calls may start. -/
def entry : Action → Bool
  | .storeSubmit _ => true
  | _ => false

/-- The store as a program. -/
def program : Program Store Input Action Obs := ⟨entry, exec⟩

/-- The store over an empty data directory. -/
def Store.new : Store := ⟨.empty, false, false, .receiving, false⟩

/-- A running store, with the one `Close` that will end it. -/
def start : Conf Store Action Obs := { shared := .new, threads := [[.close], [.batchWriteLoop]] }

/-- A step is orderly: a send comes before the writer has found the channel
empty for the last time, and the database takes what the writer commits. -/
def Orderly (c : Conf Store Action Obs) (i : Input) : Action → Prop
  | .send _ => c.shared.writer.isDone = false
  | .batchWriteLoop => i.written = true
  | _ => True

instance (c : Conf Store Action Obs) (i : Input) : (a : Action) → Decidable (Orderly c i a)
  | .send _ => inferInstanceAs (Decidable (_ = _))
  | .batchWriteLoop => inferInstanceAs (Decidable (_ = _))
  | .storeSubmit _ | .set _ | .close | .closeStopCh | .wait | .closeDB => .isTrue trivial

/-- Where the acknowledged writes are, and what the writer leaves behind. -/
structure Sound (s : Store) (trace : List Obs) : Prop where
  db : s.submits.db = Submits.commit (writes trace) .empty
  kept : ∀ op, .returned op ∈ trace →
    .wrote op ∈ trace ∨ op ∈ s.submits.batch ∨ op ∈ s.submits.writeCh
  calm : ∀ op, .panicked op ∉ trace
  drained : s.writer.isDone = true → s.submits.writeCh = []
  flushed : s.writer = .exited → s.submits.batch = []
  sealed : s.writeChClosed = true → s.writer.isDone = true

namespace Sound

variable {s : Store} {trace : List Obs}

theorem start : Sound Store.new [] where
  db := rfl
  kept := by simp
  calm := by simp
  drained := by intro h; cases h
  flushed := by intro h; cases h
  sealed := by intro h; cases h

/-- Flushing moves the batch to the database. -/
theorem flush (h : Sound s trace) :
    Sound (flush s true).1 (trace ++ (flush s true).2) := by
  refine ⟨?_, ?_, ?_, h.drained, fun _ => rfl, h.sealed⟩
  · simp only [Shutdown.flush, if_true, Submits.flush, writes_append, writes_map_wrote,
      commit_append, ← h.db]
  · intro op hop
    simp only [Shutdown.flush, if_true, Submits.flush, mem_append] at hop ⊢
    have hop : .returned op ∈ trace := by
      rcases hop with hop | hop
      · exact hop
      · simp at hop
    rcases h.kept op hop with hw | hb | hq
    · exact .inl (.inl hw)
    · exact .inl (.inr (mem_map_of_mem hb))
    · exact .inr (.inr hq)
  · intro op hop
    simp only [Shutdown.flush, if_true, mem_append] at hop
    rcases hop with hop | hop
    · exact h.calm op hop
    · simp at hop

/-- A received write moves from the channel to the batch. -/
theorem batched (h : Sound s trace) {op : WriteOp} {rest : List WriteOp}
    (hch : s.submits.writeCh = op :: rest) : Sound (batched s op rest) trace := by
  -- the channel is not empty, so the writer is not past its drain
  have hdone : s.writer.isDone = false := by
    by_contra hd
    rw [h.drained (by simpa using hd)] at hch
    cases hch
  refine ⟨h.db, ?_, h.calm, ?_, ?_, h.sealed⟩
  · intro op' hop'
    rcases h.kept op' hop' with hw | hb | hq
    · exact .inl hw
    · exact .inr (.inl (mem_append_left _ hb))
    · rw [hch] at hq
      rcases mem_cons.mp hq with rfl | hq
      · exact .inr (.inl (mem_append_right _ mem_cons_self))
      · exact .inr (.inr hq)
  · intro hd
    rw [show (Shutdown.batched s op rest).writer = s.writer from rfl, hdone] at hd
    cases hd
  · intro he
    rw [show (Shutdown.batched s op rest).writer = s.writer from rfl] at he
    rw [he] at hdone
    cases hdone

/-- The writer may exit when the channel is empty. -/
theorem exit (h : Sound s trace) (hch : s.submits.writeCh = []) :
    Sound (exit s true).1 (trace ++ (exit s true).2) := by
  have hf := h.flush
  exact ⟨hf.db, hf.kept, hf.calm, fun _ => hch, fun _ => rfl, fun _ => rfl⟩

/-- **Every step of the writer is sound** when its commit succeeds. -/
theorem batchWriteLoop (h : Sound s trace) {i : Input} {r : Store × List Obs}
    (hi : i.written = true) (hr : batchWriteLoop s i = some r) :
    Sound r.1 (trace ++ r.2) := by
  rw [Shutdown.batchWriteLoop, hi] at hr
  have hnil : ∀ {s'}, Sound s' trace → Sound s' (trace ++ []) := by
    intro s' h'
    rwa [append_nil]
  cases hw : s.writer with
  | receiving =>
    simp only [hw] at hr
    split at hr
    · split at hr
      · rename_i op rest hch
        cases hr
        split
        · exact (h.batched hch).flush
        · exact hnil (h.batched hch)
      · rename_i hch
        obtain ⟨-, rfl⟩ := eq_of_guard hr
        exact h.exit hch
    · cases hr
      exact h.flush
    · obtain ⟨-, rfl⟩ := eq_of_guard hr
      have hopen : s.writeChClosed = false := by
        by_contra hc
        have hd := h.sealed (by simpa using hc)
        rw [hw] at hd
        cases hd
      refine hnil ⟨h.db, h.kept, h.calm, fun hd => (by cases hd), fun he => (by cases he), ?_⟩
      intro hc
      rw [show s.writeChClosed = true from hc] at hopen
      cases hopen
  | draining =>
    simp only [hw] at hr
    split at hr
    · rename_i op rest hch
      cases hr
      exact hnil (h.batched hch)
    · rename_i hch
      split at hr
      · cases hr
        exact h.exit hch
      · cases hr
        exact hnil ⟨h.db, h.kept, h.calm, fun _ => hch, fun he => (by cases he), fun _ => rfl⟩
  | drained =>
    simp only [hw] at hr
    cases hr
    have hch := h.drained (by rw [hw]; rfl)
    exact hnil ⟨h.db, h.kept, h.calm, fun _ => hch, fun he => (by cases he), fun _ => rfl⟩
  | sealed =>
    simp only [hw] at hr
    cases hr
    exact h.exit (h.drained (by rw [hw]; rfl))
  | exited =>
    simp only [hw] at hr
    cases hr

/-- A send that comes in time. -/
theorem send (h : Sound s trace) (op : WriteOp) (hdone : s.writer.isDone = false) :
    Sound { s with submits := { s.submits with writeCh := s.submits.writeCh ++ [op] } }
      (trace ++ [.returned op]) := by
  refine ⟨?_, ?_, ?_, ?_, h.flushed, h.sealed⟩
  · rw [writes_append]
    exact (append_nil (writes trace)).symm ▸ h.db
  · intro op' hop'
    rcases mem_append.mp hop' with hop' | hop'
    · rcases h.kept op' hop' with hw | hb | hq
      · exact .inl (mem_append_left _ hw)
      · exact .inr (.inl hb)
      · exact .inr (.inr (mem_append_left _ hq))
    · obtain rfl : op' = op := by simpa using hop'
      exact .inr (.inr (mem_append_right _ mem_cons_self))
  · intro op' hop'
    rcases mem_append.mp hop' with hop' | hop'
    · exact h.calm op' hop'
    · simp at hop'
  · intro hd
    rw [show s.writer.isDone = true from hd] at hdone
    cases hdone

/-- A synchronous write. -/
theorem set (h : Sound s trace) (op : WriteOp) :
    Sound { s with submits := { s.submits with db := s.submits.db.insert op.key op.data } }
      (trace ++ [.wrote op, .returned op]) := by
  refine ⟨?_, ?_, ?_, h.drained, h.flushed, h.sealed⟩
  · have hw : writes (trace ++ [.wrote op, .returned op]) = writes trace ++ [op] :=
      writes_append _ _
    rw [hw, commit_append, ← h.db]
    rfl
  · intro op' hop'
    rcases mem_append.mp hop' with hop' | hop'
    · rcases h.kept op' hop' with hw | hrest
      · exact .inl (mem_append_left _ hw)
      · exact .inr hrest
    · obtain rfl : op' = op := by simpa using hop'
      exact .inl (mem_append_right _ mem_cons_self)
  · intro op' hop'
    rcases mem_append.mp hop' with hop' | hop'
    · exact h.calm op' hop'
    · simp at hop'

/-- **Every orderly step is sound.** -/
theorem exec (h : Sound s trace) {c : Conf Store Action Obs} (hc : c.shared = s) {i : Input}
    {a : Action} {r : Effect Store Action Obs} (hok : Orderly c i a)
    (hr : exec s i a = some r) : Sound r.state (trace ++ r.seen) := by
  cases a with
  | storeSubmit rec =>
    cases hr
    rwa [append_nil]
  | send op =>
    have hdone : s.writer.isDone = false := hc ▸ hok
    simp only [Shutdown.exec] at hr
    split at hr
    · -- a closed channel would mean that the writer is past its drain
      rename_i hclosed
      rw [h.sealed hclosed] at hdone
      cases hdone
    · split at hr
      · cases hr
        exact h.send op hdone
      · cases hr
        rwa [append_nil]
  | set op =>
    simp only [Shutdown.exec] at hr
    split at hr
    · cases hr
      rwa [append_nil]
    · cases hr
      exact h.set op
  | close =>
    cases hr
    rw [append_nil]
    exact ⟨h.db, h.kept, h.calm, h.drained, h.flushed, h.sealed⟩
  | closeStopCh =>
    cases hr
    rw [append_nil]
    exact ⟨h.db, h.kept, h.calm, h.drained, h.flushed, h.sealed⟩
  | wait =>
    simp only [Shutdown.exec] at hr
    obtain ⟨-, rfl⟩ := eq_of_guard hr
    rwa [append_nil]
  | closeDB =>
    cases hr
    rw [append_nil]
    exact ⟨h.db, h.kept, h.calm, h.drained, h.flushed, h.sealed⟩
  | batchWriteLoop =>
    obtain ⟨x, hx, rfl⟩ := Option.map_eq_some_iff.mp hr
    exact h.batchWriteLoop hok hx

end Sound

/-- What every orderly run keeps. -/
theorem reaches_sound {c : Conf Store Action Obs}
    (h : program.Reaches (Program.When Orderly) start c) : Sound c.shared c.trace := by
  refine h.invariant (I := fun c => Sound c.shared c.trace) Sound.start ?_
  intro c e c' hc hok hs
  rcases Program.step_cases hs with
    ⟨a, -, -, hsh, -, htr⟩ | ⟨i, input, a, r, rest, rfl, hhead, hr, -, hsh, -, htr⟩
  · rwa [hsh, htr]
  · rw [hsh, htr]
    exact hc.exec rfl (hok a hhead) hr

/-! ## The result -/

/-- **Shutting down is safe as long as no send comes late.** In every orderly
run no `StoreSubmit` sends on the closed channel, and once the writer has
exited the database has taken every write whose `StoreSubmit` returned nil;
what it holds is what the writes it took leave. -/
theorem shutdown_safe {c : Conf Store Action Obs}
    (h : program.Reaches (Program.When Orderly) start c) :
    (∀ op, .panicked op ∉ c.trace) ∧
    (c.shared.writer = .exited → ∀ op, .returned op ∈ c.trace → op ∈ writes c.trace) ∧
    c.shared.submits.db = Submits.commit (writes c.trace) .empty := by
  have hs := reaches_sound h
  refine ⟨hs.calm, ?_, hs.db⟩
  intro hexit op hop
  have hch := hs.drained (by rw [hexit]; rfl)
  have hbatch := hs.flushed hexit
  rcases hs.kept op hop with hw | hb | hq
  · exact mem_writes.mpr hw
  · rw [hbatch] at hb
    cases hb
  · rw [hch] at hq
    cases hq

/-- The write of a record. -/
def write : WriteOp := ⟨Submits.acceptedRecord.key, Submits.acceptedRecord.json⟩

/-- Goroutines 0 and 1 shut the store down, from the closing of the flag to
the writer's exit. -/
def shutDown : List (Event Input Action) :=
  [.run 0 {}, .run 0 {}, .run 1 { ready := .stopCh }, .run 1 {}, .run 1 {}, .run 1 {}]

/-- A `StoreSubmit` that has sent before the store is shut down. -/
def earlySend : List (Event Input Action) :=
  [.start (.storeSubmit Submits.acceptedRecord), .run 2 {}, .run 2 {}, .run 1 {}] ++ shutDown

theorem early_send_is_written :
    ∃ c, program.Reaches (Program.When Orderly) start c ∧ c.shared.writer = .exited ∧
      .returned write ∈ c.trace ∧ write ∈ writes c.trace := by
  exact Program.exists_reached earlySend (by decide) fun h => ⟨by decide, by decide, (shutdown_safe
    h).2.1 (by decide) write (by decide)⟩

/-- A `StoreSubmit` that has read the flag, and sends when the channel is
closed. -/
def closedSend : List (Event Input Action) :=
  [.start (.storeSubmit Submits.acceptedRecord), .run 2 {}] ++ shutDown ++ [.run 2 {}]

/-- A `StoreSubmit` that sends between the drain and the closing of the
channel. -/
def lateSend : List (Event Input Action) :=
  [.start (.storeSubmit Submits.acceptedRecord), .run 2 {}, .run 0 {}, .run 0 {},
    .run 1 { ready := .stopCh }, .run 1 {}, .run 2 {}, .run 1 {}, .run 1 {}]

theorem late_sends_fail :
    (∃ c, program.Reaches Program.Anything start c ∧ .panicked write ∈ c.trace) ∧
    (∃ c, program.Reaches Program.Anything start c ∧ c.shared.writer = .exited ∧
      .returned write ∈ c.trace ∧ write ∉ writes c.trace ∧
      c.shared.submits.db.find? write.key = none) := by
  have hclosed := program.reaches_outcome Program.Anything start closedSend (by decide)
  have hlate := program.reaches_outcome Program.Anything start lateSend (by decide)
  exact ⟨⟨_, hclosed, by decide⟩, ⟨_, hlate, by decide, by decide, by decide, by decide⟩⟩

end Shutdown

end SmscGateway
