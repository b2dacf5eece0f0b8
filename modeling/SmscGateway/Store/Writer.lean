import SmscGateway.Store.Model

/-!
# The asynchronous writer against a synchronous store

`StoreSubmit` goes through a channel and a batch, deletions and overflow
writes go to the database at once. What the database will hold for a key
once everything is flushed is fixed at any moment: the last write of the key
that is still under way, or else what is stored (`view`). Receives and
flushes leave that value alone. A call changes it to its own effect when it
is queued or when no write of its key is under way; otherwise the write
under way wins over it.

So the store ends up as if the calls had been executed directly exactly when
the last call on each key was not overtaken in this way.
-/

namespace SmscGateway

open List

namespace Submits

/-! ## Calls and runs -/

/-- A call a goroutine makes on the submit records. -/
inductive Call
  | storeSubmit (r : SubmitRecord)
  | deleteSubmit (smscMsgID : Bytes)
  | deleteSubmitByGwID (gwMsgID : Bytes)

namespace Call

/-- The key a call addresses. -/
def key : Call → Bytes
  | storeSubmit r => r.key
  | deleteSubmit s => msgKey s
  | deleteSubmitByGwID g => gwKey g

/-- What a call means its key to hold. -/
def effect : Call → Option SubmitRecord
  | storeSubmit r => some r.json
  | deleteSubmit _ => none
  | deleteSubmitByGwID _ => none

/-- The call on the store. -/
def perform (s : Submits) : Call → Submits
  | storeSubmit r => s.storeSubmit r
  | deleteSubmit m => s.deleteSubmit m
  | deleteSubmitByGwID g => s.deleteSubmitByGwID g

/-- The call on a database without a writer in front of it. -/
def direct (db : SortedMap Bytes SubmitRecord) : Call → SortedMap Bytes SubmitRecord
  | storeSubmit r => db.insert r.key r.json
  | deleteSubmit m => db.erase (msgKey m)
  | deleteSubmitByGwID g => db.erase (gwKey g)

/-- The call is sent through the channel. -/
def Queued (s : Submits) : Call → Prop
  | storeSubmit _ => s.Queues
  | _ => False

end Call

/-- What may happen next: a call, the writer receiving from the channel, or
the writer's ticker. -/
inductive Step
  | call (c : Call)
  | receive
  | tick

/-- One step; a receive needs something in the channel. -/
def step (s : Submits) : Step → Option Submits
  | .call c => some (c.perform s)
  | .receive => s.receive
  | .tick => some s.flush

/-- A sequence of steps. -/
def run (s : Submits) (es : List Step) : Option Submits := es.foldlM step s

/-- The calls of a run, in program order. -/
def calls (es : List Step) : List Call :=
  es.filterMap fun e => match e with
    | .call c => some c
    | _ => none

/-- Nothing is queued and nothing waits for a flush. -/
def Idle (s : Submits) : Prop := s.writeCh = [] ∧ s.batch = []
  deriving Decidable

/-! ## What a key will hold -/

/-- The last write of a key in a list of writes. -/
def lastWrite (ops : List WriteOp) (k : Bytes) : Option SubmitRecord :=
  (ops.findRev? fun op => op.key = k).map WriteOp.data

/-- The last write of a key that is batched or queued. -/
def pendingWrite (s : Submits) (k : Bytes) : Option SubmitRecord :=
  lastWrite (s.batch ++ s.writeCh) k

/-- What a key holds once everything is flushed. -/
def view (s : Submits) (k : Bytes) : Option SubmitRecord :=
  (s.pendingWrite k).or (s.db.find? k)

/-- The call is not overtaken: it is queued itself, or no write of its key
is under way, or the last one stores what the call stores. -/
def Settles (s : Submits) (c : Call) : Prop :=
  c.Queued s ∨ ∀ d, s.pendingWrite c.key = some d → c.effect = some d

@[simp] theorem lastWrite_nil (k : Bytes) : lastWrite [] k = none := rfl

theorem lastWrite_append (ops ops' : List WriteOp) (k : Bytes) :
    lastWrite (ops ++ ops') k = (lastWrite ops' k).or (lastWrite ops k) := by
  simp only [lastWrite, findRev?_eq_find?_reverse, reverse_append, find?_append]
  cases ops'.reverse.find? fun op => op.key = k <;> simp

theorem lastWrite_singleton (op : WriteOp) (k : Bytes) :
    lastWrite [op] k = if op.key = k then some op.data else none := by
  by_cases h : op.key = k <;> simp [lastWrite, findRev?, h]

/-- **The last write of a key wins.** -/
theorem find?_commit (ops : List WriteOp) (db : SortedMap Bytes SubmitRecord) (k : Bytes) :
    (commit ops db).find? k = (lastWrite ops k).or (db.find? k) := by
  induction ops generalizing db with
  | nil => rfl
  | cons op ops ih =>
    rw [commit, foldl_cons, ← commit, ih, SortedMap.find?_insert,
      ← singleton_append, lastWrite_append, lastWrite_singleton, Option.or_assoc]
    by_cases h : op.key = k
    · simp [h]
    · simp [h, Ne.symm h]

theorem view_of_idle {s : Submits} (h : s.Idle) (k : Bytes) : s.view k = s.db.find? k := by
  simp [view, pendingWrite, h.1, h.2]

theorem view_flush (s : Submits) (k : Bytes) : s.flush.view k = s.view k := by
  simp only [view, pendingWrite, flush, nil_append, find?_commit, lastWrite_append,
    Option.or_assoc]

theorem view_receive {s s' : Submits} (h : s.receive = some s') (k : Bytes) :
    s'.view k = s.view k := by
  rw [receive] at h
  split at h
  · cases h
  · rename_i op rest hch
    have hmove : ({ s with writeCh := rest, batch := s.batch ++ [op] } : Submits).view k =
        s.view k := by
      simp [view, pendingWrite, hch]
    cases h
    split
    · rw [view_flush, hmove]
    · exact hmove

theorem perform_eq (s : Submits) (c : Call) :
    (∃ r, c = .storeSubmit r ∧ c.Queued s ∧
      c.perform s = { s with writeCh := s.writeCh ++ [⟨c.key, r.json⟩] }) ∨
    (¬ c.Queued s ∧ c.perform s = { s with db := c.direct s.db }) := by
  cases c with
  | storeSubmit r =>
    by_cases hq : s.Queues
    · exact .inl ⟨r, rfl, hq, by simp [Call.perform, storeSubmit, hq, Call.key]⟩
    · exact .inr ⟨hq, by simp [Call.perform, storeSubmit, hq, Call.direct]⟩
  | deleteSubmit | deleteSubmitByGwID => exact .inr ⟨not_false, rfl⟩

theorem find?_direct (db : SortedMap Bytes SubmitRecord) (c : Call) (k : Bytes) :
    (c.direct db).find? k = if k = c.key then c.effect else db.find? k := by
  by_cases h : k = c.key
  · rw [if_pos h]
    cases c <;> simp [Call.direct, Call.effect, h, Call.key]
  · rw [if_neg h]
    cases c <;> simp only [Call.key] at h <;> simp [Call.direct, h]

theorem view_perform_of_ne {s : Submits} {c : Call} {k : Bytes} (h : k ≠ c.key) :
    (c.perform s).view k = s.view k := by
  rcases perform_eq s c with ⟨r, -, -, heq⟩ | ⟨-, heq⟩
  · simp [heq, view, pendingWrite, ← append_assoc, lastWrite_append _ [_],
      lastWrite_singleton, Ne.symm h]
  · simp [heq, view, pendingWrite, find?_direct, h]

/-- **A call takes effect unless it is overtaken.** -/
theorem view_perform_eq_effect_iff (s : Submits) (c : Call) :
    (c.perform s).view c.key = c.effect ↔ s.Settles c := by
  rcases perform_eq s c with ⟨r, rfl, hq, heq⟩ | ⟨hq, heq⟩
  · simp [heq, view, pendingWrite, ← append_assoc, lastWrite_append _ [_],
      lastWrite_singleton, Call.effect, Settles, hq]
  · have hview : (c.perform s).view c.key = (s.pendingWrite c.key).or c.effect := by
      simp [heq, view, pendingWrite, find?_direct]
    rw [hview, Settles]
    cases hp : s.pendingWrite c.key with
    | none => simp
    | some d => simp [hq, eq_comm]

/-! ## Runs -/

theorem run_append (s : Submits) (es es' : List Step) :
    s.run (es ++ es') = (s.run es).bind fun s' => s'.run es' := by
  simp [run]

theorem run_cons (s : Submits) (e : Step) (es : List Step) :
    s.run (e :: es) = (s.step e).bind fun s' => s'.run es := by
  simp [run]

@[simp] theorem calls_append (es es' : List Step) :
    calls (es ++ es') = calls es ++ calls es' := by
  simp [calls]

@[simp] theorem calls_cons_call (c : Call) (es : List Step) :
    calls (.call c :: es) = c :: calls es := by
  simp [calls]

/-- A run that does not call on a key leaves what it will hold alone. -/
theorem view_run {s s' : Submits} {es : List Step} {k : Bytes} (h : s.run es = some s')
    (hno : ∀ c ∈ calls es, c.key ≠ k) : s'.view k = s.view k := by
  induction es generalizing s with
  | nil => rw [Option.some.inj h]
  | cons e es ih =>
    rw [run_cons] at h
    obtain ⟨s₁, hs₁, hrest⟩ := Option.bind_eq_some_iff.mp h
    have hno' : ∀ c ∈ calls es, c.key ≠ k := fun c hc => hno c (by
      cases e <;> simp_all [calls])
    rw [ih hrest hno']
    cases e with
    | call c =>
      cases hs₁
      exact view_perform_of_ne (hno c (by simp)).symm
    | receive => exact view_receive hs₁ k
    | tick =>
      cases hs₁
      exact view_flush s k

theorem find?_foldl_direct {db : SortedMap Bytes SubmitRecord} {cs : List Call} {k : Bytes}
    (hno : ∀ c ∈ cs, c.key ≠ k) : (cs.foldl Call.direct db).find? k = db.find? k := by
  induction cs generalizing db with
  | nil => rfl
  | cons c cs ih =>
    rw [foldl_cons, ih fun c' hc' => hno c' (mem_cons_of_mem _ hc'), find?_direct,
      if_neg (hno c mem_cons_self).symm]

/-- A run calls on a key for the last time, or never. -/
theorem last_call (es : List Step) (k : Bytes) :
    (∀ c ∈ calls es, c.key ≠ k) ∨
    ∃ es₁ c es₂, es = es₁ ++ .call c :: es₂ ∧ c.key = k ∧ ∀ c' ∈ calls es₂, c'.key ≠ k := by
  induction es with
  | nil => exact .inl (by simp [calls])
  | cons e es ih =>
    rcases ih with hno | ⟨es₁, c, es₂, rfl, hk, hno⟩
    · by_cases he : ∃ c, e = .call c ∧ c.key = k
      · obtain ⟨c, rfl, hk⟩ := he
        exact .inr ⟨[], c, es, rfl, hk, hno⟩
      · refine .inl fun c hc => ?_
        rw [← singleton_append, calls_append, mem_append] at hc
        rcases hc with hc | hc
        · intro hk
          cases e with
          | call d =>
            obtain rfl : c = d := by simpa [calls] using hc
            exact he ⟨c, rfl, hk⟩
          | receive => simp [calls] at hc
          | tick => simp [calls] at hc
        · exact hno c hc
    · exact .inr ⟨e :: es₁, c, es₂, rfl, hk, hno⟩

/-- What the last call on a key leaves there. -/
theorem find?_after_last_call {s₀ s₁ s : Submits} {es₁ es₂ : List Step} {c : Call}
    (hidle : s.Idle) (h₁ : s₀.run es₁ = some s₁)
    (h : s₀.run (es₁ ++ .call c :: es₂) = some s) (hno : ∀ c' ∈ calls es₂, c'.key ≠ c.key) :
    s.db.find? c.key = (c.perform s₁).view c.key := by
  rw [run_append, h₁, Option.bind_some, run_cons] at h
  obtain ⟨s₂, hs₂, hrest⟩ := Option.bind_eq_some_iff.mp h
  cases hs₂
  rw [← view_of_idle hidle, view_run hrest hno]

/-- **The asynchronous store agrees with a synchronous one exactly when no
key's last call was overtaken.** The run starts and ends with nothing under
way; calls, receives and flushes are interleaved in any order. -/
theorem run_eq_direct_iff {s₀ s : Submits} {es : List Step} (h₀ : s₀.Idle) (hidle : s.Idle)
    (h : s₀.run es = some s) :
    s.db = (calls es).foldl Call.direct s₀.db ↔
      ∀ es₁ c es₂ s₁, es = es₁ ++ .call c :: es₂ → (∀ c' ∈ calls es₂, c'.key ≠ c.key) →
        s₀.run es₁ = some s₁ → s₁.Settles c := by
  have hdirect : ∀ es₁ c es₂, es = es₁ ++ .call c :: es₂ → (∀ c' ∈ calls es₂, c'.key ≠ c.key) →
      ((calls es).foldl Call.direct s₀.db).find? c.key = c.effect := by
    rintro es₁ c es₂ rfl hno
    rw [calls_append, calls_cons_call, foldl_append, foldl_cons,
      find?_foldl_direct hno, find?_direct, if_pos rfl]
  constructor
  · rintro heq es₁ c es₂ s₁ rfl hno h₁
    rw [← view_perform_eq_effect_iff, ← find?_after_last_call hidle h₁ h hno, heq]
    exact hdirect es₁ c es₂ rfl hno
  · intro hall
    refine SortedMap.ext_find? fun k => ?_
    rcases last_call es k with hno | ⟨es₁, c, es₂, rfl, rfl, hno⟩
    · rw [find?_foldl_direct hno, ← view_of_idle hidle, view_run h hno, view_of_idle h₀]
    · obtain ⟨s₁, h₁, -⟩ := Option.bind_eq_some_iff.mp (run_append s₀ es₁ _ ▸ h)
      rw [find?_after_last_call hidle h₁ h hno, hdirect es₁ c es₂ rfl hno]
      exact (view_perform_eq_effect_iff s₁ c).mpr (hall es₁ c es₂ s₁ rfl hno h₁)

/-! ## The record that outlives its deletion -/

/-- The record `HandleSubmit` stores before the SMSC's id is known. -/
def acceptedRecord : SubmitRecord :=
  ⟨ascii "GW-1", [], ascii "engine", 1, ascii "27820000001", ascii "100", [], 0⟩

/-- A message accepted and forwarded within one tick of the writer: its `gw:`
record is deleted while the write is still queued, and flushed afterwards. -/
def quickForward : List Step :=
  [.call (.storeSubmit acceptedRecord), .call (.deleteSubmitByGwID (ascii "GW-1")), .receive, .tick]

theorem quickForward_resurrects :
    ∃ s, Submits.empty.run quickForward = some s ∧ s.Idle ∧
      s.db ≠ (calls quickForward).foldl Call.direct Submits.empty.db :=
  ⟨⟨SortedMap.empty.insert (gwKey (ascii "GW-1")) acceptedRecord, [], [], false⟩,
    by decide, by decide, by decide⟩

/-- The same calls with the flush before the deletion. -/
def slowForward : List Step :=
  [.call (.storeSubmit acceptedRecord), .receive, .tick, .call (.deleteSubmitByGwID (ascii "GW-1"))]

theorem slowForward_agrees_iff :
    Submits.empty.run slowForward = some Submits.empty ∧
    (Submits.empty.db = (calls slowForward).foldl Call.direct Submits.empty.db ↔
      ∀ es₁ c es₂ s₁, slowForward = es₁ ++ .call c :: es₂ →
        (∀ c' ∈ calls es₂, c'.key ≠ c.key) → Submits.empty.run es₁ = some s₁ → s₁.Settles c) :=
  ⟨by decide, run_eq_direct_iff (by decide) (by decide) (by decide)⟩

end Submits

end SmscGateway
