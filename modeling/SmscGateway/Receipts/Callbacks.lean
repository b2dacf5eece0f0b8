import SmscGateway.Gateway.Step

/-!
# Callbacks

A REST message may come with a callback URL. Each receipt of the message, and
the gateway giving up on it, is then reported by a POST to that URL; a POST that
fails is repeated later by `drainCallbackRetries`. What there is between the
attempts is the `callback:` record of the message, with a counter, and one
`callback-retry:` marker for each attempt that failed.

Calls of `deliverDLRCallback` and the turns of the retry loop are single steps
here (`Event`), in any order and with restarts between them.
-/

namespace SmscGateway

open List SortedMap

namespace Callbacks

/-! ## The code -/

/-- The delays of `enqueueCallbackRetry`. -/
def delays : List ℕ := [5 * second, 30 * second, 180 * second]

/-- The key of a marker. -/
def retryKey (nextAttempt : Time) (gwMsgID : Bytes) : Bytes :=
  ascii "callback-retry:" ++ decimal nextAttempt ++ 58 :: gwMsgID

/-- The record of the next attempt; there is none if the table of delays has no
entry for it. -/
def scheduled (now : Time) (cb : CallbackRecord) : Option CallbackRecord :=
  delays[cb.retries]?.map fun delay =>
    { cb with retries := cb.retries + 1, nextAttempt := now + delay }

/-- `enqueueCallbackRetry`. It panics when the table is indexed out of range. -/
def enqueueCallbackRetry (store : MessageStore) (now : Time) (gwMsgID : Bytes)
    (cb : CallbackRecord) : Option MessageStore :=
  if 3 ≤ cb.retries then some { store with callbacks := store.callbacks.erase gwMsgID }
  else
    (scheduled now cb).map fun cb' =>
      { store with
        callbackRetries := store.callbackRetries.insert (retryKey cb'.nextAttempt gwMsgID) cb'
        callbacks := store.callbacks.insert gwMsgID cb' }

/-- What follows a POST, in `deliverDLRCallback` and in `drainCallbackRetries`. -/
def afterPost (store : MessageStore) (now : Time) (posted : Bool) (gwMsgID : Bytes)
    (cb : CallbackRecord) : Option MessageStore :=
  if posted then some { store with callbacks := store.callbacks.erase gwMsgID }
  else enqueueCallbackRetry store now gwMsgID cb

/-- What is to be reported: a receipt of the message with its status, or that
the gateway gave up on it. -/
structure Notice where
  gwMsgID : Bytes
  status : Bytes
  deriving DecidableEq

/-- A POST, and the notice it is made for. -/
structure Post where
  url : Bytes
  payload : DLRCallbackPayload
  posted : Bool
  notice : Notice
  deriving DecidableEq

/-- What `drainCallbackRetries` collects of a marker, and the notice whose
report the marker stands for. The notice is in no record and no code reads it. -/
structure Item where
  key : Bytes
  cb : CallbackRecord
  notice : Notice
  deriving DecidableEq

structure State where
  store : MessageStore := .empty
  /-- The destination and source address that go south with a message and come
  back to `sendSyntheticDLR`. -/
  parcels : SortedMap Bytes (Bytes × Bytes) := .empty
  /-- The markers the retry loop still has to process. -/
  toProcess : List Item := []
  /-- The notice of each marker. -/
  notices : SortedMap Bytes Notice := .empty

/-- `postCallback` and what follows, for the record that was just read. -/
def post (s : State) (i : Input) (gwMsgID : Bytes) (cb : CallbackRecord)
    (payload : DLRCallbackPayload) (n : Notice) : Option (State × List Post) :=
  (afterPost s.store i.later i.posted gwMsgID cb).map fun store =>
    ({ s with
        store
        notices := match scheduled i.later cb with
          | some cb' =>
            if i.posted then s.notices
            else s.notices.insert (retryKey cb'.nextAttempt gwMsgID) n
          | none => s.notices },
      [⟨cb.callbackURL, payload, i.posted, n⟩])

/-- `deliverDLRCallback`. -/
def deliverDLRCallback (s : State) (i : Input) (n : Notice) (destAddr sourceAddr : Bytes) :
    Option (State × List Post) :=
  match s.store.callbacks.find? n.gwMsgID with
  | none => some (s, [])
  | some cb =>
    post s i n.gwMsgID cb ⟨n.gwMsgID, n.status, destAddr, sourceAddr, cb.reference, i.now⟩ n

/-- One turn of the second loop of `drainCallbackRetries`. The payload has no
addresses, and its status is always the same. -/
def processRetry (s : State) (i : Input) (item : Item) : Option (State × List Post) :=
  let store := { s.store with callbackRetries := s.store.callbackRetries.erase item.key }
  match store.callbacks.find? item.cb.gwMsgID with
  | none => some ({ s with store }, [])
  | some cb =>
    post { s with store } i cb.gwMsgID cb
      ⟨cb.gwMsgID, ascii "DELIVRD", [], [], cb.reference, i.now⟩ item.notice

/-- The first loop of `drainCallbackRetries`: the markers that are due. -/
def collect (s : State) (now : Time) : List Item :=
  (s.store.callbackRetries.entries.filter fun e => e.2.nextAttempt < now).map fun e =>
    ⟨e.1, e.2, (s.notices.find? e.1).getD ⟨e.2.gwMsgID, []⟩⟩

/-- What can happen. -/
inductive Event
  /-- A REST message is accepted under an id. -/
  | accept (gwMsgID : Bytes) (m : SMSSubmitRequest)
  /-- `handleDLR` has matched a receipt with a message. -/
  | handleDLR (i : Input) (gwMsgID status sourceAddr destAddr : Bytes)
  /-- The gateway gives up on a message. -/
  | sendSyntheticDLR (i : Input) (gwMsgID : Bytes)
  /-- The ticker fires. -/
  | drainCallbackRetries (now : Time)
  /-- The retry loop takes the next marker. -/
  | retry (i : Input)
  | restart

def step (s : State) : Event → Option (State × List Post)
  | .accept gwMsgID m =>
    some
      ({ s with
          store :=
            if m.callbackURL = [] then s.store
            else { s.store with
              callbacks := s.store.callbacks.insert gwMsgID
                { gwMsgID, callbackURL := m.callbackURL, reference := m.reference } }
          parcels := s.parcels.insert gwMsgID (m.toAddr, m.fromAddr) }, [])
  | .handleDLR i gwMsgID status sourceAddr destAddr =>
    deliverDLRCallback s i ⟨gwMsgID, status⟩ destAddr sourceAddr
  | .sendSyntheticDLR i gwMsgID =>
    match s.parcels.find? gwMsgID with
    | none => some (s, [])
    | some (destAddr, sourceAddr) =>
      deliverDLRCallback s i ⟨gwMsgID, undeliv⟩ destAddr sourceAddr
  | .drainCallbackRetries now =>
    -- a tick that finds the loop busy is lost
    some (if s.toProcess = [] then { s with toProcess := collect s now } else s, [])
  | .retry i =>
    match s.toProcess with
    | [] => some (s, [])
    | item :: rest => processRetry { s with toProcess := rest } i item
  | .restart => some ({ s with toProcess := [] }, [])

/-- One more event. -/
def extend (x : State × List Post) (e : Event) : Option (State × List Post) :=
  (step x.1 e).map fun y => (y.1, x.2 ++ y.2)

/-- The state and the POSTs after a history of events; `none` is a panic. -/
def run (es : List Event) : Option (State × List Post) := es.foldlM extend ({}, [])

theorem run_append (es es' : List Event) :
    run (es ++ es') = (run es).bind fun x => es'.foldlM extend x :=
  foldlM_append

theorem run_concat (es : List Event) (e : Event) :
    run (es ++ [e]) = (run es).bind fun x => extend x e := by
  rw [run_append]
  congr 1
  funext x
  exact foldlM_cons.trans (bind_pure _)

/-! ## One step -/

variable {n : ℕ} {cb : CallbackRecord} {i : Input} {g : Bytes} {posts : List Post}

/-- The table has a delay for every attempt that is scheduled, the one the
gateway's own `postCallback` goes by. -/
theorem delays_get (h : n < 3) : delays[n]? = some (callbackDelay n) := by
  interval_cases n <;> rfl

/-- The two callers do what the gateway's `postCallback` does. -/
theorem afterPost_eq (store : MessageStore) (i : Input) {gwMsgID : Bytes}
    (hkey : cb.gwMsgID = gwMsgID) : afterPost store i.later i.posted gwMsgID cb =
      some (postCallback store { i with now := i.later } cb) := by
  subst hkey
  unfold afterPost enqueueCallbackRetry postCallback
  by_cases hposted : i.posted = true
  · simp [hposted]
  · by_cases hretries : 3 ≤ cb.retries
    · simp [hretries, hposted]
    · simp [hretries, hposted, scheduled, delays_get (not_le.mp hretries), retryKey]

/-- The state after a POST for the record `cb`. -/
def attempted (s : State) (i : Input) (cb : CallbackRecord) (n : Notice) : State :=
  { s with
    store := postCallback s.store { i with now := i.later } cb
    notices := match scheduled i.later cb with
      | some cb' =>
        if i.posted then s.notices
        else s.notices.insert (retryKey cb'.nextAttempt cb.gwMsgID) n
      | none => s.notices }

theorem post_eq (s : State) (i : Input) {gwMsgID : Bytes} (hkey : cb.gwMsgID = gwMsgID)
    (payload : DLRCallbackPayload) (n : Notice) : post s i gwMsgID cb payload n =
      some (attempted s i cb n, [⟨cb.callbackURL, payload, i.posted, n⟩]) := by
  subst hkey
  rw [post, afterPost_eq _ _ rfl]
  rfl

/-- Every record is kept under the id of its message. -/
def Keyed (s : State) : Prop :=
  ∀ g cb, s.store.callbacks.find? g = some cb → cb.gwMsgID = g

/-- The event is a receipt of the message, or the gateway giving up on it, and
passes on these addresses. -/
inductive Reporting (s : State) (i : Input) (n : Notice) (destAddr sourceAddr : Bytes) :
    Event → Prop
  | receipt : Reporting s i n destAddr sourceAddr
      (.handleDLR i n.gwMsgID n.status sourceAddr destAddr)
  | failure (hstatus : n.status = undeliv)
      (hparcel : s.parcels.find? n.gwMsgID = some (destAddr, sourceAddr)) :
      Reporting s i n destAddr sourceAddr (.sendSyntheticDLR i n.gwMsgID)

/-- The state in which the loop has taken the first marker. -/
def taken (s : State) (item : Item) (rest : List Item) : State :=
  { s with
    store := { s.store with callbackRetries := s.store.callbackRetries.erase item.key }
    toProcess := rest }

/-- **What an event does.** -/
inductive Moves (s : State) : Event → State → List Post → Prop
  | accepts (g : Bytes) (m : SMSSubmitRequest) :
      Moves s (.accept g m)
        { s with
          store :=
            if m.callbackURL = [] then s.store
            else { s.store with
              callbacks := s.store.callbacks.insert g
                { gwMsgID := g, callbackURL := m.callbackURL, reference := m.reference } }
          parcels := s.parcels.insert g (m.toAddr, m.fromAddr) } []
  | reports {e : Event} {i : Input} {n : Notice} {d f : Bytes} {cb : CallbackRecord}
      (he : Reporting s i n d f e) (hcb : s.store.callbacks.find? n.gwMsgID = some cb) :
      Moves s e (attempted s i cb n)
        [⟨cb.callbackURL, ⟨n.gwMsgID, n.status, d, f, cb.reference, i.now⟩, i.posted, n⟩]
  /-- There is no callback to make. -/
  | unregistered {e : Event} {i : Input} {n : Notice} {d f : Bytes} (he : Reporting s i n d f e)
      (hcb : s.store.callbacks.find? n.gwMsgID = none) : Moves s e s []
  | unknown (i : Input) (g : Bytes) : Moves s (.sendSyntheticDLR i g) s []
  | collects {now : Time} (hidle : s.toProcess = []) :
      Moves s (.drainCallbackRetries now) { s with toProcess := collect s now } []
  | busy (now : Time) : Moves s (.drainCallbackRetries now) s []
  | retries {i : Input} {item : Item} {rest : List Item} {cb : CallbackRecord}
      (hnext : s.toProcess = item :: rest)
      (hcb : s.store.callbacks.find? item.cb.gwMsgID = some cb) :
      Moves s (.retry i) (attempted (taken s item rest) i cb item.notice)
        [⟨cb.callbackURL, ⟨cb.gwMsgID, ascii "DELIVRD", [], [], cb.reference, i.now⟩, i.posted,
          item.notice⟩]
  | outdated {i : Input} {item : Item} {rest : List Item} (hnext : s.toProcess = item :: rest)
      (hcb : s.store.callbacks.find? item.cb.gwMsgID = none) :
      Moves s (.retry i) (taken s item rest) []
  | nothingDue {i : Input} (hnext : s.toProcess = []) : Moves s (.retry i) s []
  | restarts : Moves s .restart { s with toProcess := [] } []

variable {s s' : State} {e : Event} {ps : List Post}

theorem deliverDLRCallback_moves (hkeyed : Keyed s) {n : Notice} {d f : Bytes}
    (he : Reporting s i n d f e) :
    ∃ s' ps, deliverDLRCallback s i n d f = some (s', ps) ∧ Moves s e s' ps := by
  cases hcb : s.store.callbacks.find? n.gwMsgID with
  | none =>
    refine ⟨s, [], ?_, .unregistered he hcb⟩
    rw [deliverDLRCallback, hcb]
  | some cb =>
    refine ⟨_, _, ?_, .reports he hcb⟩
    rw [deliverDLRCallback, hcb]
    exact post_eq s i (hkeyed _ _ hcb) _ n

/-- **No event makes the gateway panic**: the table of delays has an entry
whenever it is asked for one. -/
theorem step_moves (hkeyed : Keyed s) (e : Event) :
    ∃ s' ps, step s e = some (s', ps) ∧ Moves s e s' ps := by
  cases e with
  | accept g m => exact ⟨_, _, rfl, .accepts g m⟩
  | handleDLR i g status src dst => exact deliverDLRCallback_moves hkeyed .receipt
  | sendSyntheticDLR i g =>
    cases hparcel : s.parcels.find? g with
    | none =>
      refine ⟨s, [], ?_, .unknown i g⟩
      simp only [step, hparcel]
    | some x =>
      obtain ⟨s', ps, hd, hmoves⟩ := deliverDLRCallback_moves hkeyed
        (Reporting.failure (i := i) (n := ⟨g, undeliv⟩) rfl hparcel)
      refine ⟨s', ps, ?_, hmoves⟩
      simp only [step, hparcel]
      exact hd
  | drainCallbackRetries now =>
    by_cases hidle : s.toProcess = []
    · refine ⟨_, _, ?_, .collects hidle⟩
      simp only [step, if_pos hidle]
    · refine ⟨_, _, ?_, .busy now⟩
      simp only [step, if_neg hidle]
  | retry i =>
    cases hnext : s.toProcess with
    | nil =>
      refine ⟨s, [], ?_, .nothingDue hnext⟩
      simp only [step, hnext]
    | cons item rest =>
      simp only [step, hnext, processRetry]
      cases hcb : s.store.callbacks.find? item.cb.gwMsgID with
      | none => exact ⟨_, _, rfl, .outdated hnext hcb⟩
      | some cb => exact ⟨_, _, post_eq _ i rfl _ _, .retries hnext hcb⟩
  | restart => exact ⟨_, _, rfl, .restarts⟩

/-- The record of a message after a POST for the record `cb`. -/
theorem attempted_find? (s : State) (i : Input) (cb : CallbackRecord) (n : Notice) (h : Bytes) :
    (attempted s i cb n).store.callbacks.find? h =
      if h = cb.gwMsgID then
        if i.posted ∨ 3 ≤ cb.retries then none
        else some { cb with
          retries := cb.retries + 1, nextAttempt := i.later + callbackDelay cb.retries }
      else s.store.callbacks.find? h := by
  simp only [attempted, postCallback]
  split
  · exact find?_erase _ _ _
  · exact find?_insert _ _ _ _

/-- A POST leaves the markers as they are, or adds one, with the notice. -/
theorem attempted_markers (s : State) (i : Input) (cb : CallbackRecord) (n : Notice) :
    ((attempted s i cb n).store.callbackRetries = s.store.callbackRetries ∧
      (attempted s i cb n).notices = s.notices) ∨
    ∃ key v, v.gwMsgID = cb.gwMsgID ∧ v.retries ≤ 3 ∧
      (attempted s i cb n).store.callbackRetries = s.store.callbackRetries.insert key v ∧
      (attempted s i cb n).notices = s.notices.insert key n := by
  by_cases hend : i.posted = true ∨ 3 ≤ cb.retries
  · left
    refine ⟨by simp only [attempted, postCallback, if_pos hend], ?_⟩
    rcases hend with hposted | hretries
    · simp only [attempted, hposted, if_true]
      split <;> rfl
    · have hnone : scheduled i.later cb = none := by
        have hlen : delays.length ≤ cb.retries := hretries
        rw [scheduled, getElem?_eq_none hlen]
        rfl
      simp only [attempted, hnone]
  · right
    have hnew : ¬ (i.posted = true) ∧ cb.retries < 3 := by
      rw [not_or, not_le] at hend
      exact hend
    refine ⟨retryKey (i.later + callbackDelay cb.retries) cb.gwMsgID,
      { cb with
        retries := cb.retries + 1
        nextAttempt := i.later + callbackDelay cb.retries }, rfl, hnew.2, ?_, ?_⟩
    · simp only [attempted, postCallback, if_neg hend]
      rfl
    · simp only [attempted, scheduled, delays_get hnew.2, Option.map_some, if_neg hnew.1]

theorem Moves.keyed (h : Moves s e s' ps) (hkeyed : Keyed s) : Keyed s' := by
  have hattempt : ∀ {s₁ : State} (i : Input) (cb : CallbackRecord) (n : Notice), Keyed s₁ →
      Keyed (attempted s₁ i cb n) := by
    intro s₁ i cb n hs₁ g cb' hg
    rw [attempted_find?] at hg
    split at hg
    · rename_i heq
      obtain ⟨-, rfl⟩ := eq_of_refusal hg
      exact heq.symm
    · exact hs₁ g cb' hg
  cases h with
  | accepts g m =>
    intro h cb hcb
    by_cases hurl : m.callbackURL = []
    · simp only [hurl, if_true] at hcb
      exact hkeyed h cb hcb
    · simp only [hurl, if_false, find?_insert] at hcb
      split at hcb
      · rename_i heq
        cases hcb
        exact heq.symm
      · exact hkeyed h cb hcb
  | reports | retries => exact hattempt _ _ _ hkeyed
  | _ => exact hkeyed

/-- An invariant of histories holds after each of them, and none of them ends
in a panic. -/
theorem run_invariant {I : List Event → State → List Post → Prop} (h₀ : I [] {} [])
    (hkeyed : ∀ {es s posts}, I es s posts → Keyed s)
    (hstep : ∀ {es s posts e s' ps}, I es s posts → Moves s e s' ps →
      I (es ++ [e]) s' (posts ++ ps)) (es : List Event) :
    ∃ s posts, run es = some (s, posts) ∧ I es s posts := by
  induction es using reverseRecOn with
  | nil => exact ⟨{}, [], rfl, h₀⟩
  | append_singleton es e ih =>
    obtain ⟨s, posts, hrun, hinv⟩ := ih
    obtain ⟨s', ps, hs, hmoves⟩ := step_moves (hkeyed hinv) e
    refine ⟨s', posts ++ ps, ?_, hstep hinv hmoves⟩
    rw [run_concat, hrun]
    show extend (s, posts) e = _
    rw [extend, hs]
    rfl

/-! ## How often -/

/-- The event creates the callback record of the message. -/
def Event.creates (g : Bytes) : Event → Bool
  | .accept g' m => g' = g ∧ m.callbackURL ≠ []
  | _ => false

/-- The POSTs for one message. -/
def postsOf (g : Bytes) (posts : List Post) : List Post := posts.filter fun p => p.payload.id = g

theorem postsOf_append (g : Bytes) (posts ps : List Post) :
    postsOf g (posts ++ ps) = postsOf g posts ++ postsOf g ps :=
  filter_append _ _

/-- The record counts the POSTs that were made for the message, all in vain; of
what was made when it is gone only the last may have succeeded. -/
structure Counted (g : Bytes) (n : ℕ) (s : State) (posts : List Post) : Prop where
  keyed : Keyed s
  unborn : n = 0 → s.store.callbacks.find? g = none ∧ postsOf g posts = []
  record : ∀ cb, s.store.callbacks.find? g = some cb →
    cb.retries = (postsOf g posts).length ∧ cb.retries ≤ 3 ∧ ∀ p ∈ postsOf g posts, p.posted = false
  markers : ∀ cb ∈ s.store.callbackRetries.values, cb.gwMsgID = g → cb.retries ≤ 3
  le : (postsOf g posts).length ≤ 4
  last : ∀ (k : ℕ) (p : Post), (postsOf g posts)[k]? = some p → p.posted = true →
    k + 1 = (postsOf g posts).length

/-- The markers after a POST. -/
theorem mem_markers_attempted {v : CallbackRecord} {n : Notice}
    (h : v ∈ (attempted s i cb n).store.callbackRetries.values) :
    v ∈ s.store.callbackRetries.values ∨ v.gwMsgID = cb.gwMsgID ∧ v.retries ≤ 3 := by
  rcases attempted_markers s i cb n with ⟨hsame, -⟩ | ⟨key, w, hid, hle, hnew, -⟩
  · exact .inl (hsame ▸ h)
  · rw [hnew] at h
    rcases mem_values_insert h with rfl | h
    · exact .inr ⟨hid, hle⟩
    · exact .inl h

/-- A POST for the message itself. -/
theorem Counted.attempt (hc : Counted g n s posts) {nt : Notice} {p : Post}
    (hcb : s.store.callbacks.find? g = some cb) (hp : p.payload.id = g)
    (hposted : p.posted = i.posted) (hkeyed : Keyed (attempted s i cb nt)) :
    Counted g n (attempted s i cb nt) (posts ++ [p]) := by
  obtain ⟨hlen, hle, hvain⟩ := hc.record cb hcb
  have hkey : cb.gwMsgID = g := hc.keyed g cb hcb
  have hposts : postsOf g (posts ++ [p]) = postsOf g posts ++ [p] := by
    rw [postsOf_append]
    simp [postsOf, hp]
  refine ⟨hkeyed, fun hn => ?_, fun cb' hcb' => ?_, fun v hv hg => ?_, ?_, fun k q hq hqp => ?_⟩
  · rw [(hc.unborn hn).1] at hcb
    cases hcb
  · rw [attempted_find?, if_pos hkey.symm] at hcb'
    obtain ⟨hmore, rfl⟩ := eq_of_refusal hcb'
    rw [hposts, length_append, length_singleton]
    refine ⟨by simp only; omega, by simp only; omega, fun q hq => ?_⟩
    rcases mem_append.mp hq with hq | hq
    · exact hvain q hq
    · rw [mem_singleton.mp hq, hposted]
      exact Bool.eq_false_iff.mpr fun h => hmore (.inl h)
  · rcases mem_markers_attempted hv with hv | ⟨-, hv⟩
    · exact hc.markers v hv hg
    · exact hv
  · rw [hposts, length_append, length_singleton]
    omega
  · rw [hposts] at hq ⊢
    rw [length_append, length_singleton]
    by_cases hk : k < (postsOf g posts).length
    · rw [getElem?_append_left hk] at hq
      rw [hvain q (mem_of_getElem? hq)] at hqp
      cases hqp
    · have hlt := (List.getElem?_eq_some_iff.mp hq).1
      rw [length_append, length_singleton] at hlt
      omega

/-- A step that concerns other messages only. -/
theorem Counted.other (hc : Counted g n s posts) (hkeyed : Keyed s')
    (hfind : s'.store.callbacks.find? g = s.store.callbacks.find? g)
    (hmarkers : ∀ v ∈ s'.store.callbackRetries.values, v.gwMsgID = g →
      v ∈ s.store.callbackRetries.values)
    (hps : postsOf g ps = []) : Counted g n s' (posts ++ ps) := by
  have hposts : postsOf g (posts ++ ps) = postsOf g posts := by
    rw [postsOf_append, hps, append_nil]
  refine ⟨hkeyed, ?_, ?_, fun v hv hg => hc.markers v (hmarkers v hv hg) hg, ?_, ?_⟩
  · rw [hfind, hposts]
    exact hc.unborn
  · rw [hfind, hposts]
    exact hc.record
  · rw [hposts]
    exact hc.le
  · rw [hposts]
    exact hc.last

/-- A POST for another message. -/
theorem Counted.attempt_other {h : Bytes} (hc : Counted g n s posts) {nt : Notice} {p : Post}
    (hne : h ≠ g) (hkey : cb.gwMsgID = h) (hp : p.payload.id = h)
    (hkeyed : Keyed (attempted s i cb nt)) : Counted g n (attempted s i cb nt) (posts ++ [p]) := by
  have hne' : ¬ g = cb.gwMsgID := fun heq => hne (heq.trans hkey).symm
  refine hc.other hkeyed ?_ (fun v hv hg => ?_) ?_
  · rw [attempted_find?, if_neg hne']
  · rcases mem_markers_attempted hv with hv | ⟨hv, -⟩
    · exact hv
    · exact absurd (hg.symm.trans hv) hne'
  · simp [postsOf, hp, hne]

/-- Taking a marker changes nothing that is counted. -/
theorem Counted.taken (hc : Counted g n s posts) (item : Item) (rest : List Item) :
    Counted g n (taken s item rest) posts := by
  refine ⟨hc.keyed, hc.unborn, hc.record, fun v hv => ?_, hc.le, hc.last⟩
  exact hc.markers v (mem_values_filter hv)

theorem Moves.counted (h : Moves s e s' ps) (hn : n + [e].countP (·.creates g) ≤ 1)
    (hc : Counted g n s posts) : Counted g (n + [e].countP (·.creates g)) s' (posts ++ ps) := by
  have hkeyed := h.keyed hc.keyed
  cases h with
  | accepts g' m =>
    by_cases hcreates : (Event.accept g' m).creates g = true
    · -- The record is new: nothing was posted for the message before.
      have hone : [Event.accept g' m].countP (·.creates g) = 1 := by simp [hcreates]
      rw [hone] at hn ⊢
      obtain ⟨hnone, hposts⟩ := hc.unborn (by omega)
      obtain ⟨rfl, hurl⟩ : g' = g ∧ m.callbackURL ≠ [] := by
        simpa [Event.creates] using hcreates
      rw [append_nil]
      refine ⟨hkeyed, fun h => absurd h (by omega), fun cb hcb => ?_, ?_, hc.le, hc.last⟩
      · simp only [if_neg hurl, find?_insert, if_true] at hcb
        cases hcb
        rw [hposts]
        exact ⟨rfl, by simp, by simp⟩
      · simpa only [if_neg hurl] using hc.markers
    · have hzero : [Event.accept g' m].countP (·.creates g) = 0 := by simp [hcreates]
      rw [hzero, Nat.add_zero]
      refine hc.other hkeyed ?_ ?_ rfl
      · by_cases hurl : m.callbackURL = []
        · simp only [if_pos hurl]
        · have hne : ¬ g = g' := by
            rintro rfl
            simp [Event.creates, hurl] at hcreates
          simp only [if_neg hurl, find?_insert, if_neg hne]
      · intro v hv _
        by_cases hurl : m.callbackURL = []
        · simpa only [if_pos hurl] using hv
        · simpa only [if_neg hurl] using hv
  | @reports e i nt d f cb he hcb =>
    have hzero : [e].countP (·.creates g) = 0 := by cases he <;> rfl
    rw [hzero, Nat.add_zero]
    by_cases hg : nt.gwMsgID = g
    · exact hc.attempt (hg ▸ hcb) hg rfl hkeyed
    · exact hc.attempt_other hg (hc.keyed _ _ hcb) rfl hkeyed
  | @retries i item rest cb hnext hcb =>
    have hkey := hc.keyed _ _ hcb
    have hc' := hc.taken item rest
    by_cases hg : cb.gwMsgID = g
    · refine hc'.attempt ?_ hg rfl hkeyed
      rw [← hg, hkey]
      exact hcb
    · exact hc'.attempt_other hg rfl rfl hkeyed
  | unregistered he =>
    have hzero : [e].countP (·.creates g) = 0 := by cases he <;> rfl
    rw [hzero, Nat.add_zero, append_nil]
    exact hc
  | outdated =>
    rw [append_nil]
    exact hc.taken _ _
  | _ =>
    rw [append_nil]
    exact ⟨hkeyed, hc.unborn, hc.record, hc.markers, hc.le, hc.last⟩

theorem keyed_start : Keyed {} := by
  intro g cb h
  cases h

theorem counted_start (g : Bytes) : Counted g 0 {} [] := by
  refine ⟨keyed_start, fun _ => ⟨rfl, rfl⟩, ?_, ?_, by simp [postsOf], by simp [postsOf]⟩
  · intro cb h
    cases h
  · intro cb h
    cases h

theorem counted (g : Bytes) {es : List Event} (honce : es.countP (·.creates g) ≤ 1) :
    ∃ s posts, run es = some (s, posts) ∧ Counted g (es.countP (·.creates g)) s posts := by
  obtain ⟨s, posts, hrun, hinv⟩ := run_invariant
    (I := fun es s posts => Keyed s ∧
      (es.countP (·.creates g) ≤ 1 → Counted g (es.countP (·.creates g)) s posts))
    ⟨keyed_start, fun _ => counted_start g⟩ (fun h => h.1)
    (fun {es s posts e s' ps} h hmoves => by
      refine ⟨hmoves.keyed h.1, fun hone => ?_⟩
      rw [countP_append] at hone ⊢
      exact hmoves.counted hone (h.2 (by omega))) es
  exact ⟨s, posts, hrun, hinv.2 honce⟩

/-- Without its record there is no POST for a message. -/
theorem Moves.silent (h : Moves s e s' ps) (hkeyed : Keyed s) (hcreates : e.creates g = false)
    (hnone : s.store.callbacks.find? g = none) :
    s'.store.callbacks.find? g = none ∧ postsOf g ps = [] := by
  have hattempt : ∀ {s₁ : State} {h : Bytes} {cb : CallbackRecord} (i : Input) (n : Notice),
      s₁.store.callbacks.find? g = none → s₁.store.callbacks.find? h = some cb →
      cb.gwMsgID = h → h ≠ g ∧ (attempted s₁ i cb n).store.callbacks.find? g = none := by
    intro s₁ h cb i n hg hcb hkey
    have hne : h ≠ g := by
      rintro rfl
      rw [hg] at hcb
      cases hcb
    refine ⟨hne, ?_⟩
    rw [attempted_find?, if_neg (fun heq => hne (heq.trans hkey).symm)]
    exact hg
  cases h with
  | accepts g' m =>
    refine ⟨?_, rfl⟩
    by_cases hurl : m.callbackURL = []
    · simpa only [if_pos hurl] using hnone
    · have hne : ¬ g = g' := by
        rintro rfl
        simp [Event.creates, hurl] at hcreates
      simpa only [if_neg hurl, find?_insert, if_neg hne] using hnone
  | @reports e i n d f cb he hcb =>
    obtain ⟨hne, hfind⟩ := hattempt i n hnone hcb (hkeyed _ _ hcb)
    exact ⟨hfind, by simp [postsOf, hne]⟩
  | @retries i item rest cb hnext hcb =>
    have hkey := hkeyed _ _ hcb
    have hnone' : (Callbacks.taken s item rest).store.callbacks.find? g = none := hnone
    obtain ⟨hne, hfind⟩ := hattempt i item.notice hnone' hcb hkey
    exact ⟨hfind, by simp [postsOf, hkey, hne]⟩
  | _ => exact ⟨hnone, rfl⟩

theorem silent_after {es' : List Event} {s s' : State} {posts' : List Post} (hkeyed : Keyed s)
    (hnone : s.store.callbacks.find? g = none) (hnew : ∀ e ∈ es', e.creates g = false)
    (hrun : es'.foldlM extend (s, posts) = some (s', posts')) :
    postsOf g posts' = postsOf g posts := by
  induction es' generalizing s posts with
  | nil =>
    obtain ⟨rfl, rfl⟩ := Prod.mk.inj (Option.some.inj hrun)
    rfl
  | cons e es' ih =>
    obtain ⟨s₁, ps, hstep, hmoves⟩ := step_moves hkeyed e
    have hextend : extend (s, posts) e = some (s₁, posts ++ ps) := by
      rw [extend, hstep]
      rfl
    rw [foldlM_cons, hextend] at hrun
    obtain ⟨hnone₁, hps⟩ := hmoves.silent hkeyed (hnew e mem_cons_self) hnone
    have hrest := ih (hmoves.keyed hkeyed) hnone₁
      (fun e' he' => hnew e' (mem_cons_of_mem _ he')) hrun
    rw [hrest, postsOf_append, hps, append_nil]

/-- **Attempts are bounded and stop after success.** The history may go on after
the record is gone, with any markers left: nothing more is posted. -/
theorem attempts_bounded (g : Bytes) {es : List Event} (honce : es.countP (·.creates g) ≤ 1) :
    ∃ s posts, run es = some (s, posts) ∧
      (postsOf g posts).length ≤ 4 ∧
      (∀ (k : ℕ) (p : Post), (postsOf g posts)[k]? = some p → p.posted = true →
        k + 1 = (postsOf g posts).length) ∧
      (∀ cb, s.store.callbacks.find? g = some cb → cb.retries ≤ 3) ∧
      (∀ cb ∈ s.store.callbackRetries.values, cb.gwMsgID = g → cb.retries ≤ 3) ∧
      (s.store.callbacks.find? g = none → ∀ es', (∀ e ∈ es', e.creates g = false) →
        ∃ s' posts', run (es ++ es') = some (s', posts') ∧ postsOf g posts' = postsOf g posts) := by
  obtain ⟨s, posts, hrun, hc⟩ := counted g honce
  refine ⟨s, posts, hrun, hc.le, hc.last, fun cb hcb => (hc.record cb hcb).2.1, hc.markers, ?_⟩
  intro hnone es' hnew
  have hcount : (es ++ es').countP (·.creates g) ≤ 1 := by
    have hzero : es'.countP (·.creates g) = 0 := countP_eq_zero.mpr fun e he => by
      simp [hnew e he]
    rw [countP_append, hzero]
    omega
  obtain ⟨s', posts', hrun', -⟩ := counted g hcount
  refine ⟨s', posts', hrun', ?_⟩
  rw [run_append, hrun] at hrun'
  exact silent_after hc.keyed hnone hnew hrun'

/-- The endpoint never answers. -/
def unanswered : Input := { posted := false }

/-- A message with a callback. -/
def request : SMSSubmitRequest :=
  { toAddr := ascii "2547", fromAddr := ascii "SHOP", body := ascii "hi",
    callbackURL := ascii "http://c", reference := ascii "r1" }

/-- Two receipts, then the markers of both over and over. -/
def exhausted : List Event :=
  [.accept (gwMsgIDOf 1) request,
    .handleDLR unanswered (gwMsgIDOf 1) (ascii "ENROUTE") (ascii "SHOP") (ascii "2547"),
    .handleDLR unanswered (gwMsgIDOf 1) (ascii "UNDELIV") (ascii "SHOP") (ascii "2547"),
    .drainCallbackRetries (40 * second), .retry unanswered, .retry unanswered,
    .drainCallbackRetries (400 * second), .retry unanswered]

theorem exhausted_attempts :
    ∃ s posts, run exhausted = some (s, posts) ∧ posts.length = 4 ∧
      (postsOf (gwMsgIDOf 1) posts).length ≤ 4 ∧
      s.store.callbacks.find? (gwMsgIDOf 1) = none := by
  have honce : exhausted.countP (·.creates (gwMsgIDOf 1)) ≤ 1 := by decide
  obtain ⟨s, posts, hrun, hle, -⟩ := attempts_bounded (gwMsgIDOf 1) honce
  have hfacts : (run exhausted).map (fun x => (x.2.length,
      x.1.store.callbacks.find? (gwMsgIDOf 1))) = some (4, none) := by decide
  rw [hrun] at hfacts
  obtain ⟨hlen, hnone⟩ := Prod.mk.inj (Option.some.inj hfacts)
  exact ⟨s, posts, hrun, hlen, hle, hnone⟩

end Callbacks

end SmscGateway
