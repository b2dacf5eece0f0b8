import SmscGateway.Gateway.Screen

/-!
# The rate limit

`HandleSubmit` reads the clock twice for a session with a limit: `CurrentTPS` compares
the submits of the current second with the limit, and `RecordSubmit` counts the submit
under the second it finds, which may be a later one. The counter is of one second only
and is reset when a submit is recorded in another.

What makes this exact is that a recorded second is never later than the next reading:
if the second turns between the check and the recording, the count begins anew.
-/

namespace SmscGateway

open List

namespace Rate

/-- A submit with the readings of the clock at which it is checked and recorded. -/
structure Timed where
  body : Bytes
  checked : Time
  recorded : Time

/-- A session with the submits that were accepted on it. -/
structure Log where
  conn : Connection
  accepted : List Timed := []

/-- What `HandleSubmit` does to the counters of the session. -/
def Log.handle (cfg : RouterConfig) (l : Log) (m : Timed) : Log :=
  match screen cfg (some l.conn) m.checked m.body with
  | .error _ => l
  | .ok _ =>
    { conn := if 0 < effectiveTPS cfg l.conn then l.conn.recordSubmit m.recorded else l.conn
      accepted := l.accepted ++ [m] }

/-- The submit passes the other checks and is answered with `StatusThrottled`. -/
def Log.Throttles (cfg : RouterConfig) (l : Log) (m : Timed) : Prop :=
  ∃ screened, screen cfg (some l.conn) m.checked m.body = .error (.throttled, screened)

/-- Submits on a new session, one after the other. -/
def handleAll (cfg : RouterConfig) (conn : Connection) (ms : List Timed) : Log :=
  ms.foldl (Log.handle cfg) { conn }

/-- The readings of the clock do not decrease. -/
def Clocked (ms : List Timed) : Prop :=
  (ms.flatMap fun m => [m.checked, m.recorded]).Pairwise (· ≤ ·)

instance (ms : List Timed) : Decidable (Clocked ms) := inferInstanceAs (Decidable (List.Pairwise ..))

/-- How many accepted submits were recorded in a second. -/
def Log.recordedIn (l : Log) (s : ℕ) : ℕ := l.accepted.countP fun m => m.recorded / second = s

theorem clocked_snoc {ms : List Timed} {m : Timed} (h : Clocked (ms ++ [m])) :
    Clocked ms ∧ (∀ m' ∈ ms, m'.recorded ≤ m.checked) ∧ m.checked ≤ m.recorded := by
  rw [Clocked, flatMap_append, pairwise_append] at h
  obtain ⟨hms, hm, hboth⟩ := h
  refine ⟨hms, fun m' hm' => hboth _ (mem_flatMap.mpr ⟨m', hm', by simp⟩) _ (by simp), ?_⟩
  simpa using hm

/-- A submit that is throttled or accepted was compared with the limit. -/
theorem screen_rate {cfg : RouterConfig} {c : Connection} {now : Time} {body : Bytes} :
    (∀ m, screen cfg (some c) now body = .error (.throttled, m) →
      effectiveTPS cfg c ≤ c.currentTPS now) ∧
    ∀ m, screen cfg (some c) now body = .ok m →
      0 < effectiveTPS cfg c → c.currentTPS now < effectiveTPS cfg c := by
  simp only [screen]
  split
  · simp
  · split_ifs with _ _ hrate
    · simp
    · simp
    · simpa using hrate.2
    · simp only [false_imp_iff, implies_true, true_and]
      intro _ _ hpos
      by_contra hle
      exact hrate ⟨hpos, not_lt.mp hle⟩

theorem effectiveTPS_recordSubmit (cfg : RouterConfig) (c : Connection) (now : Time) :
    effectiveTPS cfg (c.recordSubmit now) = effectiveTPS cfg c := by
  rw [Connection.recordSubmit]
  split <;> rfl

/-- The counter is that of the last second in which a submit was recorded, up to the
reading `t`, and no second has more than the limit. -/
structure Window (cfg : RouterConfig) (limit : ℤ) (t : Time) (l : Log) : Prop where
  effective : effectiveTPS cfg l.conn = limit
  window : l.conn.tpsWindow ≤ t / second
  count : l.recordedIn l.conn.tpsWindow = l.conn.tpsCount
  later : ∀ s, l.conn.tpsWindow < s → l.recordedIn s = 0
  bounded : ∀ s, (l.recordedIn s : ℤ) ≤ limit

section Step

variable {cfg : RouterConfig} {limit : ℤ} {t : Time} {l : Log} {m : Timed}

theorem Window.mono {t' : Time} (h : Window cfg limit t l) (ht : t ≤ t') : Window cfg limit t' l :=
  { h with window := h.window.trans (Nat.div_le_div_right ht) }

theorem recordedIn_snoc (c : Connection) (s : ℕ) :
    (Log.mk c (l.accepted ++ [m])).recordedIn s =
      l.recordedIn s + if m.recorded / second = s then 1 else 0 := by
  rw [Log.recordedIn, countP_append, Log.recordedIn]
  simp [countP_cons]

/-- An accepted submit is counted. -/
theorem Window.record (hw : Window cfg limit t l) (hpos : 1 ≤ limit) (ht : t ≤ m.checked)
    (hm : m.checked ≤ m.recorded) (hrate : l.conn.currentTPS m.checked < limit) :
    Window cfg limit m.recorded ⟨l.conn.recordSubmit m.recorded, l.accepted ++ [m]⟩ := by
  have hchecked := hw.window.trans (Nat.div_le_div_right (c := second) ht)
  have hrecorded := Nat.div_le_div_right (c := second) hm
  have hsame : effectiveTPS cfg (l.conn.recordSubmit m.recorded) = limit :=
    (effectiveTPS_recordSubmit _ _ _).trans hw.effective
  by_cases hs : l.conn.tpsWindow = m.recorded / second
  · -- the check read the same second, so there was room
    have hcount : (l.conn.tpsCount : ℤ) < limit := by
      rwa [Connection.currentTPS, if_pos (by omega)] at hrate
    have hconn : l.conn.recordSubmit m.recorded = { l.conn with tpsCount := l.conn.tpsCount + 1 } :=
      if_pos hs
    rw [hconn] at hsame ⊢
    refine ⟨hsame, hs.le, ?_, fun s hlt => ?_, fun s => ?_⟩ <;> rw [recordedIn_snoc]
    · rw [if_pos hs.symm, hw.count]
    · have hlt : l.conn.tpsWindow < s := hlt
      rw [hw.later s hlt, if_neg (hs ▸ hlt).ne]
    · split_ifs with heq
      · rw [← heq, ← hs, hw.count]
        push_cast
        omega
      · exact hw.bounded s
  · -- the second is a new one
    have hnew : l.conn.tpsWindow < m.recorded / second :=
      lt_of_le_of_ne (hchecked.trans hrecorded) hs
    have hconn : l.conn.recordSubmit m.recorded =
        { l.conn with tpsWindow := m.recorded / second, tpsCount := 1 } := if_neg hs
    rw [hconn] at hsame ⊢
    refine ⟨hsame, le_rfl, ?_, fun s hlt => ?_, fun s => ?_⟩ <;> rw [recordedIn_snoc]
    · rw [if_pos rfl, hw.later _ hnew]
    · have hlt : m.recorded / second < s := hlt
      rw [hw.later s (hnew.trans hlt), if_neg hlt.ne]
    · split_ifs with heq
      · rw [← heq, hw.later _ hnew]
        exact_mod_cast hpos
      · exact hw.bounded s

theorem Window.handle (hw : Window cfg limit t l) (hpos : 1 ≤ limit) (ht : t ≤ m.checked)
    (hm : m.checked ≤ m.recorded) : Window cfg limit m.recorded (l.handle cfg m) := by
  rw [Log.handle]
  cases hscreen : screen cfg (some l.conn) m.checked m.body with
  | error e => exact hw.mono (ht.trans hm)
  | ok screened =>
    have hlimited : 0 < effectiveTPS cfg l.conn := hw.effective ▸ hpos
    have hrate := screen_rate.2 _ hscreen hlimited
    rw [if_pos hlimited]
    exact hw.record hpos ht hm (hw.effective ▸ hrate)

/-- A submit is throttled in a second that is full. -/
theorem Window.full (hw : Window cfg limit t l) (hpos : 1 ≤ limit) (hm : l.Throttles cfg m) :
    (l.recordedIn (m.checked / second) : ℤ) = limit := by
  obtain ⟨screened, hscreen⟩ := hm
  have hrate := screen_rate.1 _ hscreen
  rw [hw.effective, Connection.currentTPS] at hrate
  split_ifs at hrate with hs
  · refine le_antisymm (hw.bounded _) ?_
    rwa [← hs, hw.count]
  · exact absurd (hpos.trans hrate) (by decide)

end Step

/-- **The counters over a run of submits.** -/
theorem window_handleAll {cfg : RouterConfig} {conn : Connection} (hwindow : conn.tpsWindow = 0)
    (hcount : conn.tpsCount = 0) (hpos : 1 ≤ effectiveTPS cfg conn) {ms : List Timed}
    (hclock : Clocked ms) {t : Time} (ht : ∀ m ∈ ms, m.recorded ≤ t) :
    Window cfg (effectiveTPS cfg conn) t (handleAll cfg conn ms) := by
  induction ms using reverseRecOn generalizing t with
  | nil =>
    refine ⟨rfl, ?_, ?_, fun _ _ => rfl, fun _ => ?_⟩
    · simp [handleAll, hwindow]
    · simp [handleAll, Log.recordedIn, hcount]
    · simpa [handleAll, Log.recordedIn] using zero_le_one.trans hpos
  | append_singleton ms m ih =>
    obtain ⟨hms, hbefore, hm⟩ := clocked_snoc hclock
    have hstep := (ih hms hbefore).handle hpos le_rfl hm
    rw [handleAll, foldl_append]
    exact hstep.mono (ht m (by simp))

/-- **The rate limit is never exceeded.** On a new session with a limit, whatever the
submits and whenever the clock is read, no second has more accepted submits recorded than
the limit, and a submit that passes the other checks is throttled only if the second of
its check has as many. -/
theorem rate_limit_exact (cfg : RouterConfig) {conn : Connection} (hwindow : conn.tpsWindow = 0)
    (hcount : conn.tpsCount = 0) (hpos : 1 ≤ effectiveTPS cfg conn) {ms : List Timed}
    (hclock : Clocked ms) :
    (∀ s, ((handleAll cfg conn ms).recordedIn s : ℤ) ≤ effectiveTPS cfg conn) ∧
      ∀ before m behind, ms = before ++ m :: behind →
        (handleAll cfg conn before).Throttles cfg m →
        ((handleAll cfg conn before).recordedIn (m.checked / second) : ℤ) =
          effectiveTPS cfg conn := by
  constructor
  · obtain ⟨t, ht⟩ : ∃ t, ∀ m ∈ ms, m.recorded ≤ t :=
      ⟨(ms.map Timed.recorded).sum, fun m hm => le_sum_of_mem (mem_map_of_mem hm)⟩
    exact (window_handleAll hwindow hcount hpos hclock ht).bounded
  · rintro before m behind rfl hthrottled
    have hbefore : Clocked (before ++ [m]) := by
      rw [append_cons, Clocked, flatMap_append, pairwise_append] at hclock
      exact hclock.1
    obtain ⟨hms, hlast, -⟩ := clocked_snoc hbefore
    exact (window_handleAll hwindow hcount hpos hms hlast).full hpos hthrottled

/-- A limit of one submit a second: the second turns between the check and the recording
of the first, the next one is throttled, and one more is accepted a second later. -/
theorem turning_second_limited :
    let cfg : RouterConfig := { rateLimitTPS := 1 }
    let ms : List Timed := [⟨[], second - 1, second⟩, ⟨[], second, second⟩,
      ⟨[], 2 * second, 2 * second⟩]
    ((handleAll cfg { id := [] } ms).accepted.map Timed.recorded = [second, 2 * second]) ∧
      ∀ s, ((handleAll cfg { id := [] } ms).recordedIn s : ℤ) ≤ 1 :=
  ⟨by decide, (rate_limit_exact { rateLimitTPS := 1 } rfl rfl (by decide) (by decide)).1⟩

end Rate

end SmscGateway
