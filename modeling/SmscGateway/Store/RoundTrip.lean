import SmscGateway.Store.Writer

/-!
# Records through the database

A record is stored as JSON. Its byte slices come back as they are, its strings only
if they are valid UTF-8. Connection ids, addresses and SMSC ids are taken from the
wire, where any bytes may stand (`records_return_iff`).
-/

namespace SmscGateway

open List

/-- What survives JSON is valid. -/
theorem valid_of_coerceUpto {n : ℕ} {s : Bytes} (h : coerceUpto n s = s) :
    validUpto n s = true := by
  induction n generalizing s with
  | zero => cases s <;> trivial
  | succ n ih =>
    cases s with
    | nil => rfl
    | cons a l =>
      rw [coerceUpto] at h
      rw [validUpto]
      rcases hk : runeLen (a :: l) with _ | k
      · -- what replaces an invalid byte is valid itself
        simp only [hk] at h
        obtain ⟨rfl, hl⟩ := cons.inj h
        rw [← hl] at hk
        exact absurd hk (Nat.succ_ne_zero 2)
      · simp only [hk] at h ⊢
        have htail : l.take k ++ coerceUpto n (l.drop k) = l.take k ++ l.drop k :=
          (cons.inj h).2.trans (take_append_drop k l).symm
        exact ih (append_cancel_left htail)

theorem jsonString_eq_iff {s : Bytes} : jsonString s = s ↔ ValidUtf8 s :=
  ⟨valid_of_coerceUpto, jsonString_of_valid⟩

/-- The strings of a record are valid UTF-8. -/
def SubmitRecord.Utf8 (r : SubmitRecord) : Prop :=
  ∀ s ∈ [r.gwMsgID, r.smscMsgID, r.northConnID, r.msisdn, r.sourceAddr], ValidUtf8 s

@[inherit_doc SubmitRecord.Utf8]
def PendingDeliver.Utf8 (p : PendingDeliver) : Prop :=
  ∀ s ∈ [p.targetConnID, p.msisdn, p.sourceAddr, p.destAddr], ValidUtf8 s

@[inherit_doc SubmitRecord.Utf8]
def PendingSubmit.Utf8 (p : PendingSubmit) : Prop :=
  ∀ s ∈ [p.gwMsgID, p.connID, p.msisdn, p.sourceAddr], ValidUtf8 s

theorem SubmitRecord.json_eq_iff (r : SubmitRecord) : r.json = r ↔ r.Utf8 := by
  cases r
  simp [json, Utf8, jsonString_eq_iff]

theorem PendingDeliver.json_eq_iff (p : PendingDeliver) : p.json = p ↔ p.Utf8 := by
  cases p
  simp [json, Utf8, jsonString_eq_iff]

theorem PendingSubmit.json_eq_iff (p : PendingSubmit) : p.json = p ↔ p.Utf8 := by
  cases p
  simp [json, Utf8, jsonString_eq_iff]

/-- A drain of at most `limit` entries gets as far as the key: fewer than `limit`
entries are in front of it. -/
def Within {β : Type} (limit : ℤ) (k : Bytes) (queue : SortedMap Bytes β) : Prop :=
  0 < limit → (queue.entries.countP (·.1 < k) : ℤ) < limit

section Drains

variable {β : Type} {m : SortedMap Bytes β} {k u : Bytes} {v : β}

/-- The keys in front of an entry are smaller, those behind it are greater. -/
theorem lt_of_split {l₁ l₂ : List (Bytes × β)} (h : m.entries = l₁ ++ (k, v) :: l₂) :
    (∀ e ∈ l₁, e.1 < k) ∧ ∀ e ∈ l₂, k < e.1 := by
  have hsorted := m.sorted
  rw [h] at hsorted
  obtain ⟨-, htail, hcross⟩ := pairwise_append.mp hsorted
  exact ⟨fun e he => hcross e he _ mem_cons_self, fun e he => rel_of_pairwise_cons htail he⟩

/-- An iterator with an upper bound reaches every key in front of it. -/
theorem mem_takeWhile_entries_iff (h : (k, v) ∈ m.entries) :
    (k, v) ∈ m.entries.takeWhile (·.1 < u) ↔ k < u := by
  refine ⟨fun hmem => by simpa using mem_takeWhile_imp hmem, fun hk => ?_⟩
  obtain ⟨l₁, l₂, hsplit⟩ := append_of_mem h
  have hfront : ∀ e ∈ l₁, decide (e.1 < u) = true := fun e he =>
    decide_eq_true (((lt_of_split hsplit).1 e he).trans hk)
  rw [hsplit, takeWhile_append_of_pos hfront]
  simp [hk]

/-- In front of a key are the entries with smaller keys. -/
theorem countP_lt_of_split {l₁ l₂ : List (Bytes × β)} (h : m.entries = l₁ ++ (k, v) :: l₂) :
    m.entries.countP (·.1 < k) = l₁.length := by
  obtain ⟨hless, hgreater⟩ := lt_of_split h
  have hfront : l₁.countP (·.1 < k) = l₁.length :=
    countP_eq_length.mpr fun e he => decide_eq_true (hless e he)
  have hback : ((k, v) :: l₂).countP (·.1 < k) = 0 := by
    refine countP_eq_zero.mpr fun e he => ?_
    rcases mem_cons.mp he with rfl | he
    · simp
    · simpa using (hgreater e he).le
  rw [h, countP_append, hfront, hback, Nat.add_zero]

/-- What is nowhere else is taken once everything in front of it is. -/
theorem mem_take_split_iff {α : Type} {a : α} {l₁ l₂ : List α} {n : ℕ} (hnot : a ∉ l₁) :
    a ∈ (l₁ ++ a :: l₂).take n ↔ l₁.length < n := by
  rw [take_append, mem_append]
  have hfront : a ∉ l₁.take n := fun hmem => hnot (mem_of_mem_take hmem)
  rcases Nat.lt_or_ge l₁.length n with hlt | hge
  · obtain ⟨d, hd⟩ := Nat.exists_eq_succ_of_ne_zero (Nat.sub_ne_zero_of_lt hlt)
    simp [hd, hlt]
  · simp [Nat.sub_eq_zero_of_le hge, Nat.not_lt.mpr hge, hfront]

/-- A limit stops a drain after the entries in front. -/
theorem mem_upTo_iff {limit : ℤ} {l : List (Bytes × β)} (hl : l <+: m.entries)
    (h : (k, v) ∈ l) : (k, v) ∈ upTo limit l ↔ Within limit k m := by
  obtain ⟨l₁, l₂, rfl⟩ := append_of_mem h
  obtain ⟨l₃, hl₃⟩ := hl
  have hsplit : m.entries = l₁ ++ (k, v) :: (l₂ ++ l₃) := hl₃.symm.trans (append_assoc _ _ _)
  have hnot : (k, v) ∉ l₁ := fun hmem => lt_irrefl k ((lt_of_split hsplit).1 _ hmem)
  rw [upTo, Within, countP_lt_of_split hsplit]
  split
  case isFalse hneg => simp [hneg]
  case isTrue hpos =>
    rw [mem_take_split_iff hnot]
    omega

/-- Under a key that was just written there is one value. -/
theorem exists_insert_iff {P : β → Prop} {l : List (Bytes × β)}
    (hsub : l ⊆ (m.insert k v).entries) : (∃ w, (k, w) ∈ l ∧ P w) ↔ (k, v) ∈ l ∧ P v := by
  refine ⟨?_, fun h => ⟨v, h⟩⟩
  rintro ⟨w, hw, hP⟩
  have hfind := SortedMap.mem_entries_iff.mp (hsub hw)
  rw [SortedMap.find?_insert, if_pos rfl] at hfind
  cases hfind
  exact ⟨hw, hP⟩

end Drains

/-- A submit record read back after its flush. -/
theorem getSubmit_returns_iff {s₀ s : Submits} {es : List Submits.Step} {r : SubmitRecord}
    (hr : r.smscMsgID ≠ []) (hsettles : s₀.Settles (.storeSubmit r))
    (hrun : (s₀.storeSubmit r).run es = some s) (hcalls : Submits.calls es = []) (hidle : s.Idle) :
    s.getSubmit r.smscMsgID = some r ↔ r.Utf8 := by
  have hkey : r.key = msgKey r.smscMsgID := if_neg hr
  have hview : s.getSubmit r.smscMsgID = some r.json := by
    rw [Submits.getSubmit, ← hkey, ← Submits.view_of_idle hidle,
      Submits.view_run hrun (by simp [hcalls])]
    exact (Submits.view_perform_eq_effect_iff s₀ (.storeSubmit r)).mpr hsettles
  rw [hview, Option.some.injEq, r.json_eq_iff]

/-- When a drain takes the entry of a key. -/
theorem mem_retriesTaken_iff {now : Time} {limit : ℤ} {queue : SortedMap Bytes Numbered}
    {k : Bytes} {e : Numbered} (h : (k, e) ∈ queue.entries) :
    (k, e) ∈ retriesTaken now limit queue ↔ k < retryKey now [] ∧ Within limit k queue := by
  have hfront := List.takeWhile_prefix (fun e : Bytes × Numbered => decide (e.1 < retryKey now []))
    (l := queue.entries)
  rw [← mem_takeWhile_entries_iff h]
  constructor
  · intro hmem
    have hl := (prefix_upTo limit _).subset hmem
    exact ⟨hl, (mem_upTo_iff hfront hl).mp hmem⟩
  · rintro ⟨hl, hwithin⟩
    exact (mem_upTo_iff hfront hl).mpr hwithin

/-- **Which records come back.** A submit record that no write under way
overtakes, once the writer has flushed it; a receipt or MO message; a submit that
waits for a retry. A drain takes what is under the key of the record if the key is
due, its limit reaches that far and the receipt is not stale; and this is what was
stored exactly when its strings are valid UTF-8. -/
theorem records_return_iff (store : MessageStore) :
    (∀ (s₀ s : Submits) (es : List Submits.Step) (r : SubmitRecord), r.smscMsgID ≠ [] →
      s₀.Settles (.storeSubmit r) → (s₀.storeSubmit r).run es = some s → Submits.calls es = [] →
      s.Idle → (s.getSubmit r.smscMsgID = some r ↔ r.Utf8)) ∧
    (∀ (id : Bytes) (item : ℕ) (p : PendingDeliver) (now later : Time) (maxAge limit : ℤ),
      (∃ e, (retryKey p.enqueuedAt id, e) ∈
          retriesTaken now limit (store.enqueueRetry id item p).retries ∧
        ¬ Stale later maxAge e.pending ∧ e.pending = p) ↔
      (retryKey p.enqueuedAt id < retryKey now [] ∧
        Within limit (retryKey p.enqueuedAt id) (store.enqueueRetry id item p).retries ∧
        ¬ Stale later maxAge p) ∧ p.Utf8) ∧
    ∀ (p : PendingSubmit) (limit : ℤ),
      (∃ p', (submitRetryKey p.enqueuedAt p.gwMsgID, p') ∈
        upTo limit (store.enqueueSubmitRetry p).submitRetries.entries ∧ p' = p) ↔
      Within limit (submitRetryKey p.enqueuedAt p.gwMsgID)
        (store.enqueueSubmitRetry p).submitRetries ∧ p.Utf8 := by
  refine ⟨fun s₀ s es r => getSubmit_returns_iff, fun id item p now later maxAge limit => ?_,
    fun p limit => ?_⟩
  · have hin : (retryKey p.enqueuedAt id, ⟨item, p.json⟩) ∈
        (store.enqueueRetry id item p).retries.entries :=
      SortedMap.mem_entries_iff.mpr (by simp [MessageStore.enqueueRetry])
    have hsub : retriesTaken now limit (store.enqueueRetry id item p).retries ⊆
        (store.enqueueRetry id item p).retries.entries :=
      ((prefix_upTo limit _).trans (List.takeWhile_prefix _)).subset
    have hstale : Stale later maxAge p.json ↔ Stale later maxAge p := Iff.rfl
    rw [exists_insert_iff hsub, mem_retriesTaken_iff hin, hstale, p.json_eq_iff]
    tauto
  · have hin : (submitRetryKey p.enqueuedAt p.gwMsgID, p.json) ∈
        (store.enqueueSubmitRetry p).submitRetries.entries :=
      SortedMap.mem_entries_iff.mpr (by simp [MessageStore.enqueueSubmitRetry])
    have hsub : upTo limit (store.enqueueSubmitRetry p).submitRetries.entries ⊆
        (store.enqueueSubmitRetry p).submitRetries.entries := (prefix_upTo limit _).subset
    rw [exists_insert_iff hsub, mem_upTo_iff (prefix_refl _) hin, p.json_eq_iff]

/-- The store after an older receipt and an older submit were queued. -/
def queuedBefore : MessageStore :=
  (MessageStore.empty.enqueueRetry (ascii "a") 0
    ⟨ascii "gone", ascii "1", [], 4, ascii "2", ascii "1", 1⟩).enqueueSubmitRetry
    ⟨ascii "GW-1", ascii "gone", ascii "1", ascii "2", [], 0, 1⟩

/-- Behind them a limit of two reaches the next receipt and the next submit,
and a flush a submit record. All three come back. -/
theorem records_behind_others_return :
    let r : SubmitRecord :=
      ⟨ascii "GW-2", ascii "S-1", ascii "eng", 1, ascii "200", ascii "100", [0xE9], 2⟩
    let p : PendingDeliver := ⟨ascii "eng", ascii "200", [0xE9], 4, ascii "100", ascii "200", 2⟩
    let q : PendingSubmit := ⟨ascii "GW-2", ascii "eng", ascii "200", ascii "100", [0xE9], 1, 2⟩
    (∃ s, (Submits.empty.storeSubmit r).run [.receive, .tick] = some s ∧
      s.getSubmit (ascii "S-1") = some r) ∧
    (∃ e, (retryKey 2 (ascii "b"), e) ∈
        retriesTaken 3 2 (queuedBefore.enqueueRetry (ascii "b") 1 p).retries ∧
      ¬ Stale 3 10 e.pending ∧ e.pending = p) ∧
    ∃ q', (submitRetryKey 2 (ascii "GW-2"), q') ∈
      upTo 2 (queuedBefore.enqueueSubmitRetry q).submitRetries.entries ∧ q' = q := by
  intro r p q
  obtain ⟨hsubmit, hreceipt, hretry⟩ := records_return_iff queuedBefore
  have hqueues : Submits.empty.Queues := by decide
  refine ⟨⟨⟨SortedMap.empty.insert (ascii "msg:S-1") r, [], [], false⟩, by decide,
    (hsubmit .empty _ [.receive, .tick] r (by decide) (.inl hqueues) (by decide) rfl
      ⟨rfl, rfl⟩).mpr (by unfold SubmitRecord.Utf8; decide)⟩,
    (hreceipt (ascii "b") 1 p 3 3 10 2).mpr ⟨⟨by decide, by unfold Within; decide, by decide⟩,
      by unfold PendingDeliver.Utf8; decide⟩,
    (hretry q 2).mpr ⟨by unfold Within; decide, by unfold PendingSubmit.Utf8; decide⟩⟩

/-- A connection id that is no UTF-8 comes back as another one. -/
theorem connection_id_replaced :
    let r : SubmitRecord := ⟨ascii "GW-1", ascii "S-1", [0xE9], 1, [], [], [], 0⟩
    ∃ s, (Submits.empty.storeSubmit r).run [.receive, .tick] = some s ∧
      s.getSubmit (ascii "S-1") = some { r with northConnID := [0xEF, 0xBF, 0xBD] } ∧ ¬ r.Utf8 :=
  ⟨⟨SortedMap.empty.insert (ascii "msg:S-1")
    ⟨ascii "GW-1", ascii "S-1", [0xEF, 0xBF, 0xBD], 1, [], [], [], 0⟩, [], [], false⟩,
    by decide, by decide, by unfold SubmitRecord.Utf8; decide⟩

end SmscGateway
