import SmscGateway.Smpp.Bodies

/-!
# The boundary behind the mandatory fields is the only one

`documentedLayout` is what the comments of the source say a body consists of,
octet by octet. `MandatoryBodyLen` ends just behind an instance of that layout
(`mandatory_boundary`). A layout is delimited by its own bytes, so a body that
is cut short has no boundary, and what follows the fields does not move it. A
response that may leave its only field out is the exception at length zero.
-/

namespace SmscGateway

open List

namespace Smpp

/-! ## Documented layouts -/

/-- A single octet. -/
def octet : Field := .octets 1

/-- The fields of each command in the order of the comments; no fields for a
command that has none, or whose fields `MandatoryBodyLen` does not know. -/
def documentedLayout (commandID : UInt32) : List Field :=
  if commandID ∈ [cmdSubmitSM, cmdDeliverSM] then
    [ -- service_type, source_addr_ton, source_addr_npi, source_addr
      .cString, octet, octet, .cString,
      -- dest_addr_ton, dest_addr_npi, destination_addr
      octet, octet, .cString,
      -- esm_class, protocol_id, priority_flag
      octet, octet, octet,
      -- schedule_delivery_time, validity_period
      .cString, .cString,
      -- registered_delivery, replace_if_present_flag, data_coding, sm_default_msg_id
      octet, octet, octet, octet,
      -- sm_length, short_message
      .shortMessage]
  else if commandID ∈ cStringOnly then [.cString]
  else if commandID ∈ [cmdBindTransceiver, cmdBindTransmitter, cmdBindReceiver] then
    -- system_id, password, system_type, interface_version, addr_ton, addr_npi, address_range
    [.cString, .cString, .cString, octet, octet, octet, .cString]
  else if commandID = cmdQuerySM then
    -- message_id, source_addr_ton, source_addr_npi, source_addr
    [.cString, octet, octet, .cString]
  else if commandID = cmdQuerySMResp then
    -- message_id, final_date, message_state, error_code
    [.cString, .cString, octet, octet]
  else if commandID = cmdCancelSM then
    [ -- service_type, message_id, source_addr_ton, source_addr_npi, source_addr
      .cString, .cString, octet, octet, .cString,
      -- dest_addr_ton, dest_addr_npi, destination_addr
      octet, octet, .cString]
  else if commandID = cmdReplaceSM then
    [ -- message_id, source_addr_ton, source_addr_npi, source_addr
      .cString, octet, octet, .cString,
      -- schedule_delivery_time, validity_period
      .cString, .cString,
      -- registered_delivery, sm_default_msg_id, sm_length, short_message
      octet, octet, .shortMessage]
  else if commandID = cmdDataSM then
    [ -- service_type, source_addr_ton, source_addr_npi, source_addr
      .cString, octet, octet, .cString,
      -- dest_addr_ton, dest_addr_npi, destination_addr
      octet, octet, .cString,
      -- esm_class, registered_delivery, data_coding
      octet, octet, octet]
  else if commandID = cmdAlertNotification then
    -- source_addr_ton, source_addr_npi, source_addr, esme_addr_ton, esme_addr_npi, esme_addr
    [octet, octet, .cString, octet, octet, .cString]
  else if commandID = cmdBroadcastSM then
    [ -- service_type, source_addr_ton, source_addr_npi, source_addr
      .cString, octet, octet, .cString,
      -- message_id, priority_flag, schedule_delivery_time, validity_period
      .cString, octet, .cString, .cString,
      -- replace_if_present, data_coding, sm_default_msg_id
      octet, octet, octet]
  else if commandID = cmdQueryBroadcastSM then
    -- message_id, source_addr_ton, source_addr_npi, source_addr
    [.cString, octet, octet, .cString]
  else if commandID = cmdQueryBroadcastSMResp then
    -- message_id, message_state
    [.cString, octet]
  else if commandID = cmdCancelBroadcastSM then
    -- service_type, message_id, source_addr_ton, source_addr_npi, source_addr
    [.cString, .cString, octet, octet, .cString]
  else []

/-- The bytes are the fields of the layout, one behind the other. -/
def IsInstance (fs : List Field) (p : Bytes) : Prop :=
  ∃ parts, Layout fs parts ∧ p = parts.flatten

/-! ## Octets one by one -/

/-- The layout with its octets one by one. -/
def single : List Field → List Field
  | [] => []
  | .octets n :: fs => List.replicate n octet ++ single fs
  | f :: fs => f :: single fs

variable {fs : List Field} {p : Bytes}

theorem isInstance_cons {f : Field} :
    IsInstance (f :: fs) p ↔ ∃ q r, f.Encodes q ∧ IsInstance fs r ∧ p = q ++ r := by
  constructor
  · rintro ⟨parts, hparts, rfl⟩
    rcases hparts with _ | ⟨hq, hrest⟩
    exact ⟨_, _, hq, ⟨_, hrest, rfl⟩, flatten_cons⟩
  · rintro ⟨q, r, hq, ⟨parts, hparts, rfl⟩, rfl⟩
    exact ⟨q :: parts, .cons hq hparts, flatten_cons.symm⟩

/-- As many octets as a field of them has. -/
theorem isInstance_replicate {n : ℕ} : IsInstance (replicate n octet ++ fs) p ↔
      ∃ q r, q.length = n ∧ IsInstance fs r ∧ p = q ++ r := by
  induction n generalizing p with
  | zero =>
    constructor
    · intro h
      exact ⟨[], p, rfl, h, rfl⟩
    · rintro ⟨q, r, hq, hr, rfl⟩
      rwa [length_eq_zero_iff.mp hq]
  | succ n ih =>
    rw [replicate_succ, cons_append, isInstance_cons]
    constructor
    · rintro ⟨b, rest, hb, hrest, rfl⟩
      obtain ⟨q, r, hq, hr, rfl⟩ := ih.mp hrest
      have hone : b.length = 1 := hb
      exact ⟨b ++ q, r, by rw [length_append]; omega, hr, (append_assoc _ _ _).symm⟩
    · rintro ⟨q, r, hq, hr, rfl⟩
      obtain ⟨b, q, rfl⟩ := exists_cons_of_length_eq_add_one hq
      exact ⟨[b], q ++ r, rfl, ih.mpr ⟨q, r, Nat.succ.inj hq, hr, rfl⟩, rfl⟩

/-- Counting octets together or one by one is the same layout. -/
theorem isInstance_single : IsInstance (single fs) p ↔ IsInstance fs p := by
  induction fs generalizing p with
  | nil => exact Iff.rfl
  | cons f fs ih =>
    rw [isInstance_cons]
    cases f with
    | octets n =>
      rw [single, isInstance_replicate]
      exact exists₂_congr fun q r => and_congr_right fun _ => and_congr_left fun _ => ih
    | cString =>
      rw [single, isInstance_cons]
      · exact exists₂_congr fun q r => and_congr_right fun _ => and_congr_left fun _ => ih
      · exact fun n h => nomatch h
    | shortMessage =>
      rw [single, isInstance_cons]
      · exact exists₂_congr fun q r => and_congr_right fun _ => and_congr_left fun _ => ih
      · exact fun n h => nomatch h

/-! ## Walks -/

section Walk

variable {fs : List Field} {body : Bytes} {k : ℕ}

/-- A walk ends behind an instance of its layout, and nowhere else. -/
theorem walk_eq_some_iff_take :
    walk body fs 0 = some k ↔ k ≤ body.length ∧ IsInstance fs (body.take k) := by
  rw [walk_eq_some_iff]
  constructor
  · rintro ⟨parts, rest, hparts, rfl, rfl⟩
    refine ⟨by rw [length_append]; omega, parts, hparts, ?_⟩
    rw [take_left]
  · rintro ⟨hle, parts, hparts, htake⟩
    refine ⟨parts, body.drop k, hparts, ?_, ?_⟩
    · rw [← htake, take_append_drop]
    · rw [← htake, length_take_of_le hle]

/-- Only the fields matter. -/
theorem walk_take_append (h : walk body fs 0 = some k) (rest : Bytes) :
    walk (body.take k ++ rest) fs 0 = some k := by
  obtain ⟨hle, hinst⟩ := walk_eq_some_iff_take.mp h
  have hlen : (body.take k).length = k := length_take_of_le hle
  refine walk_extend (walk_eq_some_iff_take.mpr ⟨hlen.ge, ?_⟩) rest
  rwa [take_of_length_le hlen.le]

/-- **A body that is cut short has no boundary**: what its walk would pass, the
walk over the whole body passes too. -/
theorem walk_take_of_lt (h : walk body fs 0 = some k) {j : ℕ} (hj : j < k) :
    walk (body.take j) fs 0 = none := by
  by_contra hsome
  obtain ⟨m, hm⟩ := Option.ne_none_iff_exists'.mp hsome
  have hle := (walk_eq_some_iff_take.mp hm).1
  have hwhole := walk_extend hm (body.drop j)
  rw [take_append_drop, h] at hwhole
  cases hwhole
  rw [length_take] at hle
  omega

end Walk

/-! ## Every command -/

/-- The function finds the end of the layout; a layout without fields says
nothing. -/
inductive Describes : List Field → (Bytes → Option ℕ) → Prop
  | fields (fs : List Field) : Describes (single fs) fun body => walk body fs 0
  | cStringOnly : Describes [.cString] mandatoryLenCStringOnly
  | nothing (f : Bytes → Option ℕ) : Describes [] f

theorem Describes.ite {p : Prop} [Decidable p] {gs : List Field} {f g : Bytes → Option ℕ}
    (hf : Describes fs f) (hg : Describes gs g) :
    Describes (if p then fs else gs) (if p then f else g) := by
  split
  · exact hf
  · exact hg

/-- **The comments describe the code.** -/
theorem describes (commandID : UInt32) :
    Describes (documentedLayout commandID) (mandatoryBodyLen commandID) := by
  refine .ite (.fields [.cString, .octets 2, .cString, .octets 2, .cString, .octets 3, .cString,
    .cString, .octets 4, .shortMessage]) ?_
  refine .ite .cStringOnly ?_
  refine .ite (.fields [.cString, .cString, .cString, .octets 3, .cString]) ?_
  refine .ite (.fields [.cString, .octets 2, .cString]) ?_
  refine .ite (.fields [.cString, .cString, .octets 2]) ?_
  refine .ite (.fields [.cString, .cString, .octets 2, .cString, .octets 2, .cString]) ?_
  refine .ite (.fields
    [.cString, .octets 2, .cString, .cString, .cString, .octets 2, .shortMessage]) ?_
  refine .ite (.fields [.cString, .octets 2, .cString, .octets 2, .cString, .octets 3]) ?_
  refine .ite (.fields [.octets 2, .cString, .octets 2, .cString]) ?_
  refine .ite (.fields
    [.cString, .octets 2, .cString, .cString, .octets 1, .cString, .cString, .octets 3]) ?_
  refine .ite (.fields [.cString, .octets 2, .cString]) ?_
  refine .ite (.fields [.cString, .octets 1]) ?_
  exact .ite (.fields [.cString, .cString, .octets 2, .cString]) (.nothing _)

/-- **The boundary of a body** that a function finds: where it is, and that it
is the only one. -/
structure Boundary (fs : List Field) (f : Bytes → Option ℕ) (b : Bytes) : Prop where
  /-- It is within the body. -/
  le : ∀ k, f b = some k → k ≤ b.length
  /-- It is behind an instance of the layout, and behind nothing else. -/
  isInstance : ∀ k, 0 < k → (f b = some k ↔ k ≤ b.length ∧ IsInstance fs (b.take k))
  /-- A truncated body has none. -/
  truncated : ∀ k, f b = some k → ∀ j, 0 < j → j < k → f (b.take j) = none
  /-- What follows does not move it. -/
  extended : ∀ k, 0 < k → f b = some k → ∀ rest, f (b.take k ++ rest) = some k

theorem boundary_walk (fs : List Field) (b : Bytes) :
    Boundary (single fs) (fun body => walk body fs 0) b where
  le k h := (walk_eq_some_iff_take.mp h).1
  isInstance k _ := by rw [isInstance_single, walk_eq_some_iff_take]
  truncated k h j _ hj := walk_take_of_lt h hj
  extended k _ h rest := walk_take_append h rest

theorem mandatoryLenCStringOnly_of_ne {b : Bytes} (h : b ≠ []) :
    mandatoryLenCStringOnly b = walk b [.cString] 0 :=
  if_neg fun hlen => h (length_eq_zero_iff.mp hlen)

/-- An empty body may stand for a C-string, but no part of one. -/
theorem boundary_cStringOnly (b : Bytes) : Boundary [.cString] mandatoryLenCStringOnly b := by
  by_cases hb : b = []
  · subst hb
    refine ⟨?_, ?_, ?_, ?_⟩
    · intro k h
      exact (Option.some.inj h).ge
    · intro k hk
      refine iff_of_false (fun h => ?_) fun h => ?_
      · exact hk.ne (Option.some.inj h)
      · exact absurd h.1 (not_le.mpr hk)
    · intro k h j _ hj
      exact absurd hj (Option.some.inj h ▸ Nat.not_lt_zero j)
    · intro k hk h
      exact absurd (Option.some.inj h) hk.ne
  · have hwalk := boundary_walk [.cString] b
    have hf := mandatoryLenCStringOnly_of_ne hb
    have htake : ∀ j, 0 < j → b.take j ≠ [] := fun j hj hnil => by
      rcases take_eq_nil_iff.mp hnil with hzero | hnil
      · omega
      · exact hb hnil
    refine ⟨?_, ?_, ?_, ?_⟩
    · intro k h
      exact hwalk.le k (hf ▸ h)
    · intro k hk
      rw [hf]
      exact hwalk.isInstance k hk
    · intro k h j hj hlt
      rw [mandatoryLenCStringOnly_of_ne (htake j hj)]
      exact hwalk.truncated k (hf ▸ h) j hj hlt
    · intro k hk h rest
      rw [mandatoryLenCStringOnly_of_ne fun hnil => htake k hk (append_eq_nil_iff.mp hnil).1]
      exact hwalk.extended k hk (hf ▸ h) rest

/-- **`MandatoryBodyLen` finds the one boundary** of every command that has
mandatory fields. -/
theorem mandatory_boundary {commandID : UInt32} (h : documentedLayout commandID ≠ []) (b : Bytes) :
    Boundary (documentedLayout commandID) (mandatoryBodyLen commandID) b := by
  have hdescribes := describes commandID
  generalize documentedLayout commandID = fs at h hdescribes ⊢
  generalize mandatoryBodyLen commandID = f at hdescribes ⊢
  cases hdescribes with
  | fields fs => exact boundary_walk fs b
  | cStringOnly => exact boundary_cStringOnly b
  | nothing f => exact absurd rfl h

/-- A `submit_sm` of 21 bytes, and one byte of a TLV. -/
theorem submit_sm_boundary :
    mandatoryBodyLen cmdSubmitSM (buildSubmitSMBody [49] [50] [104, 105] ++ [4]) = some 21 ∧
      Boundary (documentedLayout cmdSubmitSM) (mandatoryBodyLen cmdSubmitSM)
        (buildSubmitSMBody [49] [50] [104, 105] ++ [4]) :=
  ⟨by decide, mandatory_boundary (by decide) _⟩

end Smpp

end SmscGateway
