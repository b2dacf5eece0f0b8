import SmscGateway.Smpp.SubmitSM
import SmscGateway.Smpp.Tlv
import SmscGateway.Smpp.Wire

/-!
# Where the mandatory fields of a body end

`MandatoryBodyLen` walks over the mandatory fields of a body, command by
command, to find where its TLVs begin. Every layout is a list of fields, and
every field ends where its own bytes say: a C-string at its terminator, a
short message behind its length. So the walk ends at the same place whatever
stands behind the fields (`walk_append`).
-/

namespace SmscGateway

open List

namespace Smpp

/-! ## Fields -/

/-- The kinds of mandatory fields. -/
inductive Field
  | cString
  /-- That many single bytes. -/
  | octets (n : ℕ)
  /-- `sm_length`, and a `short_message` of that length. -/
  | shortMessage
  deriving DecidableEq

/-- `skipCString`: the offset just past the terminator; `none` where the
source returns -1. -/
def skipCString (body : Bytes) (offset : ℕ) : Option ℕ :=
  ((body.drop offset).findIdx? (· = 0)).map fun i => offset + i + 1

/-- The offset behind a field. -/
def Field.skip (body : Bytes) (offset : ℕ) : Field → Option ℕ
  | .cString => skipCString body offset
  | .octets n => if offset + n > body.length then none else some (offset + n)
  | .shortMessage =>
    match body[offset]? with
    | none => none
    | some smLen =>
      if offset + 1 + smLen.toNat > body.length then none else some (offset + 1 + smLen.toNat)

/-- The offset behind several fields. -/
def walk (body : Bytes) : List Field → ℕ → Option ℕ
  | [], offset => some offset
  | f :: fs, offset => (f.skip body offset).bind (walk body fs)

/-! ## Layouts -/

/-- `service_type`, the addresses, `esm_class` to `priority_flag`,
`schedule_delivery_time`, `validity_period`, and `registered_delivery` to
`sm_default_msg_id`. -/
def submitDeliverSMFront : List Field :=
  [.cString, .octets 2, .cString, .octets 2, .cString, .octets 3, .cString, .cString, .octets 4]

def mandatoryLenSubmitDeliverSM (body : Bytes) : Option ℕ :=
  walk body (submitDeliverSMFront ++ [.shortMessage]) 0

def mandatoryLenCStringOnly (body : Bytes) : Option ℕ :=
  if body.length = 0 then some 0 else walk body [.cString] 0

def mandatoryLenBind (body : Bytes) : Option ℕ :=
  walk body [.cString, .cString, .cString, .octets 3, .cString] 0

def mandatoryLenQuerySM (body : Bytes) : Option ℕ :=
  walk body [.cString, .octets 2, .cString] 0

def mandatoryLenQuerySMResp (body : Bytes) : Option ℕ :=
  walk body [.cString, .cString, .octets 2] 0

def mandatoryLenCancelSM (body : Bytes) : Option ℕ :=
  walk body [.cString, .cString, .octets 2, .cString, .octets 2, .cString] 0

def mandatoryLenReplaceSM (body : Bytes) : Option ℕ :=
  walk body [.cString, .octets 2, .cString, .cString, .cString, .octets 2, .shortMessage] 0

def mandatoryLenDataSM (body : Bytes) : Option ℕ :=
  walk body [.cString, .octets 2, .cString, .octets 2, .cString, .octets 3] 0

def mandatoryLenAlertNotification (body : Bytes) : Option ℕ :=
  walk body [.octets 2, .cString, .octets 2, .cString] 0

def mandatoryLenBroadcastSM (body : Bytes) : Option ℕ :=
  walk body
    [.cString, .octets 2, .cString, .cString, .octets 1, .cString, .cString, .octets 3] 0

def mandatoryLenQueryBroadcastSM (body : Bytes) : Option ℕ :=
  walk body [.cString, .octets 2, .cString] 0

def mandatoryLenQueryBroadcastSMResp (body : Bytes) : Option ℕ :=
  walk body [.cString, .octets 1] 0

def mandatoryLenCancelBroadcastSM (body : Bytes) : Option ℕ :=
  walk body [.cString, .cString, .octets 2, .cString] 0

/-- The commands whose mandatory part is a single C-string, or nothing. -/
def cStringOnly : List UInt32 :=
  [cmdSubmitSMResp, cmdDeliverSMResp, cmdBindTransceiverResp, cmdBindTransmitterResp,
    cmdBindReceiverResp, cmdDataSMResp, cmdBroadcastSMResp]

/-- `MandatoryBodyLen`: `none` where the source returns -1. -/
def mandatoryBodyLen (commandID : UInt32) : Bytes → Option ℕ :=
  if commandID ∈ [cmdSubmitSM, cmdDeliverSM] then mandatoryLenSubmitDeliverSM
  else if commandID ∈ cStringOnly then mandatoryLenCStringOnly
  else if commandID ∈ [cmdBindTransceiver, cmdBindTransmitter, cmdBindReceiver] then
    mandatoryLenBind
  else if commandID = cmdQuerySM then mandatoryLenQuerySM
  else if commandID = cmdQuerySMResp then mandatoryLenQuerySMResp
  else if commandID = cmdCancelSM then mandatoryLenCancelSM
  else if commandID = cmdReplaceSM then mandatoryLenReplaceSM
  else if commandID = cmdDataSM then mandatoryLenDataSM
  else if commandID = cmdAlertNotification then mandatoryLenAlertNotification
  else if commandID = cmdBroadcastSM then mandatoryLenBroadcastSM
  else if commandID = cmdQueryBroadcastSM then mandatoryLenQueryBroadcastSM
  else if commandID = cmdQueryBroadcastSMResp then mandatoryLenQueryBroadcastSMResp
  else if commandID = cmdCancelBroadcastSM then mandatoryLenCancelBroadcastSM
  else if commandID ∈ [cmdCancelBroadcastSMResp, cmdCancelSMResp, cmdReplaceSMResp,
      cmdEnquireLink, cmdEnquireLinkResp, cmdUnbind, cmdUnbindResp, cmdGenericNack] then
    fun _ => some 0
  else
    -- submit_multi and its response among them
    fun _ => none

/-- `ExtractTLVs`: `none` in a success is a nil set. -/
def extractTLVs (pdu : PDU) : Except TLVError (Option TLVSet) :=
  match mandatoryBodyLen pdu.commandID pdu.body with
  | none => .ok none
  | some offset =>
    if offset = pdu.body.length then .ok (some .empty)
    else (decodeTLVs (pdu.body.drop offset)).map some

/-! ## What a field looks like -/

/-- The bytes of a field. -/
def Field.Encodes (p : Bytes) : Field → Prop
  | .cString => ∃ s, NulFree s ∧ p = s ++ [0]
  | .octets n => p.length = n
  | .shortMessage => ∃ smLen m, p = smLen :: m ∧ m.length = smLen.toNat

theorem findIdx?_cString {s : Bytes} (hs : NulFree s) (rest : Bytes) :
    (s ++ 0 :: rest).findIdx? (· = 0) = some s.length := by
  have hno : s.findIdx? (· = 0) = none := by
    rw [findIdx?_eq_none_iff]
    intro b hb
    exact decide_eq_false fun h => hs (h ▸ hb)
  rw [findIdx?_append, hno, findIdx?_cons]
  simp

/-- **A field is skipped**, whatever stands before and behind it. -/
theorem Field.skip_append {f : Field} {p : Bytes} (hp : f.Encodes p) (front rest : Bytes) :
    f.skip (front ++ (p ++ rest)) front.length = some (front.length + p.length) := by
  cases f with
  | cString =>
    obtain ⟨s, hs, rfl⟩ := hp
    rw [Field.skip, skipCString, drop_left, append_assoc, singleton_append,
      findIdx?_cString hs]
    simp [Nat.add_assoc]
  | octets n =>
    obtain rfl : p.length = n := hp
    have hle : ¬ front.length + p.length > (front ++ (p ++ rest)).length := by
      simp only [length_append]
      omega
    rw [Field.skip, if_neg hle]
  | shortMessage =>
    obtain ⟨smLen, m, rfl, hm⟩ := hp
    have hget : (front ++ (smLen :: m ++ rest))[front.length]? = some smLen := by simp
    have hle : ¬ front.length + 1 + smLen.toNat > (front ++ (smLen :: m ++ rest)).length := by
      simp only [length_append, length_cons]
      omega
    simp only [Field.skip, hget, if_neg hle, length_cons]
    congr 1
    omega

variable {body : Bytes} {fs : List Field}

/-- **What is skipped is a field.** -/
theorem Field.exists_of_skip {f : Field} {offset offset' : ℕ} (hle : offset ≤ body.length)
    (h : f.skip body offset = some offset') :
    ∃ p rest, f.Encodes p ∧ body.drop offset = p ++ rest ∧ offset' = offset + p.length := by
  cases f with
  | cString =>
    obtain ⟨i, hi, rfl⟩ := Option.map_eq_some_iff.mp h
    obtain ⟨hlt, hzero, hbefore⟩ := findIdx?_eq_some_iff_getElem.mp hi
    refine ⟨(body.drop offset).take i ++ [0], (body.drop offset).drop (i + 1),
      ⟨_, fun hmem => ?_, rfl⟩, ?_, ?_⟩
    · -- no byte before the terminator is zero
      obtain ⟨j, hj, hget⟩ := getElem_of_mem hmem
      have hji : j < i := by
        rw [length_take] at hj
        omega
      rw [getElem_take] at hget
      exact absurd hget (by simpa using hbefore j hji)
    · have hz : (body.drop offset)[i] = 0 := by simpa using hzero
      rw [append_assoc, singleton_append, ← hz, getElem_cons_drop, take_append_drop]
    · rw [length_append, length_take_of_le hlt.le]
      simp [Nat.add_assoc]
  | octets n =>
    simp only [Field.skip] at h
    split at h
    · cases h
    · cases h
      refine ⟨(body.drop offset).take n, (body.drop offset).drop n, ?_, ?_, ?_⟩
      · change ((body.drop offset).take n).length = n
        rw [length_take, length_drop]
        omega
      · rw [take_append_drop]
      · rw [length_take, length_drop]
        omega
  | shortMessage =>
    simp only [Field.skip] at h
    split at h
    · cases h
    · rename_i smLen hget
      split at h
      · cases h
      · cases h
        obtain ⟨hlt, rfl⟩ := List.getElem?_eq_some_iff.mp hget
        refine ⟨body[offset] :: (body.drop (offset + 1)).take body[offset].toNat,
          (body.drop (offset + 1)).drop body[offset].toNat, ⟨_, _, rfl, ?_⟩, ?_, ?_⟩
        · rw [length_take, length_drop]
          omega
        · rw [cons_append, take_append_drop, getElem_cons_drop]
        · rw [length_cons, length_take, length_drop]
          omega

/-! ## What a layout looks like -/

/-- The fields one behind the other. -/
def Layout (fs : List Field) (parts : List Bytes) : Prop := List.Forall₂ (fun f p => f.Encodes p) fs parts

section Build

variable {fs : List Field} {parts : List Bytes}

theorem Layout.cString {s : Bytes} (hs : NulFree s) (hrest : Layout fs parts) :
    Layout (.cString :: fs) (Smpp.cString s :: parts) := .cons ⟨s, hs, rfl⟩ hrest

theorem Layout.octets (l : Bytes) (hrest : Layout fs parts) :
    Layout (.octets l.length :: fs) (l :: parts) := .cons rfl hrest

theorem Layout.shortMessage {smLength : UInt8} {message : Bytes}
    (h : smLength.toNat = message.length) (hrest : Layout fs parts) :
    Layout (.shortMessage :: fs) ((smLength :: message) :: parts) :=
  .cons ⟨smLength, message, rfl, h.symm⟩ hrest

theorem Layout.append {gs : List Field} {parts' : List Bytes} (h : Layout fs parts)
    (h' : Layout gs parts') : Layout (fs ++ gs) (parts ++ parts') := rel_append h h'

end Build

/-- **A walk ends behind its fields**, whatever stands there. -/
theorem walk_append {parts : List Bytes} (h : Layout fs parts) (front rest : Bytes) :
    walk (front ++ (parts.flatten ++ rest)) fs front.length =
      some (front.length + parts.flatten.length) := by
  induction h generalizing front with
  | nil => rfl
  | @cons f p fs parts hp _ ih =>
    have hskip := Field.skip_append hp front (parts.flatten ++ rest)
    have hrest := ih (front ++ p)
    rw [append_assoc, length_append] at hrest
    rw [flatten_cons, append_assoc, walk, hskip, Option.bind_some, hrest,
      length_append, Nat.add_assoc]

/-- **What a walk passes is its fields.** -/
theorem exists_of_walk {offset offset' : ℕ} (hle : offset ≤ body.length)
    (h : walk body fs offset = some offset') :
    ∃ parts rest, Layout fs parts ∧ body.drop offset = parts.flatten ++ rest ∧
      offset' = offset + parts.flatten.length := by
  induction fs generalizing offset with
  | nil =>
    obtain rfl := Option.some.inj h
    exact ⟨[], body.drop offset, .nil, rfl, rfl⟩
  | cons f fs ih =>
    obtain ⟨mid, hskip, hwalk⟩ := Option.bind_eq_some_iff.mp h
    obtain ⟨p, rest, hp, hdrop, rfl⟩ := Field.exists_of_skip hle hskip
    have hlen := congrArg length hdrop
    rw [length_drop, length_append] at hlen
    obtain ⟨parts, rest', hparts, hdrop', rfl⟩ := ih (by omega) hwalk
    rw [← drop_drop, hdrop, drop_left] at hdrop'
    refine ⟨p :: parts, rest', .cons hp hparts, ?_, ?_⟩
    · rw [hdrop, hdrop', flatten_cons, append_assoc]
    · rw [flatten_cons, length_append, Nat.add_assoc]

/-- The walk over a body from its start. -/
theorem walk_eq_some_iff {n : ℕ} : walk body fs 0 = some n ↔
      ∃ parts rest, Layout fs parts ∧ body = parts.flatten ++ rest ∧ n = parts.flatten.length := by
  constructor
  · intro h
    obtain ⟨parts, rest, hparts, hbody, rfl⟩ := exists_of_walk (Nat.zero_le _) h
    exact ⟨parts, rest, hparts, hbody, Nat.zero_add _⟩
  · rintro ⟨parts, rest, hparts, rfl, rfl⟩
    have h := walk_append hparts [] rest
    rwa [nil_append, length_nil, Nat.zero_add] at h

/-- What is appended to a body does not move the end of its fields. -/
theorem walk_extend {n : ℕ} (h : walk body fs 0 = some n) (extra : Bytes) :
    walk (body ++ extra) fs 0 = some n := by
  obtain ⟨parts, rest, hparts, rfl, rfl⟩ := walk_eq_some_iff.mp h
  exact walk_eq_some_iff.mpr ⟨parts, rest ++ extra, hparts, append_assoc _ _ _, rfl⟩

/-! ## Every command -/

/-- How `MandatoryBodyLen` finds the end of the fields. -/
inductive Walker (commandID : UInt32) : (Bytes → Option ℕ) → Prop
  | fields (fs : List Field) : Walker commandID fun body => walk body fs 0
  | cStringOnly (h : commandID ∈ cStringOnly) : Walker commandID mandatoryLenCStringOnly
  | unknown : Walker commandID fun _ => none

theorem Walker.ite {commandID : UInt32} {p : Prop} [Decidable p] {f g : Bytes → Option ℕ}
    (hf : p → Walker commandID f) (hg : Walker commandID g) :
    Walker commandID (if p then f else g) := by
  split
  · rename_i hp
    exact hf hp
  · exact hg

theorem walker (commandID : UInt32) : Walker commandID (mandatoryBodyLen commandID) := by
  refine .ite (fun _ => .fields _) ?_
  refine .ite .cStringOnly ?_
  iterate 11 refine .ite (fun _ => .fields _) ?_
  exact .ite (fun _ => .fields []) .unknown

section Append

variable {commandID : UInt32} {body : Bytes} {n : ℕ}

/-- **Appended TLVs do not move the boundary**, unless the body is empty where
a C-string may be left out. -/
theorem mandatoryBodyLen_append (hbody : commandID ∈ cStringOnly → body ≠ [])
    (h : mandatoryBodyLen commandID body = some n) (extra : Bytes) :
    mandatoryBodyLen commandID (body ++ extra) = some n := by
  have hwalker := walker commandID
  generalize mandatoryBodyLen commandID = f at h hwalker ⊢
  cases hwalker with
  | fields fs => exact walk_extend h extra
  | cStringOnly hcmd =>
    have hne : ¬ body.length = 0 := fun h0 => hbody hcmd (length_eq_zero_iff.mp h0)
    have hne' : ¬ (body ++ extra).length = 0 := by
      rw [length_append]
      omega
    rw [mandatoryLenCStringOnly, if_neg hne] at h
    rw [mandatoryLenCStringOnly, if_neg hne']
    exact walk_extend h extra
  | unknown => cases h

/-- What stands behind a body that ends with its fields is decoded. -/
theorem extractTLVs_suffix {suffix : Bytes}
    (h : mandatoryBodyLen commandID (body ++ suffix) = some body.length) (status seq : UInt32) :
    extractTLVs ⟨commandID, status, seq, body ++ suffix⟩ = (decodeTLVs suffix).map some := by
  simp only [extractTLVs, h]
  split
  · rename_i hlen
    -- no bytes are no TLVs
    have hnil : suffix = [] := by
      rw [length_append] at hlen
      exact length_eq_zero_iff.mp (by omega)
    rw [hnil]
    rfl
  · rw [drop_left]

/-- **The TLVs behind the fields are extracted.** -/
theorem extractTLVs_append {t : TLVSet} (ht : ∀ v ∈ t.values, v.length ≤ 65535)
    (hbody : commandID ∈ cStringOnly → body ≠ [])
    (h : mandatoryBodyLen commandID body = some body.length) {pdu : PDU}
    (hcmd : pdu.commandID = commandID) (hpdu : pdu.body = body ++ TLVSet.encode t) :
    extractTLVs pdu = .ok (some t) := by
  have hlen := mandatoryBodyLen_append hbody h (TLVSet.encode t)
  obtain ⟨cmd, status, seq, b⟩ := pdu
  obtain rfl : cmd = commandID := hcmd
  obtain rfl : b = body ++ TLVSet.encode t := hpdu
  rw [extractTLVs_suffix hlen, decodeTLVs_encode ht]
  rfl

end Append

end Smpp

end SmscGateway
