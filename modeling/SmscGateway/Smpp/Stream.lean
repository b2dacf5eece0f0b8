import SmscGateway.Smpp.Codec

/-!
# PDUs in a stream

Both read loops take a header off the connection, then the rest that its
length field announces, and decode the two together. They differ in what they
do with a PDU that does not decode: the client goes on, the server ends the
connection. A connection is the list of the chunks that `Read` returns, and
ends after the last of them.
-/

namespace SmscGateway

open List

namespace Smpp

/-- `io.ReadFull`: fill a buffer of `n` bytes, chunk by chunk; `none` when the
connection ends before. Also returns what is still to be read. -/
def readFull : List Bytes → ℕ → Option (Bytes × List Bytes)
  | chunks, 0 => some ([], chunks)
  | [], _ + 1 => none
  | chunk :: chunks, n + 1 =>
    if n + 1 ≤ chunk.length then some (chunk.take (n + 1), chunk.drop (n + 1) :: chunks)
    else
      (readFull chunks (n + 1 - chunk.length)).map fun (got, rest) => (chunk ++ got, rest)

/-- What a round of a read loop comes to. -/
inductive Round
  /-- A read failed, or the length field was less than a header. -/
  | ended
  | undecodable (rest : List Bytes)
  | pdu (p : WirePDU) (rest : List Bytes)

/-- A round of a read loop: header, length field, rest, `DecodePDU`. -/
def readRound (chunks : List Bytes) : Round :=
  match readFull chunks pduHeaderLen with
  | none => .ended
  | some (headerBuf, chunks) =>
    let cmdLen := (word headerBuf 0).toNat
    if cmdLen < pduHeaderLen then .ended
    else
      let body :=
        if cmdLen > pduHeaderLen then readFull chunks (cmdLen - pduHeaderLen) else some ([], chunks)
      match body with
      | none => .ended
      | some (rest, chunks) =>
        match decodePDU (headerBuf ++ rest) with
        | .error _ => .undecodable chunks
        | .ok p => .pdu p chunks

/-- The PDUs a read loop dispatches; `goesOn` tells what it does with one that
does not decode. The second argument bounds the number of rounds. -/
def readLoop (goesOn : Bool) : ℕ → List Bytes → List WirePDU
  | 0, _ => []
  | n + 1, chunks =>
    match readRound chunks with
    | .ended => []
    | .undecodable rest => if goesOn then readLoop goesOn n rest else []
    | .pdu p rest => p :: readLoop goesOn n rest

/-- `Client.ReadLoop`; every round takes a byte. -/
def clientReadLoop (chunks : List Bytes) : List WirePDU :=
  readLoop true chunks.flatten.length chunks

/-- `Connection.ReadLoop`. -/
def connectionReadLoop (chunks : List Bytes) : List WirePDU :=
  readLoop false chunks.flatten.length chunks

/-! ## Chunks do not matter -/

/-- **`ReadFull` reads through chunks.** -/
theorem readFull_spec (chunks : List Bytes) (n : ℕ) :
    if n ≤ chunks.flatten.length then
      ∃ rest, readFull chunks n = some (chunks.flatten.take n, rest) ∧
        rest.flatten = chunks.flatten.drop n
    else readFull chunks n = none := by
  induction chunks generalizing n with
  | nil =>
    cases n with
    | zero => exact ⟨[], rfl, rfl⟩
    | succ n => rfl
  | cons chunk chunks ih =>
    cases n with
    | zero => exact ⟨chunk :: chunks, rfl, rfl⟩
    | succ n =>
      rw [flatten_cons, length_append]
      by_cases hle : n + 1 ≤ chunk.length
      · rw [if_pos (by omega), readFull, if_pos hle]
        refine ⟨chunk.drop (n + 1) :: chunks, ?_, ?_⟩
        · rw [take_append_of_le_length hle]
        · rw [flatten_cons, drop_append_of_le_length hle]
      · have hrest := ih (n + 1 - chunk.length)
        have htake : (chunk ++ chunks.flatten).take (n + 1) =
            chunk ++ chunks.flatten.take (n + 1 - chunk.length) := by
          rw [take_append, take_of_length_le (by omega)]
        have hdrop : (chunk ++ chunks.flatten).drop (n + 1) =
            chunks.flatten.drop (n + 1 - chunk.length) := by
          rw [drop_append, drop_of_length_le (by omega), nil_append]
        by_cases henough : n + 1 - chunk.length ≤ chunks.flatten.length
        · rw [if_pos henough] at hrest
          obtain ⟨rest, hread, hflat⟩ := hrest
          rw [if_pos (by omega), readFull, if_neg hle, hread]
          exact ⟨rest, by rw [htake]; rfl, by rw [hflat, hdrop]⟩
        · rw [if_neg henough] at hrest
          rw [if_neg (by omega), readFull, if_neg hle, hrest]
          rfl

/-! ## Frames -/

/-- Take a PDU off the front of a stream. -/
def nextPDU (stream : Bytes) : Option (WirePDU × Bytes) :=
  let cmdLen := (word stream 0).toNat
  if stream.length < pduHeaderLen ∨ cmdLen < pduHeaderLen ∨ stream.length < cmdLen then none
  else
    some
      ({ commandLength := word stream 0
         commandID := word stream 4
         commandStatus := word stream 8
         sequenceNumber := word stream 12
         body := (stream.take cmdLen).drop pduHeaderLen }, stream.drop cmdLen)

/-- A PDU as the reader gets it: its length field is right, and its TLVs are
part of the body. -/
def IsFrame (p : WirePDU) : Prop :=
  p.commandLength.toNat = pduHeaderLen + p.body.length ∧ p.tlvs = none

/-- The bytes of a frame. -/
def encodeFrame (p : WirePDU) : Bytes :=
  header p.commandLength.toNat p.commandID.toNat p.commandStatus.toNat p.sequenceNumber.toNat ++
    p.body

theorem length_encodeFrame {p : WirePDU} (h : IsFrame p) :
    (encodeFrame p).length = p.commandLength.toNat := by
  rw [encodeFrame, length_append, length_header, h.1]

theorem nextPDU_encodeFrame (p : WirePDU) (rest : Bytes) (h : IsFrame p) :
    nextPDU (encodeFrame p ++ rest) = some (p, rest) := by
  have hlen := length_encodeFrame h
  have hwords : word (encodeFrame p ++ rest) 0 = p.commandLength ∧
      word (encodeFrame p ++ rest) 4 = p.commandID ∧
      word (encodeFrame p ++ rest) 8 = p.commandStatus ∧
      word (encodeFrame p ++ rest) 12 = p.sequenceNumber := by
    rw [encodeFrame, append_assoc]
    obtain ⟨h₀, h₄, h₈, h₁₂⟩ := word_header p.commandLength.toNat p.commandID.toNat
      p.commandStatus.toNat p.sequenceNumber.toNat (p.body ++ rest)
    rw [word_toNat] at h₀ h₄ h₈ h₁₂
    exact ⟨h₀, h₄, h₈, h₁₂⟩
  obtain ⟨h₀, h₄, h₈, h₁₂⟩ := hwords
  have hok : ¬ ((encodeFrame p ++ rest).length < pduHeaderLen ∨
      p.commandLength.toNat < pduHeaderLen ∨
      (encodeFrame p ++ rest).length < p.commandLength.toNat) := by
    have hsize := h.1
    rw [length_append, hlen]
    omega
  have hbody : ((encodeFrame p ++ rest).take p.commandLength.toNat).drop pduHeaderLen = p.body := by
    rw [take_left' hlen, encodeFrame, drop_left' length_header]
  simp only [nextPDU, h₀, h₄, h₈, h₁₂, if_neg hok, hbody, drop_left' hlen]
  obtain ⟨⟨_, _, _, _⟩, _, _⟩ := p
  obtain rfl : _ = none := h.2
  rfl

theorem encodeFrame_of_nextPDU (stream : Bytes) (p : WirePDU) (rest : Bytes)
    (h : nextPDU stream = some (p, rest)) : IsFrame p ∧ stream = encodeFrame p ++ rest := by
  simp only [nextPDU] at h
  obtain ⟨hok, h⟩ := Option.ite_none_left_eq_some.mp h
  obtain ⟨rfl, rfl⟩ := Prod.mk.inj (Option.some.inj h)
  have hle : (word stream 0).toNat ≤ stream.length := by omega
  have hheader : pduHeaderLen ≤ stream.length := by omega
  refine ⟨⟨?_, rfl⟩, ?_⟩
  · change (word stream 0).toNat = _
    rw [length_drop, length_take_of_le hle]
    omega
  · have hfront : (stream.take (word stream 0).toNat).take pduHeaderLen =
        stream.take pduHeaderLen := by
      rw [take_take]
      congr 1
      omega
    simp only [encodeFrame]
    rw [header_word hheader, ← hfront, take_append_drop, take_append_drop]

/-- **PDUs one behind the other.** -/
def frames : Framing WirePDU UInt8 where
  Valid := IsFrame
  encode := encodeFrame
  next := nextPDU
  encode_ne_nil := fun p _ hnil => by
    have hlen := congrArg List.length hnil
    rw [encodeFrame, length_append, length_header] at hlen
    simp [pduHeaderLen] at hlen
  next_encode := nextPDU_encodeFrame
  encode_of_next := encodeFrame_of_nextPDU

/-! ## The loops -/

theorem word_take {data : Bytes} {n k : ℕ} (h : k + 4 ≤ n) : word (data.take n) k = word data k := by
  have hsame : ((data.take n).drop k).take 4 = (data.drop k).take 4 := by
    rw [drop_take, take_take]
    congr 1
    omega
  rw [word, hsame, word]

/-- A frame that was read in full decodes. -/
theorem decodePDU_take {stream rest : Bytes} {p : WirePDU} (h : nextPDU stream = some (p, rest)) :
    decodePDU (stream.take (word stream 0).toNat) = .ok p ∧
      rest = stream.drop (word stream 0).toNat ∧
      pduHeaderLen ≤ (word stream 0).toNat ∧ (word stream 0).toNat ≤ stream.length := by
  simp only [nextPDU] at h
  obtain ⟨hok, h⟩ := Option.ite_none_left_eq_some.mp h
  obtain ⟨rfl, rfl⟩ := Prod.mk.inj (Option.some.inj h)
  have hheader : pduHeaderLen ≤ (word stream 0).toNat := by omega
  have h16 : 16 ≤ (word stream 0).toNat := hheader
  have hle : (word stream 0).toNat ≤ stream.length := by omega
  have hmod : (word stream 0).toNat % 2 ^ 32 = (word stream 0).toNat :=
    Nat.mod_eq_of_lt (word stream 0).toNat_lt
  refine ⟨?_, rfl, hheader, hle⟩
  simp only [decodePDU, length_take_of_le hle, if_neg (not_lt.mpr hheader),
    word_take (show 0 + 4 ≤ (word stream 0).toNat by omega),
    word_take (show 4 + 4 ≤ (word stream 0).toNat by omega),
    word_take (show 8 + 4 ≤ (word stream 0).toNat by omega),
    word_take (show 12 + 4 ≤ (word stream 0).toNat by omega), hmod, lt_irrefl, if_false,
    take_take, min_self]

/-- A round without a frame at the front ends the loop. -/
theorem readRound_of_none {chunks : List Bytes} (h : nextPDU chunks.flatten = none) :
    readRound chunks = .ended := by
  have hread := readFull_spec chunks pduHeaderLen
  by_cases hheader : pduHeaderLen ≤ chunks.flatten.length
  · rw [if_pos hheader] at hread
    obtain ⟨behind, hread, hbehind⟩ := hread
    have hword : word (chunks.flatten.take pduHeaderLen) 0 = word chunks.flatten 0 :=
      word_take (by decide)
    simp only [readRound, hread, hword]
    by_cases hsmall : (word chunks.flatten 0).toNat < pduHeaderLen
    · rw [if_pos hsmall]
    · -- the body breaks off
      have hlong : chunks.flatten.length < (word chunks.flatten 0).toNat := by
        by_contra hno
        rw [nextPDU, if_neg (by omega)] at h
        cases h
      have hbody := readFull_spec behind ((word chunks.flatten 0).toNat - pduHeaderLen)
      rw [hbehind, length_drop, if_neg (by omega)] at hbody
      rw [if_neg hsmall, if_pos (by omega), hbody]
  · rw [if_neg hheader] at hread
    simp only [readRound, hread]

/-- **A round of the loop takes a frame off the stream.** -/
theorem readRound_of_some {chunks : List Bytes} {p : WirePDU} {rest : Bytes}
    (h : nextPDU chunks.flatten = some (p, rest)) :
    ∃ chunks', readRound chunks = .pdu p chunks' ∧ chunks'.flatten = rest := by
  obtain ⟨hdecode, rfl, hheader, hle⟩ := decodePDU_take h
  have hread := readFull_spec chunks pduHeaderLen
  rw [if_pos (by omega)] at hread
  obtain ⟨behind, hread, hbehind⟩ := hread
  have hword : word (chunks.flatten.take pduHeaderLen) 0 = word chunks.flatten 0 :=
    word_take (by decide)
  -- the body, if there is one
  have hbody : ∃ chunks', (if (word chunks.flatten 0).toNat > pduHeaderLen then
        readFull behind ((word chunks.flatten 0).toNat - pduHeaderLen) else some ([], behind)) =
      some ((chunks.flatten.drop pduHeaderLen).take ((word chunks.flatten 0).toNat - pduHeaderLen),
        chunks') ∧ chunks'.flatten = chunks.flatten.drop (word chunks.flatten 0).toNat := by
    split
    · have hbody := readFull_spec behind ((word chunks.flatten 0).toNat - pduHeaderLen)
      rw [hbehind, length_drop, if_pos (by omega)] at hbody
      obtain ⟨chunks', hbody, hflat⟩ := hbody
      refine ⟨chunks', hbody, ?_⟩
      rw [hflat, drop_drop]
      congr 1
      omega
    · have heq : (word chunks.flatten 0).toNat = pduHeaderLen := by omega
      exact ⟨behind, by rw [heq, Nat.sub_self, take_zero], by rw [hbehind, heq]⟩
  obtain ⟨chunks', hbody, hflat⟩ := hbody
  have hwhole : chunks.flatten.take pduHeaderLen ++
      (chunks.flatten.drop pduHeaderLen).take ((word chunks.flatten 0).toNat - pduHeaderLen) =
      chunks.flatten.take (word chunks.flatten 0).toNat := by
    rw [← take_add]
    congr 1
    omega
  refine ⟨chunks', ?_, hflat⟩
  simp only [readRound, hread, hword, if_neg (not_lt.mpr hheader), hbody, hwhole, hdecode]

/-- **A loop dispatches the frames of its stream**, whatever the chunks. -/
theorem readLoop_eq (goesOn : Bool) (n : ℕ) (chunks : List Bytes) :
    readLoop goesOn n chunks = (frames.read n chunks.flatten).1 := by
  induction n generalizing chunks with
  | zero => rfl
  | succ n ih =>
    rw [readLoop, Framing.read]
    cases hnext : frames.next chunks.flatten with
    | none => rw [readRound_of_none hnext]
    | some x =>
      obtain ⟨p, rest⟩ := x
      obtain ⟨chunks', hround, rfl⟩ := readRound_of_some hnext
      simp only [hround, ih]

/-! ## What was sent -/

theorem isFrame_received {pdu : WirePDU} (h : pdu.size < 2 ^ 32) : IsFrame (received pdu) := by
  have hnat : (UInt32.ofNat pdu.size).toNat = pdu.size := Nat.mod_eq_of_lt h
  refine ⟨?_, rfl⟩
  change (UInt32.ofNat pdu.size).toNat = pduHeaderLen + (pdu.body ++ pdu.tlvBytes).length
  rw [hnat, WirePDU.size, length_append, Nat.add_assoc]

/-- The frame of what is received is what `EncodePDU` wrote. -/
theorem encodeFrame_received {pdu : WirePDU} (h : pdu.size < 2 ^ 32) :
    encodePDU pdu = some (encodeFrame (received pdu)) := by
  have hnat : (UInt32.ofNat pdu.size).toNat = pdu.size := Nat.mod_eq_of_lt h
  rw [encodePDU_of_lt h, encodeFrame]
  simp only [received, hnat]

/-- **Framing.** Of any part of a stream of PDUs, however it is cut into
chunks, both loops dispatch just the PDUs that are whole in it. -/
theorem whole_pdus_are_dispatched (pdus : List WirePDU) (hsize : ∀ p ∈ pdus, p.size < 2 ^ 32)
    (sent : List Bytes) (hsent : pdus.map encodePDU = sent.map some) (chunks : List Bytes)
    (hchunks : chunks.flatten <+: sent.flatten) :
    clientReadLoop chunks = (pdus.take (Framing.whole sent chunks.flatten.length)).map received ∧
    connectionReadLoop chunks =
      (pdus.take (Framing.whole sent chunks.flatten.length)).map received := by
  have hframes : sent = (pdus.map received).map encodeFrame := by
    have hencode : pdus.map encodePDU = (pdus.map fun p => encodeFrame (received p)).map some := by
      rw [map_map]
      exact map_congr_left fun p hp => encodeFrame_received (hsize p hp)
    rw [hsent] at hencode
    rw [map_map]
    exact map_injective_iff.mpr (Option.some_injective _) hencode
  have hvalid : ∀ p ∈ pdus.map received, frames.Valid p := by
    intro p hp
    obtain ⟨p', hp', rfl⟩ := mem_map.mp hp
    exact isFrame_received (hsize p' hp')
  have hpre : chunks.flatten <+: (pdus.map received).flatMap frames.encode := by
    rw [flatMap_def]
    exact hframes ▸ hchunks
  have hread := frames.read_of_prefix hvalid hpre (le_refl chunks.flatten.length)
  rw [show (pdus.map received).map frames.encode = sent from hframes.symm, ← map_take] at hread
  exact ⟨by rw [clientReadLoop, readLoop_eq, hread], by rw [connectionReadLoop, readLoop_eq, hread]⟩

/-- An `enquire_link` and an `unbind`, in three chunks, with the last byte
missing: the first one is read. -/
theorem truncated_unbind_not_dispatched :
    clientReadLoop [[0, 0, 0], [16, 0, 0, 0, 21, 0, 0, 0, 0, 0, 0, 0, 1, 0],
      [0, 0, 16, 0, 0, 0, 6, 0, 0, 0, 0, 0, 0, 0]] =
        [received { commandID := cmdEnquireLink, sequenceNumber := 1 }] ∧
    connectionReadLoop [[0, 0, 0], [16, 0, 0, 0, 21, 0, 0, 0, 0, 0, 0, 0, 1, 0],
      [0, 0, 16, 0, 0, 0, 6, 0, 0, 0, 0, 0, 0, 0]] =
        [received { commandID := cmdEnquireLink, sequenceNumber := 1 }] :=
  whole_pdus_are_dispatched
    [{ commandID := cmdEnquireLink, sequenceNumber := 1 },
      { commandID := cmdUnbind, sequenceNumber := 2 }] (by decide)
    [[0, 0, 0, 16, 0, 0, 0, 21, 0, 0, 0, 0, 0, 0, 0, 1],
      [0, 0, 0, 16, 0, 0, 0, 6, 0, 0, 0, 0, 0, 0, 0, 2]] (by decide) _ (by decide)

end Smpp

end SmscGateway
