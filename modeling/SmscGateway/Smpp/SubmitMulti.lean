import SmscGateway.Common.BigEndian
import SmscGateway.Smpp.SubmitSM

/-!
# `submit_multi_resp`

The answer to a `submit_multi` lists the destinations that failed. Its parser
reads C-strings that may lack their terminator, but an entry counts only once its
four bytes of error code are there, and these stand behind the terminator. So a
body that is cut anywhere gives the first entries of the whole one.
-/

namespace SmscGateway

open List

namespace Smpp

/-- `UnsuccessDest`. -/
structure UnsuccessDest where
  ton : UInt8
  npi : UInt8
  address : Bytes
  errorCode : UInt32
  deriving DecidableEq

/-- The bytes of an entry. -/
def UnsuccessDest.encode (u : UnsuccessDest) : Bytes :=
  u.ton :: u.npi :: (u.address ++ 0 :: bigEndian 4 u.errorCode.toNat)

/-- The loop of `ParseSubmitMultiResp`, with the number of entries still to come.
It ends early where the bytes do. -/
def parseUnsuccess : ℕ → Bytes → List UnsuccessDest
  | n + 1, ton :: npi :: rest =>
    let (address, rest) := readCString rest
    if 4 > rest.length then []
    else
      ⟨ton, npi, address, UInt32.ofNat (ofBigEndian (rest.take 4))⟩ ::
        parseUnsuccess n (rest.drop 4)
  | _, _ => []

/-- `ParseSubmitMultiResp`. -/
def parseSubmitMultiResp (body : Bytes) : Bytes × List UnsuccessDest :=
  let (messageID, rest) := readCString body
  match rest with
  | [] => (messageID, [])
  | numUnsuccess :: rest => (messageID, parseUnsuccess numUnsuccess.toNat rest)

/-- An entry is read back, and so is what stands behind it. -/
theorem parseUnsuccess_encode {u : UnsuccessDest} (hu : NulFree u.address) (n : ℕ) (rest : Bytes) :
    parseUnsuccess (n + 1) (u.encode ++ rest) = u :: parseUnsuccess n rest := by
  have hlen := length_bigEndian 4 u.errorCode.toNat
  have hread : readCString (u.address ++ 0 :: (bigEndian 4 u.errorCode.toNat ++ rest)) =
      (u.address, bigEndian 4 u.errorCode.toNat ++ rest) := readCString_append hu _
  have htake : (bigEndian 4 u.errorCode.toNat ++ rest).take 4 = bigEndian 4 u.errorCode.toNat :=
    take_left' hlen
  have hcode : UInt32.ofNat (ofBigEndian (bigEndian 4 u.errorCode.toNat)) = u.errorCode := by
    rw [ofBigEndian_bigEndian_of_lt u.errorCode.toNat_lt, UInt32.ofNat_toNat]
  simp [UnsuccessDest.encode, parseUnsuccess, hread, htake, drop_left' hlen, hcode, hlen]

theorem parseUnsuccess_flatMap {us : List UnsuccessDest} (hus : ∀ u ∈ us, NulFree u.address)
    (rest : Bytes) :
    parseUnsuccess us.length (us.flatMap UnsuccessDest.encode ++ rest) = us := by
  induction us with
  | nil => simp [parseUnsuccess]
  | cons u us ih =>
    rw [flatMap_cons, append_assoc, length_cons, parseUnsuccess_encode (hus u (by simp)),
      ih fun v hv => hus v (by simp [hv])]

/-- A C-string that is cut short ends the bytes, and one that is not is read as it
is in the whole. -/
theorem readCString_of_prefix {front body : Bytes} (h : front <+: body) :
    (readCString front).2 = [] ∨ (readCString front).1 = (readCString body).1 ∧
      (readCString front).2 <+: (readCString body).2 := by
  rcases eq_or_ne (readCString front).2 [] with hend | hend
  · exact Or.inl hend
  · obtain ⟨hnul, hfront⟩ := eq_append_of_readCString hend
    obtain ⟨rest, rfl⟩ := h
    have hbody := readCString_append hnul ((readCString front).2 ++ rest)
    rw [← cons_append, ← append_assoc, ← hfront] at hbody
    rw [hbody]
    exact Or.inr ⟨rfl, prefix_append _ _⟩

/-- **The loop degrades to a prefix.** -/
theorem parseUnsuccess_of_prefix (n : ℕ) {front body : Bytes} (h : front <+: body) :
    parseUnsuccess n front <+: parseUnsuccess n body := by
  induction n generalizing front body with
  | zero => simp [parseUnsuccess]
  | succ n ih =>
    match front, body, h with
    | [], _, _ => simp [parseUnsuccess]
    | [_], _, _ => simp [parseUnsuccess]
    | ton :: npi :: front, _, ⟨rest, rfl⟩ =>
      simp only [cons_append, parseUnsuccess]
      split
      · simp
      · rename_i hcode
        rcases readCString_of_prefix (prefix_append front rest) with hend | ⟨haddr, tail, htail⟩
        · simp [hend] at hcode
        · have hroom : 4 ≤ (readCString front).2.length := not_lt.mp hcode
          rw [haddr, ← htail, if_neg (by rw [length_append]; omega), take_append_of_le_length hroom,
            drop_append_of_le_length hroom]
          exact cons_prefix_cons.mpr ⟨rfl, ih (prefix_append _ _)⟩

/-- **What was serialised is read back, and a cut never invents or alters an
entry.** -/
theorem parseSubmitMultiResp_exact :
    (∀ (messageID : Bytes) (us : List UnsuccessDest) (rest : Bytes), NulFree messageID →
      us.length ≤ 255 → (∀ u ∈ us, NulFree u.address) →
      parseSubmitMultiResp (messageID ++ 0 :: UInt8.ofNat us.length ::
        (us.flatMap UnsuccessDest.encode ++ rest)) = (messageID, us)) ∧
    ∀ front body : Bytes, front <+: body →
      (parseSubmitMultiResp front).2 <+: (parseSubmitMultiResp body).2 := by
  constructor
  · intro messageID us rest hid hlen hus
    have hcount : (UInt8.ofNat us.length).toNat = us.length :=
      UInt8.toNat_ofNat_of_lt' (Nat.lt_succ_of_le hlen)
    rw [parseSubmitMultiResp, readCString_append hid]
    simp only [hcount, parseUnsuccess_flatMap hus]
  · intro front body h
    simp only [parseSubmitMultiResp]
    rcases readCString_of_prefix h with hend | ⟨-, rest, hrest⟩
    · simp [hend]
    · rw [← hrest]
      rcases (readCString front).2 with _ | ⟨numUnsuccess, entries⟩
      · simp
      · exact parseUnsuccess_of_prefix _ (prefix_append _ _)

/-- A response with two failed destinations and a TLV behind them, and what is left
when it is cut inside the second error code. -/
theorem two_unsuccess_read :
    let us : List UnsuccessDest := [⟨1, 1, [0x34], 11⟩, ⟨0, 1, [0x35, 0x36], 0x10203⟩]
    let body := [0x41] ++ 0 :: UInt8.ofNat us.length ::
      (us.flatMap UnsuccessDest.encode ++ [0x14, 0, 0, 0])
    parseSubmitMultiResp body = ([0x41], us) ∧
      parseSubmitMultiResp (body.take 18) = ([0x41], [⟨1, 1, [0x34], 11⟩]) ∧
      (parseSubmitMultiResp (body.take 18)).2 <+: us := by
  intro us body
  have hread : parseSubmitMultiResp body = ([0x41], us) :=
    parseSubmitMultiResp_exact.1 [0x41] us [0x14, 0, 0, 0] (by decide) (by decide) (by decide)
  have hcut := parseSubmitMultiResp_exact.2 _ _ (List.take_prefix 18 body)
  rw [hread] at hcut
  exact ⟨hread, by decide, hcut⟩

end Smpp

end SmscGateway
