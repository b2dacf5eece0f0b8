import SmscGateway.Smpp.Pdu

/-!
# The layout of a `submit_sm` body

What the gateway reads of a `submit_sm` are the C-strings at its front. A
`SubmitSM` is a body in which they are all terminated; `encode` is its bytes.
On such bodies `ParseSubmitSMAddresses` reads the addresses and
`RewriteSubmitSMSource` replaces the source and nothing else. On any body at
all, putting in an address without a NUL leaves the destination as it was.
-/

namespace SmscGateway

open List

namespace Smpp

/-- The string has no NUL, so it is what is read back from a C-string. -/
def NulFree (s : Bytes) : Prop := (0 : UInt8) ∉ s
  deriving Decidable

/-! ## C-strings -/

/-- A terminated string is read back, and so is what stands behind it. -/
theorem readCString_append {s : Bytes} (hs : NulFree s) (rest : Bytes) :
    readCString (s ++ 0 :: rest) = (s, rest) := by
  have hall : ∀ b ∈ s, decide (b ≠ 0) = true := fun b hb =>
    decide_eq_true fun h => hs (h ▸ hb)
  rw [readCString, takeWhile_append_of_pos hall, dropWhile_append_of_pos hall]
  simp

/-- What is read has no NUL. -/
theorem nulFree_readCString (data : Bytes) : NulFree (readCString data).1 := by
  intro hmem
  simpa using mem_takeWhile_imp hmem

/-- Where something stands behind a C-string, it was terminated. -/
theorem eq_append_of_readCString {data : Bytes} (h : (readCString data).2 ≠ []) :
    NulFree (readCString data).1 ∧
      data = (readCString data).1 ++ 0 :: (readCString data).2 := by
  refine ⟨nulFree_readCString data, ?_⟩
  have hsplit : data.takeWhile (· ≠ 0) ++ data.dropWhile (· ≠ 0) = data :=
    takeWhile_append_dropWhile
  rw [readCString] at h ⊢
  cases hdrop : data.dropWhile (· ≠ 0) with
  | nil =>
    rw [hdrop] at h
    exact absurd rfl h
  | cons b r =>
    have hb : ¬ decide (b ≠ 0) = true := by
      have hpos : 0 < (data.dropWhile (· ≠ 0)).length := by simp only [hdrop]; simp
      have hget := dropWhile_get_zero_not (· ≠ (0 : UInt8)) data hpos
      simpa only [hdrop, get_eq_getElem, getElem_cons_zero] using hget
    rw [hdrop, not_not.mp (mt decide_eq_true hb)] at hsplit
    exact hsplit.symm

/-! ## Any body -/

/-- The addresses read from a body have no NUL. -/
theorem nulFree_parseSubmitSMAddresses (body : Bytes) :
    NulFree (parseSubmitSMAddresses body).1 ∧ NulFree (parseSubmitSMAddresses body).2 := by
  have hnil : NulFree [] := not_mem_nil
  rw [parseSubmitSMAddresses]
  rcases (readCString body).2 with _ | ⟨_, _ | ⟨_, r⟩⟩
  · exact ⟨hnil, hnil⟩
  · exact ⟨hnil, hnil⟩
  · dsimp only
    have hsource := nulFree_readCString r
    rcases (readCString r).2 with _ | ⟨_, _ | ⟨_, r'⟩⟩
    · exact ⟨hsource, hnil⟩
    · exact ⟨hsource, hnil⟩
    · exact ⟨hsource, nulFree_readCString r'⟩

section Any

variable {serviceType r : Bytes} {ton npi : UInt8}

/-- The addresses of a body whose service type is terminated. -/
theorem parseSubmitSMAddresses_append (h : NulFree serviceType) :
    parseSubmitSMAddresses (serviceType ++ 0 :: ton :: npi :: r) =
      match (readCString r).2 with
      | _ :: _ :: r' => ((readCString r).1, (readCString r').1)
      | _ => ((readCString r).1, []) := by
  rewrite [parseSubmitSMAddresses, readCString_append h]
  rfl

/-- What a rewrite makes of it. -/
theorem rewriteSubmitSMSource_append (h : NulFree serviceType) (addr : Bytes) (ton' npi' : UInt8) :
    rewriteSubmitSMSource (serviceType ++ 0 :: ton :: npi :: r) addr ton' npi' =
      serviceType ++ 0 :: ton' :: npi' :: (addr ++ 0 :: (readCString r).2) := by
  have hlen : (serviceType ++ 0 :: ton :: npi :: r).length - (ton :: npi :: r).length =
      (serviceType ++ [0]).length := by
    simp only [length_append, length_cons, length_nil]
    omega
  have hfront : (serviceType ++ 0 :: ton :: npi :: r).take (serviceType ++ [0]).length =
      serviceType ++ [0] := by
    rw [show serviceType ++ 0 :: ton :: npi :: r = serviceType ++ [0] ++ ton :: npi :: r by simp,
      take_left]
  simp only [rewriteSubmitSMSource, readCString_append h, hlen, hfront, cString]
  simp

/-- **A rewrite leaves the destination alone**, whatever the body is, when the
address it puts in has no NUL. -/
theorem destination_rewriteSubmitSMSource (body : Bytes) {addr : Bytes} (haddr : NulFree addr)
    (ton' npi' : UInt8) :
    (parseSubmitSMAddresses (rewriteSubmitSMSource body addr ton' npi')).2 =
      (parseSubmitSMAddresses body).2 := by
  cases hrest : (readCString body).2 with
  | nil => simp only [rewriteSubmitSMSource, hrest]
  | cons ton rest =>
    cases rest with
    | nil => simp only [rewriteSubmitSMSource, hrest]
    | cons npi r =>
      have hne : (readCString body).2 ≠ [] := by simp [hrest]
      obtain ⟨hservice, hbody⟩ := eq_append_of_readCString hne
      rw [hrest] at hbody
      rw [hbody, rewriteSubmitSMSource_append hservice, parseSubmitSMAddresses_append hservice,
        parseSubmitSMAddresses_append hservice, readCString_append haddr]
      -- behind the source both bodies are the same
      rcases (readCString r).2 with _ | ⟨_, _ | ⟨_, r'⟩⟩ <;> rfl

end Any

/-! ## Terminated bodies -/

/-- A `submit_sm` body whose service type, source and destination are
terminated, field by field; `tail` is everything behind the destination. -/
structure SubmitSM where
  serviceType : Bytes
  sourceTON : UInt8
  sourceNPI : UInt8
  sourceAddr : Bytes
  destTON : UInt8
  destNPI : UInt8
  destAddr : Bytes
  tail : Bytes
  serviceType_nulFree : NulFree serviceType
  sourceAddr_nulFree : NulFree sourceAddr
  destAddr_nulFree : NulFree destAddr

namespace SubmitSM

variable (m : SubmitSM)

/-- The body's bytes. -/
def encode : Bytes :=
  m.serviceType ++ 0 :: m.sourceTON :: m.sourceNPI :: (m.sourceAddr ++ 0 :: m.destTON ::
    m.destNPI :: (m.destAddr ++ 0 :: m.tail))

/-- The body with another source. -/
def withSource (ton npi : UInt8) (addr : Bytes) (h : NulFree addr) : SubmitSM :=
  { m with sourceTON := ton, sourceNPI := npi, sourceAddr := addr, sourceAddr_nulFree := h }

theorem parse_encode : parseSubmitSMAddresses m.encode = (m.sourceAddr, m.destAddr) := by
  rw [encode, parseSubmitSMAddresses_append m.serviceType_nulFree,
    readCString_append m.sourceAddr_nulFree]
  simp only [readCString_append m.destAddr_nulFree]

theorem rewrite_encode (ton npi : UInt8) {addr : Bytes} (h : NulFree addr) :
    rewriteSubmitSMSource m.encode addr ton npi = (m.withSource ton npi addr h).encode := by
  rw [encode, rewriteSubmitSMSource_append m.serviceType_nulFree,
    readCString_append m.sourceAddr_nulFree]
  rfl

end SubmitSM

end Smpp

end SmscGateway
