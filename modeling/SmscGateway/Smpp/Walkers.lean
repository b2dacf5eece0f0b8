import SmscGateway.Smpp.Bodies

/-!
# Three walkers over one body

The gateway routes a message by `ParseSubmitSMAddresses`, the client hands on
what `ParseDeliverSM` reads, and TLVs are taken from where `MandatoryBodyLen`
ends. The first two read the same addresses from any bytes, and the third ends
behind the message the second returns (`walkers_agree`). So a rewrite of the
source, which cuts by the first, moves what the others find and changes nothing
else of it (`rewrite_source_only`). That is for bodies that hold a source: one
that is cut short is returned as it is only if it ends before the source begins
(`cutShort_unchanged_iff`), and is otherwise completed.
-/

namespace SmscGateway

open List

namespace Smpp

namespace SMBody

variable (m : SMBody)

/-- The bytes of the mandatory fields. -/
def mandatory : Bytes := m.front.flatten ++ m.smLength :: m.shortMessage

/-- The body with something else behind its fields. -/
def withOptional (rest : Bytes) : SMBody := { m with optional := rest }

/-- The body with another source. -/
def withSource (ton npi : UInt8) {addr : Bytes} (haddr : NulFree addr) : SMBody :=
  { m with
    sourceTON := ton
    sourceNPI := npi
    sourceAddr := addr
    sourceAddr_nulFree := haddr }

theorem encode_eq_mandatory : m.encode = m.mandatory ++ m.optional := by
  rw [encode_eq_front, mandatory, append_assoc, cons_append]

theorem mandatoryBodyLen_encode {commandID : UInt32} (h : commandID ∈ [cmdSubmitSM, cmdDeliverSM]) :
    mandatoryBodyLen commandID m.encode = some m.mandatory.length := by
  rw [mandatoryBodyLen_submitDeliverSM h, mandatoryLen_encode, encode_eq_mandatory,
    length_append, Nat.add_sub_cancel]

theorem extractTLVs_encode {commandID : UInt32} (h : commandID ∈ [cmdSubmitSM, cmdDeliverSM])
    (status seq : UInt32) :
    extractTLVs ⟨commandID, status, seq, m.encode⟩ = (decodeTLVs m.optional).map some := by
  have hlen := m.mandatoryBodyLen_encode h
  rw [encode_eq_mandatory] at hlen ⊢
  exact extractTLVs_suffix hlen status seq

theorem take_encode : m.encode.take m.mandatory.length = m.mandatory := by
  rw [encode_eq_mandatory, take_left]

theorem drop_mandatory : m.encode.drop m.mandatory.length = m.optional := by
  rw [encode_eq_mandatory, drop_left]

/-- The message is the end of the fields. -/
theorem drop_shortMessage : m.mandatory.drop (m.mandatory.length - m.smLength.toNat) =
    m.shortMessage := by
  have hsplit : m.mandatory = m.front.flatten ++ [m.smLength] ++ m.shortMessage := by
    rw [mandatory, append_assoc, singleton_append]
  rw [← m.length_shortMessage, hsplit, length_append, Nat.add_sub_cancel, drop_left]

/-- What is rewritten is the source. -/
theorem rewrite_encode (ton npi : UInt8) {addr : Bytes} (haddr : NulFree addr) :
    rewriteSubmitSMSource m.encode addr ton npi = (m.withSource ton npi haddr).encode :=
  m.toSubmitSM.rewrite_encode ton npi haddr

theorem length_withSource (ton npi : UInt8) {addr : Bytes} (haddr : NulFree addr) :
    (m.withSource ton npi haddr).mandatory.length + m.sourceAddr.length =
      m.mandatory.length + addr.length := by
  simp only [mandatory, front, withSource, flatten_cons, flatten_nil, length_append,
    length_cons, length_nil]
  omega

end SMBody

/-- A body that `MandatoryBodyLen` accepts, up to where it ends. -/
theorem exists_smBody_of_mandatoryBodyLen {commandID : UInt32}
    (hcmd : commandID ∈ [cmdSubmitSM, cmdDeliverSM]) {body : Bytes} {k : ℕ}
    (h : mandatoryBodyLen commandID body = some k) :
    ∃ m : SMBody, body = m.encode ∧ k = m.mandatory.length := by
  have hlen := h
  rw [mandatoryBodyLen_submitDeliverSM hcmd] at hlen
  obtain ⟨m, rfl, -⟩ := exists_smBody_of_mandatoryLen hlen
  exact ⟨m, rfl, Option.some.inj (h.symm.trans (m.mandatoryBodyLen_encode hcmd))⟩

/-! ## The walkers agree -/

/-- **Both parsers read the same addresses**, from any bytes. -/
theorem parseSubmitSMAddresses_eq_parseDeliverSM (body : Bytes) :
    parseSubmitSMAddresses body =
      ((parseDeliverSM body).sourceAddr, (parseDeliverSM body).destAddr) := by
  rw [parseSubmitSMAddresses, parseDeliverSM]
  -- they stop at the same places up to the destination
  rcases (readCString body).2 with _ | ⟨ton, _ | ⟨npi, r⟩⟩
  · rfl
  · rfl
  · dsimp only
    rcases (readCString r).2 with _ | ⟨ton', _ | ⟨npi', r'⟩⟩
    · rfl
    · rfl
    · dsimp only
      -- what `ParseDeliverSM` reads from there on is no address
      split
      · split <;> rfl
      · rfl
      · rfl

/-- What `ParseDeliverSM` returns for a body of which `k` bytes are these
fields: the fields, whatever stands behind them. -/
structure ReadsFields (body : Bytes) (k : ℕ) (m : SMBody) : Prop where
  encode : body = m.encode
  length : k = m.mandatory.length
  fields : parseDeliverSM body =
    { sourceAddr := m.sourceAddr
      destAddr := m.destAddr
      esmClass := m.esmClass
      shortMessage := (body.take k).drop (k - m.smLength.toNat) }
  independent : ∀ rest, parseDeliverSM (body.take k ++ rest) = parseDeliverSM body

theorem readsFields (m : SMBody) : ReadsFields m.encode m.mandatory.length m where
  encode := rfl
  length := rfl
  fields := by rw [m.parseDeliverSM_encode, m.take_encode, m.drop_shortMessage]
  independent rest := by
    have hother : m.mandatory ++ rest = (m.withOptional rest).encode :=
      (m.withOptional rest).encode_eq_mandatory.symm
    rw [m.take_encode, hother, SMBody.parseDeliverSM_encode, SMBody.parseDeliverSM_encode]
    rfl

/-- **The three walkers agree.** -/
theorem walkers_agree (body : Bytes) :
    parseSubmitSMAddresses body =
        ((parseDeliverSM body).sourceAddr, (parseDeliverSM body).destAddr) ∧
      ∀ k, mandatoryBodyLen cmdDeliverSM body = some k → ∃ m, ReadsFields body k m := by
  refine ⟨parseSubmitSMAddresses_eq_parseDeliverSM body, fun k hk => ?_⟩
  obtain ⟨m, rfl, rfl⟩ := exists_smBody_of_mandatoryBodyLen (by decide) hk
  exact ⟨m, readsFields m⟩

/-- A `deliver_sm` of one character, with a byte behind it. -/
theorem short_deliver_agrees :
    mandatoryBodyLen cmdDeliverSM (buildDeliverSMBody [49] [50] 4 [65] ++ [7]) = some 20 ∧
      ∃ m, ReadsFields (buildDeliverSMBody [49] [50] 4 [65] ++ [7]) 20 m :=
  ⟨by decide, (walkers_agree _).2 20 (by decide)⟩

/-! ## Rewriting the source -/

/-- **What a rewrite of the source does** to a body of these parts. -/
structure Rewritten (body serviceType source rest addr : Bytes) (ton npi : UInt8) (r : Bytes) :
    Prop where
  bytes : r = serviceType ++ 0 :: ton :: npi :: (addr ++ 0 :: rest)
  addresses : parseSubmitSMAddresses r = (addr, (parseSubmitSMAddresses body).2)
  /-- A second rewrite does not see the first. -/
  again : ∀ addr' ton' npi',
    rewriteSubmitSMSource r addr' ton' npi' = rewriteSubmitSMSource body addr' ton' npi'
  boundary : ∀ k, mandatoryBodyLen cmdSubmitSM body = some k →
    ∃ k', mandatoryBodyLen cmdSubmitSM r = some k' ∧ k' + source.length = k + addr.length ∧
      r.drop k' = body.drop k ∧
      ∀ status seq, extractTLVs ⟨cmdSubmitSM, status, seq, r⟩ =
        extractTLVs ⟨cmdSubmitSM, status, seq, body⟩

section Rewrite

variable {serviceType source rest addr : Bytes} {ton npi : UInt8}

/-- The source of a body whose source is terminated. -/
theorem source_append (hservice : NulFree serviceType) (hsource : NulFree source) :
    (parseSubmitSMAddresses (serviceType ++ 0 :: ton :: npi :: (source ++ 0 :: rest))).1 =
      source := by
  rw [parseSubmitSMAddresses_append hservice, readCString_append hsource]
  dsimp only
  split <;> rfl

/-- Where the fields of a rewritten body end. -/
theorem boundary_rewrite {m : SMBody} (haddr : NulFree addr) (ton npi : UInt8) :
    ∃ k', mandatoryBodyLen cmdSubmitSM (rewriteSubmitSMSource m.encode addr ton npi) = some k' ∧
      k' + m.sourceAddr.length = m.mandatory.length + addr.length ∧
      (rewriteSubmitSMSource m.encode addr ton npi).drop k' = m.encode.drop m.mandatory.length ∧
      ∀ status seq,
        extractTLVs ⟨cmdSubmitSM, status, seq, rewriteSubmitSMSource m.encode addr ton npi⟩ =
          extractTLVs ⟨cmdSubmitSM, status, seq, m.encode⟩ := by
  rw [m.rewrite_encode ton npi haddr]
  refine ⟨_, SMBody.mandatoryBodyLen_encode _ (by decide), m.length_withSource ton npi haddr, ?_,
    fun status seq => ?_⟩
  · rw [SMBody.drop_mandatory, m.drop_mandatory]
    rfl
  · rw [SMBody.extractTLVs_encode _ (by decide), m.extractTLVs_encode (by decide)]
    rfl

/-- **A rewrite changes the source and nothing else.** -/
theorem rewrite_source_only (hservice : NulFree serviceType) (hsource : NulFree source)
    (haddr : NulFree addr) (ton npi ton' npi' : UInt8) {body : Bytes}
    (hbody : body = serviceType ++ 0 :: ton :: npi :: (source ++ 0 :: rest)) :
    Rewritten body serviceType source rest addr ton' npi'
      (rewriteSubmitSMSource body addr ton' npi') := by
  have hbytes : rewriteSubmitSMSource body addr ton' npi' =
      serviceType ++ 0 :: ton' :: npi' :: (addr ++ 0 :: rest) := by
    rw [hbody, rewriteSubmitSMSource_append hservice, readCString_append hsource]
  refine ⟨hbytes, ?_, fun addr' ton'' npi'' => ?_, fun k hk => ?_⟩
  · refine Prod.ext ?_ (destination_rewriteSubmitSMSource body haddr ton' npi')
    rw [hbytes]
    exact source_append hservice haddr
  · rw [hbytes, hbody, rewriteSubmitSMSource_append hservice, rewriteSubmitSMSource_append hservice,
      readCString_append haddr, readCString_append hsource]
  · obtain ⟨m, hm, rfl⟩ := exists_smBody_of_mandatoryBodyLen (by decide) hk
    -- the source the walk passed is the one that is replaced
    have hsame : m.sourceAddr = source := by
      have hfirst := congrArg Prod.fst m.parseSubmitSMAddresses_encode
      rw [← hm, hbody, source_append hservice hsource] at hfirst
      exact hfirst.symm
    rw [hm, ← hsame]
    exact boundary_rewrite haddr ton' npi'

end Rewrite

/-- The source of a short `submit_sm` with a byte behind it. -/
theorem short_submit_rewritten :
    Rewritten (buildSubmitSMBody [49] [50] [65] ++ [7]) [] [49]
        ([1, 1, 50, 0, 0, 0, 0, 0, 0, 1, 0, 0, 0, 1, 65, 7]) [51, 52] 5 0
        (rewriteSubmitSMSource (buildSubmitSMBody [49] [50] [65] ++ [7]) [51, 52] 5 0) :=
  rewrite_source_only (by decide) (by decide) (by decide) 0 0 5 0 (by decide)

/-! ## Bodies cut short -/

/-- A body that ends before its source is terminated. -/
inductive CutShort : Bytes → Prop
  | serviceType {s : Bytes} (hs : NulFree s) : CutShort s
  | sourceTON {s : Bytes} (hs : NulFree s) : CutShort (s ++ [0])
  | sourceNPI {s : Bytes} (hs : NulFree s) (ton : UInt8) : CutShort (s ++ [0, ton])
  /-- The source has no terminator, or is not there at all. -/
  | sourceAddr {s a : Bytes} (hs : NulFree s) (ton npi : UInt8) (ha : NulFree a) :
      CutShort (s ++ 0 :: ton :: npi :: a)

/-- The service type is not terminated, or an octet in front of the source is
missing. -/
def EndsBeforeSource (body : Bytes) : Prop :=
  NulFree body ∨ ∃ s, NulFree s ∧ (body = s ++ [0] ∨ ∃ ton, body = s ++ [0, ton])

/-- A string that is not terminated reads as itself, up to the end. -/
theorem readCString_nulFree {s : Bytes} (hs : NulFree s) : readCString s = (s, []) := by
  have hall : ∀ b ∈ s, decide (b ≠ 0) = true := fun b hb => decide_eq_true fun h => hs (h ▸ hb)
  rw [readCString, takeWhile_eq_self_iff.mpr hall, dropWhile_eq_nil_iff.mpr hall]
  rfl

theorem readCString_of_endsBeforeSource {body : Bytes} (h : EndsBeforeSource body) :
    (readCString body).2 = [] ∨ ∃ ton, (readCString body).2 = [ton] := by
  rcases h with hs | ⟨s, hs, rfl | ⟨ton, rfl⟩⟩
  · exact .inl (by rw [readCString_nulFree hs])
  · exact .inl (by rw [readCString_append hs])
  · exact .inr ⟨ton, by rw [readCString_append hs]⟩

/-- Such a body is left alone. -/
theorem rewrite_of_endsBeforeSource {body : Bytes} (h : EndsBeforeSource body) (addr : Bytes)
    (ton npi : UInt8) : rewriteSubmitSMSource body addr ton npi = body := by
  rcases readCString_of_endsBeforeSource h with hrest | ⟨_, hrest⟩ <;>
    simp only [rewriteSubmitSMSource, hrest]

/-- A source that is not terminated is replaced by one that is. -/
theorem rewrite_unterminated_ne {s a : Bytes} (hs : NulFree s) (ha : NulFree a) (addr : Bytes)
    (ton npi ton' npi' : UInt8) :
    rewriteSubmitSMSource (s ++ 0 :: ton :: npi :: a) addr ton' npi' ≠
      s ++ 0 :: ton :: npi :: a := by
  rw [rewriteSubmitSMSource_append hs, readCString_nulFree ha]
  intro h
  have hsource : addr ++ [0] = a := by
    simp only [append_cancel_left_eq, cons.injEq, true_and] at h
    exact h.2.2
  apply ha
  rw [← hsource]
  exact mem_append_right addr (mem_singleton_self 0)

/-- **A body that is cut short is returned as it is exactly when it ends before
its source.** -/
theorem cutShort_unchanged_iff {body : Bytes} (h : CutShort body) (addr : Bytes)
    (ton npi : UInt8) :
    rewriteSubmitSMSource body addr ton npi = body ↔ EndsBeforeSource body := by
  refine ⟨fun hsame => ?_, fun hends => rewrite_of_endsBeforeSource hends addr ton npi⟩
  cases h with
  | serviceType hs => exact .inl hs
  | sourceTON hs => exact .inr ⟨_, hs, .inl rfl⟩
  | sourceNPI hs ton => exact .inr ⟨_, hs, .inr ⟨ton, rfl⟩⟩
  | sourceAddr hs ton' npi' ha =>
    exact absurd hsame (rewrite_unterminated_ne hs ha addr ton' npi' ton npi)

/-- A body of a service type and one octet. -/
theorem lone_ton_unchanged :
    rewriteSubmitSMSource ([87] ++ [0, 1]) [51] 5 0 = [87] ++ [0, 1] ↔
      EndsBeforeSource ([87] ++ [0, 1]) :=
  cutShort_unchanged_iff (.sourceNPI (by decide) 1) [51] 5 0

/-- A body that ends where its source should begin, and one that ends inside
the source, come back with a source they did not have. -/
theorem cutShort_completed :
    CutShort ([] ++ 0 :: 1 :: 1 :: []) ∧
      rewriteSubmitSMSource [0, 1, 1] [51] 5 0 = [0, 5, 0, 51, 0] ∧
      CutShort ([] ++ 0 :: 1 :: 1 :: [50]) ∧
      rewriteSubmitSMSource [0, 1, 1, 50] [51] 5 0 = [0, 5, 0, 51, 0] :=
  ⟨.sourceAddr (by decide) 1 1 (by decide), by decide, .sourceAddr (by decide) 1 1 (by decide),
    by decide⟩

end Smpp

end SmscGateway
