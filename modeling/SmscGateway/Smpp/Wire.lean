import SmscGateway.Smpp.Pdu

/-!
# PDUs

A PDU as the server and the client dispatch it: command, status, sequence
number and body. A sequence number is a `uint32` that wraps.
-/

namespace SmscGateway

instance instLinearOrderUInt32 : LinearOrder UInt32 where
  le_refl := UInt32.le_refl
  le_trans := fun _ _ _ => UInt32.le_trans
  le_antisymm := fun _ _ => UInt32.le_antisymm
  le_total := UInt32.le_total
  lt_iff_le_not_ge := fun a b => by
    rw [UInt32.lt_iff_toNat_lt, UInt32.le_iff_toNat_le, UInt32.le_iff_toNat_le]; omega
  toDecidableLE := inferInstance
  toDecidableEq := inferInstance
  toDecidableLT := inferInstance

instance instLawfulBEqUInt32 : LawfulBEq UInt32 := inferInstance

namespace Smpp

/-- `PDU`; its TLVs are still part of the body. -/
structure PDU where
  commandID : UInt32
  commandStatus : UInt32 := 0
  sequenceNumber : UInt32
  body : Bytes := []
  deriving DecidableEq

/-! ## Command ids -/

def cmdGenericNack : UInt32 := 0x80000000
def cmdBindReceiver : UInt32 := 0x00000001
def cmdBindReceiverResp : UInt32 := 0x80000001
def cmdBindTransmitter : UInt32 := 0x00000002
def cmdBindTransmitterResp : UInt32 := 0x80000002
def cmdQuerySM : UInt32 := 0x00000003
def cmdQuerySMResp : UInt32 := 0x80000003
def cmdSubmitSM : UInt32 := 0x00000004
def cmdSubmitSMResp : UInt32 := 0x80000004
def cmdDeliverSM : UInt32 := 0x00000005
def cmdDeliverSMResp : UInt32 := 0x80000005
def cmdUnbind : UInt32 := 0x00000006
def cmdUnbindResp : UInt32 := 0x80000006
def cmdReplaceSM : UInt32 := 0x00000007
def cmdReplaceSMResp : UInt32 := 0x80000007
def cmdCancelSM : UInt32 := 0x00000008
def cmdCancelSMResp : UInt32 := 0x80000008
def cmdBindTransceiver : UInt32 := 0x00000009
def cmdBindTransceiverResp : UInt32 := 0x80000009
def cmdEnquireLink : UInt32 := 0x00000015
def cmdEnquireLinkResp : UInt32 := 0x80000015
def cmdSubmitMultiResp : UInt32 := 0x80000021
def cmdAlertNotification : UInt32 := 0x00000102
def cmdDataSM : UInt32 := 0x00000103
def cmdDataSMResp : UInt32 := 0x80000103
def cmdBroadcastSM : UInt32 := 0x00000111
def cmdBroadcastSMResp : UInt32 := 0x80000111
def cmdQueryBroadcastSM : UInt32 := 0x00000112
def cmdQueryBroadcastSMResp : UInt32 := 0x80000112
def cmdCancelBroadcastSM : UInt32 := 0x00000113
def cmdCancelBroadcastSMResp : UInt32 := 0x80000113

/-! ## Status codes -/

def statusOK : UInt32 := 0x00000000
def statusInvCmdID : UInt32 := 0x00000003
def statusInvBnd : UInt32 := 0x00000004
def statusSysErr : UInt32 := 0x00000008
def statusInvPaswd : UInt32 := 0x0000000E

/-- `EncodeDeliverSMRespWithStatus`: a `deliver_sm_resp` with a null message
id. -/
def encodeDeliverSMRespWithStatus (seqNum status : UInt32) : PDU :=
  ⟨cmdDeliverSMResp, status, seqNum, [0]⟩

end Smpp

end SmscGateway
