import SmscGateway.Smpp.SubmitSM

/-!
# What the client reads of a `deliver_sm`

`ParseDeliverSM` walks over the mandatory fields of a body and stops where
the body does; the fields it did not reach are empty.
-/

namespace SmscGateway

namespace Smpp

/-- What `ParseDeliverSM` returns. -/
structure DeliverFields where
  sourceAddr : Bytes := []
  destAddr : Bytes := []
  esmClass : UInt8 := 0
  shortMessage : Bytes := []
  deriving DecidableEq

/-- The `short_message` behind its length; a message the body cuts off is
left out. -/
def readShortMessage (smLen : UInt8) (rest : Bytes) : Bytes :=
  if smLen.toNat ≤ rest.length then rest.take smLen.toNat else []

/-- `ParseDeliverSM`. -/
def parseDeliverSM (body : Bytes) : DeliverFields :=
  match (readCString body).2 with
  | _ton :: _npi :: r =>
    let source := readCString r
    match source.2 with
    | _ton :: _npi :: r =>
      let dest := readCString r
      let fields : DeliverFields := { sourceAddr := source.1, destAddr := dest.1 }
      match dest.2 with
      | esmClass :: _protocolID :: _priorityFlag :: r =>
        -- behind schedule_delivery_time and validity_period
        match (readCString (readCString r).2).2 with
        | _registered :: _replace :: _dataCoding :: _default :: smLen :: r =>
          { fields with esmClass, shortMessage := readShortMessage smLen r }
        | _ => { fields with esmClass }
      | esmClass :: _ => { fields with esmClass }
      | [] => fields
    | _ => { sourceAddr := source.1 }
  | _ => {}

end Smpp

end SmscGateway
