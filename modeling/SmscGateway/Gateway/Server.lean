import SmscGateway.Store.Model

/-!
# The northbound server

Engines connect, bind under a system id, and are found by that id. A session
is known by its pointer: the table of sessions maps ids to pointers, and a
pointer outlives its registration, since a forward task may still hold it.
Nothing ever unbinds a session: `bound` stays set once a bind succeeded.
-/

namespace SmscGateway

/-- `SourceAddrMode`; any other text acts as `passthrough`. -/
inductive SourceAddrMode
  | passthrough
  | default
  | override
  | whitelist
  deriving DecidableEq

/-- The part of `ConnectionConfig` that submits and binds read. -/
structure ConnectionConfig where
  maxTPS : ℤ := 0
  allowedPrefixes : List Bytes := []
  defaultSourceAddr : Bytes := []
  defaultSourceTON : UInt8 := 0
  defaultSourceNPI : UInt8 := 0
  sourceAddrMode : SourceAddrMode := .passthrough
  forceSourceAddr : Bytes := []
  forceSourceTON : UInt8 := 0
  forceSourceNPI : UInt8 := 0
  allowedSourceAddrs : List Bytes := []
  maxBinds : ℤ := 0
  deriving DecidableEq

/-- `Connection`: a northbound session. -/
structure Connection where
  id : Bytes
  systemID : Bytes := []
  bound : Bool := false
  /-- The TCP connection was closed from this side. -/
  closed : Bool := false
  /-- Its `ReadLoop` has returned. -/
  ended : Bool := false
  config : Option ConnectionConfig := none
  /-- The second the submit counter counts, and the counter. -/
  tpsWindow : ℕ := 0
  tpsCount : ℕ := 0
  deriving DecidableEq

/-- One second of the clock. -/
def second : ℕ := 1000000000

namespace Connection

/-- `CurrentTPS`. -/
def currentTPS (c : Connection) (now : Time) : ℕ :=
  if c.tpsWindow = now / second then c.tpsCount else 0

/-- `RecordSubmit`. -/
def recordSubmit (c : Connection) (now : Time) : Connection :=
  if c.tpsWindow = now / second then { c with tpsCount := c.tpsCount + 1 }
  else { c with tpsWindow := now / second, tpsCount := 1 }

end Connection

/-- `Server`: the sessions accepted so far, in order of their pointers, and
which of them is registered under which id. -/
structure Server where
  heap : List Connection
  conns : SortedMap Bytes ℕ
  disconnects : SortedMap Bytes Time
  deriving DecidableEq

namespace Server

/-- A server nobody connected to yet. -/
def empty : Server := ⟨[], .empty, .empty⟩

/-- Change a session in place. -/
def modify (s : Server) (p : ℕ) (f : Connection → Connection) : Server :=
  { s with heap := s.heap.modify p f }

theorem heap_modify (s : Server) (p q : ℕ) (f : Connection → Connection) :
    (s.modify p f).heap[q]? = (s.heap[q]?).map fun c => if p = q then f c else c := by
  simp only [modify, List.getElem?_modify]
  split <;> simp

/-- `IsBound` of the session behind a pointer. -/
def isBound (s : Server) (p : ℕ) : Bool := (s.heap[p]?).any Connection.bound

/-- `c.ID` of a captured pointer, `""` for nil. -/
def idOf (s : Server) (conn : Option ℕ) : Bytes :=
  ((conn.bind fun p => s.heap[p]?).map Connection.id).getD []

/-- `GetConnection`. -/
def getConnection (s : Server) (connID : Bytes) : Option ℕ :=
  (s.conns.find? connID).filter s.isBound

/-- `RoundRobinConnID`: Go iterates a map in no fixed order, so the
environment picks one of the bound ids; `""` when there is none. -/
def roundRobinConnID (s : Server) (pick : Bytes) : Bytes :=
  if (s.getConnection pick).isSome then pick
  else ((s.conns.entries.find? fun e => s.isBound e.2).map Prod.fst).getD []

/-- Was the TCP connection behind a pointer closed from this side? -/
def isClosed (s : Server) (p : ℕ) : Bool := (s.heap[p]?).any Connection.closed

/-- Does a session still read what its engine sends? -/
def isReading (s : Server) (p : ℕ) : Bool := (s.heap[p]?).any fun c => !c.ended

/-- `acceptLoop`: a new session under a temporary id. -/
def accept (s : Server) : Server :=
  { s with heap := s.heap ++ [{ id := ascii "pending-" ++ decimal (s.heap.length + 1) }] }

/-- `Close`. -/
def close (s : Server) (p : ℕ) : Server := s.modify p fun c => { c with closed := true }

/-- How many registered sessions are bound under a system id. -/
def bindCount (s : Server) (systemID : Bytes) : ℕ :=
  s.conns.values.countP fun p =>
    (s.heap[p]?).any fun c => c.systemID = systemID && c.bound

/-- A successful bind: `handleBind`, then `onBind`. The old holder of the id
is closed, and the session is not taken off an id it was bound under
before. -/
def onBind (s : Server) (p : ℕ) (systemID : Bytes) (config : Option ConnectionConfig) : Server :=
  let s := s.modify p fun c => { c with systemID, bound := true, config }
  let maxBinds := (config.map ConnectionConfig.maxBinds).getD 0
  if 0 < maxBinds ∧ maxBinds ≤ s.bindCount systemID then
    s.close p
  else
    let s := s.modify p fun c => { c with id := systemID }
    let s := match s.conns.find? systemID with
      | some old => s.close old
      | none => s
    { s with
      conns := s.conns.insert systemID p
      disconnects := s.disconnects.erase systemID }

/-- The end of `handleConnection`: `ReadLoop` has returned, and the session is
taken off its id if it still holds it. It is closed afterwards, when the lock
on the table is released. -/
def disconnect (s : Server) (p : ℕ) (now : Time) : Server :=
  let id := s.idOf (some p)
  let s := if s.isBound p ∧ s.conns.find? id = some p then
      { s with conns := s.conns.erase id, disconnects := s.disconnects.insert id now }
    else s
  s.modify p fun c => { c with ended := true }

end Server

end SmscGateway
