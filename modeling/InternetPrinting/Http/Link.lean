import InternetPrinting.Http.Dialogue
import InternetPrinting.Http.Target

/-!
# Links to one server

A link carries calls to a fixed authority over at most one connection, which
it keeps open between calls. A connection is opened when a call needs one and
none is held that still works. Whatever goes wrong while connecting or while a
call is under way, no connection is held afterwards. A call that cannot be
addressed to the server contacts nobody and leaves the link alone.
-/

namespace InternetPrinting.Http

/-- Why a connection could not be opened. -/
inductive ConnectFault
  | invalidAddress
  | invalidPort
  | refused
  | unreachable
  | described (text : String)
deriving DecidableEq, Repr

def ConnectFault.message : ConnectFault → String
  | .invalidAddress => "invalid socket address"
  | .invalidPort => "invalid port value"
  | .refused => "Connection refused (os error 111)"
  | .unreachable => "Network is unreachable (os error 101)"
  | .described text => text

/-- Why a link could not carry a call. -/
inductive LinkFault
  | invalidPath (path : String) (cause : TargetFault)
  | invalidHost (authority : String)
  | connect (authority : String) (cause : ConnectFault)
  | timeout
  /-- The connection was closed before a reply began. -/
  | closedEarly
  /-- What came back is no HTTP. -/
  | notHttp
  /-- The connection was closed inside the body of a reply. -/
  | cutBody
  | described (text : String)
deriving DecidableEq, Repr

namespace LinkFault

def message : LinkFault → String
  | .invalidPath path cause => "invalid request path '" ++ path ++ "': " ++ cause.message
  | .invalidHost authority => "invalid host '" ++ authority ++ "': failed to parse header value"
  | .connect authority cause => "connect " ++ authority ++ ": " ++ cause.message
  | .timeout => "timeout"
  | .closedEarly => "request failed: connection closed before message completed"
  | .notHttp => "request failed: invalid HTTP version parsed"
  | .cutBody => "reading response body: error reading a body from connection"
  | .described text => text

/-- The fault of a call that a link could not carry. -/
def fault (f : LinkFault) : Fault :=
  .transport f.message

end LinkFault

/-- A call that is addressed to a server. -/
structure Addressed where
  method : Method
  target : String
  headers : Headers
  body : Bytes
deriving DecidableEq, Repr

/-- Address a call to a server. The path is looked at before the host. -/
def Call.address (c : Call) (authority : String) : Except LinkFault Addressed :=
  match Target.parse c.path with
  | .error cause => .error (.invalidPath c.path cause)
  | .ok target =>
    match fieldValue? authority with
    | none => .error (.invalidHost authority)
    | some host => .ok ⟨c.method, target, c.headers.insert .host host, c.body⟩

/-- A network with states of type `ν` and connections of type `κ`. -/
structure Network (ν κ : Type) where
  connect : ν → String → Except LinkFault κ × ν
  /-- Whether the server has closed a connection. -/
  isClosed : ν → κ → Bool
  exchange : ν → κ → Addressed → Except LinkFault Reply × ν
  release : ν → κ → ν

/-- A link: where it leads, the connection it holds, and the network. -/
structure Link (ν κ : Type) where
  authority : String
  held : Option κ := none
  network : ν

namespace Link

variable {ν κ : Type}

/-- The connection that is held and still works. -/
def usable? (n : Network ν κ) (l : Link ν κ) : Option κ :=
  l.held.filter fun connection => !n.isClosed l.network connection

/-- Let go of the connection that is held, if there is one. -/
def close (n : Network ν κ) (l : Link ν κ) : Link ν κ :=
  match l.held with
  | none => l
  | some connection => { l with held := none, network := n.release l.network connection }

/-- The connection for a call: the usable one, or else a new one that takes
the place of any other. -/
def connection (n : Network ν κ) (l : Link ν κ) : Except LinkFault κ × Link ν κ :=
  match l.usable? n with
  | some connection => (.ok connection, l)
  | none =>
    match n.connect l.network l.authority with
    | (.error fault, network) => (.error fault, { l with network })
    | (.ok connection, network) =>
      (.ok connection, { ({ l with network }).close n with held := some connection })

/-- Carry a call that is addressed to the server. -/
def carry (n : Network ν κ) (l : Link ν κ) (a : Addressed) :
    Except LinkFault Reply × Link ν κ :=
  match l.connection n with
  | (.error fault, l) => (.error fault, l.close n)
  | (.ok connection, l) =>
    match n.exchange l.network connection a with
    | (.error fault, network) => (.error fault, ({ l with network }).close n)
    | (.ok reply, network) => (.ok reply, { l with network })

/-- Carry a call. -/
def send (n : Network ν κ) (l : Link ν κ) (c : Call) : Outcome × Link ν κ :=
  match c.address l.authority with
  | .error fault => (.error fault.fault, l)
  | .ok addressed =>
    let carried := l.carry n addressed
    (carried.1.mapError LinkFault.fault, carried.2)

/-- Links over a network as a transport. -/
def transport (n : Network ν κ) : Transport (Link ν κ) where
  send := send n
  close := close n
  isConnected l := (l.usable? n).isSome

@[simp] theorem held_close (n : Network ν κ) (l : Link ν κ) : (l.close n).held = none := by
  unfold close
  split
  · assumption
  · rfl

/-- Closing once more changes nothing. -/
theorem close_close (n : Network ν κ) (l : Link ν κ) : (l.close n).close n = l.close n := by
  rw [close, held_close]

end Link

end InternetPrinting.Http
