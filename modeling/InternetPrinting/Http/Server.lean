import InternetPrinting.Http.Link

/-!
# A server in memory

A network with one server that answers the calls it gets from a list of
replies, and at the end of each keeps or breaks the connection as the list
says. The server may also be out of reach, or nobody may listen there.
-/

namespace InternetPrinting.Http

/-- What a server does with a call. -/
inductive Ending
  /-- Reply and keep the connection. -/
  | keep
  /-- Reply, announce the end of the connection, and close it. -/
  | close
  /-- Reply and close the connection without a word. -/
  | fin
  /-- Never reply. -/
  | silent
  /-- Reply with a body that never becomes complete. -/
  | stall
  /-- Close the connection instead of replying. -/
  | drop
  /-- Send something that is no HTTP. -/
  | garbage
  /-- Close the connection inside the body. -/
  | truncated
deriving DecidableEq, Repr

/-- Whether a server can be reached, and whether it listens. -/
inductive Route
  | listening
  | refused
  | unreachable
deriving DecidableEq, Repr

/-- A server: the replies to come, how many connections it accepted, the one
that is open, and the calls it got, each with its connection. -/
structure Server where
  route : Route
  replies : List (Reply × Ending)
  accepted : Nat := 0
  openConnection : Option Nat := none
  requests : List (Nat × Addressed) := []
deriving DecidableEq, Repr

namespace Server

/-- The number that a text spells, if it is a port. A plus sign is allowed. -/
def port? (cs : List Char) : Option Nat :=
  let digits := if cs.head? = some '+' then cs.drop 1 else cs
  if digits.isEmpty || !digits.all Char.isDigit then none
  else
    let n := digits.foldl (fun n c => n * 10 + (c.toNat - 48)) 0
    if n < 65536 then some n else none

/-- What is wrong with an authority as an address: the port follows the last
colon. -/
def addressFault? (authority : String) : Option ConnectFault :=
  let reversed := authority.toList.reverse
  if ':' ∈ reversed then
    match port? (reversed.takeWhile (· ≠ ':')).reverse with
    | some _ => none
    | none => some .invalidPort
  else some .invalidAddress

/-- Open a connection. -/
def connect (s : Server) (authority : String) : Except LinkFault Nat × Server :=
  match addressFault? authority with
  | some cause => (.error (.connect authority cause), s)
  | none =>
    match s.route with
    | .unreachable => (.error (.connect authority .unreachable), s)
    | .refused => (.error (.connect authority .refused), s)
    | .listening =>
      let connection := s.accepted + 1
      (.ok connection, { s with accepted := connection, openConnection := some connection })

def isClosed (s : Server) (connection : Nat) : Bool :=
  s.openConnection != some connection

/-- Close a connection. -/
def release (s : Server) (connection : Nat) : Server :=
  if s.openConnection = some connection then { s with openConnection := none } else s

/-- Field values for lengths are decimal. -/
def lengthValue (body : Bytes) : Bytes :=
  Text.utf8 (toString body.length)

/-- A call as it arrives: a body has its length in the header fields. -/
def arriving (a : Addressed) : Addressed :=
  if a.body.isEmpty then a
  else { a with headers := a.headers.insert .contentLength (lengthValue a.body) }

/-- A reply as it is sent, with the length of its body. -/
def sent (reply : Reply) : Reply :=
  { reply with headers := reply.headers.insert .contentLength (lengthValue reply.body) }

/-- Take a call and do what the next reply says. -/
def exchange (s : Server) (connection : Nat) (a : Addressed) :
    Except LinkFault Reply × Server :=
  let s := { s with requests := s.requests ++ [(connection, arriving a)] }
  match s.replies with
  | [] => (.error .closedEarly, s.release connection)
  | (reply, ending) :: rest =>
    let s := { s with replies := rest }
    match ending with
    | .keep => (.ok (sent reply), s)
    | .close =>
      let announced := { sent reply with
        headers := (sent reply).headers.append .connection (Text.utf8 "close") }
      (.ok announced, s.release connection)
    | .fin => (.ok (sent reply), s.release connection)
    | .silent | .stall => (.error .timeout, s)
    | .drop => (.error .closedEarly, s.release connection)
    | .garbage => (.error .notHttp, s.release connection)
    | .truncated => (.error .cutBody, s.release connection)

/-- Servers in memory as a network. -/
def network : Network Server Nat where
  connect := connect
  isClosed := isClosed
  exchange := exchange
  release := release

end Server

end InternetPrinting.Http
