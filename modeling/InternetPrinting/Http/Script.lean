import InternetPrinting.Http.Dialogue

/-!
# A transport that follows a script

Each call takes the next outcome of a list, and fails once the list is used
up. The transport counts how often it was closed, and counts as connected
after a call that got a reply, until a call fails or it is closed.
-/

namespace InternetPrinting.Http

/-- The outcomes still to come and what happened so far. -/
structure Script where
  outcomes : List Outcome
  closed : Nat := 0
  connected : Bool := false

namespace Script

/-- The fault of a call for which there is no outcome. -/
def exhausted : Fault :=
  .transport "script exhausted"

/-- Take the next outcome, whatever the call. -/
def send (s : Script) (_ : Call) : Outcome × Script :=
  match s.outcomes with
  | [] => (.error exhausted, { s with connected := false })
  | .error fault :: rest => (.error fault, { s with outcomes := rest, connected := false })
  | .ok reply :: rest => (.ok reply, { s with outcomes := rest, connected := true })

def close (s : Script) : Script :=
  { s with closed := s.closed + 1, connected := false }

/-- Scripts as a transport. -/
def transport : Transport Script where
  send := send
  close := close
  isConnected := (·.connected)

end Script

end InternetPrinting.Http
