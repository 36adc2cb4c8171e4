import InternetPrinting.Http.Headers

/-!
# Calls and replies

What a client asks of a server over HTTP, and what it gets back in full.
-/

namespace InternetPrinting.Http

/-- The methods in use. -/
inductive Method
  | get
  | post
deriving DecidableEq, Repr

def Method.name : Method → String
  | .get => "GET"
  | .post => "POST"

/-- A request to a server that is not fixed yet. -/
structure Call where
  method : Method
  path : String
  headers : Headers
  body : Bytes
deriving DecidableEq, Repr

namespace Call

/-- The media type of a message. -/
def messageType : Bytes := Text.utf8 "application/ipp"

/-- The media type of a form. -/
def formType : Bytes := Text.utf8 "application/x-www-form-urlencoded"

/-- A plain request for a page. -/
def get (path : String) : Call :=
  ⟨.get, path, .empty, []⟩

/-- A message for the server, which has to answer with one. -/
def message (path : String) (body : Bytes) : Call :=
  { method := .post
    path
    headers := (Headers.empty.insert .contentType messageType).insert .accept messageType
    body }

/-- A form for the server. -/
def form (path : String) (body : Bytes) : Call :=
  ⟨.post, path, Headers.empty.insert .contentType formType, body⟩

end Call

/-- A reply with its whole body. -/
structure Reply where
  status : UInt16
  headers : Headers
  body : Bytes
deriving DecidableEq, Repr

end InternetPrinting.Http
