import InternetPrinting.Http.Link

/-!
# What a link asks of its network

A network can be made to keep a record of what it is asked: to open a connection,
to carry a request over one, and to release one. The record changes nothing else.
A call that can be addressed makes one contact, which takes one of three courses.
Either the request goes over the connection that still works, or one is opened for
it, or none can be opened. Where something goes wrong the connection is released.
-/

namespace InternetPrinting.Http

variable {ν κ : Type}

/-- Something that a link asked of its network. -/
inductive LinkEvent (κ : Type)
  /-- No connection to an authority could be opened. -/
  | refused (authority : String) (cause : LinkFault)
  | opened (authority : String) (connection : κ)
  | exchanged (connection : κ) (request : Addressed) (outcome : Except LinkFault Reply)
  | released (connection : κ)

namespace LinkEvent

/-- The connection that was opened. -/
def opened? : LinkEvent κ → Option κ
  | .opened _ connection => some connection
  | .refused .. | .exchanged .. | .released _ => none

/-- The connection that was released. -/
def released? : LinkEvent κ → Option κ
  | .released connection => some connection
  | .refused .. | .opened .. | .exchanged .. => none

/-- An attempt to open a connection. -/
def IsAttempt : LinkEvent κ → Prop
  | .refused .. | .opened .. => True
  | .exchanged .. | .released _ => False

/-- What became of an attempt to open a connection. -/
def ofAttempt (authority : String) : Except LinkFault κ → LinkEvent κ
  | .error cause => .refused authority cause
  | .ok connection => .opened authority connection

/-- An exchange, and the release of its connection if it failed. -/
def ofExchange (connection : κ) (request : Addressed) (outcome : Except LinkFault Reply) :
    List (LinkEvent κ) :=
  .exchanged connection request outcome ::
    match outcome with
    | .error _ => [.released connection]
    | .ok _ => []

theorem exchanged_mem_ofExchange {used connection : κ} {carried request : Addressed}
    {answer outcome : Except LinkFault Reply}
    (member : .exchanged used carried answer ∈ ofExchange connection request outcome) :
    used = connection ∧ carried = request ∧ answer = outcome := by
  cases outcome <;> simp_all [ofExchange]

end LinkEvent

/-- The network with a record of what it is asked. -/
def Network.recorded (n : Network ν κ) : Network (ν × List (LinkEvent κ)) κ where
  connect s authority :=
    let (answer, next) := n.connect s.1 authority
    (answer, next, s.2 ++ [.ofAttempt authority answer])
  isClosed s connection := n.isClosed s.1 connection
  exchange s connection request :=
    let (outcome, next) := n.exchange s.1 connection request
    (outcome, next, s.2 ++ [.exchanged connection request outcome])
  release s connection := (n.release s.1 connection, s.2 ++ [.released connection])

/-- The connection that is held behind an exchange over it. -/
def keptAfter (connection : κ) : Except LinkFault Reply → Option κ
  | .error _ => none
  | .ok _ => some connection

/-- The courses that a contact for a request can take: from the connection that is
held and the one that still works to the events, the outcome and the connection
that is held afterwards. The outcome is what the network answered last. -/
inductive Contact (authority : String) (request : Addressed) (held : Option κ) :
    Option κ → List (LinkEvent κ) → Except LinkFault Reply → Option κ → Prop
  | reused {connection : κ} (still : held = some connection) (outcome : Except LinkFault Reply) :
      Contact authority request held (some connection)
        (LinkEvent.ofExchange connection request outcome) outcome (keptAfter connection outcome)
  | opened (connection : κ) (outcome : Except LinkFault Reply) :
      Contact authority request held none
        (.opened authority connection :: held.toList.map .released ++
          LinkEvent.ofExchange connection request outcome) outcome
        (keptAfter connection outcome)
  | refused (cause : LinkFault) :
      Contact authority request held none (.refused authority cause :: held.toList.map .released)
        (.error cause) none

namespace Link

/-- The record of a link's network. -/
def record (l : Link (ν × List (LinkEvent κ)) κ) : List (LinkEvent κ) :=
  l.network.2

/-- The link without the record. -/
def unrecorded (l : Link (ν × List (LinkEvent κ)) κ) : Link ν κ :=
  { l with network := l.network.1 }

section Courses

variable (n : Network ν κ) (l : Link ν κ) (a : Addressed)

theorem held_of_usable?_eq_some {connection : κ} (usable : l.usable? n = some connection) :
    l.held = some connection :=
  (Option.filter_eq_some_iff.mp usable).1

/-- No connection can be used if none is held or the held one is closed. -/
theorem usable?_eq_none_iff : l.usable? n = none ↔
    l.held = none ∨ ∃ connection, l.held = some connection ∧
      n.isClosed l.network connection = true := by
  unfold usable?
  cases l.held with
  | none => simp
  | some connection => simp [Option.filter]

theorem close_eq : l.close n = { l with
    held := none
    network := l.held.elim l.network (n.release l.network) } := by
  obtain ⟨authority, held, network⟩ := l
  cases held <;> rfl

@[simp] theorem authority_close : (l.close n).authority = l.authority := by
  rw [close_eq]

/-- The link with a new connection in place of any other. -/
def renewed (connection : κ) : Link ν κ :=
  { l.close n with held := some connection }

/-- The exchange over a connection, and the closing behind it if it fails. -/
def exchangeOver (connection : κ) : Except LinkFault Reply × Link ν κ :=
  match n.exchange l.network connection a with
  | (.error fault, network) => (.error fault, ({ l with network }).close n)
  | (.ok reply, network) => (.ok reply, { l with network })

theorem carry_of_usable {connection : κ} (usable : l.usable? n = some connection) :
    l.carry n a = l.exchangeOver n a connection := by
  simp only [carry, Link.connection, usable]
  rfl

theorem carry_of_opened {connection : κ} {network : ν} (usable : l.usable? n = none)
    (answer : n.connect l.network l.authority = (.ok connection, network)) :
    l.carry n a = (({ l with network }).renewed n connection).exchangeOver n a connection := by
  simp only [carry, Link.connection, usable, answer]
  rfl

theorem carry_of_refused {cause : LinkFault} {network : ν} (usable : l.usable? n = none)
    (answer : n.connect l.network l.authority = (.error cause, network)) :
    l.carry n a = (.error cause, ({ l with network }).close n) := by
  simp only [carry, Link.connection, usable, answer]

@[simp] theorem authority_exchangeOver (connection : κ) :
    (l.exchangeOver n a connection).2.authority = l.authority := by
  unfold exchangeOver
  split
  · exact authority_close n _
  · rfl

@[simp] theorem authority_carry : (l.carry n a).2.authority = l.authority := by
  cases usable : l.usable? n with
  | some connection => rw [carry_of_usable n l a usable, authority_exchangeOver]
  | none =>
    cases answered : n.connect l.network l.authority with
    | mk answer network =>
      cases answer with
      | ok connection =>
        rw [carry_of_opened n l a usable answered, authority_exchangeOver]
        exact authority_close n _
      | error cause =>
        rw [carry_of_refused n l a usable answered]
        exact authority_close n _

end Courses

section Record

variable (n : Network ν κ) (l : Link (ν × List (LinkEvent κ)) κ) (a : Addressed)

theorem record_close :
    (l.close n.recorded).record = l.record ++ l.held.toList.map LinkEvent.released := by
  obtain ⟨authority, held, network⟩ := l
  cases held with
  | none => exact (List.append_nil _).symm
  | some connection => rfl

theorem unrecorded_close : (l.close n.recorded).unrecorded = l.unrecorded.close n := by
  obtain ⟨authority, held, network⟩ := l
  cases held <;> rfl

theorem unrecorded_renewed (connection : κ) :
    (l.renewed n.recorded connection).unrecorded = l.unrecorded.renewed n connection := by
  obtain ⟨authority, held, network⟩ := l
  cases held <;> rfl

/-- An exchange over the connection that is held. -/
theorem exchangeOver_recorded {connection : κ} (held : l.held = some connection) :
    (l.exchangeOver n.recorded a connection).2.record = l.record ++
        LinkEvent.ofExchange connection a (l.exchangeOver n.recorded a connection).1 ∧
      (l.exchangeOver n.recorded a connection).2.held =
        keptAfter connection (l.exchangeOver n.recorded a connection).1 := by
  obtain ⟨authority, _, network, record⟩ := l
  subst held
  cases exchanged : n.exchange network connection a with
  | mk outcome next =>
    cases outcome with
    | error fault => simp [exchangeOver, Network.recorded, exchanged, close, Link.record, keptAfter,
        LinkEvent.ofExchange]
    | ok reply => simp [exchangeOver, Network.recorded, exchanged, Link.record, keptAfter,
        LinkEvent.ofExchange]

theorem unrecorded_exchangeOver (connection : κ) :
    (l.exchangeOver n.recorded a connection).1 = (l.unrecorded.exchangeOver n a connection).1 ∧
      (l.exchangeOver n.recorded a connection).2.unrecorded =
        (l.unrecorded.exchangeOver n a connection).2 := by
  obtain ⟨authority, held, network, record⟩ := l
  cases exchanged : n.exchange network connection a with
  | mk outcome next =>
    cases outcome with
    | error fault =>
      simp only [exchangeOver, unrecorded, Network.recorded, exchanged]
      exact ⟨trivial, unrecorded_close n _⟩
    | ok reply =>
      simp only [exchangeOver, unrecorded, Network.recorded, exchanged]
      exact ⟨trivial, trivial⟩

/-- The link whose network has gone on and has put an event on record. -/
def noting (network : ν) (event : LinkEvent κ) : Link (ν × List (LinkEvent κ)) κ :=
  { l with network := (network, l.record ++ [event]) }

theorem connect_recorded {answer : Except LinkFault κ} {network : ν}
    (answered : n.connect l.network.1 l.authority = (answer, network)) :
    n.recorded.connect l.network l.authority =
      (answer, network, l.record ++ [.ofAttempt l.authority answer]) := by
  simp only [Network.recorded, answered, record]

theorem carry_recorded_of_opened {connection : κ} {network : ν}
    (usable : l.usable? n.recorded = none)
    (answered : n.connect l.network.1 l.authority = (.ok connection, network)) :
    l.carry n.recorded a =
      ((l.noting network (.opened l.authority connection)).renewed n.recorded
        connection).exchangeOver n.recorded a connection :=
  carry_of_opened n.recorded l a usable (connect_recorded n l answered)

theorem carry_recorded_of_refused {cause : LinkFault} {network : ν}
    (usable : l.usable? n.recorded = none)
    (answered : n.connect l.network.1 l.authority = (.error cause, network)) :
    l.carry n.recorded a =
      (.error cause, (l.noting network (.refused l.authority cause)).close n.recorded) :=
  carry_of_refused n.recorded l a usable (connect_recorded n l answered)

theorem record_renewed (connection : κ) :
    (l.renewed n.recorded connection).record =
      l.record ++ l.held.toList.map LinkEvent.released :=
  record_close n l

/-- A call that is addressed makes one contact, and the record grows by its events. -/
theorem exists_contact_carry :
    ∃ events, (l.carry n.recorded a).2.record = l.record ++ events ∧
      Contact l.authority a l.held (l.usable? n.recorded) events (l.carry n.recorded a).1
        (l.carry n.recorded a).2.held := by
  cases usable : l.usable? n.recorded with
  | some connection =>
    have held := held_of_usable?_eq_some n.recorded l usable
    rw [carry_of_usable n.recorded l a usable]
    obtain ⟨record, kept⟩ := exchangeOver_recorded n l a held
    rw [kept]
    exact ⟨_, record, .reused held _⟩
  | none =>
    cases answered : n.connect l.network.1 l.authority with
    | mk answer network =>
      cases answer with
      | ok connection =>
        rw [carry_recorded_of_opened n l a usable answered]
        -- The new connection is on record before the release of the old one.
        obtain ⟨record, kept⟩ := exchangeOver_recorded n
          ((l.noting network (.opened l.authority connection)).renewed n.recorded connection) a rfl
        rw [kept]
        refine ⟨_, ?_, .opened connection _⟩
        rw [record, record_renewed]
        simp [noting, Link.record]
      | error cause =>
        rw [carry_recorded_of_refused n l a usable answered, held_close]
        refine ⟨_, ?_, .refused cause⟩
        rw [record_close]
        simp [noting, Link.record]

/-- Keeping the record changes nothing about how a call is carried. -/
theorem unrecorded_carry :
    (l.carry n.recorded a).1 = (l.unrecorded.carry n a).1 ∧
      (l.carry n.recorded a).2.unrecorded = (l.unrecorded.carry n a).2 := by
  have same : l.usable? n.recorded = l.unrecorded.usable? n := rfl
  cases usable : l.usable? n.recorded with
  | some connection =>
    rw [carry_of_usable n.recorded l a usable, carry_of_usable n _ a (same ▸ usable)]
    exact unrecorded_exchangeOver n l a connection
  | none =>
    cases answered : n.connect l.network.1 l.authority with
    | mk answer network =>
      cases answer with
      | ok connection =>
        rw [carry_recorded_of_opened n l a usable answered,
          carry_of_opened n l.unrecorded a (same ▸ usable) answered]
        have step := unrecorded_exchangeOver n
          ((l.noting network (.opened l.authority connection)).renewed n.recorded connection) a
          connection
        rw [unrecorded_renewed] at step
        exact step
      | error cause =>
        rw [carry_recorded_of_refused n l a usable answered,
          carry_of_refused n l.unrecorded a (same ▸ usable) answered]
        exact ⟨rfl, unrecorded_close n _⟩

end Record

end Link

end InternetPrinting.Http
