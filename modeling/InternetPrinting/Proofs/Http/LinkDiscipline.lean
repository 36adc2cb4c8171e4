import InternetPrinting.Http.Server
import InternetPrinting.Proofs.Http.Contact
import Mathlib.Data.List.Induction

/-!
# The discipline of a link

Calls are sent over a link, and now and then it is closed. Between two of these acts
the network may change as it likes, so that a server can close a connection at any
moment. The record of the network tells what the acts come to. Connections are
released in the order in which they were opened, and requests go over the only one
that is open, so that never more than one is held. All of this is kept by each event
of a contact, and so by every series of acts.
-/

namespace InternetPrinting.Http

variable {ν κ : Type}

section Addressing

/-- A call with a path that is a target, for an authority that can be a field value. -/
def Call.Addressable (c : Call) (authority : String) : Prop :=
  (∃ target, Target.parse c.path = .ok target) ∧ ∃ host, fieldValue? authority = some host

/-- What a request has from its call. It names the authority as the only host,
whatever hosts the call has among its header fields. -/
structure Addressed.StandsFor (a : Addressed) (c : Call) (authority : String) : Prop where
  method : a.method = c.method
  target : Target.parse c.path = .ok a.target
  host : a.headers.values .host = [Text.utf8 authority]
  others (name : HeaderName) (other : name ≠ .host) :
    a.headers.values name = c.headers.values name
  body : a.body = c.body

variable {c : Call} {authority : String}

theorem Addressed.StandsFor.of_address {a : Addressed} (addressed : c.address authority = .ok a) :
    a.StandsFor c authority := by
  unfold Call.address at addressed
  split at addressed
  · cases addressed
  · next target parsed =>
    split at addressed
    · cases addressed
    · next host field =>
      cases addressed
      constructor
      · rfl
      · exact parsed
      · rw [Headers.values_insert, if_pos rfl]
        unfold fieldValue? at field
        split at field <;> cases field
        rfl
      · intro name other
        rw [Headers.values_insert, if_neg other.symm]
      · rfl

theorem Call.Addressable.exists_address (addressable : c.Addressable authority) :
    ∃ a, c.address authority = .ok a := by
  obtain ⟨⟨target, parsed⟩, host, field⟩ := addressable
  simp only [Call.address, parsed, field]
  exact ⟨_, rfl⟩

theorem Call.exists_address_of_not_addressable (not : ¬ c.Addressable authority) :
    ∃ fault, c.address authority = .error fault := by
  unfold Call.address
  split
  · exact ⟨_, rfl⟩
  · next target parsed =>
    split
    · exact ⟨_, rfl⟩
    · next host field => exact absurd ⟨⟨target, parsed⟩, host, field⟩ not

end Addressing

section Ledger

/-- Records of what was asked of a network, with the connections that are open behind
them. The one that was opened first is the first to be released, and a request goes
over a connection while no other one is open. -/
inductive Ledger : List (LinkEvent κ) → List κ → Prop
  | start : Ledger [] []
  | refused {record live} (before : Ledger record live) (authority : String)
      (cause : LinkFault) : Ledger (record ++ [.refused authority cause]) live
  | opened {record live} (before : Ledger record live) (authority : String) (connection : κ) :
      Ledger (record ++ [.opened authority connection]) (live ++ [connection])
  | exchanged {record connection} (before : Ledger record [connection]) (request : Addressed)
      (outcome : Except LinkFault Reply) :
      Ledger (record ++ [.exchanged connection request outcome]) [connection]
  | released {record connection live} (before : Ledger record (connection :: live)) :
      Ledger (record ++ [.released connection]) live

namespace Ledger

variable {record : List (LinkEvent κ)} {live : List κ}

/-- What was opened has been released in the same order or is still open. -/
theorem filterMap_opened? (ledger : Ledger record live) :
    record.filterMap LinkEvent.opened? = record.filterMap LinkEvent.released? ++ live := by
  induction ledger with
  | start => rfl
  | refused before authority cause ih =>
    simp [LinkEvent.opened?, LinkEvent.released?, List.filterMap_cons, ih]
  | opened before authority connection ih =>
    simp [LinkEvent.opened?, LinkEvent.released?, List.filterMap_cons, ih]
  | exchanged before request outcome ih =>
    simp [LinkEvent.opened?, LinkEvent.released?, List.filterMap_cons, ih]
  | released before ih =>
    simp [LinkEvent.opened?, LinkEvent.released?, List.filterMap_cons, ih]

/-- What has come before an event is a ledger of its own. -/
theorem exists_of_append {before after : List (LinkEvent κ)}
    (ledger : Ledger (before ++ after) live) : ∃ live, Ledger before live := by
  induction after using List.reverseRecOn generalizing live with
  | nil => exact ⟨live, by simpa using ledger⟩
  | append_singleton after event ih =>
    rw [← List.append_assoc] at ledger
    generalize whole : before ++ after ++ [event] = record at ledger
    cases ledger with
    | start => simp at whole
    | refused earlier | opened earlier | exchanged earlier | released earlier =>
      obtain ⟨rfl, -⟩ := List.append_inj' whole rfl
      exact ih earlier

/-- A request goes over the only connection that is open. -/
theorem of_exchanged {before after : List (LinkEvent κ)} {connection : κ} {request : Addressed}
    {outcome : Except LinkFault Reply}
    (ledger : Ledger (before ++ .exchanged connection request outcome :: after) live) :
    Ledger before [connection] := by
  rw [List.append_cons] at ledger
  obtain ⟨live, ledger⟩ := ledger.exists_of_append
  generalize whole : before ++ [LinkEvent.exchanged connection request outcome] = record at ledger
  cases ledger with
  | start => simp at whole
  | refused | opened | released =>
    obtain ⟨-, same⟩ := List.append_inj' whole rfl
    cases same
  | exchanged earlier =>
    obtain ⟨rfl, same⟩ := List.append_inj' whole rfl
    cases same
    exact earlier

theorem release {held : Option κ} (ledger : Ledger record (held.toList ++ live)) :
    Ledger (record ++ held.toList.map LinkEvent.released) live := by
  cases held with
  | none => simpa using ledger
  | some connection => exact ledger.released

theorem exchange {connection : κ} (ledger : Ledger record [connection]) (request : Addressed)
    (outcome : Except LinkFault Reply) :
    Ledger (record ++ LinkEvent.ofExchange connection request outcome)
      (keptAfter connection outcome).toList := by
  have carried := ledger.exchanged request outcome
  cases outcome with
  | ok reply => exact carried
  | error fault =>
    have released := carried.released
    rwa [List.append_assoc] at released

end Ledger

end Ledger

namespace Contact

variable {authority : String} {request : Addressed} {held usable after : Option κ}
  {events : List (LinkEvent κ)} {outcome : Except LinkFault Reply}

theorem ledger (contact : Contact authority request held usable events outcome after)
    {record : List (LinkEvent κ)} (before : Ledger record held.toList) :
    Ledger (record ++ events) after.toList := by
  cases contact with
  | reused still =>
    subst still
    exact before.exchange request outcome
  | opened connection =>
    have opened := (before.opened authority connection).release.exchange request outcome
    rw [List.append_assoc, List.append_assoc] at opened
    exact opened
  | refused cause =>
    rw [List.append_cons]
    apply Ledger.release
    simpa using before.refused authority cause

/-- A contact carries its own request, over the connection that still works or else
over the one that it opened first of all. -/
theorem exchanged_mem (contact : Contact authority request held usable events outcome after)
    {connection : κ} {carried : Addressed} {answer : Except LinkFault Reply}
    (member : .exchanged connection carried answer ∈ events) :
    carried = request ∧ answer = outcome ∧
      (usable = some connection ∨ events.head? = some (.opened authority connection)) := by
  cases contact with
  | reused still =>
    obtain ⟨rfl, rfl, same⟩ := LinkEvent.exchanged_mem_ofExchange member
    exact ⟨rfl, same, .inl rfl⟩
  | opened fresh =>
    rcases List.mem_append.mp member with released | exchange
    · simp at released
    · obtain ⟨rfl, rfl, same⟩ := LinkEvent.exchanged_mem_ofExchange exchange
      exact ⟨rfl, same, .inr rfl⟩
  | refused cause => simp at member

/-- A connection is asked for exactly if there is none that works. -/
theorem isAttempt_iff (contact : Contact authority request held usable events outcome after) :
    (∃ first rest, events = first :: rest ∧ first.IsAttempt) ↔ usable = none := by
  cases contact with
  | reused still => simp [LinkEvent.ofExchange, LinkEvent.IsAttempt]
  | opened connection =>
    constructor
    · intro _
      rfl
    · intro _
      exact ⟨_, _, rfl, trivial⟩
  | refused cause =>
    constructor
    · intro _
      rfl
    · intro _
      exact ⟨_, _, rfl, trivial⟩

/-- A contact fails exactly if the network could not open a connection or failed the
exchange, and for that reason. -/
theorem outcome_eq_error_iff (contact : Contact authority request held usable events outcome after)
    {cause : LinkFault} :
    outcome = .error cause ↔
      .refused authority cause ∈ events ∨
        ∃ connection carried, .exchanged connection carried (.error cause) ∈ events := by
  constructor
  · rintro rfl
    cases contact with
    | reused still => exact .inr ⟨_, _, List.mem_cons_self⟩
    | opened connection =>
      exact .inr ⟨_, _, List.mem_append_right _ List.mem_cons_self⟩
    | refused => exact .inl List.mem_cons_self
  · rintro (refused | ⟨connection, carried, exchanged⟩)
    · cases contact with
      | reused still => cases outcome <;> simp [LinkEvent.ofExchange] at refused
      | opened connection => cases outcome <;> simp [LinkEvent.ofExchange] at refused
      | refused other =>
        have same : cause = other := by simpa using refused
        rw [same]
    · exact (contact.exchanged_mem exchanged).2.1.symm

/-- A failure leaves no connection. -/
theorem after_eq_none {fault : LinkFault}
    (contact : Contact authority request held usable events (.error fault) after) :
    after = none := by
  cases contact <;> rfl

end Contact

namespace Link

section Sending

variable (n : Network ν κ) (l : Link ν κ) {c : Call}

theorem send_of_address {a : Addressed} (addressed : c.address l.authority = .ok a) :
    l.send n c =
      ((l.carry n a).1.mapError fun cause => .transportFailure none cause.message,
        (l.carry n a).2) := by
  simp only [send, addressed]
  rfl

theorem send_of_not_addressable (not : ¬ c.Addressable l.authority) :
    ∃ text, l.send n c = (.error (.transportFailure none text), l) := by
  obtain ⟨fault, failed⟩ := Call.exists_address_of_not_addressable not
  simp only [send, failed]
  exact ⟨fault.message, rfl⟩

@[simp] theorem authority_send : (l.send n c).2.authority = l.authority := by
  unfold send
  split
  · rfl
  · exact authority_carry n l _

end Sending

/-- What is done with a link, and what happens to its network in between. -/
inductive Act (ν : Type)
  | send (call : Call)
  | close
  | meanwhile (change : ν → ν)

/-- The same act over the network with a record, which stays as it is in between. -/
def Act.recorded : Act ν → Act (ν × List (LinkEvent κ))
  | .send call => .send call
  | .close => .close
  | .meanwhile change => .meanwhile fun s => (change s.1, s.2)

def perform (n : Network ν κ) (l : Link ν κ) : Act ν → Link ν κ
  | .send call => (l.send n call).2
  | .close => l.close n
  | .meanwhile change => { l with network := change l.network }

/-- A link that holds no connection. -/
def unopened (authority : String) (network : ν) : Link ν κ :=
  { authority, network }

/-- The link behind a series of acts. -/
def behind (n : Network ν κ) (authority : String) (start : ν) (acts : List (Act ν)) : Link ν κ :=
  acts.foldl (perform n) (unopened authority start)

/-- The link behind a series of acts, over the network with a record. -/
def traced (n : Network ν κ) (authority : String) (start : ν) (acts : List (Act ν)) :
    Link (ν × List (LinkEvent κ)) κ :=
  behind n.recorded authority (start, []) (acts.map Act.recorded)

section Step

variable (n : Network ν κ) (l : Link (ν × List (LinkEvent κ)) κ) {c : Call}

/-- The outcome of a call, and the link behind it, are what they are without a record. -/
theorem send_recorded (c : Call) :
    (l.send n.recorded c).1 = (l.unrecorded.send n c).1 ∧
      (l.send n.recorded c).2.unrecorded = (l.unrecorded.send n c).2 := by
  cases addressed : c.address l.authority with
  | error fault =>
    have failed : c.address l.unrecorded.authority = .error fault := addressed
    simp only [send, addressed, failed]
    exact ⟨trivial, trivial⟩
  | ok a =>
    obtain ⟨outcome, next⟩ := unrecorded_carry n l a
    rw [send_of_address n.recorded l addressed, send_of_address n l.unrecorded addressed, outcome]
    exact ⟨rfl, next⟩

theorem unrecorded_perform (act : Act ν) :
    (l.perform n.recorded act.recorded).unrecorded = l.unrecorded.perform n act := by
  cases act with
  | send c => exact (send_recorded n l c).2
  | close => exact unrecorded_close n l
  | meanwhile change => rfl

/-- A call that can be addressed makes one contact for a request that stands for it. -/
theorem exists_contact_send (addressable : c.Addressable l.authority) :
    ∃ a events outcome, a.StandsFor c l.authority ∧
      (l.send n.recorded c).1 =
        outcome.mapError (fun cause => .transportFailure none cause.message) ∧
      (l.send n.recorded c).2.record = l.record ++ events ∧
      Contact l.authority a l.held (l.usable? n.recorded) events outcome
        (l.send n.recorded c).2.held := by
  obtain ⟨a, addressed⟩ := addressable.exists_address
  obtain ⟨events, record, contact⟩ := exists_contact_carry n l a
  rw [send_of_address n.recorded l addressed]
  exact ⟨a, events, _, .of_address addressed, rfl, record, contact⟩

/-- What an act can do to the record of a link and to the connection that is held. -/
inductive Effect (act : Act ν) (next : Link (ν × List (LinkEvent κ)) κ) : Prop
  | idle (record : next.record = l.record) (held : next.held = l.held)
  | contact {c : Call} {a : Addressed} {events : List (LinkEvent κ)}
      {outcome : Except LinkFault Reply} (sent : act = .send c)
      (stands : a.StandsFor c l.authority) (record : next.record = l.record ++ events)
      (contact : Contact l.authority a l.held (l.usable? n.recorded) events outcome next.held)
  | closing (record : next.record = l.record ++ l.held.toList.map LinkEvent.released)
      (held : next.held = none)

theorem effect_perform (act : Act ν) :
    Effect n l act (l.perform n.recorded act.recorded) := by
  cases act with
  | send c =>
    by_cases addressable : c.Addressable l.authority
    · obtain ⟨a, events, outcome, stands, -, record, contact⟩ :=
        exists_contact_send n l addressable
      exact .contact rfl stands record contact
    · obtain ⟨text, sent⟩ := send_of_not_addressable n.recorded l addressable
      have same : l.perform n.recorded (Act.recorded (.send c)) = l := congrArg Prod.snd sent
      rw [same]
      exact .idle rfl rfl
  | close => exact .closing (record_close n l) (held_close n.recorded l)
  | meanwhile change => exact .idle rfl rfl

theorem ledger_perform (act : Act ν) (ledger : Ledger l.record l.held.toList) :
    Ledger (l.perform n.recorded act.recorded).record
      (l.perform n.recorded act.recorded).held.toList := by
  cases effect_perform n l act with
  | idle record held => rwa [record, held]
  | contact sent stands record contact =>
    rw [record]
    exact contact.ledger ledger
  | closing record held =>
    rw [record, held]
    apply Ledger.release
    simpa using ledger

/-- A request that an act puts on record stands for the call of the act. -/
theorem exchanged_mem_perform (act : Act ν) {connection : κ} {a : Addressed}
    {outcome : Except LinkFault Reply}
    (member : .exchanged connection a outcome ∈ (l.perform n.recorded act.recorded).record) :
    .exchanged connection a outcome ∈ l.record ∨
      ∃ c, act = .send c ∧ a.StandsFor c l.authority := by
  cases effect_perform n l act with
  | idle record held =>
    rw [record] at member
    exact .inl member
  | contact sent stands record contact =>
    rw [record, List.mem_append] at member
    rcases member with earlier | now
    · exact .inl earlier
    · obtain ⟨rfl, -⟩ := contact.exchanged_mem now
      exact .inr ⟨_, sent, stands⟩
  | closing record held =>
    rw [record, List.mem_append] at member
    rcases member with earlier | released
    · exact .inl earlier
    · simp at released

end Step

section Runs

variable (n : Network ν κ) (authority : String) (start : ν)

theorem traced_concat (acts : List (Act ν)) (act : Act ν) :
    traced n authority start (acts ++ [act]) =
      (traced n authority start acts).perform n.recorded act.recorded := by
  simp only [traced, behind, List.map_append, List.map_cons, List.map_nil, List.foldl_append,
    List.foldl_cons, List.foldl_nil]

theorem authority_perform (l : Link ν κ) (act : Act ν) :
    (l.perform n act).authority = l.authority := by
  cases act with
  | send c => exact authority_send n l
  | close => exact authority_close n l
  | meanwhile change => rfl

@[simp] theorem authority_traced (acts : List (Act ν)) :
    (traced n authority start acts).authority = authority := by
  induction acts using List.reverseRecOn with
  | nil => rfl
  | append_singleton acts act ih => rw [traced_concat, authority_perform, ih]

theorem unrecorded_traced (acts : List (Act ν)) :
    (traced n authority start acts).unrecorded = behind n authority start acts := by
  induction acts using List.reverseRecOn with
  | nil => rfl
  | append_singleton acts act ih =>
    rw [traced_concat, unrecorded_perform, ih]
    simp only [behind, List.foldl_append, List.foldl_cons, List.foldl_nil]

theorem ledger_traced (acts : List (Act ν)) :
    Ledger (traced n authority start acts).record (traced n authority start acts).held.toList := by
  induction acts using List.reverseRecOn with
  | nil => exact .start
  | append_singleton acts act ih =>
    rw [traced_concat]
    exact ledger_perform n _ act ih

theorem exists_send_of_exchanged_mem {acts : List (Act ν)} {connection : κ} {a : Addressed}
    {outcome : Except LinkFault Reply}
    (member : .exchanged connection a outcome ∈ (traced n authority start acts).record) :
    ∃ c, .send c ∈ acts ∧ a.StandsFor c authority := by
  induction acts using List.reverseRecOn with
  | nil => cases member
  | append_singleton acts act ih =>
    rw [traced_concat] at member
    rcases exchanged_mem_perform n _ act member with earlier | ⟨c, rfl, stands⟩
    · obtain ⟨c, sent, stands⟩ := ih earlier
      exact ⟨c, List.mem_append_left _ sent, stands⟩
    · rw [authority_traced] at stands
      exact ⟨c, by simp, stands⟩

/-- The record tells which connection is held. -/
theorem held_eq_of_record_eq {acts others : List (Act ν)}
    (same : (traced n authority start acts).record = (traced n authority start others).record) :
    (traced n authority start acts).held = (traced n authority start others).held := by
  -- What is held is what was opened and not released, and the record tells both.
  have balance := (ledger_traced n authority start acts).filterMap_opened?
  rw [same, (ledger_traced n authority start others).filterMap_opened?] at balance
  have lists := congrArg List.head? (List.append_cancel_left balance)
  rw [Option.head?_toList, Option.head?_toList] at lists
  exact lists.symm

end Runs

section Behaviour

variable (n : Network ν κ) (l : Link (ν × List (LinkEvent κ)) κ) (c : Call)

/-- A call asks for a connection first, and goes over no other one. -/
def Opens : Prop :=
  ∃ first rest, (l.send n.recorded c).2.record = l.record ++ first :: rest ∧ first.IsAttempt ∧
    ∀ connection a outcome, .exchanged connection a outcome ∈ rest →
      first = .opened l.authority connection

/-- A call goes over the connection that is held, without asking for another one. -/
def Reuses : Prop :=
  ∃ connection a outcome, l.held = some connection ∧
    (l.send n.recorded c).2.record = l.record ++ LinkEvent.ofExchange connection a outcome

/-- The network fails a call: it opens no connection for it, or fails the exchange. -/
def Fails (cause : LinkFault) : Prop :=
  ∃ events, (l.send n.recorded c).2.record = l.record ++ events ∧
    (.refused l.authority cause ∈ events ∨
      ∃ connection a, .exchanged connection a (.error cause) ∈ events)

variable {l c}

theorem opens_of_usable?_eq_none (addressable : c.Addressable l.authority)
    (usable : l.usable? n.recorded = none) : Opens n l c := by
  obtain ⟨a, events, outcome, -, -, record, contact⟩ := exists_contact_send n l addressable
  obtain ⟨first, rest, rfl, attempt⟩ := contact.isAttempt_iff.mpr usable
  refine ⟨first, rest, record, attempt, ?_⟩
  intro connection carried answer member
  obtain ⟨-, -, reused | fresh⟩ := contact.exchanged_mem (List.mem_cons_of_mem _ member)
  · rw [usable] at reused
    cases reused
  · exact Option.some.inj fresh

theorem reuses_of_usable?_eq_some {connection : κ} (addressable : c.Addressable l.authority)
    (usable : l.usable? n.recorded = some connection) : Reuses n l c ∧ ¬ Opens n l c := by
  obtain ⟨a, events, outcome, -, -, record, contact⟩ := exists_contact_send n l addressable
  constructor
  · rw [usable] at contact
    generalize (l.send n.recorded c).2.held = after at contact
    cases contact with
    | reused still => exact ⟨connection, a, outcome, still, record⟩
  · rintro ⟨first, rest, opened, attempt, -⟩
    rw [record] at opened
    have none := contact.isAttempt_iff.mp ⟨first, rest, List.append_cancel_left opened, attempt⟩
    rw [none] at usable
    cases usable

/-- Only a call that can be addressed reaches the network. -/
theorem Fails.addressable {cause : LinkFault} (fails : Fails n l c cause) :
    c.Addressable l.authority := by
  obtain ⟨events, record, failed⟩ := fails
  by_contra not
  obtain ⟨text, sent⟩ := send_of_not_addressable n.recorded l not
  rw [sent] at record
  obtain rfl : events = [] := List.self_eq_append_right.mp record
  simp at failed

/-- A call that the network fails is reported as failed, for the same reason, and leaves no
connection. -/
theorem send_of_fails {cause : LinkFault} (fails : Fails n l c cause) :
    (l.send n.recorded c).1 = .error (.transportFailure none cause.message) ∧
      (l.send n.recorded c).2.held = none := by
  obtain ⟨a, events, outcome, -, sent, record, contact⟩ := exists_contact_send n l fails.addressable
  obtain ⟨others, again, failed⟩ := fails
  obtain rfl : events = others := List.append_cancel_left (record.symm.trans again)
  obtain rfl := contact.outcome_eq_error_iff.mpr failed
  exact ⟨sent, contact.after_eq_none⟩

end Behaviour

/-- What a link keeps to that has done `acts` from the start, when it held nothing. -/
structure Disciplined (n : Network ν κ) (authority : String) (start : ν) (acts : List (Act ν))
    (l : Link (ν × List (LinkEvent κ)) κ) : Prop where
  /-- The record changes nothing, neither the link nor what a call comes to. -/
  unrecorded : l.unrecorded = behind n authority start acts
  send_unrecorded (c : Call) :
    (l.send n.recorded c).1 = (l.unrecorded.send n c).1 ∧
      (l.send n.recorded c).2.unrecorded = (l.unrecorded.send n c).2
  /-- What was opened has been released, except the one connection that is held. -/
  oneHeld : l.record.filterMap LinkEvent.opened? =
    l.record.filterMap LinkEvent.released? ++ l.held.toList
  /-- Whenever a request is made, its connection is the only one that is open. -/
  oneOpen {before after : List (LinkEvent κ)} {connection : κ} {a : Addressed}
    {outcome : Except LinkFault Reply}
    (whole : l.record = before ++ .exchanged connection a outcome :: after) :
    before.filterMap LinkEvent.opened? = before.filterMap LinkEvent.released? ++ [connection]
  /-- Every request stands for a call and has the authority as its only host. -/
  requests {connection : κ} {a : Addressed} {outcome : Except LinkFault Reply}
    (member : .exchanged connection a outcome ∈ l.record) :
    ∃ c, .send c ∈ acts ∧ a.StandsFor c authority
  /-- A call that cannot be addressed fails and leaves everything as it is. -/
  unaddressable {c : Call} (not : ¬ c.Addressable authority) :
    ∃ text, l.send n.recorded c = (.error (.transportFailure none text), l)
  /-- Any other call makes one contact for a request that stands for it, and comes to
  what the network answered. -/
  contact {c : Call} (addressable : c.Addressable authority) :
    ∃ a events outcome, a.StandsFor c authority ∧
      (l.send n.recorded c).1 =
        outcome.mapError (fun cause => .transportFailure none cause.message) ∧
      (l.send n.recorded c).2.record = l.record ++ events ∧
      Contact authority a l.held (l.usable? n.recorded) events outcome
        (l.send n.recorded c).2.held
  /-- It opens a connection exactly if none is held or the held one is closed. -/
  opens_iff {c : Call} (addressable : c.Addressable authority) :
    Opens n l c ↔
      l.held = none ∨
        ∃ connection, l.held = some connection ∧ n.isClosed l.unrecorded.network connection = true
  reuses {c : Call} (addressable : c.Addressable authority) (not : ¬ Opens n l c) : Reuses n l c
  /-- The link counts as connected exactly while it holds a connection that is not closed. -/
  connected_iff : (transport n).isConnected l.unrecorded = true ↔
    ∃ connection, l.held = some connection ∧ n.isClosed l.unrecorded.network connection = false
  /-- A call that the network fails is reported as failed and leaves no connection. -/
  fails {c : Call} {cause : LinkFault} (fails : Fails n l c cause) :
    (l.unrecorded.send n c).1 = .error (.transportFailure none cause.message) ∧
      (l.unrecorded.send n c).2.held = none ∧
      (transport n).isConnected (l.unrecorded.send n c).2 = false
  close : (l.unrecorded.close n).held = none ∧
    (l.unrecorded.close n).close n = l.unrecorded.close n
  /-- The next call that makes contact after a failure or a closing opens a
  connection. -/
  fresh {earlier later : List (Act ν)} {last : Act ν} (split : acts = earlier ++ last :: later)
    (broken : last = .close ∨
      ∃ c cause, last = .send c ∧ Fails n (traced n authority start earlier) c cause)
    (quiet : l.record = (traced n authority start (earlier ++ [last])).record)
    {c : Call} (addressable : c.Addressable authority) : Opens n l c

/-- The discipline of a link, for every network and every series of acts. At most one
connection is held. A call that can be addressed opens one exactly if none is held or
the held one is closed, and goes over the held one otherwise. What it comes to is what
the network answers: a failure leaves none, also of one that was just opened, and so
does closing. The next contact after that opens one. A call that cannot be addressed
contacts nobody. Each request has the authority as its one host. -/
theorem disciplined_behind (n : Network ν κ) (authority : String) (start : ν)
    (acts : List (Act ν)) :
    Disciplined n authority start acts (traced n authority start acts) := by
  have ledger := ledger_traced n authority start acts
  have leads : (traced n authority start acts).authority = authority := by
    rw [authority_traced]
  have recorded := unrecorded_traced n authority start acts
  generalize here : traced n authority start acts = l at ledger leads recorded
  constructor
  case unrecorded => exact recorded
  case send_unrecorded => exact send_recorded n l
  case oneHeld => exact ledger.filterMap_opened?
  case oneOpen =>
    intro before after connection a outcome whole
    rw [whole] at ledger
    exact ledger.of_exchanged.filterMap_opened?
  case requests =>
    intro connection a outcome member
    rw [← here] at member
    exact exists_send_of_exchanged_mem n authority start member
  case unaddressable =>
    intro c not
    rw [← leads] at not
    exact send_of_not_addressable n.recorded l not
  case contact =>
    intro c addressable
    subst leads
    exact exists_contact_send n l addressable
  case opens_iff =>
    intro c addressable
    rw [← leads] at addressable
    have usable_iff := usable?_eq_none_iff n l.unrecorded
    constructor
    · intro opens
      cases usable : l.usable? n.recorded with
      | none => exact usable_iff.mp usable
      | some connection =>
        exact absurd opens (reuses_of_usable?_eq_some n addressable usable).2
    · intro unusable
      exact opens_of_usable?_eq_none n addressable (usable_iff.mpr unusable)
  case reuses =>
    intro c addressable not
    rw [← leads] at addressable
    cases usable : l.usable? n.recorded with
    | none => exact absurd (opens_of_usable?_eq_none n addressable usable) not
    | some connection => exact (reuses_of_usable?_eq_some n addressable usable).1
  case connected_iff =>
    simp only [transport, usable?, Option.isSome_filter, Option.any_eq_true, Bool.not_eq_true']
    exact Iff.rfl
  case fails =>
    intro c cause fails
    obtain ⟨same, next⟩ := send_recorded n l c
    obtain ⟨reported, left⟩ := send_of_fails n fails
    have none : (l.unrecorded.send n c).2.held = none := by
      rw [← next]
      exact left
    refine ⟨same ▸ reported, none, ?_⟩
    simp only [transport, usable?, none, Option.filter_none, Option.isSome_none]
  case close => exact ⟨held_close n _, close_close n _⟩
  case fresh =>
    intro earlier later last split broken quiet c addressable
    rw [← leads] at addressable
    apply opens_of_usable?_eq_none n addressable
    -- Nothing was recorded since, so that nothing can be held that was not held then.
    have none : l.held = none := by
      rw [← here] at quiet ⊢
      rw [held_eq_of_record_eq n authority start quiet, traced_concat]
      rcases broken with rfl | ⟨failing, cause, rfl, fails⟩
      · exact held_close n.recorded _
      · exact (send_of_fails n fails).2
    rw [usable?, none, Option.filter_none]

/-- A connection that the server closes between two calls, one that it drops under a
call, and one that is kept up to the closing. The last call has a path that is no target
and opens no other one. -/
theorem disciplined_behind_fiveCalls :
    let reply : Reply := ⟨200, .empty, []⟩
    let server : Server := ⟨.listening, [(reply, .keep), (reply, .keep), (reply, .drop),
      (reply, .keep)], 0, none, []⟩
    let page : Act Server := .send (.get "/")
    let acts : List (Act Server) :=
      [page, .meanwhile ({ · with openConnection := none }), page, page, page, .close,
        .send (.get "/the page")]
    (traced Server.network "cups:631" server acts).record.filterMap LinkEvent.opened? =
        [1, 2, 3] ∧
      Disciplined Server.network "cups:631" server acts
        (traced Server.network "cups:631" server acts) :=
  ⟨by decide +kernel, disciplined_behind _ _ _ _⟩

end Link

end InternetPrinting.Http
