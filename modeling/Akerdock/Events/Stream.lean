import Akerdock.Lib.Machine
import Akerdock.Lib.Select
import Akerdock.Lib.Table

/-!
# The event streams of the teams

Transactions write events into an outbox.  Each instance drains it: it claims
rows that are not published yet and hands them to its own broker, which offers
them to the streams that are open at this instance.  A client that reconnects
says which event it received last, and the events after that one are read from
the table again.

* A row has its id from the insert on and can be claimed from the commit on.
* `claim` is the statement of `drain` and `publish` one turn of its loop.
  `locked` are the rows that a claim of another instance holds, and `rows` is
  the order in which the statement returns what it has updated.
* A stream is the handler of one request: the buffer of its subscription, how
  far the handler is, the last event that it wrote, and what is on the wire.
  The client loses what is on the wire when the connection ends.
* The payloads are left out; an event is its sequence number and its team.
-/

namespace Akerdock.Events

open Table Option

/-! ## The outbox -/

structure OutboxRow where
  id : Nat
  team : Option Nat
  published : Bool
  deriving DecidableEq

def publishBatch : Nat := 100

def claimUnpublishedOutboxEvents (locked : List Nat) (rows : List OutboxRow) : List OutboxRow :=
  selectFirst OutboxRow.id (fun r => !r.published && !locked.contains r.id) publishBatch rows

/-- What a stream of the team can still ask for. -/
def missedBy (team after : Nat) (r : OutboxRow) : Bool :=
  r.team = some team && after < r.id && r.published

def listOutboxEventsForTeamAfter (team after limit : Nat)
    (rows : List OutboxRow) : List OutboxRow :=
  selectFirst OutboxRow.id (missedBy team after) limit rows

/-! ## Streams and clients -/

/-- The capacity of the channel of a subscription. -/
def bufferSize : Nat := 32

def replayLimit : Nat := 500

/-- How far `StreamEvents` is. -/
inductive Stage where
  | subscribed
  | replaying (missed : List Nat)
  | live
  deriving DecidableEq

/-- One request of `StreamEvents`.  The lists hold sequence numbers, the oldest
first. -/
structure Stream where
  inst : Nat
  buffer : List Nat
  stage : Stage
  last : Nat
  wire : List Nat

/-- A client with everything that it received over all its connections. -/
structure Client where
  team : Nat
  received : List Nat
  stream : Option Stream

/-- The `Last-Event-ID` of a client, or what a missing one stands for. -/
def lastOf (received : List Nat) : Nat :=
  received.getLast?.getD 0

/-- `Broker.publish` for one subscriber: the event is dropped when the channel
is full. -/
def Client.offer (i : Nat) (e : OutboxRow) (c : Client) : Client :=
  match c.stream with
  | some k =>
    if k.inst = i ∧ e.team = some c.team ∧ k.buffer.length < bufferSize then
      { c with stream := some { k with buffer := k.buffer ++ [e.id] } }
    else c
  | none => c

/-- The instance goes away with its streams. -/
def Client.cut (i : Nat) (c : Client) : Client :=
  if c.stream.any (fun k => k.inst = i) then { c with stream := none } else c

/-! ## The system -/

/-- The system.  `queues` has, for each instance, what it has claimed and not
handed to its broker. -/
structure State where
  nextId : Nat
  inserted : List OutboxRow
  events : List OutboxRow
  queues : List (List OutboxRow)
  clients : List Client

def State.empty : State := ⟨1, [], [], [], []⟩

def State.queue (s : State) (i : Nat) : List OutboxRow :=
  s.queues[i]?.getD []

/-- What a client and the handler of its stream do. -/
inductive ClientAction where
  | connect (i : Nat)
  | replay (ok : Bool)
  | write
  | receive
  | disconnect

inductive Action where
  | insert (team : Option Nat)
  | commit (id : Nat)
  | rollback (id : Nat)
  | launch
  | claim (i : Nat) (locked : List Nat) (rows : List OutboxRow) (lost : Bool)
  | publish (i : Nat)
  | dies (i : Nat)
  | join (team : Nat)
  | client (k : Nat) (a : ClientAction)

/-- The handler writes the next event. -/
def Stream.write (k : Stream) : Option Stream :=
  match k.stage, k.buffer with
  | .subscribed, _ => none
  | .replaying [], _ => some { k with stage := .live }
  | .replaying (x :: missed), _ =>
    some { k with stage := .replaying missed, last := x, wire := k.wire ++ [x] }
  | .live, [] => none
  | .live, x :: buffer =>
    if x ≤ k.last then some { k with buffer := buffer }
    else some { k with buffer := buffer, last := x, wire := k.wire ++ [x] }

/-- The handler asks for what the client has missed.  An error of that
statement is ignored. -/
def State.replay (s : State) (team : Nat) (k : Stream) (ok : Bool) : Option Stream :=
  if k.stage = .subscribed then
    some { k with
      stage :=
        if 0 < k.last ∧ ok = true then
          .replaying ((listOutboxEventsForTeamAfter team k.last replayLimit
            s.events).map OutboxRow.id)
        else .live }
  else none

def State.clientStep (s : State) (c : Client) (a : ClientAction) : Option Client :=
  match a with
  | .connect i =>
    if i < s.queues.length then
      some { c with stream := some ⟨i, [], .subscribed, lastOf c.received, []⟩ }
    else none
  | .replay ok =>
    c.stream.bind fun k =>
      (s.replay c.team k ok).map fun k' => { c with stream := some k' }
  | .write =>
    c.stream.bind fun k => k.write.map fun k' => { c with stream := some k' }
  | .receive =>
    c.stream.bind fun k =>
      match k.wire with
      | [] => none
      | x :: wire =>
        some { c with
          received := c.received ++ [x], stream := some { k with wire := wire } }
  | .disconnect => some { c with stream := none }

def State.markPublished (s : State) (rows : List OutboxRow) : List OutboxRow :=
  updateWhere (fun r => rows.any fun q => q.id = r.id)
    (fun r => { r with published := true }) s.events

def State.apply (a : Action) (s : State) : Option State :=
  match a with
  | .insert team =>
    some { s with
      inserted := ⟨s.nextId, team, false⟩ :: s.inserted, nextId := s.nextId + 1 }
  | .commit id =>
    (s.inserted.find? fun r => r.id = id).map fun r =>
      { s with
        inserted := s.inserted.filter fun r => r.id ≠ id
        events := r :: s.events }
  | .rollback id =>
    some { s with inserted := s.inserted.filter fun r => r.id ≠ id }
  | .launch => some { s with queues := s.queues ++ [[]] }
  | .claim i locked rows lost =>
    -- An instance claims again when its loop is over.
    if i < s.queues.length ∧ s.queue i = [] ∧
        rows.isPerm (claimUnpublishedOutboxEvents locked s.events) = true then
      some { s with
        events := s.markPublished rows
        queues := if lost then s.queues else s.queues.set i rows }
    else none
  | .publish i =>
    match s.queue i with
    | [] => none
    | e :: rest =>
      some { s with
        queues := s.queues.set i rest, clients := s.clients.map (.offer i e) }
  | .dies i =>
    some { s with
      queues := s.queues.set i [], clients := s.clients.map (.cut i) }
  | .join team => some { s with clients := s.clients ++ [⟨team, [], none⟩] }
  | .client k a =>
    s.clients[k]?.bind fun c =>
      (s.clientStep c a).map fun c' => { s with clients := s.clients.set k c' }

/-! ## What an action does -/

inductive ClientStep (s : State) (c : Client) : ClientAction → Client → Prop
    where
  | connect (i : Nat) :
      ClientStep s c (.connect i)
        { c with stream := some ⟨i, [], .subscribed, lastOf c.received, []⟩ }
  | asks (hk : c.stream = some k) (hstage : k.stage = .subscribed) (hlast : 0 < k.last) :
      ClientStep s c (.replay true) { c with
        stream := some { k with
          stage := .replaying ((listOutboxEventsForTeamAfter c.team k.last
            replayLimit s.events).map OutboxRow.id) } }
  | follows (hk : c.stream = some k)
      (hstage : k.stage = .subscribed) (h : k.last = 0 ∨ ok = false) :
      ClientStep s c (.replay ok) { c with stream := some { k with stage := .live } }
  | replayed (hk : c.stream = some k) (hstage : k.stage = .replaying []) :
      ClientStep s c .write { c with stream := some { k with stage := .live } }
  | replays (hk : c.stream = some k) (hstage : k.stage = .replaying (x :: missed)) :
      ClientStep s c .write { c with
        stream := some { k with
          stage := .replaying missed, last := x, wire := k.wire ++ [x] } }
  | skips (hk : c.stream = some k)
      (hstage : k.stage = .live) (hbuffer : k.buffer = x :: buffer)
      (hx : x ≤ k.last) :
      ClientStep s c .write { c with stream := some { k with buffer := buffer } }
  | writes (hk : c.stream = some k)
      (hstage : k.stage = .live) (hbuffer : k.buffer = x :: buffer)
      (hx : k.last < x) :
      ClientStep s c .write { c with
        stream := some { k with
          buffer := buffer, last := x, wire := k.wire ++ [x] } }
  | receives (hk : c.stream = some k) (hwire : k.wire = x :: wire) :
      ClientStep s c .receive { c with
        received := c.received ++ [x], stream := some { k with wire := wire } }
  | disconnect : ClientStep s c .disconnect { c with stream := none }

/-- The states that an action can lead to. -/
inductive Step (s : State) : Action → State → Prop where
  | insert (team : Option Nat) :
      Step s (.insert team) { s with
        inserted := ⟨s.nextId, team, false⟩ :: s.inserted
        nextId := s.nextId + 1 }
  | commit (hr : r ∈ s.inserted) :
      Step s (.commit r.id) { s with
        inserted := s.inserted.filter fun q => q.id ≠ r.id
        events := r :: s.events }
  | rollback (id : Nat) :
      Step s (.rollback id) { s with inserted := s.inserted.filter fun r => r.id ≠ id }
  | launch : Step s .launch { s with queues := s.queues ++ [[]] }
  | claim (hi : i < s.queues.length) (hqueue : s.queue i = [])
      (hrows : ∀ r ∈ rows, r ∈ s.events ∧ r.published = false) :
      Step s (.claim i locked rows lost) { s with
        events := s.markPublished rows
        queues := if lost then s.queues else s.queues.set i rows }
  | publish (hqueue : s.queue i = e :: rest) :
      Step s (.publish i) { s with
        queues := s.queues.set i rest, clients := s.clients.map (.offer i e) }
  | dies (i : Nat) :
      Step s (.dies i) { s with
        queues := s.queues.set i [], clients := s.clients.map (.cut i) }
  | join (team : Nat) :
      Step s (.join team) { s with clients := s.clients ++ [⟨team, [], none⟩] }
  | client (hc : s.clients[k]? = some c) (h : ClientStep s c a c') :
      Step s (.client k a) { s with clients := s.clients.set k c' }

theorem clientStep_of_write (hk : c.stream = some k) (h : k.write = some k') :
    ClientStep s c .write { c with stream := some k' } := by
  unfold Stream.write at h
  split at h
  · cases h
  · rename_i hstage
    cases h
    exact .replayed hk hstage
  · rename_i hstage
    cases h
    exact .replays hk hstage
  · cases h
  · rename_i hstage hbuffer
    split at h
    · rename_i hx
      cases h
      exact .skips hk hstage hbuffer hx
    · rename_i hx
      cases h
      exact .writes hk hstage hbuffer (by omega)

theorem clientStep_of_replay (hk : c.stream = some k) (h : s.replay c.team k ok = some k') :
    ClientStep s c (.replay ok) { c with stream := some k' } := by
  obtain ⟨hstage, rfl⟩ := Machine.of_guard h
  by_cases hask : 0 < k.last ∧ ok = true
  · rw [if_pos hask]
    obtain ⟨hlast, rfl⟩ := hask
    exact .asks hk hstage hlast
  · rw [if_neg hask]
    refine .follows hk hstage ?_
    by_cases hlast : k.last = 0
    · exact .inl hlast
    · have hpos : 0 < k.last := by omega
      exact .inr (Bool.eq_false_iff.2 fun hok => hask ⟨hpos, hok⟩)

theorem clientStep_of_clientStep (h : s.clientStep c a = some c') : ClientStep s c a c' := by
  cases a with
  | connect i =>
    obtain ⟨-, rfl⟩ := Machine.of_guard h
    exact .connect i
  | replay ok =>
    obtain ⟨k, hk, h⟩ := bind_eq_some_iff.1 h
    obtain ⟨k', hk', rfl⟩ := map_eq_some_iff.1 h
    exact clientStep_of_replay hk hk'
  | write =>
    obtain ⟨k, hk, h⟩ := bind_eq_some_iff.1 h
    obtain ⟨k', hk', rfl⟩ := map_eq_some_iff.1 h
    exact clientStep_of_write hk hk'
  | receive =>
    obtain ⟨k, hk, h⟩ := bind_eq_some_iff.1 h
    split at h
    · cases h
    · rename_i hwire
      cases h
      exact .receives hk hwire
  | disconnect =>
    cases h
    exact .disconnect

theorem step_of_apply (h : s.apply a = some s') : Step s a s' := by
  cases a with
  | insert team =>
    cases h
    exact .insert team
  | commit id =>
    obtain ⟨r, hr, rfl⟩ := map_eq_some_iff.1 h
    have hid : r.id = id := by simpa using List.find?_some hr
    subst hid
    exact .commit (List.mem_of_find?_eq_some hr)
  | rollback id =>
    cases h
    exact .rollback id
  | launch =>
    cases h
    exact .launch
  | claim i locked rows lost =>
    simp only [State.apply] at h
    split at h
    · rename_i hguard
      obtain ⟨hi, hqueue, hperm⟩ := hguard
      cases h
      refine .claim hi hqueue ?_
      intro r hr
      have hmem := ((List.isPerm_iff.1 hperm).mem_iff).1 hr
      obtain ⟨hevent, hp⟩ := mem_selectFirst hmem
      rw [Bool.and_eq_true, Bool.not_eq_true'] at hp
      exact ⟨hevent, hp.1⟩
    · cases h
  | publish i =>
    simp only [State.apply] at h
    split at h
    · cases h
    · rename_i hqueue
      cases h
      exact .publish hqueue
  | dies i =>
    cases h
    exact .dies i
  | join team =>
    cases h
    exact .join team
  | client k a =>
    obtain ⟨c, hc, h⟩ := bind_eq_some_iff.1 h
    obtain ⟨c', hc', rfl⟩ := map_eq_some_iff.1 h
    exact .client hc (clientStep_of_clientStep hc')

end Akerdock.Events
