import Akerdock.Lib.Machine
import Akerdock.Lib.Table

/-!
# The bridge and its target connections

`Bridge` reads the frames of a client that may send anything.  For an `open` it
dials a target and puts the connection into the table `m.streams`, which has one
place for each id.  When `Bridge` returns, `closeAll` closes what is in the
table.

* A `Message` belongs to one stream: it is a text frame with a control word, or
  a binary frame with bytes of the stream.
* A connection is named by the dial that made it.  `State.targets` are all that
  the dialer ever produced.
* `closeStream` takes a connection out of the table and closes it afterwards:
  between the two it is in `State.closing`.  `closeAll` does the same with the
  whole table, and `Phase.sweeping` is what it has left to close.
* The reader dials itself, so no frame is read during a dial.  `Bridge` may
  return at any time, also then.
-/

namespace Akerdock.Tunnel

/-! ## What a tunnel sends -/

/-- The `code` of an `open_err`. -/
inductive Code where
  | limit
  | dialFailed
  deriving DecidableEq

/-- The `t` of a text frame.  `opening` is `open`. -/
inductive Control where
  | opening
  | openOk
  | openErr (code : Code)
  | eof
  | close
  deriving DecidableEq

inductive Part where
  | text (c : Control)
  | binary (p : List UInt8)
  deriving DecidableEq

structure Message where
  id : UInt32
  part : Part
  deriving DecidableEq

end Akerdock.Tunnel

namespace Akerdock.Tunnel.Bridge

open Table

/-! ## The model -/

/-- The goroutine that copies from the target: it closes the stream when its
loop is over, and then sends a `close`. -/
inductive Copier where
  | running
  | leaving
  | left
  deriving DecidableEq

/-- A connection to the target, with the id it was dialed for.  `pumping` and
`copier` are its two goroutines, which start when it is in the table. -/
structure Target where
  key : Nat
  id : UInt32
  isOpen : Bool
  pumping : Bool
  copier : Copier

/-- `readLoop`: it waits for a frame, dials, or has a connection that is not in
the table yet. -/
inductive Reader where
  | idle
  | dialing (id : UInt32)
  | dialed (id : UInt32) (key : Nat)
  | stopped
  deriving DecidableEq

inductive Phase where
  | running
  | sweeping (rest : List Nat)
  | returned
  deriving DecidableEq

/-- `out` are the frames that were sent and that the client has not read. -/
structure State where
  reader : Reader
  phase : Phase
  streams : AList fun _ : UInt32 => Nat
  targets : List Target
  closing : List Nat
  out : List Message

def State.empty : State := ⟨.idle, .running, ∅, [], [], []⟩

/-- `closeStream`, up to the close of the connection. -/
def State.closeStream (s : State) (id : UInt32) : State :=
  match s.streams.lookup id with
  | some k =>
    { s with streams := s.streams.erase id, closing := k :: s.closing }
  | none => s

def State.send (s : State) (id : UInt32) (part : Part) : State :=
  { s with out := s.out ++ [⟨id, part⟩] }

/-- The connection `k` changes. -/
def State.update (s : State) (k : Nat) (f : Target → Target) : State :=
  { s with targets := updateWhere (fun t => t.key = k) f s.targets }

def Target.shut (t : Target) : Target := { t with isOpen := false }

/-- What the reader does with a frame.  `full` says that the queue of the stream
does not take the bytes. -/
def State.handle (max : Nat) (s : State) (full : Bool) : Message → State
  | ⟨id, .text .opening⟩ =>
    if max ≤ s.streams.keys.length then s.send id (.text (.openErr .limit))
    else { s with reader := .dialing id }
  | ⟨id, .text .eof⟩ | ⟨id, .text .close⟩ => s.closeStream id
  | ⟨_, .text .openOk⟩ | ⟨_, .text (.openErr _)⟩ => s
  | ⟨id, .binary _⟩ =>
    if full ∧ id ∈ s.streams then
      (s.closeStream id).send id (.text .close)
    else s

/-- The steps.

* `frame` is the reader's next frame, `none` being one that it cannot parse, and
  `lost` a read that fails.
* `dialed` is the end of a dial, and `insert` puts the connection into the
  table.
* `pumpFails`, `copierSends`, `copierEnds` and `copierTells` are of the
  goroutines of a connection.
* `close` closes a connection that was taken out of the table.
* `tearDown`, `sweep` and `returns` are `closeAll` and the return of `Bridge`,
  which cancels the work of the reader. -/
inductive Action where
  | frame (m : Option Message) (full : Bool)
  | lost
  | dialed (ok : Bool)
  | insert
  | pumpFails (k : Nat)
  | copierSends (k : Nat) (p : List UInt8)
  | copierEnds (k : Nat)
  | copierTells (k : Nat)
  | close (k : Nat)
  | tearDown
  | sweep
  | returns

/-- The connections in the table. -/
def State.held (s : State) : List Nat :=
  s.streams.keys.filterMap s.streams.lookup

/-- One step of a bridge with `MaxStreams = max`. -/
def State.apply (max : Nat) (a : Action) (s : State) : Option State :=
  match a with
  | .frame m full =>
    if s.reader = .idle then
      if s.phase = .returned then some { s with reader := .stopped }
      else some ((m.map (s.handle max full)).getD s)
    else none
  | .lost =>
    if s.reader = .idle then some { s with reader := .stopped } else none
  | .dialed ok =>
    match s.reader with
    | .dialing id =>
      if ok then
        some { s with
          reader := .dialed id s.targets.length
          targets := s.targets ++ [⟨s.targets.length, id, true, false, .left⟩] }
      else some ({ s with reader := .idle }.send id (.text (.openErr .dialFailed)))
    | _ => none
  | .insert =>
    match s.reader with
    | .dialed id k =>
      some (({ s with reader := .idle, streams := s.streams.insert id k }.update
        k fun t => { t with pumping := true, copier := .running }).send id
        (.text .openOk))
    | _ => none
  | .pumpFails k =>
    (row? Target.key k s.targets).bind fun t =>
      if t.pumping then
        some ((s.update k fun t => { t with pumping := false }).closeStream t.id)
      else none
  | .copierSends k p =>
    (row? Target.key k s.targets).bind fun t =>
      if t.copier = .running then some (s.send t.id (.binary p)) else none
  | .copierEnds k =>
    (row? Target.key k s.targets).bind fun t =>
      if t.copier = .running then
        some ((s.update k fun t => { t with copier := .leaving }).closeStream t.id)
      else none
  | .copierTells k =>
    (row? Target.key k s.targets).bind fun t =>
      if t.copier = .leaving then
        some ((s.update k fun t => { t with copier := .left }).send t.id (.text .close))
      else none
  | .close k =>
    if k ∈ s.closing then
      some ({ s with closing := s.closing.erase k }.update k Target.shut)
    else none
  | .tearDown =>
    if s.phase = .running then
      some { s with phase := .sweeping s.held, streams := ∅ }
    else none
  | .sweep =>
    match s.phase with
    | .sweeping (k :: rest) =>
      some ({ s with phase := .sweeping rest }.update k Target.shut)
    | _ => none
  | .returns =>
    if s.phase = .sweeping [] then some { s with phase := .returned } else none

end Akerdock.Tunnel.Bridge
