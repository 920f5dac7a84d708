import Akerdock.Lib.Machine
import Akerdock.Lib.Table

/-!
# Attach sessions in the database

A session of a port forward or of a terminal is one row.  It is created with a
token, and an attach claims it with the token and a key of its own.  The claim
counts the attaches, and what an attach does to the row later carries the
number that its claim gave.

* Every statement that changes a row is an `Update`: the rows that it hits, and
  what it writes to them.  The statements of the two families are nearly the
  same, so each is one definition with parameters, under both names.
* `Family.claim` and the functions after it choose the statement of a family.
* `now()` is the time at which a transaction began.  A statement that waited
  for a row has a time that is older than what it reads, so each statement
  takes its time as an argument of its own.
-/

namespace Akerdock.Sessions

open Table

/-! ## Rows -/

/-- `terminal_end_reason`, which both families use. -/
inductive EndReason where
  | userClose
  | idleTimeout
  | maxDuration
  | disconnect
  | revoked
  | grantExpired
  | targetStopped
  | targetUnreachable
  | wakeFailed
  deriving DecidableEq

/-- A row of `port_forward_sessions` or of `terminal_sessions`.  Only the first
has an `authorized_until`, and only the second a `streamed_at`. -/
structure Session where
  id : Nat
  tokenHash : String
  tokenExpiresAt : Nat
  authorizedUntil : Option Nat
  claimedAt : Option Nat
  startedAt : Nat
  lastHeartbeatAt : Option Nat
  attachKeyHash : Option String
  attachSeq : Nat
  streamedAt : Option Nat
  endedAt : Option Nat
  endReason : Option EndReason

/-- `UPDATE … SET write WHERE hits`. -/
structure Update where
  hits : Session → Bool
  write : Session → Session

def Update.run (u : Update) (rows : List Session) : List Session :=
  updateWhere u.hits u.write rows

/-! ## Statements -/

/-- The row that `CreatePortForwardSession`, `CreateEndpointPortForwardSession`
or `CreateTerminalSession` inserts. -/
def createSession (id : Nat) (tokenHash : String) (tokenExpiresAt : Nat)
    (authorizedUntil : Option Nat) (now : Nat) : Session where
  id := id
  tokenHash := tokenHash
  tokenExpiresAt := tokenExpiresAt
  authorizedUntil := authorizedUntil
  claimedAt := none
  startedAt := now
  lastHeartbeatAt := none
  attachKeyHash := none
  attachSeq := 0
  streamedAt := none
  endedAt := none
  endReason := none

/-- The claim of an attach.  The right-hand sides read the row as it was. -/
def claimSession (authorized : Session → Bool) (tokenHash key : String)
    (now : Nat) : Update where
  hits r :=
    r.tokenHash = tokenHash && r.endedAt.isNone && now < r.tokenExpiresAt &&
      (r.attachKeyHash.isNone || r.attachKeyHash = some key) && authorized r
  write r :=
    { r with
      claimedAt := r.claimedAt.or (some now)
      startedAt := if r.attachSeq = 0 then now else r.startedAt
      lastHeartbeatAt := some now
      attachKeyHash := some key
      attachSeq := r.attachSeq + 1 }

def claimPortForwardSession (tokenHash key : String) (now : Nat) : Update :=
  claimSession (fun r => r.authorizedUntil.all (now < ·)) tokenHash key now

def claimTerminalSession (tokenHash key : String) (now : Nat) : Update :=
  claimSession (fun _ => true) tokenHash key now

def heartbeatSession (id attachSeq now : Nat) : Update where
  hits r :=
    r.id = id && r.attachSeq = attachSeq && r.claimedAt.isSome && r.endedAt.isNone
  write r := { r with lastHeartbeatAt := some now }

def heartbeatPortForwardSession : Nat → Nat → Nat → Update := heartbeatSession

def heartbeatTerminalSession : Nat → Nat → Nat → Update := heartbeatSession

/-- The end of a session, by the attach with a number or by anyone. -/
def endSession (id : Nat) (reason : EndReason) (attachSeq : Option Nat)
    (now : Nat) : Update where
  hits r :=
    r.id = id && r.endedAt.isNone && (attachSeq.isNone || some r.attachSeq = attachSeq)
  write r := { r with endedAt := some now, endReason := some reason }

def endPortForwardSession : Nat → EndReason → Option Nat → Nat → Update := endSession

def endTerminalSession : Nat → EndReason → Option Nat → Nat → Update := endSession

/-- `SweepPortForwardSessions`, at the row `id`.  Times are in seconds. -/
def sweepPortForwardSessions (id now : Nat) : Update where
  hits r :=
    r.id = id && r.endedAt.isNone &&
      (r.claimedAt.isNone && r.tokenExpiresAt ≤ now ||
        r.claimedAt.isSome &&
          (r.startedAt + 4 * 3600 ≤ now || r.authorizedUntil.any (· ≤ now) ||
            r.lastHeartbeatAt.any (· + 90 ≤ now)))
  write r :=
    { r with
      endedAt := some now
      endReason := some
        (if r.claimedAt.isNone then .revoked
        else if r.authorizedUntil.any (· ≤ now) then .grantExpired
        else if r.startedAt + 4 * 3600 ≤ now then .maxDuration
        else .disconnect) }

def sweepTerminalSessions (maxDuration id now : Nat) : Update where
  hits r :=
    r.id = id && r.endedAt.isNone &&
      (r.claimedAt.isNone && r.tokenExpiresAt < now ||
        r.claimedAt.isSome && r.startedAt + maxDuration < now ||
        r.claimedAt.isSome && r.streamedAt.isNone && r.tokenExpiresAt < now)
  write r :=
    { r with
      endedAt := some now
      endReason := some (if r.claimedAt.isNone then .revoked else .disconnect) }

def setPortForwardAuthorizedUntil (id : Nat) (until? : Option Nat) : Update where
  hits r := r.id = id && r.endedAt.isNone
  write r := { r with authorizedUntil := until? }

def markTerminalSessionStreamed (id now : Nat) : Update where
  hits r := r.id = id && r.streamedAt.isNone
  write r := { r with streamedAt := some now }

/-! ## The two families -/

/-- The two kinds of sessions.  The sweep of the terminals takes the longest
duration from the settings. -/
inductive Family where
  | portForward
  | terminal (maxDuration : Nat)
  deriving DecidableEq

def Family.claim : Family → String → String → Nat → Update
  | .portForward => claimPortForwardSession
  | .terminal _ => claimTerminalSession

def Family.heartbeat : Family → Nat → Nat → Nat → Update
  | .portForward => heartbeatPortForwardSession
  | .terminal _ => heartbeatTerminalSession

def Family.finish : Family → Nat → EndReason → Option Nat → Nat → Update
  | .portForward => endPortForwardSession
  | .terminal _ => endTerminalSession

def Family.sweep : Family → Nat → Nat → Update
  | .portForward => sweepPortForwardSessions
  | .terminal maxDuration => sweepTerminalSessions maxDuration

/-- What a family has beside the shared statements: a grant that is renewed, or
the first byte of a terminal. -/
def Family.mark : Family → Nat → Option Nat → Nat → Update
  | .portForward, id, until?, _ => setPortForwardAuthorizedUntil id until?
  | .terminal _, id, _, now => markTerminalSessionStreamed id now

end Akerdock.Sessions
