import Akerdock.Lib.Machine
import Akerdock.Lib.Select
import Akerdock.Lib.Table
import Akerdock.Lib.Turns

/-!
# The notification dispatcher

The dispatcher reads the outbox behind a cursor, opens a delivery for each rule
that matches an event, and sends it.  It runs on the leader of the schedulers,
one pass after the other: `Dispatch`, then `FlushDigests`.

* `Worker` is the place of that pass between two calls, and `State.work` takes
  the next call.
* Transactions insert outbox rows on their own.  A row has its id from the
  insert on and is seen from the commit on, so `events` can grow in any order
  of ids.
* The answers of `MatchNotificationRules` and `ListDigestRulesDue` are inputs of
  the model.  A delivery has one column that the table does not have: `deferred`
  says that it is left for a digest.
* `considered`, `matched` and `sent` record what the dispatcher did, and
  `purged` are the deliveries that went with the purge of their event.
-/

namespace Akerdock.Notify

open Table Proc

/-! ## Events and rules -/

inductive Severity where
  | info
  | warning
  | critical
  deriving DecidableEq

/-- The order of the severities. -/
def Severity.rank : Severity → Nat
  | .info => 0
  | .warning => 1
  | .critical => 2

/-- A row of `outbox_events`.  `team` says whether `team_uuid` is set. -/
structure OutboxEvent where
  id : Nat
  eventType : String
  team : Bool
  deriving DecidableEq

/-- `strings.TrimSuffix(eventType, ".v1")`. -/
def trimVersion (eventType : List Char) : List Char :=
  if ".v1".toList.isSuffixOf eventType then
    eventType.take (eventType.length - 3)
  else eventType

def severityOf (eventType : String) : Severity :=
  let base := trimVersion eventType.toList
  let ends := fun suffix : String => suffix.toList.isSuffixOf base
  if ends ".failed" || ends ".unreachable" || ends ".dead_letter" then
    .critical
  else if "security.".toList.isPrefixOf base then .warning
  else if ends ".cancelled" || ends ".degraded" || ends ".partial" || ends ".expiring" then
    .warning
  else .info

def OutboxEvent.severity (e : OutboxEvent) : Severity :=
  severityOf e.eventType

/-- A row of `notification_rules`, as `MatchNotificationRules` answers it.  The
quiet hours are minutes of the day. -/
structure Rule where
  id : Nat
  minSeverity : Severity
  debounceSeconds : Nat
  quietHours : Option (Nat × Nat)
  digestEnabled : Bool
  deriving DecidableEq

def Rule.hears (r : Rule) (e : OutboxEvent) : Bool :=
  r.minSeverity.rank ≤ e.severity.rank

inductive DeliveryStatus where
  | pending
  | sent
  | failed
  | suppressed
  deriving DecidableEq

/-- A row of `notification_deliveries`. -/
structure Delivery where
  id : Nat
  ruleId : Nat
  outboxEventId : Nat
  status : DeliveryStatus
  sentAt : Option Nat
  deferred : Bool

def Delivery.pair (d : Delivery) : Nat × Nat :=
  (d.ruleId, d.outboxEventId)

/-! ## Statements -/

def batchSize : Nat := 200

def listOutboxEventsAfter (cursor : Nat) (es : List OutboxEvent) : List OutboxEvent :=
  selectFirst OutboxEvent.id (fun e => cursor < e.id) batchSize es

/-- `LastSentDelivery`: the latest time at which the rule sent something. -/
def lastSentDelivery (ruleId : Nat) (ds : List Delivery) : Option Nat :=
  ds.foldl (fun last d =>
    if d.ruleId = ruleId && d.status = .sent then
      match last, d.sentAt with
      | some t, some u => some (max t u)
      | none, u => u
      | t, none => t
    else last) none

def finishNotificationDelivery (now id : Nat) (status : DeliveryStatus)
    (ds : List Delivery) : List Delivery :=
  updateWhere (fun d => d.id = id)
    (fun d => { d with
      status := status
      sentAt := if status = .sent then some now else d.sentAt }) ds

def listPendingDigestDeliveries (ruleId : Nat) (ds : List Delivery) : List Nat :=
  (ds.filter fun d => d.ruleId = ruleId && d.status = .pending).map Delivery.id

def markDigestDeliveries (now : Nat) (ids : List Nat) (status : DeliveryStatus)
    (ds : List Delivery) : List Delivery :=
  updateWhere (fun d => ids.contains d.id)
    (fun d => { d with
      status := status
      sentAt := if status = .sent then some now else d.sentAt }) ds

/-! ## Noise -/

/-- `inQuietHours`: a window may wrap around midnight. -/
def inQuietHours (r : Rule) (now : Nat) : Bool :=
  match r.quietHours with
  | none => false
  | some (start, stop) =>
    let minutes := now / 60 % 1440
    if start ≤ stop then start ≤ minutes && minutes < stop
    else start ≤ minutes || minutes < stop

/-- `suppressionReason` gives a reason.  `last` is the answer of
`LastSentDelivery`, if it was asked and did not fail. -/
def suppressed (r : Rule) (severity : Severity) (last : Option Nat) (now : Nat) : Bool :=
  severity ≠ .critical &&
    (0 < r.debounceSeconds && last.any (now - · < r.debounceSeconds) || inQuietHours r now)

/-- A digest rule keeps what is not critical for later. -/
def Rule.defers (r : Rule) (e : OutboxEvent) : Bool :=
  r.digestEnabled && e.severity ≠ .critical

/-! ## The pass -/

/-- Where the loops of `Dispatch` are: the rule and the event at work, the rules
of that event and the events that come after. -/
structure Place where
  rule : Rule
  event : OutboxEvent
  rules : List Rule
  todo : List OutboxEvent
  deriving DecidableEq

/-- Where the pass is.  Each constructor is named after the call that comes
next; `events`, `rules` and `flush` are the heads of the loops. -/
inductive Worker where
  | idle
  | getCursor
  | list (cursor : Nat)
  | events (todo : List OutboxEvent)
  | matchRules (e : OutboxEvent) (todo : List OutboxEvent)
  | rules (e : OutboxEvent) (rules : List Rule) (todo : List OutboxEvent)
  | lastSent (p : Place) (delivery : Nat)
  | channel (p : Place) (delivery : Nat)
  | send (p : Place) (delivery : Nat)
  | finish (p : Place) (delivery : Nat) (status : DeliveryStatus)
  | setCursor (e : OutboxEvent) (todo : List OutboxEvent)
  | dueRules
  | flush (rules : List Nat)
  | flushChannel (ids rules : List Nat)
  | flushSend (ids rules : List Nat)
  | mark (ids rules : List Nat) (status : DeliveryStatus)
  deriving DecidableEq

/-- The system.  `inserted` are the rows of transactions that have not committed
yet, and `committed` the ids of those that have. -/
structure State where
  clock : Nat
  nextEvent : Nat
  inserted : List OutboxEvent
  events : List OutboxEvent
  cursor : Nat
  deliveries : List Delivery
  nextDelivery : Nat
  worker : Worker
  committed : List Nat
  considered : List Nat
  matched : List (Nat × Nat)
  sent : List (Nat × Nat)
  purged : List Delivery

def State.empty (clock : Nat) : State where
  clock := clock
  nextEvent := 1
  inserted := []
  events := []
  cursor := 0
  deliveries := []
  nextDelivery := 1
  worker := .idle
  committed := []
  considered := []
  matched := []
  sent := []
  purged := []

/-- What can happen.  `matched` and `due` are the answers of
`MatchNotificationRules` and `ListDigestRulesDue`, `work` is any other call of
the pass, and `purge` the purge of those of `ids` that are published and old
enough. -/
inductive Action where
  | insert (eventType : String) (team : Bool)
  | commit (id : Nat)
  | rollback (id : Nat)
  | start
  | work (o : CallEnd)
  | matched (rules : List Rule)
  | due (rules : List Nat)
  | dies
  | purge (ids : List Nat)
  | tick (seconds : Nat)

/-- `CreateNotificationDelivery`, which inserts nothing on a conflict. -/
def State.create (s : State) (r : Rule) (e : OutboxEvent) : State :=
  { s with
    deliveries := s.deliveries ++ [⟨s.nextDelivery, r.id, e.id, .pending, none, r.defers e⟩]
    nextDelivery := s.nextDelivery + 1 }

/-- The place after `dispatchOne` is done with a rule. -/
def Place.next (p : Place) : Worker :=
  .rules p.event p.rules p.todo

/-- `deliver` from the noise rules on, with the answer of `LastSentDelivery`. -/
def State.afterLastSent (s : State) (p : Place) (delivery : Nat) (last : Option Nat) : Worker :=
  if suppressed p.rule p.event.severity last s.clock then
    .finish p delivery .suppressed
  else if p.rule.defers p.event then p.next
  else .channel p delivery

/-- The row of the head of the rules. -/
def State.createStep (s : State) (e : OutboxEvent) (r : Rule)
    (rules : List Rule) (todo : List OutboxEvent) (o : CallEnd) : State :=
  if o = .failed then { s with worker := .dueRules }
  else if s.deliveries.any (fun d => d.pair = (r.id, e.id)) then
    { s with
      worker := if o = .done then .rules e rules todo else .dueRules }
  else
    { s.create r e with
      worker :=
        if o = .done then .lastSent ⟨r, e, rules, todo⟩ s.nextDelivery
        else .dueRules }

def State.sentPairs (s : State) (ids : List Nat) : List (Nat × Nat) :=
  (s.deliveries.filter fun d => ids.contains d.id).map Delivery.pair

/-- The next call of the pass.  When `Dispatch` returns, `FlushDigests` comes
next. -/
def State.work (s : State) (o : CallEnd) : Option State :=
  match s.worker with
  | .idle => none
  | .getCursor =>
    some { s with worker := if o = .done then .list s.cursor else .dueRules }
  | .list cursor =>
    some { s with
      worker :=
        if o = .done then .events (listOutboxEventsAfter cursor s.events)
        else .dueRules }
  | .events [] => some { s with worker := .dueRules }
  | .events (e :: todo) =>
    -- An event of the instance belongs to no team, and no rule matches it.
    if e.team then some { s with worker := .matchRules e todo }
    else some { s with
      worker := .setCursor e todo, considered := e.id :: s.considered }
  | .matchRules _ _ =>
    if o = .done then none else some { s with worker := .dueRules }
  | .rules e [] todo =>
    some { s with
      worker := .setCursor e todo, considered := e.id :: s.considered }
  | .rules e (r :: rules) todo =>
    if r.hears e then some (s.createStep e r rules todo o)
    else some { s with worker := .rules e rules todo }
  | .lastSent p delivery =>
    let last :=
      if o = .done then lastSentDelivery p.rule.id s.deliveries else none
    some { s with worker := s.afterLastSent p delivery last }
  | .channel p delivery =>
    some { s with
      worker :=
        if o = .done then .send p delivery else .finish p delivery .failed }
  | .send p delivery =>
    some { s with
      sent :=
        if o = .failed then s.sent else (p.rule.id, p.event.id) :: s.sent
      worker := .finish p delivery (if o = .done then .sent else .failed) }
  | .finish p delivery status =>
    -- The error of this statement is dropped.
    some { s with
      deliveries :=
        if o = .failed then s.deliveries
        else finishNotificationDelivery s.clock delivery status s.deliveries
      worker := p.next }
  | .setCursor e todo =>
    some { s with
      cursor := if o = .failed then s.cursor else e.id
      worker := if o = .done then .events todo else .dueRules }
  | .dueRules => if o = .done then none else some { s with worker := .idle }
  | .flush [] => some { s with worker := .idle }
  | .flush (r :: rules) =>
    let ids := listPendingDigestDeliveries r s.deliveries
    some { s with
      worker :=
        if o = .done && !ids.isEmpty then .flushChannel ids rules
        else .flush rules }
  | .flushChannel ids rules =>
    some { s with
      worker := if o = .done then .flushSend ids rules else .flush rules }
  | .flushSend ids rules =>
    some { s with
      sent := if o = .failed then s.sent else s.sentPairs ids ++ s.sent
      worker := .mark ids rules (if o = .done then .sent else .failed) }
  | .mark ids rules status =>
    some { s with
      deliveries :=
        if o = .failed then s.deliveries
        else markDigestDeliveries s.clock ids status s.deliveries
      worker := .flush rules }

def State.apply (a : Action) (s : State) : Option State :=
  match a with
  | .insert eventType team =>
    some { s with
      inserted := ⟨s.nextEvent, eventType, team⟩ :: s.inserted
      nextEvent := s.nextEvent + 1 }
  | .commit id =>
    (s.inserted.find? fun e => e.id = id).map fun e =>
      { s with
        inserted := s.inserted.filter fun e => e.id ≠ id
        events := e :: s.events
        committed := id :: s.committed }
  | .rollback id =>
    some { s with inserted := s.inserted.filter fun e => e.id ≠ id }
  | .start =>
    if s.worker = .idle then some { s with worker := .getCursor } else none
  | .work o => s.work o
  | .matched rules =>
    match s.worker with
    | .matchRules e todo =>
      -- What an earlier dispatch of the event has found is of no use.
      some { s with
        worker := .rules e rules todo
        considered := s.considered.filter fun id => id ≠ e.id
        matched :=
          ((rules.filter fun r => r.hears e).map fun r => (r.id, e.id)) ++
            s.matched.filter fun p => p.2 ≠ e.id }
    | _ => none
  | .due rules =>
    if s.worker = .dueRules then some { s with worker := .flush rules }
    else none
  | .dies => some { s with worker := .idle }
  | .purge ids =>
    some { s with
      events := s.events.filter fun e =>
        !(ids.contains e.id && e.id ≤ s.cursor)
      deliveries := s.deliveries.filter fun d =>
        !(ids.contains d.outboxEventId && d.outboxEventId ≤ s.cursor)
      purged := (s.deliveries.filter fun d =>
        ids.contains d.outboxEventId && d.outboxEventId ≤ s.cursor) ++ s.purged }
  | .tick seconds => some { s with clock := s.clock + seconds }

/-! ## What an action does -/

/-- The places from which `Dispatch` returns on an error, and the end of its
batch. -/
def Worker.leaves : Worker → Bool
  | .getCursor | .list _ | .events [] | .matchRules _ _ | .rules _ (_ :: _) _ =>
    true
  | _ => false

/-- The actions after which nothing but the place of the pass is new. -/
inductive Goto (s : State) : Action → Worker → Worker → Prop where
  | start : Goto s .start .idle .getCursor
  | cursor : Goto s (.work .done) .getCursor (.list s.cursor)
  | list (cursor : Nat) :
      Goto s (.work .done) (.list cursor) (.events (listOutboxEventsAfter cursor s.events))
  | leaves (o : CallEnd) (w : Worker) (h : w.leaves = true) : Goto s (.work o) w .dueRules
  | event (o : CallEnd) (e : OutboxEvent) (todo : List OutboxEvent) (h : e.team = true) :
      Goto s (.work o) (.events (e :: todo)) (.matchRules e todo)
  | passes (o : CallEnd) (e : OutboxEvent) (r : Rule) (rules : List Rule)
      (todo : List OutboxEvent)
      (h : r.hears e = true → ∃ d ∈ s.deliveries, d.pair = (r.id, e.id)) :
      Goto s (.work o) (.rules e (r :: rules) todo) (.rules e rules todo)
  | suppressed (o : CallEnd) (p : Place) (d : Nat) :
      Goto s (.work o) (.lastSent p d) (.finish p d .suppressed)
  | defers (o : CallEnd) (p : Place) (d : Nat) (h : p.rule.defers p.event = true) :
      Goto s (.work o) (.lastSent p d) p.next
  | channel (o : CallEnd) (p : Place) (d : Nat) (h : p.rule.defers p.event = false) :
      Goto s (.work o) (.lastSent p d) (.channel p d)
  | send (o : CallEnd) (p : Place) (d : Nat) : Goto s (.work o) (.channel p d) (.send p d)
  | unsent (o : CallEnd) (p : Place) (d : Nat) :
      Goto s (.work o) (.channel p d) (.finish p d .failed)
  | due (rules : List Nat) : Goto s (.due rules) .dueRules (.flush rules)
  | undue (o : CallEnd) : Goto s (.work o) .dueRules .idle
  | flushed (o : CallEnd) : Goto s (.work o) (.flush []) .idle
  | pending (o : CallEnd) (r : Nat) (rules : List Nat) :
      Goto s (.work o) (.flush (r :: rules))
        (.flushChannel (listPendingDigestDeliveries r s.deliveries) rules)
  | nothing (o : CallEnd) (r : Nat) (rules : List Nat) :
      Goto s (.work o) (.flush (r :: rules)) (.flush rules)
  | flushChannel (o : CallEnd) (ids rules : List Nat) :
      Goto s (.work o) (.flushChannel ids rules) (.flushSend ids rules)
  | unflushed (o : CallEnd) (ids rules : List Nat) :
      Goto s (.work o) (.flushChannel ids rules) (.flush rules)
  | dies (w : Worker) : Goto s .dies w .idle

/-- The states that an action can lead to. -/
inductive Step (s : State) : Action → State → Prop where
  | insert (eventType : String) (team : Bool) :
      Step s (.insert eventType team) { s with
        inserted := ⟨s.nextEvent, eventType, team⟩ :: s.inserted
        nextEvent := s.nextEvent + 1 }
  | commit (he : e ∈ s.inserted) :
      Step s (.commit e.id) { s with
        inserted := s.inserted.filter fun x => x.id ≠ e.id
        events := e :: s.events
        committed := e.id :: s.committed }
  | rollback (id : Nat) :
      Step s (.rollback id) { s with inserted := s.inserted.filter fun e => e.id ≠ id }
  | goto (h : Goto s a s.worker w) : Step s a { s with worker := w }
  | considers
      (h : s.worker = .events (e :: todo) ∧ e.team = false ∨ s.worker = .rules e [] todo) :
      Step s (.work o) { s with
        worker := .setCursor e todo
        considered := e.id :: s.considered }
  | matching (h : s.worker = .matchRules e todo) :
      Step s (.matched rules) { s with
        worker := .rules e rules todo
        considered := s.considered.filter fun id => id ≠ e.id
        matched :=
          ((rules.filter fun r => r.hears e).map fun r => (r.id, e.id)) ++
            s.matched.filter fun p => p.2 ≠ e.id }
  | creates
      (h : s.worker = .rules e (r :: rules) todo)
      (hnew : ∀ d ∈ s.deliveries, d.pair ≠ (r.id, e.id))
      (hw : o = .done ∧ w = .lastSent ⟨r, e, rules, todo⟩ s.nextDelivery ∨
        o = .lost ∧ w = .dueRules) :
      Step s (.work o) { s.create r e with worker := w }
  | sends (h : s.worker = .send p d) (hstatus : status ≠ .pending) :
      Step s (.work o) { s with
        sent :=
          if o = .failed then s.sent else (p.rule.id, p.event.id) :: s.sent
        worker := .finish p d status }
  | finishes (h : s.worker = .finish p d status) :
      Step s (.work o) { s with
        deliveries :=
          if o = .failed then s.deliveries
          else finishNotificationDelivery s.clock d status s.deliveries
        worker := p.next }
  | advances (h : s.worker = .setCursor e todo)
      (hw : o ≠ .failed ∧ w = .events todo ∨ w = .dueRules) :
      Step s (.work o) { s with
        cursor := if o = .failed then s.cursor else e.id
        worker := w }
  | flushes (h : s.worker = .flushSend ids rules) (hstatus : status ≠ .pending) :
      Step s (.work o) { s with
        sent := if o = .failed then s.sent else s.sentPairs ids ++ s.sent
        worker := .mark ids rules status }
  | marks (h : s.worker = .mark ids rules status) :
      Step s (.work o) { s with
        deliveries :=
          if o = .failed then s.deliveries
          else markDigestDeliveries s.clock ids status s.deliveries
        worker := .flush rules }
  | purge (ids : List Nat) :
      Step s (.purge ids) { s with
        events := s.events.filter fun e =>
          !(ids.contains e.id && e.id ≤ s.cursor)
        deliveries := s.deliveries.filter fun d =>
          !(ids.contains d.outboxEventId && d.outboxEventId ≤ s.cursor)
        purged := (s.deliveries.filter fun d =>
          ids.contains d.outboxEventId && d.outboxEventId ≤ s.cursor) ++ s.purged }
  | tick (seconds : Nat) : Step s (.tick seconds) { s with clock := s.clock + seconds }

theorem Step.goto_of (hw : s.worker = w) (h : Goto s a w w') : Step s a { s with worker := w' } :=
  .goto (hw ▸ h)

theorem step_of_rules (hw : s.worker = .rules e rules todo)
    (h : s.work o = some s') : Step s (.work o) s' := by
  cases rules with
  | nil =>
    simp only [State.work, hw] at h
    cases h
    exact .considers (.inr hw)
  | cons r rules =>
    simp only [State.work, hw] at h
    split at h
    · cases h
      unfold State.createStep
      split
      · exact .goto_of hw (.leaves o _ rfl)
      · split
        · rename_i hany
          obtain ⟨d, hd, hpair⟩ := List.any_eq_true.1 hany
          by_cases ho : o = .done
          · rw [if_pos ho]
            refine .goto_of hw ?_
            exact .passes o e r rules todo fun _ =>
              ⟨d, hd, of_decide_eq_true hpair⟩
          · rw [if_neg ho]
            exact .goto_of hw (.leaves o _ rfl)
        · rename_i hfailed hany
          refine .creates hw ?_ ?_
          · intro d hd hpair
            exact hany (List.any_eq_true.2 ⟨d, hd, decide_eq_true hpair⟩)
          · cases o with
            | done => exact .inl ⟨rfl, rfl⟩
            | lost => exact .inr ⟨rfl, rfl⟩
            | failed => exact absurd rfl hfailed
    · rename_i hhears
      cases h
      refine .goto_of hw ?_
      exact .passes o e r rules todo fun h => absurd h hhears

theorem goto_afterLastSent (s : State) (o : CallEnd) (p : Place) (d : Nat) (last : Option Nat) :
    Goto s (.work o) (.lastSent p d) (s.afterLastSent p d last) := by
  unfold State.afterLastSent
  split
  · exact .suppressed o p d
  · split
    · rename_i hdefers
      exact .defers o p d hdefers
    · rename_i hdefers
      exact .channel o p d (by simpa using hdefers)

theorem step_of_lastSent (hw : s.worker = .lastSent p d)
    (h : s.work o = some s') : Step s (.work o) s' := by
  simp only [State.work, hw] at h
  cases h
  exact .goto_of hw (goto_afterLastSent s o p d _)

theorem step_of_work (h : s.work o = some s') : Step s (.work o) s' := by
  cases hw : s.worker with
  | idle =>
    simp only [State.work, hw] at h
    cases h
  | getCursor | list c =>
    simp only [State.work, hw] at h
    cases h
    refine .goto_of hw ?_
    by_cases ho : o = .done
    · subst ho
      constructor
    · rw [if_neg ho]
      exact .leaves o _ rfl
  | events todo =>
    cases todo with
    | nil =>
      simp only [State.work, hw] at h
      cases h
      exact .goto_of hw (.leaves o _ rfl)
    | cons e todo =>
      simp only [State.work, hw] at h
      split at h
      · rename_i hteam
        cases h
        exact .goto_of hw (.event o e todo hteam)
      · rename_i hteam
        cases h
        exact .considers (.inl ⟨hw, by simpa using hteam⟩)
  | matchRules e todo =>
    simp only [State.work, hw] at h
    split at h
    · cases h
    · cases h
      exact .goto_of hw (.leaves o _ rfl)
  | rules e rules todo => exact step_of_rules hw h
  | lastSent p d => exact step_of_lastSent hw h
  | channel p d =>
    simp only [State.work, hw] at h
    cases h
    refine .goto_of hw ?_
    split
    · exact .send o p d
    · exact .unsent o p d
  | send p d =>
    simp only [State.work, hw] at h
    cases h
    refine .sends hw ?_
    split <;> nofun
  | finish p d status =>
    simp only [State.work, hw] at h
    cases h
    exact .finishes hw
  | setCursor e todo =>
    simp only [State.work, hw] at h
    cases h
    refine .advances hw ?_
    cases o with
    | done => exact .inl ⟨nofun, rfl⟩
    | _ => exact .inr rfl
  | dueRules =>
    simp only [State.work, hw] at h
    split at h
    · cases h
    · cases h
      exact .goto_of hw (.undue o)
  | flush rules =>
    cases rules with
    | nil =>
      simp only [State.work, hw] at h
      cases h
      exact .goto_of hw (.flushed o)
    | cons r rules =>
      simp only [State.work, hw] at h
      cases h
      refine .goto_of hw ?_
      split
      · exact .pending o r rules
      · exact .nothing o r rules
  | flushChannel ids rules =>
    simp only [State.work, hw] at h
    cases h
    refine .goto_of hw ?_
    split
    · exact .flushChannel o ids rules
    · exact .unflushed o ids rules
  | flushSend ids rules =>
    simp only [State.work, hw] at h
    cases h
    refine .flushes hw ?_
    split <;> nofun
  | mark ids rules status =>
    simp only [State.work, hw] at h
    cases h
    exact .marks hw

theorem step_of_apply (h : s.apply a = some s') : Step s a s' := by
  cases a with
  | insert eventType team =>
    cases h
    exact .insert eventType team
  | commit id =>
    obtain ⟨e, he, rfl⟩ := Option.map_eq_some_iff.1 h
    have hid : e.id = id := by simpa using List.find?_some he
    subst hid
    exact .commit (List.mem_of_find?_eq_some he)
  | rollback id =>
    cases h
    exact .rollback id
  | start =>
    obtain ⟨hw, rfl⟩ := Machine.of_guard h
    exact .goto_of hw .start
  | work o => exact step_of_work h
  | matched rules =>
    simp only [State.apply] at h
    split at h
    · rename_i e todo hw
      cases h
      exact .matching hw
    · cases h
  | due rules =>
    obtain ⟨hw, rfl⟩ := Machine.of_guard h
    exact .goto_of hw (.due rules)
  | dies =>
    cases h
    exact .goto (.dies _)
  | purge ids =>
    cases h
    exact .purge ids
  | tick seconds =>
    cases h
    exact .tick seconds

end Akerdock.Notify
