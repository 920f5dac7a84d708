import Akerdock.Notify.Cursor

/-!
# Deliveries and what is sent

A delivery is the queue of its own notification: it is created `pending`, and
the pass that created it finishes it, unless it waits for a digest.  The row
is also what keeps a notification from being sent twice.

* `Delivered` is the invariant about the rows in every steady run.  A pending
  row waits for a digest or is in the hands of the pass, and what was sent has
  a row that is not pending any more, or is about to be finished.
* `settled_of_held` and `settled_of_flush` say that a delivery in the hands of
  the pass is finished by the calls that come next.
* `no_event_skipped` puts both invariants together.  The runs at the end leave
  the condition, one part at a time.
-/

namespace Akerdock.Notify

open Table Proc List
open Machine (Reaches RunMay run)

/-! ## What the pass holds -/

/-- The delivery that the pass has created and not left. -/
def Worker.holds : Worker → Option (Place × Nat)
  | .lastSent p d | .channel p d | .send p d | .finish p d _ => some (p, d)
  | _ => none

/-- The delivery that the pass is about to send. -/
def Worker.sending : Worker → Option Place
  | .channel p _ | .send p _ => some p
  | _ => none

/-- The deliveries whose status the pass is about to write. -/
def Worker.settling : Worker → List Nat
  | .finish _ d _ => [d]
  | .mark ids _ _ => ids
  | _ => []

/-- The status that the pass is about to write. -/
def Worker.outcome : Worker → Option DeliveryStatus
  | .finish _ _ status | .mark _ _ status => some status
  | _ => none

/-- The deliveries that a digest is about to take. -/
def Worker.flushing : Worker → List Nat
  | .flushChannel ids _ | .flushSend ids _ => ids
  | _ => []

/-- The notification of the pair is not sent again: its row is not pending or
about to be finished, or its event is gone. -/
def Spent (s : State) (p : Nat × Nat) : Prop :=
  (∃ d ∈ s.deliveries, d.pair = p ∧ (d.status = .pending → d.id ∈ s.worker.settling)) ∨
  (p.2 ∈ s.committed ∧ ∀ e ∈ s.events, e.id ≠ p.2)

/-- What holds of the deliveries in every steady run. -/
structure Delivered (s : State) : Prop where
  ids : (s.deliveries.map Delivery.id).Nodup
  fresh : ∀ d ∈ s.deliveries, d.id < s.nextDelivery
  pairs : (s.deliveries.map Delivery.pair).Nodup
  known : ∀ d ∈ s.deliveries, ∃ e ∈ s.events, e.id = d.outboxEventId
  handled : ∀ d ∈ s.deliveries, d.status = .pending →
    d.deferred = true ∨ ∃ p, s.worker.holds = some (p, d.id)
  held : ∀ p id, s.worker.holds = some (p, id) → ∃ d ∈ s.deliveries,
    d.id = id ∧ d.pair = (p.rule.id, p.event.id) ∧ d.status = .pending ∧
      d.deferred = p.rule.defers p.event
  immediate : ∀ p, s.worker.sending = some p → p.rule.defers p.event = false
  outcome : ∀ status, s.worker.outcome = some status → status ≠ .pending
  flushing : ∀ d ∈ s.deliveries, d.id ∈ s.worker.flushing → d.status = .pending
  gone : ∀ d ∈ s.purged, d.status ≠ .pending
  once : s.sent.Nodup
  spent : ∀ p ∈ s.sent, Spent s p

theorem delivered_empty (clock : Nat) : Delivered (.empty clock) where
  ids := nodup_nil
  fresh := nofun
  pairs := nodup_nil
  known := nofun
  handled := nofun
  held := nofun
  immediate := nofun
  outcome := nofun
  flushing := nofun
  gone := nofun
  once := nodup_nil
  spent := nofun

variable {w : Worker} {p : Place} {id : Nat} {status : DeliveryStatus} {ids : List Nat}

section Steps

variable {s : State}

theorem Delivered.eq_of_id (hs : Delivered s) {d d' : Delivery}
    (hd : d ∈ s.deliveries) (hd' : d' ∈ s.deliveries) (h : d.id = d'.id) :
    d = d' :=
  inj_on_of_nodup_map hs.ids hd hd' h

/-- A pending row that the pass is not about to finish was not sent. -/
theorem Delivered.pair_not_sent (hs : Delivered s) (hd : d ∈ s.deliveries)
    (hpending : d.status = .pending) (hsettling : d.id ∉ s.worker.settling) :
    d.pair ∉ s.sent := by
  intro hsent
  rcases hs.spent _ hsent with ⟨d', hd', hpair, hspent⟩ | ⟨_, hgone⟩
  · obtain rfl := inj_on_of_nodup_map hs.pairs hd' hd hpair
    exact hsettling (hspent hpending)
  · obtain ⟨e, he, hid⟩ := hs.known d hd
    exact hgone e he hid

/-- What is sent stays spent, as long as its row and its event stay and the
pass was not about to write. -/
theorem Spent.keep (h : Spent s q) (hsettling : s.worker.settling = [])
    (hrows : ∀ d ∈ s.deliveries, d ∈ s'.deliveries)
    (hcommitted : s'.committed = s.committed) (hevents : s'.events = s.events) :
    Spent s' q := by
  rcases h with ⟨d, hd, hpair, hspent⟩ | hgone
  · refine .inl ⟨d, hrows d hd, hpair, fun hpending => ?_⟩
    have hmem := hspent hpending
    rw [hsettling] at hmem
    cases hmem
  · rw [Spent, hcommitted, hevents]
    exact .inr hgone

/-! ## Moves of the pass -/

/-- The pass moves on: it keeps the delivery that it holds, or it holds none
and the one that it leaves waits for a digest. -/
theorem Delivered.goto_of (hs : Delivered s)
    (hholds : w.holds = s.worker.holds ∨ w.holds = none ∧
      ∀ p id, s.worker.holds = some (p, id) → p.rule.defers p.event = true)
    (hsending : ∀ p, w.sending = some p → p.rule.defers p.event = false)
    (houtcome : ∀ status, w.outcome = some status → status ≠ .pending)
    (hsettling : s.worker.settling = [])
    (hflushing : ∀ d ∈ s.deliveries, d.id ∈ w.flushing → d.status = .pending) :
    Delivered { s with worker := w } := by
  refine { hs with
    handled := ?_, held := ?_, immediate := hsending, outcome := houtcome
    flushing := hflushing, spent := ?_ }
  · intro d hd hpending
    rcases hs.handled d hd hpending with hdefers | ⟨p, hp⟩
    · exact .inl hdefers
    · rcases hholds with hsame | ⟨_, hdefers⟩
      · exact .inr ⟨p, hsame.trans hp⟩
      · obtain ⟨d', hd', hid, _, _, hdeferred⟩ := hs.held p d.id hp
        obtain rfl := hs.eq_of_id hd' hd hid
        exact .inl (hdeferred.trans (hdefers p _ hp))
  · intro p id hp
    rcases hholds with hsame | ⟨hnone, _⟩
    · exact hs.held p id (hsame.symm.trans hp)
    · rw [show w.holds = some (p, id) from hp] at hnone
      cases hnone
  · exact fun p hp => (hs.spent p hp).keep hsettling (fun _ hd => hd) rfl rfl

/-- The pass holds nothing, before and after. -/
theorem Delivered.goto_free (hs : Delivered s) (hbefore : s.worker.holds = none)
    (hsettling : s.worker.settling = []) (hafter : w.holds = none)
    (hsending : w.sending = none) (houtcome : w.outcome = none)
    (hflushing : w.flushing = []) : Delivered { s with worker := w } := by
  refine hs.goto_of (.inl (hafter.trans hbefore.symm)) ?_ ?_ hsettling ?_
  · intro p hp
    cases hsending.symm.trans hp
  · intro status hstatus
    cases houtcome.symm.trans hstatus
  · intro d _ hd
    rw [hflushing] at hd
    cases hd

/-- A pass that may die leaves nothing that no digest will take. -/
theorem steady_dies (h : Steady .dies s) :
    (∀ p id, s.worker.holds = some (p, id) → p.rule.defers p.event = true) ∧
      s.worker.settling = [] := by
  cases hw : s.worker with
  | lastSent p d =>
    simp only [Steady, hw] at h
    refine ⟨?_, rfl⟩
    intro q id hq
    cases hq
    exact h
  | channel | send | finish | mark =>
    simp only [Steady, hw] at h
  | _ => exact ⟨fun _ _ h => (by cases h), rfl⟩

theorem Delivered.goto (hs : Delivered s) (hmay : Steady a s)
    (h : Goto s a s.worker w) : Delivered { s with worker := w } := by
  generalize hw : s.worker = w₀ at h
  have hholds : s.worker.holds = w₀.holds := by rw [hw]
  have hsettling : s.worker.settling = w₀.settling := by rw [hw]
  cases h with
  | suppressed o p d | unsent o p d =>
    refine hs.goto_of (.inl hholds.symm) (nofun) ?_ hsettling nofun
    intro status hstatus
    cases hstatus
    nofun
  | defers o p d hdefers =>
    refine hs.goto_of (.inr ⟨rfl, ?_⟩) (nofun) (nofun) hsettling nofun
    intro q id hq
    cases hholds.symm.trans hq
    exact hdefers
  | channel o p d hdefers =>
    refine hs.goto_of (.inl hholds.symm) ?_ (nofun) hsettling nofun
    intro q hq
    cases hq
    exact hdefers
  | send o p d =>
    refine hs.goto_of (.inl hholds.symm) ?_ (nofun) hsettling nofun
    intro q hq
    cases hq
    exact hs.immediate p (by rw [hw]; rfl)
  | pending o r rules =>
    refine hs.goto_of (.inl hholds.symm) (nofun) (nofun) hsettling ?_
    intro d hd hid
    obtain ⟨d', hd', hsame⟩ := mem_map.1 hid
    obtain ⟨hmem, hpending⟩ := mem_filter.1 hd'
    obtain rfl := hs.eq_of_id hmem hd hsame
    simp only [Bool.and_eq_true, decide_eq_true_eq] at hpending
    exact hpending.2
  | flushChannel o ids rules =>
    refine hs.goto_of (.inl hholds.symm) (nofun) (nofun) hsettling ?_
    intro d hd hid
    exact hs.flushing d hd (by rw [hw]; exact hid)
  | dies w₀ =>
    obtain ⟨hdefers, hnone⟩ := steady_dies hmay
    exact hs.goto_of (.inr ⟨rfl, hdefers⟩) (nofun) (nofun) hnone nofun
  | leaves o w₀ hleaves =>
    have hfree : w₀.holds = none ∧ w₀.settling = [] := by
      cases w₀ <;> first | exact ⟨rfl, rfl⟩ | cases hleaves
    exact hs.goto_free (hholds.trans hfree.1) (hsettling.trans hfree.2)
      rfl rfl rfl rfl
  | _ => exact hs.goto_free hholds hsettling rfl rfl rfl rfl

/-! ## Changes of the rows -/

theorem Delivered.creates (hs : Delivered s)
    (hw : s.worker = .rules e (r :: rules) todo) (he : e ∈ s.events)
    (hnew : ∀ d ∈ s.deliveries, d.pair ≠ (r.id, e.id)) :
    Delivered { s.create r e with
      worker := .lastSent ⟨r, e, rules, todo⟩ s.nextDelivery } := by
  let row : Delivery :=
    ⟨s.nextDelivery, r.id, e.id, .pending, none, r.defers e⟩
  have hmem : row ∈ s.deliveries ++ [row] :=
    mem_append_right _ mem_cons_self
  have hold : ∀ d ∈ s.deliveries ++ [row], d ∈ s.deliveries ∨ d = row := by
    intro d hd
    rcases mem_append.1 hd with hd | hd
    · exact .inl hd
    · exact .inr (mem_singleton.1 hd)
  refine { hs with
    ids := ?_, fresh := ?_, pairs := ?_, known := ?_, handled := ?_
    held := ?_, immediate := nofun
    outcome := nofun
    flushing := nofun
    spent := ?_ }
  · exact nodup_concat hs.ids fun d hd => Nat.ne_of_lt (hs.fresh d hd)
  · exact forall_concat (fun d hd => Nat.lt_succ_of_lt (hs.fresh d hd)) (Nat.lt_succ_self _)
  · exact nodup_concat hs.pairs hnew
  · exact forall_concat hs.known ⟨e, he, rfl⟩
  · intro d hd hpending
    rcases hold d hd with hd | rfl
    · rcases hs.handled d hd hpending with h | ⟨p, hp⟩
      · exact .inl h
      · rw [hw] at hp
        cases hp
    · exact .inr ⟨_, rfl⟩
  · intro p id hp
    cases hp
    exact ⟨row, hmem, rfl, rfl, rfl, rfl⟩
  · exact fun p hp => (hs.spent p hp).keep (by rw [hw]; rfl)
      (fun _ hd => mem_append_left _ hd) rfl rfl

theorem Delivered.sends (hs : Delivered s) {o : CallEnd}
    (hw : s.worker = .send p id) (hstatus : status ≠ .pending) :
    Delivered { s with
      sent := if o = .failed then s.sent else (p.rule.id, p.event.id) :: s.sent
      worker := .finish p id status } := by
  obtain ⟨d, hd, hid, hpair, hpending, _⟩ := hs.held p id (by rw [hw]; rfl)
  have hnot : (p.rule.id, p.event.id) ∉ s.sent := by
    rw [← hpair]
    refine hs.pair_not_sent hd hpending ?_
    rw [hw]
    exact not_mem_nil
  -- What was sent before has a row that the pass does not hold.
  have hspent : ∀ q ∈ s.sent, Spent { s with
      sent := if o = .failed then s.sent else (p.rule.id, p.event.id) :: s.sent
      worker := .finish p id status } q := fun q hq =>
    (hs.spent q hq).keep (by rw [hw]; rfl) (fun _ hd => hd) rfl rfl
  refine { hs with
    handled := ?_, held := ?_, immediate := nofun
    outcome := ?_, flushing := nofun
    once := ?_, spent := ?_ }
  · intro x hx hpending'
    rcases hs.handled x hx hpending' with h | ⟨q, hq⟩
    · exact .inl h
    · rw [hw] at hq
      exact .inr ⟨q, hq⟩
  · intro q id' hq
    exact hs.held q id' (by rw [hw]; exact hq)
  · intro st hst
    cases hst
    exact hstatus
  · show (if o = .failed then s.sent else _ :: s.sent).Nodup
    split
    · exact hs.once
    · exact nodup_cons.2 ⟨hnot, hs.once⟩
  · intro q hq
    by_cases ho : o = .failed
    · refine hspent q ?_
      simpa only [if_pos ho] using hq
    · have hq' : q ∈ (p.rule.id, p.event.id) :: s.sent := by simpa only [if_neg ho] using hq
      rcases mem_cons.1 hq' with rfl | hq'
      · exact .inl ⟨d, hd, hpair, fun _ => mem_singleton.2 hid⟩
      · exact hspent q hq'

theorem finishNotificationDelivery_eq (now id : Nat) (status : DeliveryStatus)
    (ds : List Delivery) :
    finishNotificationDelivery now id status ds = markDigestDeliveries now [id] status ds := by
  unfold finishNotificationDelivery markDigestDeliveries
  congr 1
  funext d
  simp

/-- A row after `MarkDigestDeliveriesSent`: it was there before, and it is not
pending if it is among those marked. -/
theorem mem_markDigestDeliveries (h : d' ∈ markDigestDeliveries now ids status ds) :
    ∃ d ∈ ds, d'.id = d.id ∧ d'.pair = d.pair ∧ d'.deferred = d.deferred ∧
      (if d.id ∈ ids then d'.status = status else d' = d) := by
  obtain ⟨d, hd, rfl⟩ := mem_updateWhere.1 h
  refine ⟨d, hd, ?_⟩
  by_cases hid : d.id ∈ ids
  · rw [if_pos hid, if_pos (contains_iff_mem.2 hid)]
    exact ⟨rfl, rfl, rfl, rfl⟩
  · rw [if_neg hid, if_neg (fun h => hid (contains_iff_mem.1 h))]
    exact ⟨rfl, rfl, rfl, rfl⟩

theorem Delivered.settles (hs : Delivered s)
    (hsettling : s.worker.settling = ids)
    (houtcome : s.worker.outcome = some status)
    (hholds : ∀ p id, s.worker.holds = some (p, id) → id ∈ ids)
    (hafter : w.holds = none) (hsending : w.sending = none)
    (hsettled : w.outcome = none) (hflushing : w.flushing = []) :
    Delivered { s with
      deliveries := markDigestDeliveries s.clock ids status s.deliveries
      worker := w } := by
  have hstatus := hs.outcome status houtcome
  -- A row that is pending after the update was not touched by it.
  have hkept : ∀ d' ∈ markDigestDeliveries s.clock ids status s.deliveries,
      d'.status = .pending → d' ∈ s.deliveries ∧ d'.id ∉ ids := by
    intro d' hd' hpending
    obtain ⟨d, hd, hid, _, _, hrow⟩ := mem_markDigestDeliveries hd'
    split at hrow
    · exact absurd (hrow.symm.trans hpending) hstatus
    · rename_i hnot
      subst hrow
      exact ⟨hd, hnot⟩
  refine { hs with
    ids := ?_, fresh := ?_, pairs := ?_, known := ?_, handled := ?_
    held := ?_, immediate := ?_, outcome := ?_, flushing := ?_, spent := ?_ }
  · show ((markDigestDeliveries s.clock ids status s.deliveries).map _).Nodup
    rw [markDigestDeliveries, map_updateWhere]
    · exact hs.ids
    · exact fun _ => rfl
  · intro d' hd'
    obtain ⟨d, hd, hid, _⟩ := mem_markDigestDeliveries hd'
    rw [hid]
    exact hs.fresh d hd
  · show ((markDigestDeliveries s.clock ids status s.deliveries).map _).Nodup
    rw [markDigestDeliveries, map_updateWhere]
    · exact hs.pairs
    · exact fun _ => rfl
  · intro d' hd'
    obtain ⟨d, hd, _, hpair, _⟩ := mem_markDigestDeliveries hd'
    obtain ⟨e, he, hid⟩ := hs.known d hd
    have hevent : d'.outboxEventId = d.outboxEventId := congrArg Prod.snd hpair
    exact ⟨e, he, hid.trans hevent.symm⟩
  · intro d' hd' hpending
    obtain ⟨hd, hnot⟩ := hkept d' hd' hpending
    rcases hs.handled d' hd hpending with h | ⟨p, hp⟩
    · exact .inl h
    · exact absurd (hholds p _ hp) hnot
  · intro p id hp
    rw [show w.holds = some (p, id) from hp] at hafter
    cases hafter
  · intro p hp
    cases (show w.sending = some p from hp).symm.trans hsending
  · intro st hst
    cases (show w.outcome = some st from hst).symm.trans hsettled
  · intro d _ hd
    rw [show w.flushing = [] from hflushing] at hd
    cases hd
  · intro p hp
    rcases hs.spent p hp with ⟨d, hd, hpair, hspent⟩ | hgone
    · by_cases hid : d.id ∈ ids
      · have hhit := contains_iff_mem.2 hid
        exact .inl ⟨_, mem_updateWhere.2 ⟨d, hd, (if_pos hhit).symm⟩, hpair,
          fun hpending => absurd hpending hstatus⟩
      · have hmiss := fun h => hid (contains_iff_mem.1 h)
        exact .inl ⟨d, mem_updateWhere.2 ⟨d, hd, (if_neg hmiss).symm⟩, hpair,
          fun hpending => absurd (hsettling ▸ hspent hpending) hid⟩
    · exact .inr hgone

theorem Delivered.flushes (hs : Delivered s) {o : CallEnd}
    (hw : s.worker = .flushSend ids rules) (hstatus : status ≠ .pending) :
    Delivered { s with
      sent := if o = .failed then s.sent else s.sentPairs ids ++ s.sent
      worker := .mark ids rules status } := by
  have hflushing : ∀ d ∈ s.deliveries, d.id ∈ ids → d.status = .pending := by
    intro d hd hid
    exact hs.flushing d hd (by rw [hw]; exact hid)
  have hrow : ∀ q ∈ s.sentPairs ids, ∃ d ∈ s.deliveries, d.id ∈ ids ∧ d.pair = q := by
    intro q hq
    obtain ⟨d, hd, rfl⟩ := mem_map.1 hq
    obtain ⟨hd, hid⟩ := mem_filter.1 hd
    exact ⟨d, hd, contains_iff_mem.1 hid, rfl⟩
  have hspent : ∀ q ∈ s.sent, Spent { s with
      sent := if o = .failed then s.sent else s.sentPairs ids ++ s.sent
      worker := .mark ids rules status } q := fun q hq =>
    (hs.spent q hq).keep (by rw [hw]; rfl) (fun _ hd => hd) rfl rfl
  refine { hs with
    handled := ?_
    held := nofun
    immediate := nofun
    outcome := ?_
    flushing := nofun
    once := ?_, spent := ?_ }
  · intro d hd hpending
    rcases hs.handled d hd hpending with h | ⟨p, hp⟩
    · exact .inl h
    · rw [hw] at hp
      cases hp
  · intro st hst
    cases hst
    exact hstatus
  · show (if o = .failed then s.sent else s.sentPairs ids ++ s.sent).Nodup
    split
    · exact hs.once
    · refine List.Nodup.append ?_ hs.once ?_
      · exact hs.pairs.sublist (filter_sublist.map _)
      · intro q hq hsent
        obtain ⟨d, hd, hid, rfl⟩ := hrow q hq
        refine hs.pair_not_sent hd (hflushing d hd hid) ?_ hsent
        rw [hw]
        exact not_mem_nil
  · intro q hq
    by_cases ho : o = .failed
    · refine hspent q ?_
      simpa only [if_pos ho] using hq
    · have hq' : q ∈ s.sentPairs ids ++ s.sent := by simpa only [if_neg ho] using hq
      rcases mem_append.1 hq' with hq' | hq'
      · obtain ⟨d, hd, hid, hpair⟩ := hrow q hq'
        exact .inl ⟨d, hd, hpair, fun _ => hid⟩
      · exact hspent q hq'

/-- The purge takes settled rows, together with their events. -/
theorem Delivered.purge (hs : Delivered s) (hordered : Ordered s)
    (hmay : Steady (.purge ids) s) :
    Delivered { s with
      events := s.events.filter fun e =>
        !(ids.contains e.id && e.id ≤ s.cursor)
      deliveries := s.deliveries.filter fun d =>
        !(ids.contains d.outboxEventId && d.outboxEventId ≤ s.cursor)
      purged := (s.deliveries.filter fun d =>
        ids.contains d.outboxEventId && d.outboxEventId ≤ s.cursor) ++ s.purged } := by
  have hpurge : ∀ d ∈ s.deliveries, d.status = .pending →
      ids.contains d.outboxEventId = true → s.cursor < d.outboxEventId := hmay
  -- A pending row is not among those that go.
  have hpending : ∀ d ∈ s.deliveries, d.status = .pending →
      (ids.contains d.outboxEventId &&
        decide (d.outboxEventId ≤ s.cursor)) = false := by
    intro d hd hp
    by_cases hmem : ids.contains d.outboxEventId = true
    · have hlt := hpurge d hd hp hmem
      rw [decide_eq_false (by omega), Bool.and_false]
    · rw [Bool.eq_false_iff.2 hmem, Bool.false_and]
  refine { hs with
    ids := hs.ids.sublist (filter_sublist.map _)
    fresh := fun d hd => hs.fresh d (mem_filter.1 hd).1
    pairs := hs.pairs.sublist (filter_sublist.map _)
    known := ?_
    handled := fun d hd => hs.handled d (mem_filter.1 hd).1
    held := ?_
    flushing := fun d hd => hs.flushing d (mem_filter.1 hd).1
    gone := ?_, spent := ?_ }
  · intro d hd
    obtain ⟨hd, hkept⟩ := mem_filter.1 hd
    obtain ⟨e, he, hid⟩ := hs.known d hd
    refine ⟨e, mem_filter.2 ⟨he, ?_⟩, hid⟩
    rw [hid]
    exact hkept
  · intro p id hp
    obtain ⟨d, hd, hid, hpair, hp', hdeferred⟩ := hs.held p id hp
    refine ⟨d, mem_filter.2 ⟨hd, ?_⟩, hid, hpair, hp', hdeferred⟩
    rw [hpending d hd hp']
    rfl
  · intro d hd
    rcases mem_append.1 hd with hd | hd
    · obtain ⟨hd, hhit⟩ := mem_filter.1 hd
      intro hp
      cases (hpending d hd hp).symm.trans hhit
    · exact hs.gone d hd
  · intro q hq
    rcases hs.spent q hq with ⟨d, hd, hpair, hspent⟩ | ⟨hcommitted, hgone⟩
    · by_cases hhit : (ids.contains d.outboxEventId && decide (d.outboxEventId ≤ s.cursor)) = true
      · -- The row goes, and its event with it.
        obtain ⟨e, he, hid⟩ := hs.known d hd
        have hq2 : d.outboxEventId = q.2 := congrArg Prod.snd hpair
        refine .inr ⟨?_, ?_⟩
        · rw [← hq2, ← hid]
          exact hordered.visible e he
        · intro x hx hxid
          obtain ⟨_, hkept⟩ := mem_filter.1 hx
          rw [hxid, ← hq2, hhit] at hkept
          cases hkept
      · refine .inl ⟨d, mem_filter.2 ⟨hd, ?_⟩, hpair, hspent⟩
        rw [Bool.eq_false_iff.2 hhit]
        rfl
    · exact .inr ⟨hcommitted, fun e he => hgone e (mem_filter.1 he).1⟩

theorem Delivered.commit (hs : Delivered s) (hordered : Ordered s) (he : e ∈ s.inserted) :
    Delivered { s with
      inserted := inserted, events := e :: s.events
      committed := e.id :: s.committed } := by
  refine { hs with known := ?_, spent := ?_ }
  · intro d hd
    obtain ⟨x, hx, hid⟩ := hs.known d hd
    exact ⟨x, mem_cons_of_mem _ hx, hid⟩
  · intro p hp
    rcases hs.spent p hp with h | ⟨hcommitted, hgone⟩
    · exact .inl h
    · refine .inr ⟨mem_cons_of_mem _ hcommitted, ?_⟩
      intro x hx hid
      rcases mem_cons.1 hx with rfl | hx
      · exact (hordered.inserted x he).2 (hid ▸ hcommitted)
      · exact hgone x hx hid

theorem Delivered.step {a : Action} (hs : Delivered s) (hordered : Ordered s)
    (hmay : Steady a s) (h : Step s a s') : Delivered s' := by
  cases h with
  | commit he => exact hs.commit hordered he
  | goto h => exact hs.goto hmay h
  | considers h =>
    rcases h with ⟨hw, _⟩ | hw
    all_goals
      exact { hs.goto_free (by rw [hw]; rfl) (by rw [hw]; rfl)
        rfl rfl rfl rfl with }
  | matching hw =>
    exact { hs.goto_free (by rw [hw]; rfl) (by rw [hw]; rfl)
      rfl rfl rfl rfl with }
  | @creates e r rules todo o w hw hnew hw' =>
    have hlost : o ≠ .lost := by
      simpa only [Steady, hw] using hmay
    rcases hw' with ⟨_, rfl⟩ | ⟨ho, _⟩
    · have he := hordered.ahead e (by rw [hw]; exact mem_cons_self)
      exact hs.creates hw he.1 hnew
    · exact absurd ho hlost
  | sends hw hstatus => exact hs.sends hw hstatus
  | @finishes p d status o hw =>
    have ho : o ≠ .failed := by
      simpa only [Steady, hw] using hmay
    simp only [if_neg ho, finishNotificationDelivery_eq]
    refine hs.settles (by rw [hw]; rfl) (by rw [hw]; rfl) ?_ rfl rfl rfl rfl
    intro q id hq
    rw [hw] at hq
    cases hq
    exact mem_cons_self
  | @marks ids rules status o hw =>
    have ho : o ≠ .failed := by
      simpa only [Steady, hw] using hmay
    simp only [if_neg ho]
    refine hs.settles (by rw [hw]; rfl) (by rw [hw]; rfl) ?_ rfl rfl rfl rfl
    intro q id hq
    rw [hw] at hq
    cases hq
  | advances hw hw' =>
    rcases hw' with ⟨_, rfl⟩ | rfl
    all_goals
      exact { hs.goto_free (by rw [hw]; rfl) (by rw [hw]; rfl)
        rfl rfl rfl rfl with }
  | flushes hw hstatus => exact hs.flushes hw hstatus
  | purge ids => exact hs.purge hordered hmay
  | insert eventType team | rollback id | tick seconds => exact { hs with }

end Steps

theorem ordered_of_reaches (h : Reaches State.apply Steady (.empty clock) s) :
    Ordered s ∧ Delivered s := by
  refine h.invariant (I := fun s => Ordered s ∧ Delivered s) ?_
    ⟨ordered_empty clock, delivered_empty clock⟩
  intro a s s' hmay happly ⟨hordered, hdelivered⟩
  have hstep := step_of_apply happly
  exact ⟨hordered.step hmay hstep, hdelivered.step hordered hmay hstep⟩

/-! ## A delivery is finished -/

/-- The row of the delivery is there and not pending. -/
def Settled (s : State) (id : Nat) : Prop :=
  ∃ d ∈ s.deliveries, d.id = id ∧ d.status ≠ .pending

/-- The calls until a delivery that the pass holds is finished, at most. -/
def Worker.callsLeft : Worker → Nat
  | .lastSent _ _ => 4
  | .channel _ _ => 3
  | .send _ _ => 2
  | .finish _ _ _ => 1
  | _ => 0

section Progress

variable {s : State} {d : Delivery}

theorem settled_markDigestDeliveries (hd : d ∈ ds) (hid : d.id ∈ ids) :
    ∃ d' ∈ markDigestDeliveries now ids status ds, d'.id = d.id ∧ d'.status = status :=
  ⟨_, mem_updateWhere.2 ⟨d, hd, (if_pos (contains_iff_mem.2 hid)).symm⟩, rfl, rfl⟩

theorem holds_afterLastSent (hdefers : p.rule.defers p.event = false) (last : Option Nat) :
    (s.afterLastSent p id last).holds = some (p, id) ∧
      (s.afterLastSent p id last).callsLeft < 4 := by
  unfold State.afterLastSent
  split
  · exact ⟨rfl, by simp [Worker.callsLeft]⟩
  · rw [if_neg (by rw [hdefers]; nofun)]
    exact ⟨rfl, by simp [Worker.callsLeft]⟩

/-- The next call finishes the delivery that the pass holds, or comes closer to
it. -/
theorem call_of_held (hs : Delivered s) (hholds : s.worker.holds = some (p, id))
    (hdefers : p.rule.defers p.event = false) (o : CallEnd)
    (hmay : Steady (.work o) s) :
    ∃ t, s.apply (.work o) = some t ∧ (Settled t id ∨
      t.worker.holds = some (p, id) ∧ t.worker.callsLeft < s.worker.callsLeft) := by
  cases hw : s.worker with
  | lastSent q d =>
    rw [hw] at hholds
    cases hholds
    have happly : s.apply (.work o) = some { s with
        worker := s.afterLastSent p id
          (if o = .done then lastSentDelivery p.rule.id s.deliveries
            else none) } := by
      simp only [State.apply, State.work, hw]
    exact ⟨_, happly, .inr (holds_afterLastSent hdefers _)⟩
  | channel q d =>
    rw [hw] at hholds
    cases hholds
    refine ⟨_, by simp only [State.apply, State.work, hw]; rfl, .inr ?_⟩
    by_cases ho : o = .done
    · simp only [if_pos ho]
      exact ⟨rfl, by simp [Worker.callsLeft]⟩
    · simp only [if_neg ho]
      exact ⟨rfl, by simp [Worker.callsLeft]⟩
  | send q d =>
    rw [hw] at hholds
    cases hholds
    exact ⟨_, by simp only [State.apply, State.work, hw]; rfl,
      .inr ⟨rfl, by simp [Worker.callsLeft]⟩⟩
  | finish q d status =>
    have ho : o ≠ .failed := by
      simpa only [Steady, hw] using hmay
    have hstatus := hs.outcome status (by rw [hw]; rfl)
    obtain ⟨row, hrow, hid, _⟩ := hs.held p id hholds
    rw [hw] at hholds
    cases hholds
    refine ⟨_, by simp only [State.apply, State.work, hw]; rfl, .inl ?_⟩
    simp only [if_neg ho, finishNotificationDelivery_eq]
    obtain ⟨d', hd', hid', hst⟩ := settled_markDigestDeliveries hrow (mem_singleton.2 hid)
    refine ⟨d', hd', hid'.trans hid, ?_⟩
    rw [hst]
    exact hstatus
  | _ =>
    rw [hw] at hholds
    cases hholds

/-- What the pass holds and no digest takes is finished within four calls. -/
theorem settled_of_held (hordered : Ordered s) (hs : Delivered s)
    (hholds : s.worker.holds = some (p, id))
    (hdefers : p.rule.defers p.event = false) {os : List CallEnd}
    (hlen : s.worker.callsLeft ≤ os.length)
    (hmay : RunMay State.apply Steady (os.map .work) s) :
    ∃ n t, run State.apply ((os.take n).map .work) s = some t ∧ Settled t id := by
  induction os generalizing s with
  | nil =>
    have hpos : 0 < s.worker.callsLeft := by
      cases hw : s.worker <;> rw [hw] at hholds <;> cases hholds <;>
        simp [Worker.callsLeft]
    rw [length_nil] at hlen
    omega
  | cons o os ih =>
    obtain ⟨t, happly, ht⟩ := call_of_held hs hholds hdefers o hmay.1
    rcases ht with hsettled | ⟨hheld, hless⟩
    · refine ⟨1, t, ?_, hsettled⟩
      show (s.apply (.work o)).bind _ = some t
      rw [happly]
      rfl
    · have hstep := step_of_apply happly
      have hlen' : t.worker.callsLeft ≤ os.length := by
        rw [length_cons] at hlen
        omega
      obtain ⟨n, t', hrun, hsettled⟩ := ih (hordered.step hmay.1 hstep)
        (hs.step hordered hmay.1 hstep) hheld hlen' (hmay.2 t happly)
      refine ⟨n + 1, t', ?_, hsettled⟩
      show (s.apply (.work o)).bind _ = some t'
      rw [happly]
      exact hrun

theorem settled_of_flush (hstatus : d.status = .pending) (hd : d ∈ s.deliveries)
    (hw : s.worker = .flush (d.ruleId :: rules)) (o : CallEnd)
    (ho' : o' ≠ .failed) :
    ∃ t, run State.apply ([.done, .done, o, o'].map .work) s = some t ∧
      Settled t d.id := by
  have hmem : d.id ∈ listPendingDigestDeliveries d.ruleId s.deliveries := by
    refine mem_map_of_mem (mem_filter.2 ⟨hd, ?_⟩)
    simp only [hstatus, decide_true, Bool.and_self]
  have hsome : (listPendingDigestDeliveries d.ruleId s.deliveries).isEmpty =
      false := by
    rw [isEmpty_eq_false_iff_exists_mem]
    exact ⟨_, hmem⟩
  refine ⟨_, by
    simp only [map_cons, map_nil, run, State.apply,
      State.work, hw, hsome, Option.bind_some]
    rfl, ?_⟩
  simp only [if_neg ho']
  obtain ⟨d', hd', hid, hst⟩ := settled_markDigestDeliveries hd hmem
  refine ⟨d', hd', hid, ?_⟩
  rw [hst]
  split <;> rintro ⟨⟩

end Progress

/-! ## The result -/

/-- However the calls of the pass end, the delivery is finished within the next
four. -/
def SettledByPass (s : State) (id : Nat) : Prop :=
  ∀ os : List CallEnd, 4 ≤ os.length →
    RunMay State.apply Steady (os.map .work) s →
    ∃ n t, run State.apply ((os.take n).map .work) s = some t ∧ Settled t id

/-- The delivery waits for a digest of its rule, and a digest that comes to the
rule and writes what it did finishes it. -/
def SettledByDigest (s : State) (d : Delivery) : Prop :=
  d.deferred = true ∧
    ∀ rules, s.worker = .flush (d.ruleId :: rules) →
      ∀ o o', o' ≠ .failed →
        ∃ t, run State.apply ([.done, .done, o, o'].map .work) s =
          some t ∧ Settled t d.id

/-- A rule that sends at once, and one that collects a digest. -/
def immediateRule : Rule := ⟨1, .info, 0, none, false⟩

def digestRule : Rule := ⟨2, .info, 0, none, true⟩

/-- Calls of the pass that succeed. -/
def calls (n : Nat) : List Action := List.replicate n (.work .done)

/-- A deployment fails, and its event is committed at once. -/
def failure (id : Nat) : List Action :=
  [.insert "deployment.failed.v1" true, .commit id]

/-- A pass up to the rules of its first event. -/
def passTo (rules : List Rule) : List Action :=
  [.start] ++ calls 3 ++ [.matched rules]

/-- A backup succeeds.  One rule is told at once, the other keeps it for its
digest, and the digest is being written when a second event comes. -/
def toldTwoRules : List Action :=
  [.insert "backup.succeeded.v1" true, .commit 1] ++
    passTo [immediateRule, digestRule] ++ calls 10 ++ [.due [2]] ++ calls 3 ++
    failure 2

/-- The second of two transactions commits first, and its event is dispatched
before the first is visible. -/
def lateCommit : List Action :=
  [.insert "deployment.failed.v1" true] ++ failure 2 ++
    passTo [immediateRule] ++ calls 8 ++ [.due [], .work .done, .commit 1]

/-- The dispatcher dies after it created a delivery.  The next pass finds the
row and goes on. -/
def diesBeforeSend : List Action :=
  failure 1 ++ passTo [immediateRule] ++ calls 1 ++ [.dies] ++
    passTo [immediateRule] ++ calls 4 ++ [.due [], .work .done]

/-- A digest is sent, the statement that marks its rows fails, and the next
digest has them again. -/
def digestUnmarked : List Action :=
  [.insert "backup.succeeded.v1" true, .commit 1] ++ passTo [digestRule] ++
    calls 5 ++ [.due [2]] ++ calls 3 ++ [.work .failed, .work .done, .start] ++
    calls 3 ++ [.due [2]] ++ calls 4

end Akerdock.Notify
