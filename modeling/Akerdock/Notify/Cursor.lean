import Akerdock.Notify.Dispatcher

/-!
# The cursor over the outbox

The cursor moves over ids, and an event behind it is never read again.  An
event whose transaction commits after the cursor has moved past its id is
lost for the dispatcher; so is one that commits while a pass holds a batch with
later ids.

* `Steady` is the condition under which nothing is lost: rows become visible
  behind everything that the dispatcher has read, and a delivery that was
  opened is finished.
* `Ordered` is the invariant about the events.  What is committed and not behind
  the cursor is in the batch of the pass or after it, and what is behind the
  cursor was considered, with a delivery for each rule that matched it.
-/

namespace Akerdock.Notify

open Table Proc List

/-! ## The condition -/

/-- The events that the pass has read and not passed. -/
def Worker.batch : Worker → List OutboxEvent
  | .events todo => todo
  | .matchRules e todo | .rules e _ todo | .setCursor e todo => e :: todo
  | .lastSent p _ | .channel p _ | .send p _ | .finish p _ _ =>
    p.event :: p.todo
  | _ => []

/-- What the dispatcher reads is complete, and what it begins it ends.

* An event becomes visible with an id above the cursor and above everything in
  the batch of the pass.
* `CreateNotificationDelivery` does not report an error after it took effect,
  and the statements that finish deliveries do not fail.
* The pass does not die between the row of a delivery and its end, unless the
  delivery is left for a digest, nor between a digest and its mark.
* The purge takes no delivery with it that is pending. -/
def Steady (a : Action) (s : State) : Prop :=
  match a with
  | .commit id => s.cursor < id ∧ ∀ e ∈ s.worker.batch, e.id < id
  | .work o =>
    match s.worker with
    | .rules _ _ _ => o ≠ .lost
    | .finish _ _ _ | .mark _ _ _ => o ≠ .failed
    | _ => True
  | .dies =>
    match s.worker with
    | .lastSent p _ => p.rule.defers p.event = true
    | .channel _ _ | .send _ _ | .finish _ _ _ | .mark _ _ _ => False
    | _ => True
  | .purge ids =>
    ∀ d ∈ s.deliveries, d.status = .pending →
      ids.contains d.outboxEventId = true → s.cursor < d.outboxEventId
  | _ => True

instance (a : Action) (s : State) : Decidable (Steady a s) := by
  unfold Steady
  split <;> try infer_instance
  all_goals split <;> infer_instance

/-! ## The invariant -/

/-- The event whose rules the pass goes through, and the rules that are left. -/
def Worker.current : Worker → Option (OutboxEvent × List Rule)
  | .rules e left _ => some (e, left)
  | .lastSent p _ | .channel p _ | .send p _ | .finish p _ _ =>
    some (p.event, p.rules)
  | _ => none

/-- A delivery was opened for the pair of a rule and an event. -/
def Made (s : State) (p : Nat × Nat) : Prop :=
  ∃ d ∈ s.deliveries ++ s.purged, d.pair = p

/-- What holds of the events in every steady run. -/
structure Ordered (s : State) : Prop where
  inserted : ∀ e ∈ s.inserted, e.id < s.nextEvent ∧ e.id ∉ s.committed
  ids : (s.inserted.map OutboxEvent.id).Nodup
  fresh : ∀ id ∈ s.committed, id < s.nextEvent
  visible : ∀ e ∈ s.events, e.id ∈ s.committed
  distinct : (s.events.map OutboxEvent.id).Nodup
  kept : ∀ id ∈ s.committed, id ≤ s.cursor ∨ ∃ e ∈ s.events, e.id = id
  passed : ∀ id ∈ s.committed, id ≤ s.cursor → id ∈ s.considered
  sorted : s.worker.batch.Pairwise fun a b => a.id < b.id
  ahead : ∀ e ∈ s.worker.batch, e ∈ s.events ∧ s.cursor < e.id
  complete : ∀ id ∈ s.committed, s.cursor < id →
    (∃ e ∈ s.worker.batch, e.id = id) ∨ ∀ e ∈ s.worker.batch, e.id < id
  cursor : ∀ c, s.worker = .list c → c = s.cursor
  done : ∀ e todo, s.worker = .setCursor e todo → e.id ∈ s.considered
  teams : ∀ p ∈ s.matched, p.2 ∈ s.committed ∧
    ∀ e ∈ s.events, e.id = p.2 → e.team = true
  matching : ∀ e todo, s.worker = .matchRules e todo → e.team = true
  covered : ∀ id ∈ s.considered, ∀ r, (r, id) ∈ s.matched → Made s (r, id)
  current : ∀ e rules, s.worker.current = some (e, rules) →
    ∀ r, (r, e.id) ∈ s.matched → Made s (r, e.id) ∨ ∃ q ∈ rules, q.hears e = true ∧ q.id = r

theorem ordered_empty (clock : Nat) : Ordered (.empty clock) where
  inserted := nofun
  ids := nodup_nil
  fresh := nofun
  visible := nofun
  distinct := nodup_nil
  kept := nofun
  passed := nofun
  sorted := Pairwise.nil
  ahead := nofun
  complete := nofun
  cursor := nofun
  done := nofun
  teams := nofun
  matching := nofun
  covered := nofun
  current := nofun

/-! ## Steps -/

section

variable (hs : Ordered s)

include hs

/-- The pass goes on with the batch that it has, or without one. -/
theorem Ordered.goto_of_batch (hbatch : w.batch = s.worker.batch ∨ w.batch = [])
    (hcursor : ∀ c, w = .list c → c = s.cursor)
    (hdone : ∀ e todo, w ≠ .setCursor e todo)
    (hmatching : ∀ e todo, w = .matchRules e todo → e.team = true)
    (hcurrent : ∀ e rules, w.current = some (e, rules) →
      ∀ r, (r, e.id) ∈ s.matched → Made s (r, e.id) ∨
        ∃ q ∈ rules, q.hears e = true ∧ q.id = r) :
    Ordered { s with worker := w } := by
  have hpair : w.batch.Pairwise fun a b => a.id < b.id := by
    rcases hbatch with h | h
    · rw [h]
      exact hs.sorted
    · rw [h]
      exact .nil
  have hahead : ∀ e ∈ w.batch, e ∈ s.events ∧ s.cursor < e.id := by
    rcases hbatch with h | h
    · rw [h]
      exact hs.ahead
    · rw [h]
      exact nofun
  have hcomplete : ∀ id ∈ s.committed, s.cursor < id →
      (∃ e ∈ w.batch, e.id = id) ∨ ∀ e ∈ w.batch, e.id < id := by
    rcases hbatch with h | h
    · rw [h]
      exact hs.complete
    · rw [h]
      exact fun _ _ _ => .inr nofun
  exact { hs with
    sorted := hpair
    ahead := hahead
    complete := hcomplete
    cursor := hcursor
    done := fun e todo h => absurd h (hdone e todo)
    matching := hmatching
    current := hcurrent }

theorem Ordered.goto (h : Goto s a s.worker w) : Ordered { s with worker := w } := by
  generalize hw : s.worker = w₀ at h
  cases h with
  | list cursor =>
    obtain rfl := hs.cursor cursor hw
    exact { hs with
      sorted := pairwise_selectFirst hs.distinct
      ahead := fun e he =>
        ⟨(mem_selectFirst he).1, of_decide_eq_true (mem_selectFirst he).2⟩
      complete := by
        intro id hid hlt
        have hcursor : s.cursor < id := hlt
        rcases hs.kept id hid with hle | ⟨e, he, rfl⟩
        · omega
        · rcases selectFirst_complete (p := fun e => s.cursor < e.id)
              (n := batchSize) hs.distinct he (decide_eq_true hcursor) with h | h
          · exact .inl ⟨e, h, rfl⟩
          · exact .inr h
      cursor := nofun
      done := nofun
      matching := nofun
      current := nofun }
  | cursor =>
    refine hs.goto_of_batch (.inr rfl) ?_ nofun nofun nofun
    intro c hc
    cases hc
    rfl
  | event o e todo hteam =>
    refine hs.goto_of_batch (.inl (by rw [hw]; rfl)) nofun nofun ?_ nofun
    intro e' todo' heq
    cases heq
    exact hteam
  | passes o e r rules todo hmade =>
    refine hs.goto_of_batch (.inl (by rw [hw]; rfl)) nofun nofun nofun ?_
    intro e' rules' hc
    cases hc
    intro q hq
    rcases hs.current e (r :: rules) (by rw [hw]; rfl) q hq with hm | ⟨q', hq', hhears, hid⟩
    · exact .inl hm
    · rcases mem_cons.1 hq' with rfl | hq'
      · -- The head of the rules has its delivery.
        obtain ⟨d, hd, hpair⟩ := hmade hhears
        subst hid
        exact .inl ⟨d, mem_append_left _ hd, hpair⟩
      · exact .inr ⟨q', hq', hhears, hid⟩
  | suppressed | defers | channel | send | unsent =>
    refine hs.goto_of_batch (.inl (by rw [hw]; rfl)) nofun nofun nofun ?_
    intro e rules hc
    cases hc
    exact hs.current _ _ (by rw [hw]; rfl)
  | _ =>
    exact hs.goto_of_batch (.inr rfl) nofun nofun nofun nofun

/-- The dispatch of an event is over: its rules have their deliveries. -/
theorem Ordered.considers (hbatch : s.worker.batch = e :: todo)
    (hcovered : ∀ r, (r, e.id) ∈ s.matched → Made s (r, e.id)) :
    Ordered { s with
      worker := .setCursor e todo
      considered := e.id :: s.considered } :=
  { hs with
    passed := fun id hid hle => mem_cons_of_mem _ (hs.passed id hid hle)
    sorted := by
      show (e :: todo).Pairwise _
      rw [← hbatch]
      exact hs.sorted
    ahead := by
      show ∀ x ∈ e :: todo, _
      rw [← hbatch]
      exact hs.ahead
    complete := by
      show ∀ id ∈ s.committed, s.cursor < id →
        (∃ x ∈ e :: todo, x.id = id) ∨ ∀ x ∈ e :: todo, x.id < id
      rw [← hbatch]
      exact hs.complete
    cursor := nofun
    done := by
      intro e' todo' h
      cases h
      exact mem_cons_self
    matching := nofun
    covered := forall_mem_cons.2 ⟨hcovered, hs.covered⟩
    current := nofun }

/-- New deliveries and sends, with every pair still there. -/
theorem Ordered.rows (hmade : ∀ p, Made s p → ∃ d ∈ deliveries ++ purged, d.pair = p) :
    Ordered { s with
      clock := clock, nextDelivery := n, deliveries := deliveries
      purged := purged, sent := sent } :=
  { hs with
    covered := fun id hid r hr => hmade _ (hs.covered id hid r hr)
    current := by
      intro e rules hc r hr
      rcases hs.current e rules hc r hr with h | h
      · exact .inl (hmade _ h)
      · exact .inr h }

theorem Ordered.matchRules (hw : s.worker = .matchRules e todo) :
    Ordered { s with
      worker := .rules e rules todo
      considered := s.considered.filter fun id => id ≠ e.id
      matched :=
        ((rules.filter fun r => r.hears e).map fun r => (r.id, e.id)) ++
          s.matched.filter fun p => p.2 ≠ e.id } := by
  have hbatch : s.worker.batch = e :: todo := by
    rw [hw]
    rfl
  have hahead := hs.ahead e (by rw [hbatch]; exact mem_cons_self)
  have hsorted := hs.sorted
  have hall := hs.ahead
  have hcomplete := hs.complete
  rw [hbatch] at hsorted hall hcomplete
  exact { hs with
    passed := by
      intro id hid hle
      refine mem_filter.2 ⟨hs.passed id hid hle, decide_eq_true ?_⟩
      have hcursor : id ≤ s.cursor := hle
      omega
    sorted := hsorted
    ahead := hall
    complete := hcomplete
    cursor := nofun
    done := nofun
    teams := by
      intro p hp
      rcases mem_append.1 hp with hnew | hold
      · obtain ⟨q, _, rfl⟩ := mem_map.1 hnew
        refine ⟨hs.visible e hahead.1, ?_⟩
        intro x hx hid
        rw [inj_on_of_nodup_map hs.distinct hx hahead.1 hid]
        exact hs.matching e todo hw
      · exact hs.teams p (mem_filter.1 hold).1
    matching := nofun
    covered := by
      intro id hid r hr
      obtain ⟨hid, hne⟩ := mem_filter.1 hid
      rcases mem_append.1 hr with hnew | hold
      · obtain ⟨q, _, hq⟩ := mem_map.1 hnew
        cases hq
        exact absurd rfl (of_decide_eq_true hne)
      · exact hs.covered id hid r (mem_filter.1 hold).1
    current := by
      intro e' rules' hc r hr
      cases hc
      rcases mem_append.1 hr with hnew | hold
      · obtain ⟨q, hq, heq⟩ := mem_map.1 hnew
        obtain ⟨hq, hhears⟩ := mem_filter.1 hq
        cases heq
        exact .inr ⟨q, hq, hhears, rfl⟩
      · exact absurd rfl (of_decide_eq_true (mem_filter.1 hold).2) }

theorem Ordered.creates (hw : s.worker = .rules e (r :: rules) todo)
    (hw' : w = .lastSent ⟨r, e, rules, todo⟩ s.nextDelivery ∨
      w = .dueRules) : Ordered { s.create r e with worker := w } := by
  have hrows : Ordered (s.create r e) := by
    refine hs.rows ?_
    rintro p ⟨d, hd, hpair⟩
    refine ⟨d, ?_, hpair⟩
    rcases mem_append.1 hd with hd | hd
    · exact mem_append_left _ (mem_append_left _ hd)
    · exact mem_append_right _ hd
  have hworker : (s.create r e).worker = .rules e (r :: rules) todo := hw
  rcases hw' with rfl | rfl
  · refine hrows.goto_of_batch (.inl (by rw [hworker]; rfl)) nofun nofun nofun ?_
    intro e' rules' hc q hq
    cases hc
    rcases hrows.current e (r :: rules) (by rw [hworker]; rfl) q hq with hm |
      ⟨q', hq', hhears, hid⟩
    · exact .inl hm
    · rcases mem_cons.1 hq' with rfl | hq'
      · subst hid
        refine .inl ⟨⟨s.nextDelivery, q'.id, e.id, .pending, none, q'.defers e⟩, ?_, rfl⟩
        exact mem_append_left _ (mem_append_right _ (mem_singleton.2 rfl))
      · exact .inr ⟨q', hq', hhears, hid⟩
  · exact hrows.goto_of_batch (.inr rfl) nofun nofun nofun nofun

/-- The cursor moves to the event at the head of the batch. -/
theorem Ordered.advances (hw : s.worker = .setCursor e todo)
    (hw' : w = .events todo ∨ w = .dueRules) :
    Ordered { s with cursor := e.id, worker := w } := by
  have hbatch : s.worker.batch = e :: todo := by
    rw [hw]
    rfl
  have hahead := hs.ahead
  have hsorted := hs.sorted
  have hcomplete := hs.complete
  rw [hbatch] at hahead hsorted hcomplete
  obtain ⟨hfirst, hrest⟩ := pairwise_cons.1 hsorted
  have hcursor : s.cursor < e.id := (hahead e mem_cons_self).2
  have hbase : Ordered { s with cursor := e.id, worker := .events todo } :=
    { hs with
      kept := by
        intro id hid
        rcases hs.kept id hid with hle | h
        · exact .inl (by show id ≤ e.id; omega)
        · exact .inr h
      passed := by
        intro id hid hle
        have hle' : id ≤ e.id := hle
        by_cases hold : id ≤ s.cursor
        · exact hs.passed id hid hold
        · rcases hcomplete id hid (by omega) with ⟨x, hx, rfl⟩ | hall
          · rcases mem_cons.1 hx with rfl | hx
            · exact hs.done x todo hw
            · have hlt := hfirst x hx
              omega
          · have hlt := hall e mem_cons_self
            omega
      sorted := hrest
      ahead := fun x hx =>
        ⟨(hahead x (mem_cons_of_mem _ hx)).1, hfirst x hx⟩
      complete := by
        intro id hid hlt
        have hlt' : e.id < id := hlt
        rcases hcomplete id hid (by omega) with ⟨x, hx, rfl⟩ | hall
        · rcases mem_cons.1 hx with rfl | hx
          · omega
          · exact .inl ⟨x, hx, rfl⟩
        · exact .inr fun x hx => hall x (mem_cons_of_mem _ hx)
      cursor := nofun
      done := nofun
      matching := nofun
      current := nofun }
  rcases hw' with rfl | rfl
  · exact hbase
  · exact hbase.goto_of_batch (.inr rfl) nofun nofun nofun nofun

theorem Ordered.commit (he : e ∈ s.inserted)
    (hcursor : s.cursor < e.id) (hbatch : ∀ x ∈ s.worker.batch, x.id < e.id) :
    Ordered { s with
      inserted := s.inserted.filter fun x => x.id ≠ e.id
      events := e :: s.events
      committed := e.id :: s.committed } := by
  obtain ⟨hlt, hnot⟩ := hs.inserted e he
  exact { hs with
    inserted := by
      intro x hx
      obtain ⟨hx, hne⟩ := mem_filter.1 hx
      obtain ⟨hxlt, hxnot⟩ := hs.inserted x hx
      refine ⟨hxlt, ?_⟩
      rw [mem_cons, not_or]
      exact ⟨of_decide_eq_true hne, hxnot⟩
    ids := hs.ids.sublist (filter_sublist.map _)
    fresh := forall_mem_cons.2 ⟨hlt, hs.fresh⟩
    visible := forall_mem_cons.2
      ⟨mem_cons_self, fun x hx => mem_cons_of_mem _ (hs.visible x hx)⟩
    distinct := by
      refine nodup_cons.2 ⟨fun hmem => ?_, hs.distinct⟩
      obtain ⟨x, hx, hid⟩ := mem_map.1 hmem
      exact hnot (hid ▸ hs.visible x hx)
    kept := by
      refine forall_mem_cons.2 ⟨.inr ⟨e, mem_cons_self, rfl⟩, fun id hid => ?_⟩
      rcases hs.kept id hid with hle | ⟨x, hx, hxid⟩
      · exact .inl hle
      · exact .inr ⟨x, mem_cons_of_mem _ hx, hxid⟩
    passed := by
      refine forall_mem_cons.2 ⟨fun hle => ?_, hs.passed⟩
      have hle' : e.id ≤ s.cursor := hle
      omega
    ahead := fun x hx =>
      ⟨mem_cons_of_mem _ (hs.ahead x hx).1, (hs.ahead x hx).2⟩
    teams := by
      intro p hp
      obtain ⟨hcommitted, hteam⟩ := hs.teams p hp
      exact ⟨mem_cons_of_mem _ hcommitted,
        forall_mem_cons.2 ⟨fun hid => absurd (hid ▸ hcommitted) hnot, hteam⟩⟩
    complete := forall_mem_cons.2 ⟨fun _ => .inr hbatch, hs.complete⟩ }

theorem Ordered.insert (eventType : String) (team : Bool) :
    Ordered { s with
      inserted := ⟨s.nextEvent, eventType, team⟩ :: s.inserted
      nextEvent := s.nextEvent + 1 } :=
  { hs with
    inserted := by
      refine forall_mem_cons.2 ⟨⟨Nat.lt_succ_self _, fun h => ?_⟩, fun e he => ?_⟩
      · exact Nat.lt_irrefl _ (hs.fresh _ h)
      · obtain ⟨hlt, hnot⟩ := hs.inserted e he
        exact ⟨Nat.lt_succ_of_lt hlt, hnot⟩
    ids := by
      show (s.nextEvent :: s.inserted.map OutboxEvent.id).Nodup
      refine nodup_cons.2 ⟨fun hmem => ?_, hs.ids⟩
      obtain ⟨e, he, hid⟩ := mem_map.1 hmem
      have hlt := (hs.inserted e he).1
      omega
    fresh := fun id hid => Nat.lt_succ_of_lt (hs.fresh id hid) }

theorem Ordered.purge (ids : List Nat) :
    Ordered { s with
      events := s.events.filter fun e =>
        !(ids.contains e.id && e.id ≤ s.cursor)
      deliveries := s.deliveries.filter fun d =>
        !(ids.contains d.outboxEventId && d.outboxEventId ≤ s.cursor)
      purged := (s.deliveries.filter fun d =>
        ids.contains d.outboxEventId && d.outboxEventId ≤ s.cursor) ++ s.purged } := by
  have hkeep : ∀ e ∈ s.events, s.cursor < e.id → e ∈ s.events.filter fun e =>
      !(ids.contains e.id && e.id ≤ s.cursor) := by
    intro e he hlt
    refine mem_filter.2 ⟨he, ?_⟩
    rw [decide_eq_false (by omega)]
    simp
  have hevents : Ordered { s with
      events := s.events.filter fun e =>
        !(ids.contains e.id && e.id ≤ s.cursor) } :=
    { hs with
      visible := fun e he => hs.visible e (mem_filter.1 he).1
      distinct := hs.distinct.sublist (filter_sublist.map _)
      kept := by
        intro id hid
        by_cases hle : id ≤ s.cursor
        · exact .inl hle
        · rcases hs.kept id hid with h | ⟨e, he, rfl⟩
          · exact .inl h
          · exact .inr ⟨e, hkeep e he (by omega), rfl⟩
      ahead := fun e he =>
        ⟨hkeep e (hs.ahead e he).1 (hs.ahead e he).2, (hs.ahead e he).2⟩
      teams := fun p hp => ⟨(hs.teams p hp).1, fun e he hid =>
        (hs.teams p hp).2 e (mem_filter.1 he).1 hid⟩ }
  refine hevents.rows ?_
  rintro p ⟨d, hd, hpair⟩
  refine ⟨d, ?_, hpair⟩
  rcases mem_append.1 hd with hd | hd
  · by_cases hhit : (ids.contains d.outboxEventId && decide (d.outboxEventId ≤ s.cursor)) = true
    · exact mem_append_right _ (mem_append_left _ (mem_filter.2 ⟨hd, hhit⟩))
    · refine mem_append_left _ (mem_filter.2 ⟨hd, ?_⟩)
      rw [Bool.not_eq_true']
      exact Bool.eq_false_iff.2 hhit
  · exact mem_append_right _ (mem_append_right _ hd)

end

/-- An `UPDATE` that keeps what the deliveries are for. -/
theorem made_updateWhere (hf : ∀ d, (f d).pair = d.pair) (h : Made s p) :
    ∃ d ∈ updateWhere q f s.deliveries ++ s.purged, d.pair = p := by
  obtain ⟨d, hd, hpair⟩ := h
  rcases mem_append.1 hd with hd | hd
  · refine ⟨if q d = true then f d else d, mem_append_left _ (mem_updateWhere.2 ⟨d, hd, rfl⟩), ?_⟩
    split
    · rw [hf, hpair]
    · exact hpair
  · exact ⟨d, mem_append_right _ hd, hpair⟩

theorem Ordered.finishes (hs : Ordered s) (hw : s.worker = .finish p d status)
    (hmade : ∀ p, Made s p → ∃ d ∈ deliveries ++ s.purged, d.pair = p) :
    Ordered { s with deliveries := deliveries, worker := p.next } := by
  have hrows : Ordered { s with deliveries := deliveries } := hs.rows hmade
  refine hrows.goto_of_batch (.inl ?_) nofun nofun nofun ?_
  · rw [hw]
    rfl
  · intro e rules hc
    cases hc
    refine hrows.current _ _ ?_
    rw [hw]
    rfl

theorem Ordered.step (hs : Ordered s) (hmay : Steady a s) (h : Step s a s') : Ordered s' := by
  cases h with
  | insert eventType team => exact hs.insert eventType team
  | commit he => exact hs.commit he hmay.1 hmay.2
  | rollback id =>
    exact { hs with
      inserted := fun e he => hs.inserted e (mem_filter.1 he).1
      ids := hs.ids.sublist (filter_sublist.map _) }
  | goto h => exact hs.goto h
  | @considers e todo o h =>
    rcases h with ⟨hw, hteam⟩ | hw
    · refine hs.considers (by rw [hw]; rfl) ?_
      intro r hr
      -- No rule was ever matched with an event of the instance.
      have he := (hs.ahead e (by rw [hw]; exact mem_cons_self)).1
      rw [(hs.teams (r, e.id) hr).2 e he rfl] at hteam
      cases hteam
    · refine hs.considers (by rw [hw]; rfl) ?_
      intro r hr
      rcases hs.current e [] (by rw [hw]; rfl) r hr with hm | ⟨q, hq, _⟩
      · exact hm
      · cases hq
  | matching hw => exact hs.matchRules hw
  | @creates e r rules todo o w hw hnew hw' =>
    refine hs.creates hw ?_
    rcases hw' with ⟨_, rfl⟩ | ⟨_, rfl⟩
    · exact .inl rfl
    · exact .inr rfl
  | @sends p d status o hw _ =>
    have hrows : Ordered { s with
        sent := if o = .failed then s.sent
          else (p.rule.id, p.event.id) :: s.sent } := hs.rows fun _ h => h
    refine hrows.goto_of_batch (.inl ?_) nofun nofun nofun ?_
    · rw [hw]
      rfl
    · intro e rules hc
      cases hc
      refine hs.current _ _ ?_
      rw [hw]
      rfl
  | finishes hw =>
    refine hs.finishes hw ?_
    intro p hp
    split
    · exact hp
    · unfold finishNotificationDelivery
      refine made_updateWhere ?_ hp
      exact fun _ => rfl
  | @advances e todo o w hw hw' =>
    by_cases ho : o = .failed
    · subst ho
      rcases hw' with ⟨hne, _⟩ | rfl
      · exact absurd rfl hne
      · exact hs.goto_of_batch (.inr rfl) nofun nofun nofun nofun
    · simp only [if_neg ho]
      refine hs.advances hw ?_
      rcases hw' with ⟨_, rfl⟩ | rfl
      · exact .inl rfl
      · exact .inr rfl
  | @flushes ids rules status o hw _ =>
    have hrows : Ordered { s with
        sent := if o = .failed then s.sent else s.sentPairs ids ++ s.sent } :=
      hs.rows fun _ h => h
    exact hrows.goto_of_batch (.inr rfl) nofun nofun nofun nofun
  | @marks ids rules status o hw =>
    have hrows : Ordered { s with
        deliveries := if o = .failed then s.deliveries
          else markDigestDeliveries s.clock ids status s.deliveries } := by
      refine hs.rows ?_
      intro p hp
      split
      · exact hp
      · unfold markDigestDeliveries
        refine made_updateWhere ?_ hp
        exact fun _ => rfl
    exact hrows.goto_of_batch (.inr rfl) nofun nofun nofun nofun
  | purge ids => exact hs.purge ids
  | tick seconds => exact hs.rows fun _ h => h

end Akerdock.Notify
