import Akerdock.Events.Stream

/-!
# The order of what a client receives

Over all its connections a client receives events in strictly increasing order,
whatever the publishers do.  The replay is sorted and starts above the last
event that the client received, and the handler skips what is not above the
last event that it wrote.

* `Keyed` is about the ids of the outbox, and `Orderly` about one client.
* `forall_clients` is the rule for a property of all clients: it names what an
  action can do to one of them.
-/

namespace Akerdock.Events

open Table List

/-! ## The last event -/

theorem lastOf_append_singleton (l : List Nat) (x : Nat) : lastOf (l ++ [x]) = x := by
  simp [lastOf]

theorem lastOf_mem (h : l ≠ []) : lastOf l ∈ l := by
  rw [lastOf, getLast?_eq_some_getLast h]
  exact getLast_mem h

theorem le_lastOf (h : l.Pairwise (· < ·)) (hx : x ∈ l) : x ≤ lastOf l := by
  have hne : l ≠ [] := ne_nil_of_mem hx
  have hdrop := dropLast_append_getLast hne
  rw [← hdrop] at hx h
  have hlast : lastOf l = l.getLast hne := by
    rw [lastOf, getLast?_eq_some_getLast hne]
    rfl
  rw [hlast]
  rcases mem_append.1 hx with hx | hx
  · exact Nat.le_of_lt ((pairwise_append.1 h).2.2 x hx _ mem_cons_self)
  · rw [mem_singleton.1 hx]

/-! ## Order -/

/-- What is left of a replay. -/
def Stage.missed : Stage → List Nat
  | .replaying missed => missed
  | _ => []

def Client.written (c : Client) : List Nat :=
  c.received ++ (c.stream.map Stream.wire).getD []

/-- The rows of the outbox have ids of their own. -/
structure Keyed (s : State) : Prop where
  distinct : ((s.inserted ++ s.events).map OutboxRow.id).Nodup
  bounds : ∀ r ∈ s.inserted ++ s.events, 0 < r.id ∧ r.id < s.nextId
  raw : ∀ r ∈ s.inserted, r.published = false
  next : 0 < s.nextId

theorem Keyed.events {s : State} (h : Keyed s) : (s.events.map OutboxRow.id).Nodup := by
  have hall := h.distinct
  rw [map_append] at hall
  exact (nodup_append.1 hall).2.1

/-- What a client sees comes in increasing order. -/
structure Orderly (c : Client) : Prop where
  sorted : c.written.Pairwise (· < ·)
  last : ∀ k, c.stream = some k → k.last = lastOf c.written
  missed : ∀ k, c.stream = some k → k.stage.missed.Pairwise (· < ·) ∧
    ∀ x ∈ k.stage.missed, k.last < x

section Client

variable {s : State} {c c' : Client} {a : ClientAction}

theorem written_of_stream (h : c.stream = some k) : c.written = c.received ++ k.wire := by
  simp [Client.written, h]

theorem Orderly.received (h : Orderly c) : c.received.Pairwise (· < ·) :=
  (pairwise_append.1 h.sorted).1

theorem Orderly.disconnect (h : Orderly c) : Orderly { c with stream := none } where
  sorted := by
    show (c.received ++ []).Pairwise (· < ·)
    rw [append_nil]
    exact h.received
  last := nofun
  missed := nofun

theorem Orderly.append (h : Orderly c) (hk : c.stream = some k) (hx : k.last < x) :
    (c.received ++ (k.wire ++ [x])).Pairwise (· < ·) ∧
      x = lastOf (c.received ++ (k.wire ++ [x])) := by
  rw [← append_assoc, ← written_of_stream hk]
  refine ⟨?_, (lastOf_append_singleton _ _).symm⟩
  refine pairwise_append.2 ⟨h.sorted, pairwise_singleton _ _, ?_⟩
  intro y hy z hz
  rw [mem_singleton.1 hz]
  have hle := le_lastOf h.sorted hy
  rw [← h.last k hk] at hle
  omega

/-- The stream goes on with the same events written. -/
theorem Orderly.stream (h : Orderly c) (hk : c.stream = some k)
    (hwire : k'.wire = k.wire) (hlast : k'.last = k.last)
    (hmissed : k'.stage.missed.Pairwise (· < ·) ∧ ∀ x ∈ k'.stage.missed, k.last < x) :
    Orderly { c with stream := some k' } := by
  have hwritten : ({ c with stream := some k' } : Client).written = c.written := by
    rw [written_of_stream hk]
    show c.received ++ k'.wire = c.received ++ k.wire
    rw [hwire]
  refine ⟨?_, ?_, ?_⟩
  · rw [hwritten]
    exact h.sorted
  · intro q hq
    cases hq
    rw [hwritten, hlast]
    exact h.last k hk
  · intro q hq
    cases hq
    rw [hlast]
    exact hmissed

theorem Orderly.clientStep (h : Orderly c) (hkeyed : Keyed s)
    (hstep : ClientStep s c a c') : Orderly c' := by
  cases hstep with
  | connect i =>
    refine ⟨?_, ?_, ?_⟩
    · exact h.disconnect.sorted
    · intro k hk
      cases hk
      show lastOf c.received = lastOf (c.received ++ [])
      rw [append_nil]
    · intro k hk
      cases hk
      exact ⟨.nil, nofun⟩
  | @asks k hk hstage hlast =>
    refine h.stream hk rfl rfl ⟨?_, ?_⟩
    · exact pairwise_map.2 (pairwise_selectFirst hkeyed.events)
    · intro x hx
      obtain ⟨r, hr, rfl⟩ := mem_map.1 hx
      have hmissed := (mem_selectFirst hr).2
      simp only [missedBy, Bool.and_eq_true, decide_eq_true_eq] at hmissed
      exact hmissed.1.2
  | follows hk | replayed hk =>
    exact h.stream hk rfl rfl ⟨.nil, nofun⟩
  | @replays k x missed hk hstage =>
    obtain ⟨hsorted, habove⟩ := h.missed k hk
    rw [hstage] at hsorted habove
    obtain ⟨hpair, hlast⟩ := h.append hk (habove x mem_cons_self)
    refine ⟨hpair, ?_, ?_⟩
    · intro q hq
      cases hq
      exact hlast
    · intro q hq
      cases hq
      exact ⟨(pairwise_cons.1 hsorted).2, (pairwise_cons.1 hsorted).1⟩
  | @skips k x buffer hk hstage hbuffer hx =>
    exact h.stream hk rfl rfl (h.missed k hk)
  | @writes k x buffer hk hstage hbuffer hx =>
    obtain ⟨hpair, hlast⟩ := h.append hk hx
    refine ⟨hpair, ?_, ?_⟩
    · intro q hq
      cases hq
      exact hlast
    · intro q hq
      cases hq
      rw [hstage]
      exact ⟨.nil, nofun⟩
  | @receives k x wire hk hwire =>
    have hwritten : (c.received ++ [x]) ++ wire = c.written := by
      rw [written_of_stream hk, hwire, append_assoc]
      rfl
    refine ⟨?_, ?_, ?_⟩
    · show ((c.received ++ [x]) ++ wire).Pairwise (· < ·)
      rw [hwritten]
      exact h.sorted
    · intro q hq
      cases hq
      show k.last = lastOf ((c.received ++ [x]) ++ wire)
      rw [hwritten]
      exact h.last k hk
    · intro q hq
      cases hq
      exact h.missed k hk
  | disconnect => exact h.disconnect

end Client

/-! ## The rows -/

section Rows

variable {s s' : State} {a : Action}

theorem map_id_markPublished (rows : List OutboxRow) :
    (s.markPublished rows).map OutboxRow.id = s.events.map OutboxRow.id := by
  rw [State.markPublished, map_updateWhere]
  exact fun _ => rfl

theorem Keyed.id_lt (h : Keyed s) {id : Nat}
    (hid : id ∈ (s.inserted ++ s.events).map OutboxRow.id) :
    0 < id ∧ id < s.nextId := by
  obtain ⟨r, hr, rfl⟩ := mem_map.1 hid
  exact h.bounds r hr

theorem Keyed.insert (h : Keyed s) (team : Option Nat) :
    Keyed { s with
      inserted := ⟨s.nextId, team, false⟩ :: s.inserted
      nextId := s.nextId + 1 } where
  distinct := by
    refine nodup_cons.2 ⟨fun hid => ?_, h.distinct⟩
    exact absurd rfl (Nat.ne_of_lt (h.id_lt hid).2)
  bounds := by
    have hfirst : ∀ q ∈ s.inserted ++ s.events, 0 < q.id ∧ q.id < s.nextId + 1 := by
      intro q hq
      have hq' := h.bounds q hq
      omega
    exact forall_mem_cons.2 ⟨⟨h.next, Nat.lt_succ_self _⟩, hfirst⟩
  raw := forall_mem_cons.2 ⟨rfl, h.raw⟩
  next := Nat.succ_pos _

theorem Keyed.commit (h : Keyed s) {r : OutboxRow} (hr : r ∈ s.inserted) :
    Keyed { s with
      inserted := s.inserted.filter fun q => q.id ≠ r.id
      events := r :: s.events } where
  distinct := by
    have hall := h.distinct
    rw [map_append] at hall
    obtain ⟨hinserted, hevents, hapart⟩ := nodup_append.1 hall
    rw [map_append]
    refine nodup_append.2 ⟨hinserted.sublist (filter_sublist.map _), ?_, ?_⟩
    · refine nodup_cons.2 ⟨fun hid => ?_, hevents⟩
      exact hapart r.id (mem_map_of_mem hr) r.id hid rfl
    · intro id hid id' hid' heq
      subst heq
      obtain ⟨q, hq, rfl⟩ := mem_map.1 hid
      obtain ⟨hq, hne⟩ := mem_filter.1 hq
      rcases mem_cons.1 hid' with hsame | hid'
      · simp [hsame] at hne
      · exact hapart q.id (mem_map_of_mem hq) q.id hid' rfl
  bounds := by
    intro q hq
    rcases mem_append.1 hq with hq | hq
    · exact h.bounds q (mem_append_left _ (mem_filter.1 hq).1)
    · rcases mem_cons.1 hq with rfl | hq
      · exact h.bounds q (mem_append_left _ hr)
      · exact h.bounds q (mem_append_right _ hq)
  raw := fun q hq => h.raw q (mem_filter.1 hq).1
  next := h.next

theorem Keyed.step (h : Keyed s) (hstep : Step s a s') : Keyed s' := by
  cases hstep with
  | insert team => exact h.insert team
  | commit hr => exact h.commit hr
  | rollback id =>
    refine ⟨?_, ?_, ?_, h.next⟩
    · refine h.distinct.sublist (List.Sublist.map _ ?_)
      exact filter_sublist.append (List.Sublist.refl _)
    · intro q hq
      rcases mem_append.1 hq with hq | hq
      · exact h.bounds q (mem_append_left _ (mem_filter.1 hq).1)
      · exact h.bounds q (mem_append_right _ hq)
    · exact fun q hq => h.raw q (mem_filter.1 hq).1
  | @claim i rows locked lost hi hqueue hrows =>
    have hids : (s.inserted ++ s.markPublished rows).map OutboxRow.id =
        (s.inserted ++ s.events).map OutboxRow.id := by
      rw [map_append, map_id_markPublished, map_append]
    refine ⟨?_, ?_, h.raw, h.next⟩
    · rw [hids]
      exact h.distinct
    · intro q hq
      refine h.id_lt ?_
      rw [← hids]
      exact mem_map_of_mem hq
  | launch | publish hqueue | dies i | join team | client hc hstep =>
    exact { h with }

end Rows

/-! ## Every run -/

theorem written_offer (i : Nat) (e : OutboxRow) (c : Client) :
    (c.offer i e).written = c.written := by
  unfold Client.offer
  split
  · rename_i k hk
    split
    · rw [written_of_stream hk]
      rfl
    · rfl
  · rfl

/-- An offer leaves everything but the buffer as it is. -/
theorem stream_offer {c : Client} {k' : Stream} (h : (c.offer i e).stream = some k') :
    ∃ k, c.stream = some k ∧ k'.inst = k.inst ∧ k'.stage = k.stage ∧
      k'.last = k.last ∧
      k'.buffer = if k.inst = i ∧ e.team = some c.team ∧
        k.buffer.length < bufferSize then k.buffer ++ [e.id] else k.buffer := by
  unfold Client.offer at h
  split at h
  · rename_i k hk
    refine ⟨k, hk, ?_⟩
    split at h
    · rename_i hfits
      cases h
      rw [if_pos hfits]
      exact ⟨rfl, rfl, rfl, rfl⟩
    · rename_i hfits
      cases hk.symm.trans h
      rw [if_neg hfits]
      exact ⟨rfl, rfl, rfl, rfl⟩
  · rename_i hk
    cases hk.symm.trans h

theorem Orderly.offer {c : Client} (h : Orderly c) (i : Nat) (e : OutboxRow) :
    Orderly (c.offer i e) := by
  refine ⟨?_, ?_, ?_⟩
  · rw [written_offer]
    exact h.sorted
  · intro k' hk'
    obtain ⟨k, hk, _, _, hlast, _⟩ := stream_offer hk'
    rw [written_offer, hlast]
    exact h.last k hk
  · intro k' hk'
    obtain ⟨k, hk, _, hstage, hlast, _⟩ := stream_offer hk'
    rw [hstage, hlast]
    exact h.missed k hk

theorem Orderly.cut (h : Orderly c) (i : Nat) : Orderly (c.cut i) := by
  unfold Client.cut
  split
  · exact h.disconnect
  · exact h

/-- What holds of every client after an action, if it holds of the clients
before and survives what the action does to one. -/
theorem forall_clients {P : Client → Prop} (hstep : Step s a s')
    (h : ∀ c ∈ s.clients, P c) (hoffer : ∀ c i e, P c → P (c.offer i e))
    (hcut : ∀ c i, P c → P (c.cut i)) (hjoin : ∀ team, P ⟨team, [], none⟩)
    (hclient : ∀ c c' a, ClientStep s c a c' → P c → P c') :
    ∀ c ∈ s'.clients, P c := by
  cases hstep with
  | publish hqueue =>
    intro c hc
    obtain ⟨c₀, hc₀, rfl⟩ := mem_map.1 hc
    exact hoffer c₀ _ _ (h c₀ hc₀)
  | dies i =>
    intro c hc
    obtain ⟨c₀, hc₀, rfl⟩ := mem_map.1 hc
    exact hcut c₀ i (h c₀ hc₀)
  | join team =>
    exact Table.forall_concat h (hjoin team)
  | @client k c₀ a c' hc₀ hc' =>
    intro c hc
    rcases mem_or_eq_of_mem_set hc with hc | rfl
    · exact h c hc
    · exact hclient c₀ c a hc' (h c₀ (mem_of_getElem? hc₀))
  | _ => exact h

theorem orderly_step (hkeyed : Keyed s) (h : ∀ c ∈ s.clients, Orderly c)
    (hstep : Step s a s') : ∀ c ∈ s'.clients, Orderly c := by
  refine forall_clients hstep h (fun c i e hc => hc.offer i e)
    (fun c i hc => hc.cut i) (fun team => ⟨.nil, nofun, nofun⟩) ?_
  intro c c' a hc' hc
  exact hc.clientStep hkeyed hc'

end Akerdock.Events
