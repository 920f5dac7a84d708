import Akerdock.Events.Order
import Akerdock.Lib.Stretch

/-!
# Gaps in what a client receives

Nothing keeps the events of a client complete.  An event that another instance
claims never comes to a stream that is open, a full channel drops it, an event
that commits late has an id that the stream has passed, and the replay is cut
off at its limit.

* `Gapless` is the condition under which nothing is missing.
* `Covered` is the invariant of a client under this condition.  What it has
  received and what is on the wire is a stretch of the published events of its
  team, and the buffer together with what the instance has still to hand out
  is the end of them.
* `stream_has_no_gaps` is the result.  The runs after it leave the condition.
-/

namespace Akerdock.Events

open Table Stretch List
open Machine (run)

/-! ## The condition -/

/-- Nothing passes by an open stream.

* A claim takes events above everything that was published, returns them in
  order, and is made while no other instance has events to hand out.  The open
  streams of the teams of these events are at the instance that claims.
* A broker finds room in the channels of the team of an event.
* The replay does not fail, and fits into its limit. -/
def Gapless (a : Action) (s : State) : Prop :=
  match a with
  | .claim i _ rows lost =>
    lost = false ∧ (rows.map OutboxRow.id).Pairwise (· < ·) ∧
      (∀ r ∈ s.events, r.published = true → ∀ q ∈ rows, r.id < q.id) ∧
      (∀ q ∈ s.queues, q = []) ∧
      ∀ c ∈ s.clients, ∀ k ∈ c.stream, k.inst ≠ i → ∀ r ∈ rows, r.team ≠ some c.team
  | .publish i =>
    ∀ e ∈ (s.queue i).head?, ∀ c ∈ s.clients, ∀ k ∈ c.stream,
      k.inst = i → e.team = some c.team → k.buffer.length < bufferSize
  | .client n (.replay ok) =>
    ∀ c ∈ s.clients[n]?, ∀ k ∈ c.stream, 0 < k.last →
      ok = true ∧ (s.events.filter (missedBy c.team k.last)).length ≤ replayLimit
  | _ => True

instance (a : Action) (s : State) : Decidable (Gapless a s) := by
  unfold Gapless
  split <;> infer_instance

/-! ## The invariant -/

def Published (s : State) (team y : Nat) : Prop :=
  ∃ r ∈ s.events, r.id = y ∧ r.team = some team ∧ r.published = true

/-- What the instance has still to hand out to the team. -/
def State.queued (s : State) (i team : Nat) : List Nat :=
  ((s.queue i).filter fun r => r.team = some team).map OutboxRow.id

def State.coming (s : State) (c : Client) (k : Stream) : List Nat :=
  k.buffer ++ s.queued k.inst c.team

/-- A client misses nothing between two events that it has seen, and everything
after the last one is still to come. -/
structure Covered (s : State) (c : Client) : Prop where
  between : Between (Published s c.team) c.written
  pending : ∀ k, c.stream = some k → From (Published s c.team) (s.coming c k)
  sound : ∀ k, c.stream = some k →
    ∀ x ∈ k.stage.missed, Published s c.team x ∧ c.written ≠ []
  caught : ∀ k, c.stream = some k → k.stage ≠ .subscribed → c.written ≠ [] →
    ∀ y, Published s c.team y → k.last < y → y ∈ k.stage.missed ∨
      (∀ z ∈ k.stage.missed, z < y) ∧ y ∈ s.coming c k

/-- What holds in every run without gaps. -/
structure Complete (s : State) : Prop where
  keyed : Keyed s
  orderly : ∀ c ∈ s.clients, Orderly c
  queues : ∀ i team, From (Published s team) (s.queued i team)
  covered : ∀ c ∈ s.clients, Covered s c

section Streams

variable {s : State} {c : Client} {a : ClientAction}

section

variable (h : Covered s c)

include h

theorem Covered.disconnect : Covered s { c with stream := none } where
  between := by
    show Between (Published s c.team) (c.received ++ [])
    rw [append_nil]
    exact h.between.left
  pending := nofun
  sound := nofun
  caught := nofun

/-- The same events are published, and the same come to each stream. -/
theorem Covered.transfer (hpub : ∀ team y, Published s' team y ↔ Published s team y)
    (hteam : c'.team = c.team) (hwritten : c'.written = c.written)
    (hstream : ∀ k', c'.stream = some k' → ∃ k, c.stream = some k ∧
      k'.stage = k.stage ∧ k'.last = k.last ∧
        s'.coming c' k' = s.coming c k) : Covered s' c' := by
  have hsame : Published s' c'.team = Published s c.team := by
    funext y
    rw [hteam]
    exact propext (hpub c.team y)
  refine ⟨?_, ?_, ?_, ?_⟩
  · rw [hsame, hwritten]
    exact h.between
  · intro k' hk'
    obtain ⟨k, hk, _, _, hcoming⟩ := hstream k' hk'
    rw [hsame, hcoming]
    exact h.pending k hk
  · intro k' hk'
    obtain ⟨k, hk, hstage, _⟩ := hstream k' hk'
    rw [hsame, hwritten, hstage]
    exact h.sound k hk
  · intro k' hk'
    obtain ⟨k, hk, hstage, hlast, hcoming⟩ := hstream k' hk'
    rw [hsame, hwritten, hstage, hlast, hcoming]
    exact h.caught k hk

/-- Something was written, and it is published, so it has a positive id. -/
theorem Covered.last_pos (hkeyed : Keyed s) (ho : Orderly c)
    (hk : c.stream = some k) : c.written ≠ [] ↔ 0 < k.last := by
  rw [ho.last k hk]
  constructor
  · intro hne
    obtain ⟨r, hr, hid, _⟩ := h.between.sound _ (lastOf_mem hne)
    have hpos := (hkeyed.bounds r (mem_append_right _ hr)).1
    omega
  · intro hpos hnil
    rw [hnil] at hpos
    exact absurd hpos (Nat.lt_irrefl 0)

/-- The stream moves on to another stage, with the same events written. -/
theorem Covered.stage {k : Stream} (hk : c.stream = some k)
    {stage : Stage}
    (hsound : ∀ x ∈ stage.missed, Published s c.team x ∧ c.written ≠ [])
    (hcaught : c.written ≠ [] → ∀ y, Published s c.team y → k.last < y →
      y ∈ stage.missed ∨ (∀ z ∈ stage.missed, z < y) ∧ y ∈ s.coming c k) :
    Covered s { c with stream := some { k with stage := stage } } := by
  have hwritten : ({ c with stream := some { k with stage := stage } } :
      Client).written = c.written := by
    rw [written_of_stream hk]
    rfl
  refine ⟨?_, ?_, ?_, ?_⟩
  · rw [hwritten]
    exact h.between
  · intro q hq
    cases hq
    exact h.pending k hk
  · intro q hq x hx
    cases hq
    rw [hwritten]
    exact hsound x hx
  · intro q hq _ hne
    cases hq
    rw [hwritten] at hne
    exact hcaught hne

/-- The next event that the handler writes is the next one of the team. -/
theorem Covered.append (ho : Orderly c)
    (hk : c.stream = some k) (hx : Published s c.team x) (hlast : k.last < x)
    (hnext : c.written ≠ [] → ∀ y, Published s c.team y → k.last < y → y ≤ x → y = x) :
    Between (Published s c.team) (c.received ++ (k.wire ++ [x])) := by
  rw [← append_assoc, ← written_of_stream hk]
  refine h.between.snoc hx ?_ ?_
  · intro y hy
    have hle := le_lastOf ho.sorted hy
    rw [← ho.last k hk] at hle
    omega
  · intro hne y hy habove hle
    refine hnext hne y hy ?_ hle
    rw [ho.last k hk]
    exact habove _ (lastOf_mem hne)

theorem Covered.asks (hkeyed : Keyed s) (ho : Orderly c)
    {k : Stream} (hk : c.stream = some k) (hlast : 0 < k.last)
    (hfits : (s.events.filter (missedBy c.team k.last)).length ≤ replayLimit) :
    Covered s { c with
      stream := some { k with
        stage := .replaying ((listOutboxEventsForTeamAfter c.team k.last
          replayLimit s.events).map OutboxRow.id) } } := by
  have hwritten := (h.last_pos hkeyed ho hk).2 hlast
  refine h.stage hk ?_ ?_
  · intro x hx
    obtain ⟨r, hr, rfl⟩ := mem_map.1 hx
    obtain ⟨hmem, hmissed⟩ := mem_selectFirst hr
    simp only [missedBy, Bool.and_eq_true, decide_eq_true_eq] at hmissed
    exact ⟨⟨r, hmem, rfl, hmissed.1.1, hmissed.2⟩, hwritten⟩
  · intro _ y hy hlt
    obtain ⟨r, hr, rfl, hteam, hpublished⟩ := hy
    refine .inl (mem_map_of_mem ?_)
    refine mem_selectFirst_of_length hfits hr ?_
    simp only [missedBy, hteam, hlt, hpublished, decide_true, Bool.and_self]

theorem Covered.replays (ho : Orderly c)
    (hk : c.stream = some k) (hstage : k.stage = .replaying (x :: missed)) :
    Covered s { c with
      stream := some { k with
        stage := .replaying missed, last := x, wire := k.wire ++ [x] } } := by
  obtain ⟨hsorted, habove⟩ := ho.missed k hk
  have hsound := h.sound k hk
  have hcaught := h.caught k hk (by rw [hstage]; nofun)
  rw [hstage] at hsorted habove hsound hcaught
  have hlast : k.last < x := habove x mem_cons_self
  have hrest := (pairwise_cons.1 hsorted).1
  refine ⟨?_, ?_, ?_, ?_⟩
  · refine h.append ho hk (hsound x mem_cons_self).1 hlast ?_
    intro hne y hy hlt hle
    rcases hcaught hne y hy hlt with hmem | ⟨hafter, _⟩
    · rcases mem_cons.1 hmem with rfl | hmem
      · rfl
      · have hxy := hrest y hmem
        omega
    · have hxy := hafter x mem_cons_self
      omega
  · intro q hq
    cases hq
    exact h.pending k hk
  · intro q hq y hy
    cases hq
    refine ⟨(hsound y (mem_cons_of_mem _ hy)).1, ?_⟩
    simp [Client.written]
  · intro q hq _ _ y hy hlt
    cases hq
    have hlt' : x < y := hlt
    have hne := (hsound x mem_cons_self).2
    rcases hcaught hne y hy (by omega) with hmem | ⟨hafter, hcoming⟩
    · rcases mem_cons.1 hmem with rfl | hmem
      · omega
      · exact .inl hmem
    · exact .inr ⟨fun z hz => hafter z (mem_cons_of_mem _ hz), hcoming⟩

/-- The head of the buffer is behind what was written. -/
theorem Covered.skips (hk : c.stream = some k)
    (hstage : k.stage = .live) (hbuffer : k.buffer = x :: buffer)
    (hx : x ≤ k.last) :
    Covered s { c with stream := some { k with buffer := buffer } } := by
  have hcoming : s.coming c k = x :: s.coming c { k with buffer := buffer } := by
    simp only [State.coming, hbuffer, cons_append]
  have hcaught := h.caught k hk (by rw [hstage]; nofun)
  have hpending := h.pending k hk
  rw [hstage, hcoming] at hcaught
  rw [hcoming] at hpending
  have hwritten : ({ c with stream := some { k with buffer := buffer } } :
      Client).written = c.written := by
    rw [written_of_stream hk]
    rfl
  refine ⟨?_, ?_, ?_, ?_⟩
  · rw [hwritten]
    exact h.between
  · intro q hq
    cases hq
    exact hpending.tail
  · intro q hq y hy
    cases hq
    rw [hwritten]
    exact h.sound k hk y hy
  · intro q hq _ hne y hy hlt
    cases hq
    rw [hwritten] at hne
    have hlt' : k.last < y := hlt
    rcases hcaught hne y hy hlt with hmem | ⟨_, hmem⟩
    · cases hmem
    · rcases mem_cons.1 hmem with rfl | hmem
      · omega
      · rw [hstage]
        exact .inr ⟨nofun, hmem⟩

theorem Covered.writes (ho : Orderly c)
    (hk : c.stream = some k) (hstage : k.stage = .live)
    (hbuffer : k.buffer = x :: buffer) (hx : k.last < x) :
    Covered s { c with
      stream := some { k with
        buffer := buffer, last := x, wire := k.wire ++ [x] } } := by
  have hcoming : s.coming c k = x :: s.coming c { k with
      buffer := buffer, last := x, wire := k.wire ++ [x] } := by
    simp only [State.coming, hbuffer, cons_append]
  have hcaught := h.caught k hk (by rw [hstage]; nofun)
  have hpending := h.pending k hk
  rw [hstage, hcoming] at hcaught
  rw [hcoming] at hpending
  have hpublished := hpending.sound x mem_cons_self
  refine ⟨?_, ?_, ?_, ?_⟩
  · refine h.append ho hk hpublished hx ?_
    intro hne y hy hlt hle
    rcases hcaught hne y hy hlt with hmem | ⟨_, hmem⟩
    · cases hmem
    · have hxy := hpending.head_le hmem
      omega
  · intro q hq
    cases hq
    exact hpending.tail
  · intro q hq y hy
    cases hq
    have hy' : y ∈ k.stage.missed := hy
    rw [hstage] at hy'
    cases hy'
  · intro q hq _ _ y hy hlt
    cases hq
    have hlt' : x < y := hlt
    have hmem := hpending.complete x mem_cons_self y hy (Nat.le_of_lt hlt)
    rcases mem_cons.1 hmem with rfl | hmem
    · omega
    · rw [hstage]
      exact .inr ⟨nofun, hmem⟩

theorem Covered.receives (hk : c.stream = some k)
    (hwire : k.wire = x :: wire) :
    Covered s { c with
      received := c.received ++ [x], stream := some { k with wire := wire } } := by
  have hwritten : ({ c with received := c.received ++ [x], stream := some { k with wire } } :
      Client).written = c.written := by
    rw [written_of_stream hk, hwire]
    show (c.received ++ [x]) ++ wire = c.received ++ x :: wire
    rw [append_assoc]
    rfl
  refine h.transfer (fun _ _ => Iff.rfl) rfl hwritten ?_
  rintro _ ⟨⟩
  exact ⟨k, hk, rfl, rfl, rfl⟩

end

theorem Complete.clientStep (hs : Complete s) {n : Nat}
    (hc : s.clients[n]? = some c) (hmay : Gapless (.client n a) s)
    (hstep : ClientStep s c a c') : Covered s c' := by
  have hmem := mem_of_getElem? hc
  have h := hs.covered c hmem
  have ho := hs.orderly c hmem
  cases hstep with
  | connect i =>
    have hnone := h.disconnect
    refine ⟨hnone.between, ?_, ?_, ?_⟩
    · intro k hk
      cases hk
      exact hs.queues i c.team
    · intro k hk x hx
      cases hk
      cases hx
    · intro k hk hstage
      cases hk
      exact absurd rfl hstage
  | @asks k hk hstage hlast =>
    have hfits := hmay c hc k hk hlast
    exact h.asks hs.keyed ho hk hlast hfits.2
  | @follows k ok hk hstage hwhy =>
    refine h.stage hk nofun ?_
    intro hne
    have hlast := (h.last_pos hs.keyed ho hk).1 hne
    have hok := (hmay c hc k hk hlast).1
    rcases hwhy with hzero | hfalse
    · omega
    · cases hok.symm.trans hfalse
  | @replayed k hk hstage =>
    refine h.stage hk nofun ?_
    intro hne y hy hlt
    have hcaught := h.caught k hk (by rw [hstage]; nofun) hne y hy hlt
    rw [hstage] at hcaught
    exact hcaught
  | replays hk hstage => exact h.replays ho hk hstage
  | skips hk hstage hbuffer hx => exact h.skips hk hstage hbuffer hx
  | writes hk hstage hbuffer hx => exact h.writes ho hk hstage hbuffer hx
  | receives hk hwire => exact h.receives hk hwire
  | disconnect => exact h.disconnect

end Streams

/-! ## Steps of the system -/

section System

variable {s : State} {a : Action}

theorem queue_set (i j : Nat) (l : List OutboxRow) :
    ({ s with queues := s.queues.set i l } : State).queue j =
      if i = j ∧ i < s.queues.length then l else s.queue j := by
  unfold State.queue
  by_cases hij : i = j
  · subst hij
    by_cases hi : i < s.queues.length
    · simp [hi]
    · simp [hi]
  · simp [hij]

/-- The rows `rows` are published, and the instance `i` is to hand them out. -/
def State.claimed (s : State) (i : Nat) (rows : List OutboxRow) : State :=
  { s with events := s.markPublished rows, queues := s.queues.set i rows }

def ofTeam (team : Nat) (rows : List OutboxRow) : List Nat :=
  (rows.filter fun r => r.team = some team).map OutboxRow.id

theorem published_claim (hkeyed : Keyed s) {rows : List OutboxRow}
    (hrows : ∀ r ∈ rows, r ∈ s.events) (i team y : Nat) :
    Published (s.claimed i rows) team y ↔ Published s team y ∨ y ∈ ofTeam team rows := by
  constructor
  · intro ⟨r', hr', hid, hteam, hpublished⟩
    rcases of_mem_updateWhere hr' with ⟨r, hr, hhit, rfl⟩ | ⟨hr, -⟩
    · obtain ⟨q, hq, hqid⟩ := any_eq_true.1 hhit
      obtain rfl := inj_on_of_nodup_map hkeyed.events (hrows q hq) hr (of_decide_eq_true hqid)
      refine .inr (mem_map.2 ⟨q, mem_filter.2 ⟨hq, ?_⟩, hid⟩)
      exact decide_eq_true hteam
    · exact .inl ⟨_, hr, hid, hteam, hpublished⟩
  · intro h
    rcases h with ⟨r, hr, hid, hteam, hpublished⟩ | h
    · refine ⟨_, mem_updateWhere.2 ⟨r, hr, rfl⟩, ?_⟩
      split
      · exact ⟨hid, hteam, rfl⟩
      · exact ⟨hid, hteam, hpublished⟩
    · obtain ⟨q, hq, hid⟩ := mem_map.1 h
      obtain ⟨hq, hteam⟩ := mem_filter.1 hq
      have hhit : (rows.any fun r => r.id = q.id) = true :=
        any_eq_true.2 ⟨q, hq, decide_eq_true rfl⟩
      refine ⟨_, mem_updateWhere.2 ⟨q, hrows q hq, (if_pos hhit).symm⟩, ?_⟩
      exact ⟨hid, of_decide_eq_true hteam, rfl⟩

/-- A claim that meets the condition puts new events at the end of what comes
to every stream of their team. -/
theorem Complete.claim (hs : Complete s) {i : Nat} {locked : List Nat}
    {lost : Bool} (hi : i < s.queues.length)
    (hrows : ∀ r ∈ rows, r ∈ s.events ∧ r.published = false)
    (hmay : Gapless (.claim i locked rows lost) s) :
    (∀ j team, From (Published (s.claimed i rows) team) ((s.claimed i rows).queued j team)) ∧
    ∀ c ∈ s.clients, Covered (s.claimed i rows) c := by
  obtain ⟨_, hsorted, habove, hempty, hstreams⟩ := hmay
  have hpub := published_claim hs.keyed (fun r hr => (hrows r hr).1) i
  have hold : ∀ j, s.queue j = [] := by
    intro j
    unfold State.queue
    cases hj : s.queues[j]? with
    | none => rfl
    | some q => exact hempty q (mem_of_getElem? hj)
  have hqueue : ∀ j, (s.claimed i rows).queue j = if i = j then rows else [] := by
    intro j
    refine (queue_set i j rows).trans ?_
    simp [hi, hold]
  have hnew : ∀ team, ∀ y ∈ ofTeam team rows, ∀ x, Published s team x → x < y := by
    intro team y hy x hx
    obtain ⟨q, hq, rfl⟩ := mem_map.1 hy
    obtain ⟨r, hr, rfl, _, hpublished⟩ := hx
    exact habove r hr hpublished q (mem_filter.1 hq).1
  have hpairs : ∀ team, (ofTeam team rows).Pairwise (· < ·) := by
    intro team
    exact hsorted.sublist (filter_sublist.map _)
  refine ⟨?_, ?_⟩
  · intro j team
    rw [State.queued, hqueue]
    split
    · exact from_nil.grow (hpairs team) (hnew team) (hpub team)
    · exact from_nil
  · intro c hc
    have h := hs.covered c hc
    -- What comes to a stream grows by the new events of its team.
    have hcoming : ∀ k, c.stream = some k →
        (s.claimed i rows).coming c k = s.coming c k ++ ofTeam c.team rows := by
      intro k hk
      rw [State.coming, State.coming, State.queued, State.queued, hqueue, hold]
      split
      · simp [ofTeam]
      · next hinst =>
        have hnone : ofTeam c.team rows = [] := by
          rw [ofTeam, filter_eq_nil_iff.2, map_nil]
          intro r hr hteam
          exact hstreams c hc k hk (Ne.symm hinst) r hr (of_decide_eq_true hteam)
        simp [hnone]
    refine ⟨?_, ?_, ?_, ?_⟩
    · refine h.between.grow (fun y hy => (hpub c.team y).2 (.inl hy)) ?_
      intro y hy
      rcases (hpub c.team y).1 hy with hP | hmem
      · exact .inl hP
      · exact .inr (hnew c.team y hmem)
    · intro k hk
      rw [hcoming k hk]
      exact (h.pending k hk).grow (hpairs c.team) (hnew c.team) (hpub c.team)
    · intro k hk x hx
      obtain ⟨hP, hne⟩ := h.sound k hk x hx
      exact ⟨(hpub c.team x).2 (.inl hP), hne⟩
    · intro k hk hstage hne y hy hlt
      rw [hcoming k hk]
      rcases (hpub c.team y).1 hy with hP | hmem
      · rcases h.caught k hk hstage hne y hP hlt with hm | ⟨hafter, hc'⟩
        · exact .inl hm
        · exact .inr ⟨hafter, mem_append_left _ hc'⟩
      · refine .inr ⟨?_, mem_append_right _ hmem⟩
        intro z hz
        exact hnew c.team y hmem z (h.sound k hk z hz).1

theorem queued_publish (hqueue : s.queue i = e :: rest) (j team : Nat) :
    s.queued j team =
      (if j = i ∧ e.team = some team then [e.id] else []) ++
        ({ s with queues := s.queues.set i rest } : State).queued j team := by
  have hi : i < s.queues.length := by
    by_contra hout
    rw [State.queue, getElem?_eq_none (by omega)] at hqueue
    cases hqueue
  unfold State.queued
  rw [queue_set]
  by_cases hj : j = i
  · subst hj
    simp only [hi, and_self, if_true, true_and, hqueue]
    by_cases hteam : e.team = some team
    · simp [hteam]
    · simp [hteam]
  · rw [if_neg (fun h => hj h.1), if_neg (fun h => hj h.1.symm)]
    rfl

theorem Complete.publish (hs : Complete s) (hqueue : s.queue i = e :: rest)
    (hmay : Gapless (.publish i) s) :
    (∀ j team, From (Published s team)
      (({ s with queues := s.queues.set i rest } : State).queued j team)) ∧
    ∀ c ∈ s.clients, Covered { s with
      queues := s.queues.set i rest, clients := s.clients.map (.offer i e) }
      (c.offer i e) := by
  have hroom : ∀ c ∈ s.clients, ∀ k, c.stream = some k → k.inst = i →
      e.team = some c.team → k.buffer.length < bufferSize := by
    intro c hc k hk
    exact hmay e (by rw [hqueue]; rfl) c hc k hk
  refine ⟨?_, ?_⟩
  · intro j team
    have hfrom := hs.queues j team
    rw [queued_publish hqueue] at hfrom
    split at hfrom
    · exact hfrom.tail
    · exact hfrom
  · intro c hc
    have hteam : (c.offer i e).team = c.team := by
      unfold Client.offer
      split
      · split <;> rfl
      · rfl
    refine (hs.covered c hc).transfer (fun _ _ => Iff.rfl) hteam (written_offer i e c) ?_
    intro k' hk'
    obtain ⟨k, hk, hinst, hstage, hlast, hbuffer⟩ := stream_offer hk'
    refine ⟨k, hk, hstage, hlast, ?_⟩
    show k'.buffer ++ ({ s with queues := s.queues.set i rest } : State).queued
      k'.inst (c.offer i e).team = s.coming c k
    rw [State.coming, queued_publish hqueue, hteam, hinst, hbuffer]
    by_cases hhit : k.inst = i ∧ e.team = some c.team
    · rw [if_pos ⟨hhit.1, hhit.2, hroom c hc k hk hhit.1 hhit.2⟩, if_pos hhit, append_assoc]
    · rw [if_neg (fun h => hhit ⟨h.1, h.2.1⟩), if_neg hhit, nil_append]

theorem Complete.dies (hs : Complete s) (i : Nat) :
    (∀ j team, From (Published s team)
      (({ s with queues := s.queues.set i [] } : State).queued j team)) ∧
    ∀ c ∈ s.clients, Covered { s with
      queues := s.queues.set i [], clients := s.clients.map (.cut i) }
      (c.cut i) := by
  refine ⟨?_, ?_⟩
  · intro j team
    unfold State.queued
    rw [queue_set]
    split
    · exact from_nil
    · exact hs.queues j team
  · intro c hc
    have h := hs.covered c hc
    unfold Client.cut
    split
    · exact h.disconnect.transfer (fun _ _ => Iff.rfl) rfl rfl nofun
    · rename_i hother
      refine h.transfer (fun _ _ => Iff.rfl) rfl rfl ?_
      intro k hk
      refine ⟨k, hk, rfl, rfl, ?_⟩
      have hinst : i ≠ k.inst := by
        intro heq
        rw [hk] at hother
        exact hother (decide_eq_true heq.symm)
      show k.buffer ++ ((State.queue _ k.inst).filter _).map OutboxRow.id = _
      congr 3
      exact (@queue_set s i k.inst []).trans (if_neg fun h => hinst h.1)

/-- The rows of the outbox change, the published ones do not. -/
theorem Complete.rows (hs : Complete s) (hclients : s'.clients = s.clients) (hkeyed : Keyed s')
    (hpub : ∀ team y, Published s' team y ↔ Published s team y)
    (hqueues : ∀ j, s'.queue j = s.queue j) : Complete s' := by
  have hqueued : ∀ j team, s'.queued j team = s.queued j team := by
    intro j team
    rw [State.queued, hqueues, State.queued]
  refine ⟨hkeyed, ?_, ?_, ?_⟩
  · rw [hclients]
    exact hs.orderly
  · intro j team
    have hsame : Published s' team = Published s team := by
      funext y
      exact propext (hpub team y)
    rw [hqueued, hsame]
    exact hs.queues j team
  · rw [hclients]
    intro c hc
    refine (hs.covered c hc).transfer hpub rfl rfl ?_
    intro k hk
    exact ⟨k, hk, rfl, rfl, by rw [State.coming, hqueued, State.coming]⟩

theorem queue_launch (j : Nat) :
    ({ s with queues := s.queues ++ [[]] } : State).queue j = s.queue j := by
  show (s.queues ++ [[]])[j]?.getD [] = s.queues[j]?.getD []
  by_cases hj : j < s.queues.length
  · rw [getElem?_append_left hj]
  · have hnone : s.queues[j]? = none := getElem?_eq_none (by omega)
    rw [getElem?_append_right (by omega), hnone]
    cases j - s.queues.length <;> rfl

/-- The streams of other clients have no part in what comes to a stream. -/
theorem Covered.clients {c : Client} (h : Covered s c) (cs : List Client) :
    Covered { s with clients := cs } c :=
  h.transfer (fun _ _ => Iff.rfl) rfl rfl fun k hk => ⟨k, hk, rfl, rfl, rfl⟩

theorem Complete.step (hs : Complete s) (hmay : Gapless a s)
    (hstep : Step s a s') : Complete s' := by
  have hkeyed := hs.keyed.step hstep
  have horderly := orderly_step hs.keyed hs.orderly hstep
  cases hstep with
  | insert team =>
    exact hs.rows rfl hkeyed (fun _ _ => Iff.rfl) fun _ => rfl
  | @commit r hr =>
    refine hs.rows rfl hkeyed ?_ fun _ => rfl
    intro team y
    constructor
    · intro ⟨q, hq, hid, hteam, hpublished⟩
      rcases mem_cons.1 hq with rfl | hq
      · -- A row that was not committed is not published.
        cases (hs.keyed.raw q hr).symm.trans hpublished
      · exact ⟨q, hq, hid, hteam, hpublished⟩
    · intro ⟨q, hq, hfacts⟩
      exact ⟨q, mem_cons_of_mem _ hq, hfacts⟩
  | rollback id => exact hs.rows rfl hkeyed (fun _ _ => Iff.rfl) fun _ => rfl
  | launch =>
    exact hs.rows rfl hkeyed (fun _ _ => Iff.rfl) queue_launch
  | @claim i rows locked lost hi hqueue hrows =>
    obtain ⟨hqueues, hcovered⟩ := hs.claim hi hrows hmay
    have hlost : lost = false := hmay.1
    subst hlost
    exact ⟨hkeyed, horderly, hqueues, hcovered⟩
  | publish hqueue =>
    obtain ⟨hqueues, hcovered⟩ := hs.publish hqueue hmay
    refine ⟨hkeyed, horderly, hqueues, ?_⟩
    intro c hc
    obtain ⟨c₀, hc₀, rfl⟩ := mem_map.1 hc
    exact hcovered c₀ hc₀
  | dies i =>
    obtain ⟨hqueues, hcovered⟩ := hs.dies i
    refine ⟨hkeyed, horderly, hqueues, ?_⟩
    intro c hc
    obtain ⟨c₀, hc₀, rfl⟩ := mem_map.1 hc
    exact hcovered c₀ hc₀
  | join team =>
    refine ⟨hkeyed, horderly, hs.queues, Table.forall_concat ?_ ?_⟩
    · exact fun c hc => (hs.covered c hc).clients _
    · exact ⟨between_nil, nofun, nofun, nofun⟩
  | client hc hc' =>
    have hcovered := hs.clientStep hc hmay hc'
    refine ⟨hkeyed, horderly, hs.queues, ?_⟩
    intro q hq
    rcases mem_or_eq_of_mem_set hq with hq | rfl
    · exact (hs.covered q hq).clients _
    · exact hcovered.clients _

end System

/-! ## The result -/

/-- In every run without gaps, what a client has received is increasing and
holds every published event of its team between the first and the last. -/
theorem stream_has_no_gaps {s : State} (h : Machine.Reaches State.apply Gapless .empty s) :
    ∀ c ∈ s.clients, c.received.Pairwise (· < ·) ∧
      ∀ x ∈ c.received, ∀ z ∈ c.received, ∀ y, Published s c.team y →
        x ≤ y → y ≤ z → y ∈ c.received := by
  have hs : Complete s := by
    refine h.invariant (fun a s s' hmay happly hs =>
      hs.step hmay (step_of_apply happly)) ?_
    exact ⟨⟨.nil, nofun, nofun, Nat.one_pos⟩, nofun, fun _ _ => from_nil, nofun⟩
  intro c hc
  have hbetween : Between (Published s c.team) c.received :=
    (hs.covered c hc).between.left
  exact ⟨hbetween.sorted, hbetween.dense⟩

/-- Rows of team 7 that are not published. -/
def rowsFrom (id n : Nat) : List OutboxRow :=
  (List.range n).map fun d => ⟨id + d, some 7, false⟩

/-- Events of team 7 are written. -/
def written (id n : Nat) : List Action :=
  (List.range n).flatMap fun d => [.insert (some 7), .commit (id + d)]

def drained (i : Nat) (rows : List OutboxRow) : List Action :=
  .claim i [] rows false :: rows.map fun _ => .publish i

/-- The first client reads what has come to its stream. -/
def reads (n : Nat) : List Action :=
  (List.replicate n [.client 0 .write, .client 0 .receive]).flatten

/-- A client of team 7 opens a stream at the first instance. -/
def opened : List Action :=
  [.client 0 (.connect 0), .client 0 (.replay true)]

/-- The client receives an event, misses one while it is away, and comes back
while a third one is published.  The handler finds the third event in the table
and in its channel. -/
def resumed : List Action :=
  [.launch, .join 7] ++ opened ++ written 1 1 ++ drained 0 (rowsFrom 1 1) ++
    reads 1 ++ [.client 0 .disconnect] ++ written 2 1 ++
    drained 0 (rowsFrom 2 1) ++ [.client 0 (.connect 0)] ++ written 3 1 ++
    drained 0 (rowsFrom 3 1) ++ [.client 0 (.replay true)] ++ reads 2 ++
    [.client 0 .write, .client 0 .write]

theorem stream_has_no_gaps_resumed :
    ∃ s, run State.apply resumed .empty = some s ∧
      s.clients.map Client.received = [[1, 2, 3]] ∧
      ∀ c ∈ s.clients, c.received.Pairwise (· < ·) ∧
        ∀ x ∈ c.received, ∀ z ∈ c.received, ∀ y, Published s c.team y →
          x ≤ y → y ≤ z → y ∈ c.received := by
  have hrun : (run State.apply resumed .empty).any
      (fun s => s.clients.map Client.received = [[1, 2, 3]]) = true := by
    decide +kernel
  obtain ⟨s, hs, hreceived⟩ := (Option.any_eq_true _ _).1 hrun
  refine ⟨s, hs, of_decide_eq_true hreceived, ?_⟩
  exact @stream_has_no_gaps s (Machine.Reaches.of_run hs (by decide +kernel))

/-! ## Gaps -/

/-- The client has not received an event between two that it received. -/
def State.hasGap (s : State) (c : Client) : Bool :=
  s.events.any fun r =>
    r.published && r.team = some c.team && !c.received.contains r.id &&
      c.received.any (· < r.id) && c.received.any (r.id < ·)

/-- The second of three events is claimed by another instance. -/
def claimedElsewhere : List Action :=
  [.launch, .launch, .join 7] ++ opened ++ written 1 1 ++
    drained 0 (rowsFrom 1 1) ++ reads 1 ++ written 2 1 ++
    drained 1 (rowsFrom 2 1) ++ written 3 1 ++ drained 0 (rowsFrom 3 1) ++
    reads 1

/-- The second of three transactions commits last. -/
def committedLate : List Action :=
  [.launch, .join 7] ++ opened ++
    [.insert (some 7), .insert (some 7), .insert (some 7), .commit 1] ++
    drained 0 (rowsFrom 1 1) ++ reads 1 ++ [.commit 3] ++
    drained 0 (rowsFrom 3 1) ++ reads 1 ++ [.commit 2] ++
    drained 0 (rowsFrom 2 1) ++ [.client 0 .write]

/-- A burst of events does not fit into the channel of a slow client. -/
def channelFull : List Action :=
  [.launch, .join 7] ++ opened ++ written 1 34 ++
    drained 0 (rowsFrom 1 34) ++ reads 32 ++ written 35 1 ++
    drained 0 (rowsFrom 35 1) ++ reads 1

/-- Each of these runs leaves a gap in what the client has received. -/
theorem stream_has_gap :
    ((run State.apply claimedElsewhere .empty).any fun s =>
      s.clients.any s.hasGap) = true ∧
    ((run State.apply committedLate .empty).any fun s =>
      s.clients.any s.hasGap) = true ∧
    ((run State.apply channelFull .empty).any fun s =>
      s.clients.any s.hasGap) = true := by
  decide +kernel

/-- In every run, whatever is lost, a client receives its events in increasing
order, and none twice. -/
theorem received_increasing (h : Machine.Reaches State.apply (fun _ _ => True) .empty s) :
    ∀ c ∈ s.clients, c.received.Pairwise (· < ·) := by
  have hs := h.invariant (I := fun s => Keyed s ∧ ∀ c ∈ s.clients, Orderly c)
    (fun _ _ _ _ happly hs => ⟨hs.1.step (step_of_apply happly),
      orderly_step hs.1 hs.2 (step_of_apply happly)⟩)
    ⟨⟨.nil, nofun, nofun, Nat.one_pos⟩, nofun⟩
  intro c hc
  exact (pairwise_append.1 (hs.2 c hc).sorted).1

theorem received_increasing_committedLate :
    ∃ s, run State.apply committedLate .empty = some s ∧ s.clients.any s.hasGap = true ∧
      ∀ c ∈ s.clients, c.received.Pairwise (· < ·) := by
  have hrun : (run State.apply committedLate .empty).any
      (fun s => s.clients.any s.hasGap) = true := by decide +kernel
  obtain ⟨s, hs, hgap⟩ := (Option.any_eq_true _ _).1 hrun
  exact ⟨s, hs, hgap, received_increasing (.of_run hs Machine.runMay_true)⟩

end Akerdock.Events
