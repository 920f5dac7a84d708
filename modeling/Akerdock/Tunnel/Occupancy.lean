import Akerdock.Tunnel.Bridge

/-!
# The slots of the origin and the table of the bridge

An `Origin` and a `Bridge` are given the same `MaxStreams`.  The origin counts
its streams with slots, the bridge with the length of its table, and the origin
should never be refused for the limit.  Each frees its places by itself: the
origin when `closeStream` takes a stream out of its table, whether or not the
bridge has heard of it.

* `State` is an origin, the bridge of `Akerdock.Tunnel.Bridge`, and the frames
  between them.  The session goes on.
* `State.expects` is what the bridge holds when it has read everything that was
  sent.
* `Told` is that the origin frees a slot only for a stream that the bridge is
  not going to hold, and `occupancy_agrees` the result.
-/

namespace Akerdock.Tunnel.Occupancy

open Table List Option Machine

/-! ## The model -/

/-- `OpenStream` after the registration of its stream. -/
inductive Call where
  | asking
  | holding
  | failed
  deriving DecidableEq

/-- The copier of a stream, which sends its `eof` before it closes the
stream. -/
inductive Copier where
  | waiting
  | running
  | announced
  | left
  deriving DecidableEq

/-- A stream of the origin.  `answer` is what the channel `wait` holds. -/
structure Stream where
  key : Nat
  id : UInt32
  call : Call
  answer : Option Bool
  pumping : Bool
  copier : Copier

/-- An origin and a bridge.

* `slots` is the length of `streamSlots`, `queued` the calls that wait for a
  slot, and `admitted` those that have one but no stream yet.
* `table` is `o.streams`.
* `resets` are the ids for which a `close` is still to be sent, after a queue
  was full.
* `up` are the frames that the bridge has not read. -/
structure State where
  bridge : Bridge.State
  up : List Message
  nextID : UInt32
  slots : Nat
  queued : Nat
  admitted : Nat
  table : AList fun _ : UInt32 => Nat
  streams : List Stream
  resets : List UInt32

def State.empty : State := ⟨.empty, [], 0, 0, 0, 0, ∅, [], []⟩

/-- `Origin.closeStream`, which frees the slot of the stream. -/
def State.closeStream (s : State) (id : UInt32) : State :=
  if id ∈ s.table then
    { s with table := s.table.erase id, slots := s.slots - 1 }
  else s

def State.send (s : State) (id : UInt32) (part : Part) : State :=
  { s with up := s.up ++ [⟨id, part⟩] }

def State.update (s : State) (k : Nat) (f : Stream → Stream) : State :=
  { s with streams := updateWhere (fun t => t.key = k) f s.streams }

/-- `resolvePending`: the first answer goes to the call of the stream. -/
def State.resolvePending (s : State) (id : UInt32) (ok : Bool) : State :=
  match s.table.lookup id with
  | some k => s.update k fun t => { t with answer := t.answer.or (some ok) }
  | none => s

/-- What the reader of the origin does with a frame. -/
def State.handle (s : State) (full : Bool) : Message → State
  | ⟨id, .text .openOk⟩ => s.resolvePending id true
  | ⟨id, .text (.openErr _)⟩ => s.resolvePending id false
  | ⟨id, .text .eof⟩ | ⟨id, .text .close⟩ => s.closeStream id
  | ⟨_, .text .opening⟩ => s
  | ⟨id, .binary _⟩ =>
    if full ∧ id ∈ s.table then
      { s.closeStream id with resets := id :: s.resets }
    else s

/-- The steps of the bridge other than reading a frame, while the session goes
on. -/
def ofSession : Bridge.Action → Bool
  | .frame _ _ | .lost | .tearDown | .sweep | .returns => false
  | _ => true

/-- The steps.

* `acquire`, `wait`, `granted` and `quit` are `acquireStream`: a call gets a slot
  at once, or waits, and then gets one or stops waiting.
* `ask` registers the stream of an admitted call and sends its `open`; `ok` says
  that this succeeds.
* `resume` takes the answer, and `giveUp` is a context or a time that is over.
* `pumpFails`, `copierSends`, `copierEnds` and `copierCloses` are of the
  goroutines of a stream.
* `read` and `bridgeReads` are the two readers. -/
inductive Action where
  | acquire
  | wait
  | granted
  | quit
  | ask (ok : Bool)
  | resume (k : Nat)
  | giveUp (k : Nat)
  | pumpFails (k : Nat)
  | copierSends (k : Nat) (p : List UInt8)
  | copierEnds (k : Nat)
  | copierCloses (k : Nat)
  | read (full : Bool)
  | reset (id : UInt32)
  | bridgeReads (full : Bool)
  | bridge (a : Bridge.Action)

def State.register (s : State) : State :=
  { s with
    nextID := s.nextID + 1
    admitted := s.admitted - 1
    table := s.table.insert (s.nextID + 1) s.streams.length
    streams := s.streams ++ [⟨s.streams.length, s.nextID + 1, .asking, none, true, .waiting⟩] }

/-- A step of the stream `k`. -/
def State.onStream (s : State) (k : Nat) (may : Stream → Bool)
    (f : Stream → Stream) (act : State → UInt32 → State) : Option State :=
  (row? Stream.key k s.streams).bind fun t =>
    if may t then some (act (s.update k f) t.id) else none

/-- One step, with `MaxStreams = max` and `MaxPendingStreams = maxQueued`. -/
def State.apply (max maxQueued : Nat) (a : Action) (s : State) : Option State :=
  match a with
  | .acquire =>
    if s.queued = 0 ∧ s.slots < max then
      some { s with slots := s.slots + 1, admitted := s.admitted + 1 }
    else none
  | .wait =>
    if ¬ (s.queued = 0 ∧ s.slots < max) ∧ s.queued < maxQueued then
      some { s with queued := s.queued + 1 }
    else none
  | .granted =>
    if 0 < s.queued ∧ s.slots < max then
      some { s with
        queued := s.queued - 1, slots := s.slots + 1
        admitted := s.admitted + 1 }
    else none
  | .quit =>
    if 0 < s.queued then some { s with queued := s.queued - 1 } else none
  | .ask ok =>
    if 0 < s.admitted then
      if ok then some (s.register.send (s.nextID + 1) (.text .opening))
      else some (s.register.closeStream (s.nextID + 1))
    else none
  | .resume k =>
    (row? Stream.key k s.streams).bind fun t =>
      match t.call, t.answer with
      | .asking, some true =>
        some (s.update k fun t =>
          { t with call := .holding, copier := .running })
      | .asking, some false =>
        some ((s.update k fun t => { t with call := .failed }).closeStream t.id)
      | _, _ => none
  | .giveUp k =>
    s.onStream k (·.call = .asking) (fun t => { t with call := .failed })
      fun s id => s.closeStream id
  | .pumpFails k =>
    s.onStream k (·.pumping) (fun t => { t with pumping := false }) fun s id => s.closeStream id
  | .copierSends k p =>
    s.onStream k (·.copier = .running) id fun s id => s.send id (.binary p)
  | .copierEnds k =>
    s.onStream k (·.copier = .running) (fun t => { t with copier := .announced })
      fun s id => s.send id (.text .eof)
  | .copierCloses k =>
    s.onStream k (·.copier = .announced) (fun t => { t with copier := .left })
      fun s id => s.closeStream id
  | .read full =>
    match s.bridge.out with
    | m :: out =>
      some ({ s with bridge := { s.bridge with out := out } }.handle full m)
    | [] => none
  | .reset id =>
    if id ∈ s.resets then
      some ({ s with resets := s.resets.erase id }.send id (.text .close))
    else none
  | .bridgeReads full =>
    match s.up with
    | m :: up =>
      (s.bridge.apply max (.frame (some m) full)).map fun b =>
        { s with bridge := b, up := up }
    | [] => none
  | .bridge a =>
    if ofSession a then
      (s.bridge.apply max a).map fun b => { s with bridge := b }
    else none

/-! ## What the bridge is going to hold -/

/-- What a frame does to the ids that the bridge holds. -/
def replayOne (S : Finset UInt32) : Message → Finset UInt32
  | ⟨id, .text .opening⟩ => insert id S
  | ⟨id, .text .eof⟩ | ⟨id, .text .close⟩ => S.erase id
  | _ => S

def replay (S : Finset UInt32) (up : List Message) : Finset UInt32 :=
  up.foldl replayOne S

def occupied (b : Bridge.State) : Finset UInt32 :=
  b.streams.keys.toFinset ∪
    match b.reader with
    | .dialing id | .dialed id _ => {id}
    | _ => ∅

def State.expects (s : State) : Finset UInt32 :=
  replay (occupied s.bridge) s.up

/-! ## The condition -/

/-- The stream that a step closes at the origin. -/
def State.closes (s : State) : Action → Option UInt32
  | .giveUp k | .pumpFails k | .copierCloses k =>
    (row? Stream.key k s.streams).map Stream.id
  | .resume k =>
    ((row? Stream.key k s.streams).filter (·.answer = some false)).map Stream.id
  | .ask false => some (s.nextID + 1)
  | .read full =>
    match s.bridge.out with
    | ⟨id, .text .eof⟩ :: _ | ⟨id, .text .close⟩ :: _ => some id
    | ⟨id, .binary _⟩ :: _ => if full then some id else none
    | _ => none
  | _ => none

/-- The origin takes a stream out of its table only when the bridge is not going
to hold it: it does not have it, nor dial for it, after what was sent. -/
def Told (a : Action) (s : State) : Prop :=
  match s.closes a with
  | some id => id ∈ s.table → id ∉ s.expects
  | none => True

instance (a : Action) (s : State) : Decidable (Told a s) := by
  unfold Told
  split <;> infer_instance

/-! ## The replay -/

section Replay

variable {S : Finset UInt32} {up : List Message} {m : Message} {max : Nat}

theorem replayOne_mono (h : S ⊆ S') (m : Message) : replayOne S m ⊆ replayOne S' m := by
  unfold replayOne
  split
  · exact Finset.insert_subset_insert _ h
  · exact Finset.erase_subset_erase _ h
  · exact Finset.erase_subset_erase _ h
  · exact h

theorem replay_mono (h : S ⊆ S') : replay S up ⊆ replay S' up := by
  induction up generalizing S S' with
  | nil => exact h
  | cons m up ih => exact ih (replayOne_mono h m)

theorem replay_append : replay S (up ++ [m]) = replayOne (replay S up) m :=
  foldl_append ..

/-- The bridge has room for every `open` on the way. -/
def Fits (max : Nat) : Finset UInt32 → List Message → Prop
  | _, [] => True
  | S, m :: up =>
    (m.part = .text .opening → S.card < max) ∧ Fits max (replayOne S m) up

theorem fits_mono (h : S ⊆ S') (hfits : Fits max S' up) : Fits max S up := by
  induction up generalizing S S' with
  | nil => trivial
  | cons m up ih =>
    refine ⟨fun hm => ?_, ih (replayOne_mono h m) hfits.2⟩
    exact Nat.lt_of_le_of_lt (Finset.card_le_card h) (hfits.1 hm)

theorem fits_append (hfits : Fits max S up)
    (hm : m.part = .text .opening → (replay S up).card < max) :
    Fits max S (up ++ [m]) := by
  induction up generalizing S with
  | nil => exact ⟨hm, trivial⟩
  | cons m' up ih => exact ⟨hfits.1, ih hfits.2 hm⟩

/-- An id stays only if no frame of its stream comes. -/
theorem mem_replay {id : UInt32} (hid : id ∈ S) (hup : ∀ m ∈ up, m.id ≠ id) : id ∈ replay S up := by
  induction up generalizing S with
  | nil => exact hid
  | cons m up ih =>
    refine ih ?_ fun m' hm' => hup m' (mem_cons_of_mem m hm')
    have hne := (hup m mem_cons_self).symm
    unfold replayOne
    split
    · exact Finset.mem_insert_of_mem hid
    · exact Finset.mem_erase.2 ⟨hne, hid⟩
    · exact Finset.mem_erase.2 ⟨hne, hid⟩
    · exact hid

end Replay

/-! ## The steps of the bridge -/

section Bridge

variable {max : Nat} {b b' : Bridge.State}

/-- The bridge holds no more ids than before, and does not refuse a stream. -/
structure Shrinks (b b' : Bridge.State) (S : Finset UInt32) : Prop where
  occupied : occupied b' ⊆ S
  phase : b'.phase = b.phase
  quiet : ∀ m ∈ b'.out, m ∈ b.out ∨ m.part ≠ .text (.openErr .limit)

theorem mem_occupied {id : UInt32} : id ∈ occupied b ↔ id ∈ b.streams ∨
    b.reader = .dialing id ∨ ∃ k, b.reader = .dialed id k := by
  unfold occupied
  cases b.reader <;> simp [AList.mem_keys, eq_comm, or_comm]

theorem Shrinks.send (h : Shrinks b b' S) (id : UInt32)
    (hpart : part ≠ .text (.openErr .limit)) :
    Shrinks b (b'.send id part) S := by
  exact { h with quiet := Table.forall_concat h.quiet (.inr hpart) }

theorem mem_closeStream {id id' : UInt32} :
    id' ∈ (b.closeStream id).streams ↔ id' ∈ b.streams ∧ id' ≠ id := by
  unfold Bridge.State.closeStream
  split
  · simp [and_comm]
  · rename_i hnone
    have hnot : id ∉ b.streams := AList.lookup_eq_none.1 hnone
    constructor
    · intro h
      exact ⟨h, fun heq => hnot (heq ▸ h)⟩
    · exact fun h => h.1

theorem shrinks_closeStream (id : UInt32) (hS : ∀ id' ∈ occupied (b.closeStream id), id' ∈ S) :
    Shrinks b (b.closeStream id) S := by
  refine ⟨hS, ?_, ?_⟩
  · unfold Bridge.State.closeStream
    split <;> rfl
  · intro m hm
    refine .inl ?_
    unfold Bridge.State.closeStream at hm
    split at hm <;> exact hm

theorem reader_closeStream (id : UInt32) : (b.closeStream id).reader = b.reader := by
  unfold Bridge.State.closeStream
  split <;> rfl

theorem occupied_closeStream (id : UInt32) : occupied (b.closeStream id) ⊆ occupied b := by
  intro id' h
  rw [mem_occupied, mem_closeStream, reader_closeStream] at h
  rw [mem_occupied]
  rcases h with h | h
  · exact .inl h.1
  · exact .inr h

/-- A frame that finds room. -/
theorem shrinks_frame (hidle : b.reader = .idle)
    (hroom : m.part = .text .opening → (occupied b).card < max) :
    Shrinks b (b.handle max full m) (replayOne (occupied b) m) := by
  have hsame : Shrinks b b (occupied b) :=
    ⟨fun _ h => h, rfl, fun _ h => .inl h⟩
  have herase : ∀ id, Shrinks b (b.closeStream id) ((occupied b).erase id) := by
    intro id
    refine shrinks_closeStream id fun id' h => Finset.mem_erase.2 ⟨?_, ?_⟩
    · rw [mem_occupied, reader_closeStream, hidle, mem_closeStream] at h
      simp at h
      exact h.2
    · exact occupied_closeStream id h
  obtain ⟨id, part⟩ := m
  cases part with
  | text c =>
    cases c with
    | opening =>
      have hle : b.streams.keys.length ≤ (occupied b).card := by
        rw [← toFinset_card_of_nodup b.streams.keys_nodup]
        exact Finset.card_le_card Finset.subset_union_left
      have hless := hroom rfl
      show Shrinks b (if max ≤ b.streams.keys.length then _ else _) _
      rw [if_neg (by omega)]
      refine ⟨fun id' h => ?_, rfl, fun _ h => .inl h⟩
      rw [mem_occupied] at h
      show id' ∈ insert id (occupied b)
      rw [Finset.mem_insert, mem_occupied]
      rcases h with h | h | ⟨k, h⟩
      · exact .inr (.inl h)
      · cases h
        exact .inl rfl
      · cases h
    | eof | close => exact herase id
    | openOk | openErr code => exact hsame
  | binary p =>
    show Shrinks b (if _ then _ else _) _
    split
    · exact (shrinks_closeStream id (occupied_closeStream id)).send id nofun
    · exact hsame

theorem shrinks_session {a : Bridge.Action} (ha : ofSession a = true)
    (h : b.apply max a = some b') : Shrinks b b' (occupied b) := by
  have hsame : ∀ targets, Shrinks b { b with targets := targets } (occupied b) :=
    fun _ => ⟨fun _ h => h, rfl, fun _ h => .inl h⟩
  have hclose : ∀ targets id, Shrinks b
      (Bridge.State.closeStream { b with targets := targets } id)
      (occupied b) := fun targets id =>
    { shrinks_closeStream id (occupied_closeStream id) with }
  cases a <;> simp only [ofSession, Bool.false_eq_true] at ha <;>
    simp only [Bridge.State.apply] at h
  case dialed ok =>
    split at h
    · rename_i id hreader
      split at h
      · cases h
        refine ⟨fun id' h => ?_, rfl, fun _ h => .inl h⟩
        rw [mem_occupied] at h ⊢
        simp_all
      · cases h
        have hidle : Shrinks b { b with reader := .idle } (occupied b) := by
          refine ⟨fun id' h => ?_, rfl, fun _ h => .inl h⟩
          rw [mem_occupied] at h ⊢
          simp_all
        exact hidle.send id (by rintro ⟨⟩)
    · cases h
  case insert =>
    split at h
    · rename_i id k hreader
      cases h
      have hinsert : ∀ targets, Shrinks b { b with
          reader := .idle, streams := b.streams.insert id k
          targets := targets } (occupied b) := by
        intro targets
        refine ⟨fun id' h => ?_, rfl, fun _ h => .inl h⟩
        simp only [mem_occupied, AList.mem_insert] at h ⊢
        grind
      exact (hinsert _).send id (by rintro ⟨⟩)
    · cases h
  case close k =>
    obtain ⟨-, rfl⟩ := of_guard h
    exact ⟨fun _ h => h, rfl, fun _ h => .inl h⟩
  all_goals
    obtain ⟨t, _, h⟩ := bind_eq_some_iff.1 h
    split at h
    case isFalse => cases h
    cases h
  case pumpFails k => exact hclose _ t.id
  case copierSends k p => exact (hsame b.targets).send t.id (by rintro ⟨⟩)
  case copierEnds k => exact hclose _ t.id
  case copierTells k => exact (hsame _).send t.id (by rintro ⟨⟩)

end Bridge

/-! ## The invariant -/

/-- What holds in every run in which the bridge is told. -/
structure Agreed (max : Nat) (s : State) : Prop where
  told : ∀ id ∈ s.expects, id ∈ s.table
  fits : Fits max (occupied s.bridge) s.up
  slots : s.table.keys.length + s.admitted ≤ s.slots
  bound : s.slots ≤ max
  running : s.bridge.phase = .running
  quiet : ∀ m ∈ s.bridge.out, m.part ≠ .text (.openErr .limit)

section Steps

variable {max maxQueued : Nat} {s s' : State}

theorem agreed_empty : Agreed max .empty where
  told := nofun
  fits := trivial
  slots := Nat.le_refl _
  bound := Nat.zero_le _
  running := rfl
  quiet := nofun

section

variable (hs : Agreed max s)

include hs

theorem Agreed.update (k : Nat) (f : Stream → Stream) : Agreed max (s.update k f) :=
  { hs with }

theorem Agreed.closeStream {id : UInt32}
    (hid : id ∉ s.expects) : Agreed max (s.closeStream id) := by
  unfold State.closeStream
  split
  · rename_i hmem
    have hlength : (s.table.erase id).keys.length + 1 = s.table.keys.length := by
      rw [AList.keys_erase]
      exact length_erase_add_one (AList.mem_keys.1 hmem)
    have hslots := hs.slots
    have hbound := hs.bound
    refine { hs with told := ?_, slots := ?_, bound := ?_ }
    · intro id' hid'
      have hne : id' ≠ id := fun heq => hid (heq ▸ hid')
      exact AList.mem_erase.2 ⟨hne, hs.told id' hid'⟩
    · show (s.table.erase id).keys.length + s.admitted ≤ s.slots - 1
      omega
    · show s.slots - 1 ≤ max
      omega
  · exact hs

/-- The condition as the steps use it. -/
theorem Agreed.not_expects {id : UInt32} (h : id ∈ s.table → id ∉ s.expects) : id ∉ s.expects := by
  intro hid
  exact h (hs.told id hid) hid

theorem Agreed.send (id : UInt32)
    (hpart : part ≠ .text .opening) : Agreed max (s.send id part) := by
  have hsub : replayOne s.expects ⟨id, part⟩ ⊆ s.expects := by
    unfold replayOne
    split
    · rename_i heq
      exact absurd (Message.mk.inj heq).2 hpart
    · exact Finset.erase_subset ..
    · exact Finset.erase_subset ..
    · exact fun _ h => h
  refine { hs with told := ?_, fits := fits_append hs.fits fun h => ?_ }
  · intro id' hid'
    refine hs.told id' (hsub ?_)
    show id' ∈ replayOne (replay (occupied s.bridge) s.up) _
    rw [← replay_append]
    exact hid'
  · exact absurd h hpart

theorem Agreed.register (hadmitted : 0 < s.admitted) : Agreed max s.register := by
  have hlength : (s.table.insert (s.nextID + 1) s.streams.length).keys.length ≤
      s.table.keys.length + 1 := by
    rw [AList.keys_insert, length_cons]
    exact Nat.succ_le_succ (length_erase_le ..)
  have hslots := hs.slots
  refine { hs with told := ?_, slots := ?_ }
  · intro id hid
    exact (AList.mem_insert s.table).2 (.inr (hs.told id hid))
  · show (s.table.insert _ _).keys.length + (s.admitted - 1) ≤ s.slots
    omega

/-- There is room for the stream of an admitted call. -/
theorem Agreed.room (hadmitted : 0 < s.admitted) : s.expects.card < max := by
  have hsub : s.expects ⊆ s.table.keys.toFinset := by
    intro id hid
    exact mem_toFinset.2 (AList.mem_keys.1 (hs.told id hid))
  have hcard := Finset.card_le_card hsub
  have hlength := toFinset_card_le s.table.keys
  have hslots := hs.slots
  have hbound := hs.bound
  omega

theorem Agreed.ask (hadmitted : 0 < s.admitted) :
    Agreed max (s.register.send (s.nextID + 1) (.text .opening)) := by
  have hregister := hs.register hadmitted
  refine { hregister with
    told := ?_, fits := fits_append hregister.fits fun _ => hs.room hadmitted }
  intro id hid
  have hid' : id ∈ insert (s.nextID + 1) s.register.expects := by
    have hreplay : id ∈ replay (occupied s.bridge) (s.up ++ [⟨s.nextID + 1, .text .opening⟩]) := hid
    rwa [replay_append] at hreplay
  rcases Finset.mem_insert.1 hid' with rfl | hold
  · exact (AList.mem_insert s.table).2 (.inl rfl)
  · exact hregister.told id hold

theorem Agreed.bridge (hstep : Shrinks s.bridge b S)
    (hexpects : replay S up = s.expects) (hfits : Fits max S up) :
    Agreed max { s with bridge := b, up := up } := by
  refine { hs with
    told := ?_, fits := fits_mono hstep.occupied hfits
    running := hstep.phase.trans hs.running, quiet := ?_ }
  · intro id hid
    refine hs.told id ?_
    rw [← hexpects]
    exact replay_mono hstep.occupied hid
  · intro m hm
    rcases hstep.quiet m hm with hm | hm
    · exact hs.quiet m hm
    · exact hm

theorem Agreed.handle (hm : ∀ id, s.closes (.read full) = some id → id ∉ s.expects)
    (hout : s.bridge.out = m :: out) :
    Agreed max ({ s with bridge := { s.bridge with out := out } }.handle full m) := by
  have hpop : Agreed max { s with bridge := { s.bridge with out := out } } := by
    refine { hs with quiet := fun m' hm' => hs.quiet m' ?_ }
    rw [hout]
    exact mem_cons_of_mem m hm'
  have hresolve : ∀ id ok, Agreed max (State.resolvePending
      { s with bridge := { s.bridge with out := out } } id ok) := by
    intro id ok
    unfold State.resolvePending
    split
    · exact { hpop with }
    · exact hpop
  simp only [State.closes, hout] at hm
  obtain ⟨id, part⟩ := m
  cases part with
  | text c =>
    cases c with
    | opening => exact hpop
    | openOk => exact hresolve id true
    | openErr code => exact hresolve id false
    | eof | close => exact hpop.closeStream (hm id rfl)
  | binary p =>
    simp only [State.handle]
    split
    · rename_i hfull
      exact { hpop.closeStream (hm id (if_pos hfull.1)) with }
    · exact hpop

end

theorem Agreed.onStream (h : s.onStream k may f act = some s')
    (hact : ∀ t, row? Stream.key k s.streams = some t →
      Agreed max (act (s.update k f) t.id)) : Agreed max s' := by
  obtain ⟨t, ht, -, rfl⟩ := of_bind_guard h
  exact hact t ht

theorem Agreed.step (hs : Agreed max s) {a : Action} (hmay : Told a s)
    (h : s.apply max maxQueued a = some s') : Agreed max s' := by
  have hcloses : ∀ id, s.closes a = some id → id ∉ s.expects := by
    intro id hid
    simp only [Told, hid] at hmay
    exact hs.not_expects hmay
  have hslots := hs.slots
  cases a with
  | acquire | granted =>
    simp only [State.apply] at h
    split at h
    · cases h
      refine { hs with slots := ?_, bound := ?_ } <;> dsimp only <;> omega
    · cases h
  | wait | quit =>
    obtain ⟨-, rfl⟩ := of_guard h
    exact { hs with }
  | ask ok =>
    simp only [State.apply] at h
    split at h
    · rename_i hadmitted
      split at h
      · cases h
        exact hs.ask hadmitted
      · rename_i hok
        cases h
        refine (hs.register hadmitted).closeStream (hcloses _ ?_)
        rw [Bool.eq_false_iff.2 hok]
        rfl
    · cases h
  | resume k =>
    obtain ⟨t, ht, h⟩ := bind_eq_some_iff.1 h
    split at h
    · cases h
      exact { hs with }
    · rename_i hanswer
      cases h
      refine (hs.update _ _).closeStream (hcloses _ ?_)
      simp [State.closes, ht, hanswer]
    · cases h
  | copierSends k p | copierEnds k =>
    simp only [State.apply] at h
    refine Agreed.onStream h fun t _ => ?_
    exact (hs.update _ _).send t.id nofun
  | giveUp k | pumpFails k | copierCloses k =>
    refine Agreed.onStream h fun t ht => ?_
    exact (hs.update _ _).closeStream (hcloses _ (by simp [State.closes, ht]))
  | read full =>
    simp only [State.apply] at h
    split at h
    · rename_i m out hout
      cases h
      exact hs.handle hcloses hout
    · cases h
  | reset id =>
    obtain ⟨-, rfl⟩ := of_guard h
    have hreset : Agreed max { s with resets := s.resets.erase id } :=
      { hs with }
    exact hreset.send id nofun
  | bridgeReads full =>
    simp only [State.apply] at h
    split at h
    · rename_i m up hup
      obtain ⟨b, hb, h⟩ := map_eq_some_iff.1 h
      subst h
      have hfits := hs.fits
      rw [hup] at hfits
      simp only [Bridge.State.apply, hs.running] at hb
      obtain ⟨hidle, rfl⟩ := of_guard hb
      refine hs.bridge (shrinks_frame hidle hfits.1) ?_ hfits.2
      rw [State.expects, hup]
      rfl
    · cases h
  | bridge a =>
    simp only [State.apply] at h
    split at h
    · rename_i ha
      obtain ⟨b, hb, h⟩ := map_eq_some_iff.1 h
      subst h
      exact hs.bridge (shrinks_session ha hb) rfl hs.fits
    · cases h

end Steps

/-! ## The result -/

/-- In every run in which the origin frees a slot only for a stream that the
bridge is not going to hold, whatever the calls, the dials and the delays are:

* the bridge answers no `open` with `limit`;
* a stream that the origin has given up is out of the table of the bridge when
  its frames are read and its dial is over. -/
theorem occupancy_agrees {max maxQueued : Nat} {s : State}
    (h : Machine.Reaches (State.apply max maxQueued) Told .empty s) :
    (∀ m ∈ s.bridge.out, m.part ≠ .text (.openErr .limit)) ∧
    ∀ id, id ∉ s.table → (∀ m ∈ s.up, m.id ≠ id) →
      s.bridge.reader ≠ .dialing id → id ∉ s.bridge.streams := by
  have hs : Agreed max s := h.invariant
    (fun a s s' hmay happly hs => hs.step hmay happly) agreed_empty
  refine ⟨hs.quiet, ?_⟩
  intro id htable hup _ hid
  exact htable (hs.told id (mem_replay (mem_occupied.2 (.inl hid)) hup))

/-- A call is admitted, asks and is answered. -/
def opened : List Action :=
  [.acquire, .ask true, .bridgeReads false, .bridge (.dialed true),
    .bridge .insert, .read false]

/-- With room for one stream: the first is used and ends at the origin, and a
call that waited for its slot opens the second. -/
def successive : List Action :=
  opened ++ [.resume 0, .wait, .copierEnds 0, .bridgeReads false,
    .copierCloses 0, .granted, .ask true, .bridgeReads false]

theorem occupancy_agrees_successive :
    ∃ s, Machine.run (State.apply 1 1) successive .empty = some s ∧
      s.bridge.reader = .dialing 2 ∧ 1 ∉ s.table ∧
      (∀ m ∈ s.bridge.out, m.part ≠ .text (.openErr .limit)) ∧
      ∀ id, id ∉ s.table → (∀ m ∈ s.up, m.id ≠ id) →
        s.bridge.reader ≠ .dialing id → id ∉ s.bridge.streams := by
  have hrun : (run (State.apply 1 1) successive .empty).any
      (fun s => s.bridge.reader = .dialing 2 ∧ 1 ∉ s.table) = true := by
    decide +kernel
  obtain ⟨s, hs, hlast⟩ := (any_eq_true _ _).1 hrun
  obtain ⟨hreader, htable⟩ := of_decide_eq_true hlast
  have h : Machine.Reaches (State.apply 1 1) Told .empty s :=
    .of_run hs (by decide +kernel)
  exact ⟨s, hs, hreader, htable, occupancy_agrees h⟩

/-- A stream that the origin gives up is not announced.

* The call gives up while the bridge dials: the bridge has the stream for good,
  and answers the next `open` with `limit`.
* The pump of a stream fails, which frees its slot, and the `eof` of its copier
  comes after the `open` of the next stream. -/
theorem occupancy_disagrees :
    ((Machine.run (State.apply 1 1)
      [.acquire, .ask true, .bridgeReads false, .giveUp 0,
        .bridge (.dialed true), .bridge .insert, .read false, .acquire,
        .ask true, .bridgeReads false] .empty).any fun s =>
      s.up = [] ∧ 1 ∉ s.table ∧ 1 ∈ s.bridge.streams ∧
        s.bridge.out = [⟨2, .text (.openErr .limit)⟩]) = true ∧
    ((Machine.run (State.apply 1 1)
      (opened ++ [.resume 0, .pumpFails 0, .acquire, .ask true, .copierEnds 0,
        .bridgeReads false]) .empty).any fun s =>
      s.bridge.out = [⟨2, .text (.openErr .limit)⟩]) = true := by
  decide +kernel

end Akerdock.Tunnel.Occupancy
