import Akerdock.Lib.Machine
import Akerdock.Lib.Table

/-!
# The stream of one command

`internal/agentwire/conn.go`: the chunks of a streaming command go through a
channel of bounded size.  The read loop of the connection puts them in with
`DeliverChunk` and never waits: if the channel is full, the chunk is lost, the
oldest one is shed, and an error takes its place at the end.  The caller takes
them out with `Read`, at its own pace.

* A step is one operation on the channel, so the three `select`s of
  `DeliverChunk` are three steps, and `Read` may act between any two of them.
* `Sound.told` is the point: once a chunk is lost, an error stands before
  everything that the channel may still get.
* `clean_end_is_complete` is the result.
-/

namespace Akerdock.Agent.Streams

open List Option Machine

/-! ## The model -/

def StreamBuffer : Nat := 512

/-- How a stream ends for its reader: `io.EOF`, or another error. -/
inductive Ending where
  | eof | failed
  deriving DecidableEq

/-- `StreamChunk`: the bytes, and how the stream ends with them. -/
structure Chunk where
  data : List UInt8
  ending : Option Ending
  deriving DecidableEq

/-- The error that `DeliverChunk` makes: the consumer is too slow. -/
def Chunk.tooSlow : Chunk := ⟨[], some .failed⟩

/-- Where `DeliverChunk` is: it is not called, the channel was full, and one
chunk was shed. -/
inductive Delivery where
  | idle | shedding | failing
  deriving DecidableEq

/-- A stream.

* `sent` is all data that the peer has sent, `closed` says that its EOF was
  among that, and `lost` that a chunk did not stay in the channel.
* `chunks` is the channel, `registered` says that the call is still known,
  `expired` that the context of the caller is over, and `cancels` counts the
  cancels that were sent to the peer.
* `buf` and `err` are the fields of the reader, `got` are the bytes that `Read`
  has returned, and `clean` says that it has returned `io.EOF`. -/
structure State where
  sent : List UInt8
  closed : Bool
  lost : Bool
  delivery : Delivery
  registered : Bool
  expired : Bool
  cancels : Nat
  chunks : List Chunk
  buf : List UInt8
  err : Option Ending
  got : List UInt8
  clean : Bool

def State.empty : State :=
  ⟨[], false, false, .idle, true, false, 0, [], [], none, [], false⟩

/-- The steps.

* `deliver` is a call of `DeliverChunk` up to its first `select`, `shed` and
  `fail` are the other two.
* `read n` is a call of `Read` for `n` bytes that returns at once, and `take`
  and `giveUp` are the ways in which it goes on: a chunk, or the end of the
  context of the caller or of the connection.
* `expire` is the end of the context of the caller, and `close` is `Close`. -/
inductive Action where
  | deliver (data : List UInt8) (eof : Bool)
  | shed
  | fail
  | read (n : Nat)
  | take
  | giveUp
  | expire
  | close
  deriving DecidableEq

/-- What a chunk does when it arrives. -/
def State.accept (s : State) (c : Chunk) : State :=
  if !s.registered then { s with lost := true }
  else if s.chunks.length < StreamBuffer then
    { s with chunks := s.chunks ++ [c] }
  else { s with lost := true, delivery := .shedding, cancels := s.cancels + 1 }

/-- The chunk that the peer sends. -/
def Chunk.sent (data : List UInt8) (eof : Bool) : Chunk :=
  ⟨data, if eof then some .eof else none⟩

def State.apply (a : Action) (s : State) : Option State :=
  match a with
  | .deliver data eof =>
    if s.delivery = .idle ∧ s.closed = false then
      some ({ s with sent := s.sent ++ data, closed := eof }.accept (.sent data eof))
    else none
  | .shed =>
    if s.delivery = .shedding then
      some { s with chunks := s.chunks.tail, delivery := .failing }
    else none
  | .fail =>
    if s.delivery = .failing then
      some { s with
        delivery := .idle
        chunks := if s.chunks.length < StreamBuffer then
          s.chunks ++ [.tooSlow] else s.chunks }
    else none
  | .read n =>
    if s.buf ≠ [] then
      some { s with got := s.got ++ s.buf.take n, buf := s.buf.drop n }
    else if s.err = none then none
    else some { s with clean := s.clean || s.err = some .eof }
  | .take =>
    match s.chunks with
    | [] => none
    | c :: rest =>
      if s.buf = [] ∧ s.err = none then
        some { s with chunks := rest, buf := c.data, err := c.ending }
      else none
  | .giveUp =>
    if s.buf = [] ∧ s.err = none then some { s with err := some .failed }
    else none
  | .expire => some { s with expired := true }
  | .close =>
    some { s with
      registered := false
      cancels := if s.registered ∧ (s.err = none ∨ s.err ≠ some .eof ∧ s.expired = false)
        then s.cancels + 1 else s.cancels }

/-! ## What a stream keeps -/

/-- The ending that the reader meets first, in its fields or in the channel. -/
def State.ahead (s : State) : Option Ending :=
  s.err.or (s.chunks.findSome? Chunk.ending)

/-- The bytes in the channel. -/
def State.queued (s : State) : List UInt8 :=
  s.chunks.flatMap Chunk.data

/-- What holds in every run.

* `whole`, `last`: as long as nothing is lost, the bytes are all there, and
  nothing comes after the EOF.
* `early`: there is no EOF before the peer has sent it, nor while the chunk that
  is delivered is lost.
* `told`, `room`: what is lost is reported.  There is room for the error, since
  only `DeliverChunk` puts chunks in. -/
structure Sound (s : State) : Prop where
  whole : s.lost = false → s.delivery = .idle ∧
    s.sent = s.got ++ s.buf ++ s.queued
  last : (s.err = some .eof → s.chunks = []) ∧
    ∀ c ∈ s.chunks.dropLast, c.ending ≠ some .eof
  early : s.closed = false ∨ s.delivery ≠ .idle → s.err ≠ some .eof ∧
    ∀ c ∈ s.chunks, c.ending ≠ some .eof
  told : s.lost = true → s.ahead ≠ some .eof ∧
    (s.delivery = .idle → s.registered = true → s.ahead = some .failed)
  room : s.chunks.length ≤ StreamBuffer ∧
    (s.delivery = .failing → s.chunks.length < StreamBuffer)
  clean : s.clean = true → s.err = some .eof ∧ s.buf = []

theorem sound_empty : Sound .empty where
  whole _ := ⟨rfl, rfl⟩
  last := ⟨nofun, nofun⟩
  early _ := ⟨nofun, nofun⟩
  told := nofun
  room := ⟨Nat.zero_le _, nofun⟩
  clean := nofun

section

variable {s s' : State}

theorem ahead_ne_eof (herr : s.err ≠ some .eof)
    (hchunks : ∀ c ∈ s.chunks, c.ending ≠ some .eof) :
    s.ahead ≠ some .eof := by
  intro hahead
  rcases or_eq_some_iff.1 hahead with h | ⟨-, h⟩
  · exact herr h
  · obtain ⟨c, hc, hending⟩ := exists_of_findSome?_eq_some h
    exact hchunks c hc hending

theorem Sound.accept (h : Sound s) (hidle : s.delivery = .idle) (hopen : s.closed = false) :
    Sound ({ s with sent := s.sent ++ data, closed := eof }.accept (.sent data eof)) := by
  obtain ⟨herr, hchunks⟩ := h.early (.inl hopen)
  have hahead := ahead_ne_eof herr hchunks
  unfold State.accept
  split
  · -- The call is over, and with it everything that is still to come.
    next hgone =>
    exact { h with
      whole := nofun
      early := fun _ => ⟨herr, hchunks⟩
      told := fun _ => ⟨hahead, by simp_all⟩ }
  · split
    · next hroom =>
      refine { h with
        whole := ?_, last := ⟨fun heof => absurd heof herr, ?_⟩
        early := ?_, told := ?_, room := ⟨?_, by simp [hidle]⟩ }
      · intro hlost
        obtain ⟨-, hsent⟩ := h.whole hlost
        simp [hidle, hsent, State.queued, Chunk.sent]
      · simpa using hchunks
      · intro hnot
        have heof : eof = false := by simpa [hidle] using hnot
        exact ⟨herr, Table.forall_concat hchunks (by simp [Chunk.sent, heof])⟩
      · intro hlost
        -- The error that is ahead stays the first one.
        have hfailed := (h.told hlost).2 hidle (by simp_all)
        have hstill : (s.err.or ((s.chunks ++ [Chunk.sent data eof]).findSome?
            Chunk.ending)) = some .failed := by
          rw [findSome?_append, ← Option.or_assoc]
          exact or_eq_some_iff.2 (.inl hfailed)
        exact ⟨fun heof => (nomatch hstill.symm.trans heof), fun _ _ => hstill⟩
      · rw [length_append]
        exact hroom
    · exact { h with
        whole := nofun
        early := fun _ => ⟨herr, hchunks⟩
        told := fun _ => ⟨hahead, nofun⟩
        room := ⟨h.room.1, nofun⟩ }

/-- The error takes the place of the chunks that were lost. -/
theorem Sound.fail (h : Sound s) (hfailing : s.delivery = .failing) :
    Sound { s with
      delivery := .idle
      chunks := if s.chunks.length < StreamBuffer then
        s.chunks ++ [.tooSlow] else s.chunks } := by
  have hbusy : s.delivery ≠ .idle := by simp [hfailing]
  obtain ⟨herr, hchunks⟩ := h.early (.inr hbusy)
  have hroom := h.room.2 hfailing
  have hno : ∀ c ∈ s.chunks ++ [Chunk.tooSlow], c.ending ≠ some .eof :=
    Table.forall_concat hchunks (by simp [Chunk.tooSlow])
  rw [if_pos hroom]
  refine { h with
    whole := fun hlost => absurd (h.whole hlost).1 hbusy
    last := ⟨fun heof => absurd heof herr, by simpa using hchunks⟩
    early := fun _ => ⟨herr, hno⟩
    told := fun _ => ⟨ahead_ne_eof herr hno, fun _ _ => ?_⟩
    room := ⟨by rw [length_append]; exact hroom, nofun⟩ }
  show s.err.or ((s.chunks ++ [Chunk.tooSlow]).findSome? Chunk.ending) = _
  rw [findSome?_append, ← Option.or_assoc]
  show s.ahead.or (some .failed) = _
  cases hahead : s.ahead with
  | none => rfl
  | some e =>
    cases e with
    | eof => exact absurd hahead (ahead_ne_eof herr hchunks)
    | failed => rfl

theorem Sound.step (happly : s.apply a = some s') (h : Sound s) : Sound s' := by
  cases a with
  | deliver data eof =>
    obtain ⟨⟨hidle, hopen⟩, rfl⟩ := of_guard happly
    exact h.accept hidle hopen
  | shed =>
    obtain ⟨hshedding, rfl⟩ := of_guard happly
    have hbusy : s.delivery ≠ .idle := by simp [hshedding]
    obtain ⟨herr, hchunks⟩ := h.early (.inr hbusy)
    have htail : ∀ c ∈ s.chunks.tail, c.ending ≠ some .eof :=
      fun c hc => hchunks c (mem_of_mem_tail hc)
    refine { h with
      whole := fun hlost => absurd (h.whole hlost).1 hbusy
      last := ⟨fun heof => absurd heof herr, fun c hc => htail c (dropLast_subset _ hc)⟩
      early := fun _ => ⟨herr, htail⟩
      told := fun _ => ⟨ahead_ne_eof herr htail, nofun⟩
      room := ?_ }
    have hroom := h.room.1
    simp only [length_tail, StreamBuffer] at hroom ⊢
    omega
  | fail =>
    obtain ⟨hfailing, rfl⟩ := of_guard happly
    exact h.fail hfailing
  | read n =>
    simp only [State.apply] at happly
    split at happly
    · next hbuf =>
      cases happly
      refine { h with whole := ?_, clean := fun hclean => ?_ }
      · intro hlost
        obtain ⟨hidle, hsent⟩ := h.whole hlost
        exact ⟨hidle, by simpa [State.queued] using hsent⟩
      · exact absurd (h.clean hclean).2 hbuf
    · next hbuf =>
      split at happly
      · cases happly
      · cases happly
        refine { h with clean := fun hclean => ?_ }
        have hbuf : s.buf = [] := not_not.1 hbuf
        rcases Bool.or_eq_true_iff.1 hclean with hold | hnew
        · exact h.clean hold
        · exact ⟨of_decide_eq_true hnew, hbuf⟩
  | take =>
    simp only [State.apply] at happly
    split at happly
    · cases happly
    · next c rest hchunks =>
      obtain ⟨⟨hbuf, herr⟩, rfl⟩ := of_guard happly
      have hlast := h.last.2
      have hearly := h.early
      have hroom := h.room
      -- What was ahead in the channel is now ahead in the fields.
      have hahead : s.ahead = c.ending.or (rest.findSome? Chunk.ending) := by
        rw [State.ahead, herr, hchunks, none_or, findSome?_cons]
        cases c.ending <;> rfl
      rw [hchunks] at hlast hearly hroom
      refine { h with
        whole := ?_, last := ⟨?_, ?_⟩, early := ?_, told := ?_, room := ?_
        clean := fun hclean => absurd (h.clean hclean).1 (by simp [herr]) }
      · intro hlost
        obtain ⟨hidle, hsent⟩ := h.whole hlost
        refine ⟨hidle, ?_⟩
        simpa [State.queued, hchunks, hbuf] using hsent
      · intro heof
        cases rest with
        | nil => rfl
        | cons c' rest => exact absurd heof (hlast c mem_cons_self)
      · intro c' hc'
        refine hlast c' ?_
        cases rest with
        | nil => cases hc'
        | cons c'' rest => exact mem_cons_of_mem _ hc'
      · intro hnot
        have hno := (hearly hnot).2
        exact ⟨hno c mem_cons_self, fun c' hc' => hno c' (mem_cons_of_mem _ hc')⟩
      · intro hlost
        have htold := h.told hlost
        rw [hahead] at htold
        exact htold
      · simp only [length_cons] at hroom
        show rest.length ≤ _ ∧ (s.delivery = _ → rest.length < _)
        omega
  | giveUp =>
    obtain ⟨⟨hbuf, herr⟩, rfl⟩ := of_guard happly
    exact { h with
      last := ⟨nofun, h.last.2⟩
      early := fun hnot => ⟨nofun, (h.early hnot).2⟩
      told := fun _ => ⟨nofun, fun _ _ => rfl⟩
      clean := fun hclean => absurd (h.clean hclean).1 (by simp [herr]) }
  | expire =>
    cases happly
    exact { h with }
  | close =>
    cases happly
    exact { h with told := fun hlost => ⟨(h.told hlost).1, nofun⟩ }

end

/-- If `Read` has returned `io.EOF`, it has returned all data that the peer has
sent, and no chunk was lost. -/
theorem clean_end_is_complete (s : State)
    (h : Machine.Reaches State.apply (fun _ _ => True) .empty s)
    (hclean : s.clean = true) :
    s.closed = true ∧ s.got = s.sent ∧ s.lost = false := by
  have hs : Sound s :=
    h.invariant (fun _ _ _ _ happly hs => hs.step happly) sound_empty
  obtain ⟨heof, hbuf⟩ := hs.clean hclean
  have hahead : s.ahead = some .eof := by rw [State.ahead, heof]; rfl
  have hlost : s.lost = false :=
    Bool.eq_false_iff.2 fun hlost => (hs.told hlost).1 hahead
  refine ⟨?_, ?_, hlost⟩
  · refine Bool.not_eq_false _ |>.mp fun hopen => ?_
    exact (hs.early (.inl hopen)).1 heof
  · have hsent := (hs.whole hlost).2
    rw [hbuf, State.queued, hs.last.1 heof] at hsent
    simpa using hsent.symm

/-- Two chunks and the EOF, read in pieces while they arrive. -/
def inPieces : List Action :=
  [.deliver [1, 2, 3] false, .take, .read 2, .deliver [4] false, .read 2, .take,
    .read 9, .deliver [] true, .take, .read 1]

theorem clean_end_is_complete_inPieces :
    ∃ s, Machine.Reaches State.apply (fun _ _ => True) .empty s ∧
      s.clean = true ∧ s.got = [1, 2, 3, 4] ∧ s.got = s.sent := by
  have hrun : (run State.apply inPieces .empty).any
      (fun s => s.clean && s.got = [1, 2, 3, 4]) = true := by decide +kernel
  obtain ⟨s, hs, hlast⟩ := (any_eq_true _ _).1 hrun
  obtain ⟨hclean, hgot⟩ := Bool.and_eq_true_iff.1 hlast
  have hreaches := Machine.Reaches.of_run hs runMay_true
  exact ⟨s, hreaches, hclean, of_decide_eq_true hgot,
    (clean_end_is_complete s hreaches hclean).2.1⟩

end Akerdock.Agent.Streams
