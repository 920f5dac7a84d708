import Akerdock.Agent.Streams

/-!
# The reader of a stream

`stream.Read` and `stream.Close` of `internal/agentwire/conn.go` against a peer
that may send any chunks: `Session` is the stream of `Akerdock.Agent.Streams`,
with the connection and with what `Close` infers from the last error.

* `read_prefix` has the condition under which a slow reader sees a prefix of
  what was sent, and `middle_lost` is a run in which a chunk is shed in front of
  others.
* `close_cancels_iff` says when an abandoned command is cancelled.
  `context_forgotten` is the run that the log follower of a deployment takes:
  its context ends, `Read` returns, and it closes the stream.
-/

namespace Akerdock.Agent.Readers

open Streams List Machine Option

/-- A stream and its connection.

* `up` says that the connection is there.
* `read` says that the last chunk, with EOF or an error, was taken by `Read`.
* `quit` says that `Read` has returned the error of the caller's context. -/
structure Session where
  stream : State
  up : Bool
  read : Bool
  quit : Bool

def Session.empty : Session := ⟨.empty, true, false, false⟩

/-- The steps.

* `arrive` is `DeliverChunk`, for any chunk.
* `context` and `connection` are the `Read`s that find the context of the caller
  or the connection over, and `disconnect` is the end of the connection.
* `own` are the other steps of the stream. -/
inductive Act where
  | arrive (c : Chunk)
  | context
  | connection
  | disconnect
  | own (a : Action)
  deriving DecidableEq

/-- What a step does to the stream. -/
def Session.next (x : Session) : Act → Option State
  | .arrive c =>
    if x.stream.delivery = .idle then
      some ({ x.stream with sent := x.stream.sent ++ c.data }.accept c)
    else none
  | .context => if x.stream.expired then x.stream.apply .giveUp else none
  | .connection => if x.up then none else x.stream.apply .giveUp
  | .disconnect => some x.stream
  | .own a => if a = .giveUp then none else x.stream.apply a

def Session.apply (a : Act) (x : Session) : Option Session :=
  (x.next a).map fun s => ⟨s, x.up && a ≠ .disconnect,
    x.read || (a = .own .take && s.err.isSome), x.quit || a = .context⟩

/-! ## What is read -/

/-- The bytes of the chunks up to the first one that ends the stream. -/
def upTo : List Chunk → List UInt8
  | [] => []
  | c :: rest => c.data ++ if c.ending = none then upTo rest else []

/-- The bytes that `Read` is going to return before its error. -/
def pending (s : State) : List UInt8 :=
  s.buf ++ if s.err = none then upTo s.chunks else []

/-- A chunk is shed only if it is empty, or if no bytes are left behind it. -/
def Spared (a : Act) (x : Session) : Prop :=
  a = .own .shed → x.stream.err = none →
    x.stream.chunks.head? = some ⟨[], none⟩ ∨ upTo x.stream.chunks.tail = []

instance (a : Act) (x : Session) : Decidable (Spared a x) := by
  unfold Spared
  infer_instance

theorem upTo_concat : upTo (l ++ [c]) =
    upTo l ++ if ∀ c ∈ l, Chunk.ending c = none then c.data else [] := by
  induction l with
  | nil => simp [upTo]
  | cons c' l ih =>
    by_cases hnone : c'.ending = none
    · simp [upTo, hnone, ih]
    · simp [upTo, hnone]

/-- Nothing ends the stream so far. -/
def Open (s : State) : Prop :=
  s.registered = true ∧ s.delivery = .idle ∧ s.err = none ∧ ∀ c ∈ s.chunks, c.ending = none

/-- What holds in every run that spares the chunks: what is read comes first, and
while nothing ends the stream, it is all. -/
structure Kept (s : State) : Prop where
  front : ∃ rest, s.got ++ pending s ++ rest = s.sent ∧ (Open s → rest = [])
  room : s.chunks.length ≤ StreamBuffer ∧
    (s.delivery = .failing → s.chunks.length < StreamBuffer)

theorem Kept.accept (h : Kept s) (hidle : s.delivery = .idle) (c : Chunk) :
    Kept ({ s with sent := s.sent ++ c.data }.accept c) := by
  obtain ⟨rest, hsent, hrest⟩ := h.front
  have hmore : s.got ++ pending s ++ (rest ++ c.data) = s.sent ++ c.data := by
    rw [← append_assoc, hsent]
  unfold State.accept
  split
  · next hgone => exact ⟨⟨_, hmore, fun hopen => absurd hopen.1 (by simp_all)⟩, h.room⟩
  · next hregistered =>
    split
    · next hroom =>
      refine ⟨?_, ?_, by simp [hidle]⟩
      · by_cases hopen : Open s
        · refine ⟨[], ?_, fun _ => rfl⟩
          simp [pending, upTo_concat, hopen.2.2.1, if_pos hopen.2.2.2, ← hsent, hrest hopen]
        · refine ⟨rest ++ c.data, ?_, fun hopen' => absurd ⟨hopen'.1, hidle, hopen'.2.2.1,
            fun c hc => hopen'.2.2.2 c (mem_append_left _ hc)⟩ hopen⟩
          -- The stream ends before the new chunk.
          rw [← hmore]
          have hended : s.err = none → ¬∀ c ∈ s.chunks, c.ending = none :=
            fun herr hnone => hopen ⟨by simpa using hregistered, hidle, herr, hnone⟩
          by_cases herr : s.err = none
          · simp [pending, herr, upTo_concat, if_neg (hended herr)]
          · simp [pending, herr]
      · rw [length_append]
        exact hroom
    · exact ⟨⟨_, hmore, fun hopen => (nomatch hopen.2.1)⟩, h.room.1, nofun⟩

theorem Kept.shed (h : Kept s) (hspared : s.err = none →
      s.chunks.head? = some ⟨[], none⟩ ∨ upTo s.chunks.tail = []) :
    Kept { s with chunks := s.chunks.tail, delivery := .failing } := by
  obtain ⟨rest, hsent, -⟩ := h.front
  have hroom := h.room.1
  have hfront : ∃ gone, pending s = pending { s with chunks := s.chunks.tail } ++ gone := by
    by_cases herr : s.err = none
    · rcases hspared herr with hempty | hnone
      · obtain ⟨rest, hchunks⟩ := head?_eq_some_iff.1 hempty
        exact ⟨[], by simp [pending, herr, hchunks, upTo]⟩
      · exact ⟨upTo s.chunks, by simp [pending, herr, hnone]⟩
    · exact ⟨[], by simp [pending, herr]⟩
  obtain ⟨gone, hgone⟩ := hfront
  refine ⟨⟨gone ++ rest, ?_, fun hopen => (nomatch hopen.2.1)⟩, ?_⟩
  · rw [← hsent, hgone]
    simp [pending]
  · simp only [length_tail, StreamBuffer] at hroom ⊢
    omega

theorem Kept.fail (h : Kept s) (hfailing : s.delivery = .failing) :
    Kept { s with
      delivery := .idle
      chunks := if s.chunks.length < StreamBuffer then
        s.chunks ++ [.tooSlow] else s.chunks } := by
  obtain ⟨rest, hsent, -⟩ := h.front
  rw [if_pos (h.room.2 hfailing)]
  refine ⟨⟨rest, ?_, fun hopen => ?_⟩, ?_, nofun⟩
  · simpa [pending, upTo_concat, Chunk.tooSlow] using hsent
  · cases hopen.2.2.2 .tooSlow (mem_append_right _ mem_cons_self)
  · rw [length_append]
    exact h.room.2 hfailing

theorem Kept.stream (h : Kept s) (happly : s.apply a = some s')
    (hspared : a = .shed → s.err = none →
      s.chunks.head? = some ⟨[], none⟩ ∨ upTo s.chunks.tail = []) : Kept s' := by
  obtain ⟨rest, hsent, hrest⟩ := h.front
  cases a with
  | deliver data eof =>
    obtain ⟨⟨hidle, -⟩, rfl⟩ := of_guard happly
    exact Kept.accept (s := { s with closed := eof }) { h with } hidle (.sent data eof)
  | shed =>
    obtain ⟨-, rfl⟩ := of_guard happly
    exact h.shed (hspared rfl)
  | fail =>
    obtain ⟨hfailing, rfl⟩ := of_guard happly
    exact h.fail hfailing
  | read n =>
    simp only [State.apply] at happly
    split at happly
    · cases happly
      refine { h with front := ⟨rest, ?_, hrest⟩ }
      rw [← hsent]
      simp [pending, ← append_assoc (s.buf.take n)]
    · split at happly
      · cases happly
      · cases happly
        exact { h with }
  | take =>
    simp only [State.apply] at happly
    split at happly
    · cases happly
    · next c cs hchunks =>
      obtain ⟨⟨hbuf, herr⟩, rfl⟩ := of_guard happly
      have hroom := h.room
      refine ⟨⟨rest, ?_, fun hopen => hrest ⟨hopen.1, hopen.2.1, herr, ?_⟩⟩, ?_⟩
      · simpa [pending, hbuf, herr, hchunks, upTo] using hsent
      · rw [hchunks]
        exact forall_mem_cons.2 hopen.2.2
      · simp only [hchunks, length_cons] at hroom
        show cs.length ≤ _ ∧ (s.delivery = _ → cs.length < _)
        omega
  | giveUp =>
    obtain ⟨⟨hbuf, -⟩, rfl⟩ := of_guard happly
    refine { h with front := ⟨pending s ++ rest, ?_, (by rintro ⟨_, _, ⟨⟩, _⟩)⟩ }
    simpa [pending, hbuf] using hsent
  | expire =>
    cases happly
    exact { h with }
  | close =>
    cases happly
    exact { h with front := ⟨rest, hsent, (by rintro ⟨⟨⟩, _⟩)⟩ }

theorem Kept.step (hmay : Spared a x) (happly : x.apply a = some y)
    (h : Kept x.stream) : Kept y.stream := by
  obtain ⟨s, hs, rfl⟩ := map_eq_some_iff.1 happly
  cases a with
  | arrive c =>
    obtain ⟨hidle, rfl⟩ := of_guard hs
    exact h.accept hidle c
  | context =>
    obtain ⟨-, hs⟩ := ite_none_right_eq_some.1 hs
    exact h.stream hs nofun
  | connection =>
    obtain ⟨-, hs⟩ := ite_none_left_eq_some.1 hs
    exact h.stream hs nofun
  | disconnect =>
    cases hs
    exact h
  | own a =>
    obtain ⟨-, hs⟩ := ite_none_left_eq_some.1 hs
    exact h.stream hs fun ha => hmay (congrArg Act.own ha)

/-- If no chunk is shed in front of others, the bytes that `Read` returns are a
prefix of those that were sent. -/
theorem read_prefix (h : Reaches Session.apply Spared .empty x) :
    x.stream.got <+: x.stream.sent := by
  have hkept : Kept x.stream :=
    h.invariant (I := fun x => Kept x.stream)
      (fun _ _ _ hmay happly hx => hx.step hmay happly)
      ⟨⟨[], rfl, fun _ => rfl⟩, by decide, nofun⟩
  obtain ⟨rest, hsent, -⟩ := hkept.front
  exact ⟨pending x.stream ++ rest, by rw [← hsent, append_assoc]⟩

/-- The channel fills up after the first `Read`, and the chunk that is shed is
empty. -/
theorem read_prefix_overflow : ∃ x, Reaches Session.apply Spared .empty x ∧
    x.stream.got = [1, 2, 3] ∧ x.stream.got <+: x.stream.sent := by
  let l : List Act := [.arrive ⟨[1, 2], none⟩, .own .take, .own (.read 1), .arrive ⟨[], none⟩] ++
    replicate 512 (.arrive ⟨[3], none⟩) ++
      [.own .shed, .own .fail, .own (.read 1), .own .take, .own (.read 1)]
  have hrun : (run Session.apply l .empty).any (fun x => x.stream.got = [1, 2, 3]) = true := by
    decide +kernel
  obtain ⟨x, hx, hgot⟩ := (any_eq_true _ _).1 hrun
  have hreaches : Reaches Session.apply Spared .empty x := .of_run hx (by decide +kernel)
  exact ⟨x, hreaches, of_decide_eq_true hgot, read_prefix hreaches⟩

/-- The channel fills up before the first `Read`, and the next chunk takes the
place of the first one. -/
theorem middle_lost : ∃ x, Reaches Session.apply (fun _ _ => True) .empty x ∧
    x.stream.got = [1] ∧ ¬x.stream.got <+: x.stream.sent := by
  have hrun : (run Session.apply (.arrive ⟨[0], none⟩ ::
      replicate 512 (.arrive ⟨[1], none⟩) ++
        [.own .shed, .own .fail, .own .take, .own (.read 1)]) .empty).any
      (fun x => x.stream.got = [1] ∧ ¬x.stream.got <+: x.stream.sent) = true := by
    decide +kernel
  obtain ⟨x, hx, hgot⟩ := (any_eq_true _ _).1 hrun
  exact ⟨x, .of_run hx runMay_true, of_decide_eq_true hgot⟩

/-! ## What is cancelled -/

/-- While the connection is up, only the context of the caller makes an error
without a chunk. -/
structure Told (x : Session) : Prop where
  going : x.up = true → x.read = false → x.quit = false → x.stream.err = none
  quit : x.quit = true → x.stream.expired = true ∧ x.stream.err = some .failed

/-- Only a reader without an error gets one. -/
theorem err_of_apply (h : State.apply a s = some s') :
    (s'.err = s.err ∨ s.err = none ∧ (a = .take ∨ a = .giveUp)) ∧
      (s.expired = true → s'.expired = true) := by
  cases a <;> grind [State.apply, State.accept]

theorem Told.step (happly : x.apply a = some y) (h : Told x) : Told y := by
  obtain ⟨s, hs, rfl⟩ := map_eq_some_iff.1 happly
  have hgoing := h.going
  have hquit := h.quit
  cases a with
  | own a =>
    obtain ⟨hnot, hs⟩ := ite_none_left_eq_some.1 hs
    obtain ⟨herr | ⟨hnone, htake | hgive⟩, hexpired⟩ := err_of_apply hs
    · refine ⟨fun hup hread hquit => herr.trans (h.going ?_ ?_ ?_), fun hq => ?_⟩
      · simpa using hup
      · exact (Bool.or_eq_false_iff.1 hread).1
      · simpa using hquit
      · obtain ⟨hold, hfailed⟩ := h.quit (by simpa using hq)
        exact ⟨hexpired hold, herr.trans hfailed⟩
    · refine ⟨fun _ hread _ => ?_, fun hq => ?_⟩
      · simpa [htake] using (Bool.or_eq_false_iff.1 hread).2
      · cases hnone.symm.trans (h.quit (by simpa using hq)).2
    · exact absurd hgive hnot
  | _ => constructor <;> grind [Session.next, State.apply, State.accept]

/-- A stream that is closed on a connection that is up, before its last chunk was
read: the call is forgotten, and the command is cancelled exactly if `Read` has
not returned the error of the context, or the channel was full before. -/
theorem close_cancels_iff (h : Reaches Session.apply (fun _ _ => True) .empty x)
    (hup : x.up = true) (hread : x.read = false)
    (hopen : x.stream.registered = true) (hclose : x.apply (.own .close) = some y) :
    y.stream.registered = false ∧
      (0 < y.stream.cancels ↔ x.quit = false ∨ 0 < x.stream.cancels) := by
  have htold : Told x :=
    h.invariant (fun _ _ _ _ happly hx => hx.step happly) ⟨fun _ _ _ => rfl, nofun⟩
  cases hclose
  refine ⟨rfl, ?_⟩
  cases hquit : x.quit with
  | false => simp [hopen, htold.going hup hread hquit]
  | true =>
    obtain ⟨hexpired, herr⟩ := htold.quit hquit
    simp [hexpired, herr]

/-- A reader that stops in the middle of a chunk. -/
theorem close_cancels_iff_middle : ∃ x y,
    Reaches Session.apply (fun _ _ => True) .empty x ∧ x.stream.got = [1] ∧
      x.stream.buf = [2] ∧ x.apply (.own .close) = some y ∧ 0 < y.stream.cancels := by
  have hreaches : Reaches Session.apply (fun _ _ => True) .empty _ :=
    .of_run (l := [.arrive ⟨[1, 2], none⟩, .own .take, .own (.read 1)]) rfl runMay_true
  exact ⟨_, _, hreaches, rfl, rfl, rfl,
    (close_cancels_iff hreaches rfl rfl rfl rfl).2.2 (.inl rfl)⟩

/-- The context of the follower ends, `Read` returns its error, and `Close` takes
the command for finished. -/
theorem context_forgotten : ∃ x y,
    Reaches Session.apply (fun _ _ => True) .empty x ∧ x.up = true ∧
      x.read = false ∧ x.stream.registered = true ∧
      x.apply (.own .close) = some y ∧ y.stream.cancels = 0 :=
  ⟨_, _, .of_run (l := [.own .expire, .context]) rfl runMay_true, rfl, rfl, rfl,
    rfl, rfl⟩

end Akerdock.Agent.Readers
