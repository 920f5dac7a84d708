import Akerdock.Lib.Pool
import Akerdock.Lib.Aead

/-!
# Idempotency keys

`internal/httpapi/idempotency.go`: the requests of one team to one endpoint with
one `Idempotency-Key`.  The first of them inserts the row of the key and runs
the handler; the others find the row.

* `Handler` is the middleware as a program over the statements of
  `db/queries/idempotency.sql` and the handler behind it.  A process that dies
  is a request that crashes, and any number of requests run side by side.
* `Contract` is what the trace of a run is supposed to say: `once`, `replayed`,
  `refused` and `retried`.  `Kept` is what it does say in every run.
* The row of a request that ends with an error stays behind without a response,
  so `retried` fails; and what is recorded is not always the response.
  `contract_kept` has the condition for both.
-/

namespace Akerdock.HttpApi

open Crypto (Bytes)
open Proc List Function Pool

/-! ## Requests and rows -/

/-- A request, as far as the middleware looks at it.  A query has no line
break. -/
structure Request where
  query : Bytes
  body : Bytes
  oneLine : 10 ∉ query

structure Response where
  status : Nat
  body : Bytes
  deriving DecidableEq

/-- The response is a success, which is what can be replayed. -/
def Response.success (r : Response) : Bool :=
  200 ≤ r.status && r.status < 300

/-- The hash of a request, as the text that it is the hash of. -/
def requestHash (req : Request) : Bytes :=
  req.query ++ [10] ++ req.body

structure KeyRow where
  requestHash : Bytes
  completed : Option Response

theorem requestHash_inj (h : requestHash r = requestHash r') : r = r' := by
  have hsplit : ∀ {q q' b b' : Bytes}, 10 ∉ q → 10 ∉ q' →
      q ++ 10 :: b = q' ++ 10 :: b' → q = q' ∧ b = b' := by
    intro q
    induction q with
    | nil =>
      intro q' b b' _ hq' h
      cases q' with
      | nil => exact ⟨rfl, (cons.inj h).2⟩
      | cons c q' =>
        have hc : 10 = c := (cons.inj h).1
        exact absurd (by simp [hc]) hq'
    | cons c q ih =>
      intro q' b b' hq hq' h
      cases q' with
      | nil =>
        have hc : c = 10 := (cons.inj h).1
        exact absurd (by simp [hc]) hq
      | cons c' q' =>
        obtain ⟨hc, htail⟩ := cons.inj h
        have := ih (fun hm => hq (mem_cons_of_mem _ hm))
          (fun hm => hq' (mem_cons_of_mem _ hm)) htail
        exact ⟨by rw [hc, this.1], this.2⟩
  obtain ⟨q, b, hq⟩ := r
  obtain ⟨q', b', hq'⟩ := r'
  simp only [requestHash, append_assoc, singleton_append] at h
  obtain ⟨rfl, rfl⟩ := hsplit hq hq' h
  rfl

/-! ## The middleware -/

inductive KeyCall where
  | claimIdempotencyKey (req : Request)
  | serveHTTP (req : Request)
  | completeIdempotencyKey (r : Response)

/-- The answers: the row and whether it is new; the response of the handler;
whether the row was completed. -/
def KeyAns : KeyCall → Type
  | .claimIdempotencyKey _ => KeyRow × Bool
  | .serveHTTP _ => Response
  | .completeIdempotencyKey _ => Bool

/-- What a request is answered. -/
inductive Reply where
  | answered (r : Response)
  | replayed (r : Response)
  | conflict
  | inProgress
  deriving DecidableEq

def Handler (req : Request) : Prog KeyAns Reply :=
  .call (.claimIdempotencyKey req) fun (row : KeyRow × Bool) =>
    if row.2 then .call (.serveHTTP req) fun (rec : Response) =>
      if rec.success then .call (.completeIdempotencyKey rec) fun _ =>
        .ret (.answered rec)
      else .ret (.answered rec)
    else if row.1.requestHash ≠ requestHash req then .ret .conflict
    else
      match row.1.completed with
      | some r => .ret (.replayed r)
      | none => .ret .inProgress

/-- What the handler answers, and whether the row can be completed. -/
structure Served where
  response : Response
  recorded : Bool

section System

variable (jsonb : Bytes → Option Bytes)

/-- `complete`: what the row holds of a response.  `jsonb` is what the column
gives back for a JSON text; a body that is none is replaced. -/
def stored (r : Response) : Response :=
  ⟨r.status, (jsonb r.body).getD [123, 125]⟩

def KeyCall.act : (c : KeyCall) → Served → Option KeyRow → KeyAns c × Option KeyRow
  | .claimIdempotencyKey req, _, none =>
    ((⟨requestHash req, none⟩, true), some ⟨requestHash req, none⟩)
  | .claimIdempotencyKey _, _, some row => ((row, false), some row)
  | .serveHTTP _, o, s => (o.response, s)
  | .completeIdempotencyKey r, o, s =>
    if o.recorded then
      (true, s.map fun row => { row with completed := some (stored jsonb r) })
    else (false, s)

def keySystem : System KeyAns Served (Option KeyRow) where
  sem := KeyCall.act jsonb
  ok _ _ _ := True
  rely := (· = ·)

/-- The requests with the query `q`. -/
def requests (q : Bytes) : Pool (keySystem jsonb) Reply where
  spawn s p s' := s = s' ∧ ∃ req : Request, req.query = q ∧ p = Handler req

end System

/-- The trace of a run, newest event first. -/
abbrev Trace := List (Event KeyAns Reply)

/-! ## The contract -/

def recorded : Trace → List (Nat × Response)
  | [] => []
  | .called k (.completeIdempotencyKey r) done :: t =>
    if (show Bool from done) then (k, r) :: recorded t else recorded t
  | _ :: t => recorded t

/-- The request `req` of the process `k` claimed the key, and was the first to
do so if `isNew`. -/
def Claimed (t : Trace) (k : Nat) (req : Request) (isNew : Bool) : Prop :=
  ∃ row, Event.called k (.claimIdempotencyKey req) (row, isNew) ∈ t

structure Right (old : Trace) (req : Request) (reply : Reply) : Prop where
  /-- A response that is recorded is replayed. -/
  replayed : ∀ k r first, (k, r) ∈ recorded old → Claimed old k first true →
    req.body = first.body → reply = .replayed r
  /-- Another body is refused. -/
  refused : ∀ k first, Claimed old k first true → req.body ≠ first.body →
    reply = .conflict
  /-- After an error the handler runs again. -/
  retried : ∀ k first r, Claimed old k first true →
    Event.ended k (.answered r) ∈ old → r.success = false →
    recorded old = [] → req.body = first.body → ∃ r', reply = .answered r'

structure Contract (t : Trace) : Prop where
  once : (recorded t).length ≤ 1
  right : ∀ new old k req ans reply,
    t = new ++ Event.called k (.claimIdempotencyKey req) ans :: old →
    Event.ended k reply ∈ new → Right old req reply

/-- What a request is answered that finds the row, after the events `old`. -/
structure Answer (jsonb : Bytes → Option Bytes) (old : Trace) (req : Request) (reply : Reply) :
    Prop where
  /-- What the row holds of a recorded response is replayed. -/
  replayed : ∀ k r first, (k, r) ∈ recorded old → Claimed old k first true →
    req.body = first.body → reply = .replayed (stored jsonb r)
  /-- Another body is refused. -/
  refused : ∀ k first, Claimed old k first true → req.body ≠ first.body →
    reply = .conflict
  /-- Until a response is recorded, the first request passes for unfinished. -/
  unfinished : ∀ k first, Claimed old k first true → recorded old = [] →
    req.body = first.body → reply = .inProgress

structure Kept (jsonb : Bytes → Option Bytes) (t : Trace) : Prop where
  once : (recorded t).length ≤ 1
  right : ∀ new old k req ans reply,
    t = new ++ Event.called k (.claimIdempotencyKey req) ans :: old →
    Event.ended k reply ∈ new → Answer jsonb old req reply

/-- A request after the events `old` finds neither a recorded response that the
row does not give back as it was, nor that the first one ended with an error. -/
def Fortunate (jsonb : Bytes → Option Bytes) (old : Trace) (req : Request) : Prop :=
  ∀ k first, Claimed old k first true → req.body = first.body →
    (∀ r, (k, r) ∈ recorded old → stored jsonb r = r) ∧
    (recorded old = [] → ∀ r, Event.ended k (.answered r) ∈ old → r.success = true)

theorem Answer.right_iff (h : Answer jsonb old req reply) :
    Right old req reply ↔ Fortunate jsonb old req := by
  constructor
  · intro hright k first hc hbody
    refine ⟨fun r hrec => ?_, fun hnone r hended => ?_⟩
    · exact Reply.replayed.inj ((h.replayed k r first hrec hc hbody).symm.trans
        (hright.replayed k r first hrec hc hbody))
    · by_contra hfail
      obtain ⟨r', hr'⟩ := hright.retried k first r hc hended (by simpa using hfail) hnone hbody
      cases (h.unfinished k first hc hnone hbody).symm.trans hr'
  · intro hgood
    refine ⟨fun k r first hrec hc hbody => ?_, h.refused,
      fun k first r hc hended hfail hnone hbody => ?_⟩
    · rw [h.replayed k r first hrec hc hbody, (hgood k first hc hbody).1 r hrec]
    · cases hfail.symm.trans ((hgood k first hc hbody).2 hnone r hended)

/-! ## Watching one request -/

/-- How far a request has come. -/
inductive Stage where
  | waiting (req : Request)
  | handling
  | finishing (r : Response)
  | replying (reply : Reply)

/-- What a request is answered that finds the row. -/
def verdict (row : KeyRow) (req : Request) : Reply :=
  if row.requestHash ≠ requestHash req then .conflict
  else
    match row.completed with
    | some r => .replayed r
    | none => .inProgress

def Stage.next : Stage → (c : KeyCall) → KeyAns c → Stage
  | _, .claimIdempotencyKey req, (row, isNew) =>
    if isNew then .handling else .replying (verdict row req)
  | _, .serveHTTP _, r =>
    if Response.success r then .finishing r else .replying (.answered r)
  | _, .completeIdempotencyKey r, _ => .replying (.answered r)

def Stage.calls : Stage → KeyCall → Prop
  | .waiting req, c => c = .claimIdempotencyKey req
  | .handling, c => ∃ req, c = .serveHTTP req
  | .finishing r, c => c = .completeIdempotencyKey r
  | .replying _, _ => False

def Stage.ends : Stage → Reply → Prop
  | .replying reply, reply' => reply' = reply
  | _, _ => False

theorem follows_Handler (req : Request) :
    Prog.Follows Stage.next Stage.calls Stage.ends (.waiting req) (Handler req) := by
  refine .call _ _ _ rfl ?_
  rintro ⟨row, isNew⟩
  cases isNew with
  | false =>
    show Prog.Follows _ _ _ (Stage.replying (verdict row req)) (if _ then _ else _)
    unfold verdict
    dsimp only
    split
    · exact .ret _ _ rfl
    · split <;> exact .ret _ _ rfl
  | true =>
    refine .call _ _ _ ⟨req, rfl⟩ ?_
    intro (r : Response)
    show Prog.Follows _ _ _ (if r.success = true then Stage.finishing r else
      Stage.replying (.answered r)) (if r.success = true then _ else _)
    split
    · exact .call _ _ _ rfl fun _ => .ret _ _ rfl
    · exact .ret _ _ rfl

/-- A process is between its claim and its reply, having inserted the row. -/
def Stage.busy : Stage → Bool
  | .handling | .finishing _ => true
  | _ => false

/-- The process `k` has a right reply in this stage, whatever happened since
its claim. -/
def Pledged (jsonb : Bytes → Option Bytes) (t : Trace) (k : Nat) : Stage → Prop
  | .waiting _ => ∀ e ∈ t, e.proc ≠ k
  | .replying reply => ∀ new old req ans,
      t = new ++ Event.called k (.claimIdempotencyKey req) ans :: old →
      Answer jsonb old req reply
  | _ => ∀ new old req ans reply,
      t = new ++ Event.called k (.claimIdempotencyKey req) ans :: old →
      Answer jsonb old req reply

/-! ## What is kept in every run -/

/-- What the row and the trace say about each other. -/
structure Row (jsonb : Bytes → Option Bytes) (s : Option KeyRow) (t : Trace) : Prop where
  empty : s = none → ∀ k req isNew, ¬Claimed t k req isNew
  creator : ∀ k req, Claimed t k req true →
    s.map KeyRow.requestHash = some (requestHash req)
  completed : ∀ k r, (k, r) ∈ recorded t →
    s.bind KeyRow.completed = some (stored jsonb r)
  pending : recorded t = [] → s.bind KeyRow.completed = none
  idle : s = none → recorded t = []

/-- What holds in every run.  All requests have the query `q`. -/
structure Good (jsonb : Bytes → Option Bytes) (q : Bytes)
    (m : Nat → Option Stage) (s : Option KeyRow) (t : Trace) : Prop where
  row : Row jsonb s t
  kept : Kept jsonb t
  pledged : ∀ k st, m k = some st → Pledged jsonb t k st
  single : ∀ k k' st st', m k = some st → m k' = some st' →
    st.busy = true → st'.busy = true → k = k'
  unrecorded : ∀ k st, m k = some st → st.busy = true →
    s ≠ none ∧ recorded t = []
  waits : ∀ k req, m k = some (.waiting req) → req.query = q
  queries : ∀ k req isNew, Claimed t k req isNew → req.query = q

variable {jsonb : Bytes → Option Bytes} {c : KeyCall} {t : Trace} {req : Request}
    {m : Nat → Option Stage} {s : Option KeyRow}

section Split

variable {t new old : Trace} {e : Event KeyAns Reply} {k : Nat}
  {req : Request} {ans : KeyAns (.claimIdempotencyKey req)}

theorem split_cons (h : e :: t = new ++ Event.called k (.claimIdempotencyKey req) ans :: old) :
    (new = [] ∧ e = .called k (.claimIdempotencyKey req) ans ∧ t = old) ∨
      ∃ new', new = e :: new' ∧
        t = new' ++ Event.called k (.claimIdempotencyKey req) ans :: old := by
  cases new with
  | nil =>
    obtain ⟨he, ht⟩ := cons.inj h
    exact .inl ⟨rfl, he, ht⟩
  | cons e' new' =>
    obtain ⟨he, ht⟩ := cons.inj h
    exact .inr ⟨new', by rw [he], ht⟩

/-- An event that is no claim of `k` leaves the pledges of `k` alone. -/
theorem Pledged.cons (h : Pledged jsonb t k st) (hproc : e.proc ≠ k) :
    Pledged jsonb (e :: t) k st := by
  have hsplit : ∀ {new old req ans},
      e :: t = new ++ Event.called k (.claimIdempotencyKey req) ans :: old →
      ∃ new', t = new' ++ Event.called k (.claimIdempotencyKey req) ans ::
        old := by
    intro new old req ans h
    rcases split_cons h with ⟨-, he, -⟩ | ⟨new', -, ht⟩
    · exact absurd (by rw [he]; rfl) hproc
    · exact ⟨new', ht⟩
  cases st with
  | waiting req =>
    exact forall_mem_cons.2 ⟨hproc, h⟩
  | replying reply =>
    intro new old req ans heq
    obtain ⟨new', ht⟩ := hsplit heq
    exact h new' old req ans ht
  | handling | finishing r =>
    intro new old req ans reply heq
    obtain ⟨new', ht⟩ := hsplit heq
    exact h new' old req ans reply ht

/-- An event has to be looked at if it is the end of a request. -/
theorem Kept.cons (h : Kept jsonb t) (honce : (recorded (e :: t)).length ≤ 1)
    (hright : ∀ new old k req ans reply, e = .ended k reply →
      t = new ++ Event.called k (.claimIdempotencyKey req) ans :: old →
      Answer jsonb old req reply) :
    Kept jsonb (e :: t) := by
  refine ⟨honce, ?_⟩
  intro new old k req ans reply heq hended
  rcases split_cons heq with ⟨hnil, -, -⟩ | ⟨new', hnew, ht⟩
  · rw [hnil] at hended
    cases hended
  · rw [hnew] at hended
    rcases mem_cons.1 hended with he | he
    · exact hright new' old k req ans reply he.symm ht
    · exact h.right new' old k req ans reply ht he

end Split

theorem claimed_cons_of_ne (he : ∀ row, e ≠ .called k (.claimIdempotencyKey req) (row, isNew)) :
    Claimed (e :: t) k req isNew ↔ Claimed t k req isNew := by
  constructor
  · intro h
    obtain ⟨row, hrow⟩ := h
    rcases mem_cons.1 hrow with hrow | hrow
    · exact absurd hrow.symm (he row)
    · exact ⟨row, hrow⟩
  · intro h
    obtain ⟨row, hrow⟩ := h
    exact ⟨row, mem_cons_of_mem _ hrow⟩

/-- The reply to a request that finds the row. -/
theorem verdict_answer (h : Good jsonb q m (some row) t) (hq : req.query = q) :
    Answer jsonb t req (verdict row req) := by
  have hsame : ∀ {k first}, Claimed t k first true →
      (req.body = first.body ↔ row.requestHash = requestHash req) := by
    intro k first hc
    have hrow : row.requestHash = requestHash first :=
      Option.some.inj (h.row.creator k first hc)
    have hquery := h.queries k first true hc
    rw [hrow]
    constructor
    · intro hb
      rw [requestHash, requestHash, hb, hq, hquery]
    · intro hh
      rw [requestHash_inj hh]
  refine ⟨?_, ?_, ?_⟩
  · intro k r first hrec hc hbody
    have hcompleted : row.completed = some (stored jsonb r) := h.row.completed k r hrec
    rw [verdict, if_neg (not_not.2 ((hsame hc).1 hbody)), hcompleted]
  · intro k first hc hbody
    have hne : row.requestHash ≠ requestHash req :=
      fun hh => hbody ((hsame hc).2 hh)
    rw [verdict, if_pos hne]
  · intro k first hc hnone hbody
    have hcompleted : row.completed = none := h.row.pending hnone
    rw [verdict, if_neg (not_not.2 ((hsame hc).1 hbody)), hcompleted]

section Steps

variable {q : Bytes} {m : Nat → Option Stage} {s : Option KeyRow} {t : Trace} {k : Nat}
  {st : Stage}

theorem update_cases (h : update m k (some st') i = some x) :
    i = k ∧ x = st' ∨ i ≠ k ∧ m i = some x := by
  by_cases hi : i = k
  · rw [hi, update_self] at h
    exact .inl ⟨hi, (Option.some.inj h).symm⟩
  · rw [update_of_ne hi] at h
    exact .inr ⟨hi, h⟩

theorem Good.called (h : Good jsonb q m s t) (hst : m k = some st)
    (hrow : Row jsonb s' (.called k c a :: t))
    (honce : (recorded (.called k c a :: t)).length ≤ 1)
    (hpledged : Pledged jsonb (.called k c a :: t) k st')
    (hbusy : st'.busy = true → (st.busy = true ∨ s = none) ∧
      s' ≠ none ∧ recorded (.called k c a :: t) = [])
    (hothers : st.busy = true ∨
      (s ≠ none → s' ≠ none ∧ recorded (.called k c a :: t) = recorded t))
    (hwaits : ∀ req, st' ≠ .waiting req)
    (hquery : ∀ j req isNew, Claimed (.called k c a :: t) j req isNew → req.query = q) :
    Good jsonb q (update m k (some st')) s' (.called k c a :: t) := by
  -- Another request that is busy excludes that this one is or becomes so.
  have hother : ∀ i x, i ≠ k → m i = some x → x.busy = true →
      st.busy = false ∧ s ≠ none ∧ recorded t = [] := by
    intro i x hik hi hx
    refine ⟨?_, h.unrecorded i x hi hx⟩
    by_contra hb
    exact hik (h.single i k x st hi hst hx (by simpa using hb))
  refine ⟨hrow, h.kept.cons honce (by simp), ?_, ?_, ?_, ?_, hquery⟩
  · intro i x hi
    rcases update_cases hi with ⟨rfl, rfl⟩ | ⟨hik, hi⟩
    · exact hpledged
    · exact (h.pledged i x hi).cons fun hk => hik hk.symm
  · intro i j x y hi hj hx hy
    have hnot : ∀ {i x}, i ≠ k → m i = some x → x.busy = true → st'.busy = true → False := by
      intro i x hik hi hx hst'
      obtain ⟨hb, hs, -⟩ := hother i x hik hi hx
      rcases (hbusy hst').1 with hb' | hs'
      · cases hb.symm.trans hb'
      · exact hs hs'
    rcases update_cases hi with ⟨hik, hxst⟩ | ⟨hik, hi'⟩ <;>
      rcases update_cases hj with ⟨hjk, hyst⟩ | ⟨hjk, hj'⟩
    · rw [hik, hjk]
    · exact (hnot hjk hj' hy (hxst ▸ hx)).elim
    · exact (hnot hik hi' hx (hyst ▸ hy)).elim
    · exact h.single i j x y hi' hj' hx hy
  · intro i x hi hx
    rcases update_cases hi with ⟨rfl, rfl⟩ | ⟨hik, hi⟩
    · exact (hbusy hx).2
    · obtain ⟨hb, hs, hrec⟩ := hother i x hik hi hx
      rcases hothers with hb' | hsame
      · cases hb.symm.trans hb'
      · obtain ⟨hs', hrec'⟩ := hsame hs
        exact ⟨hs', hrec'.trans hrec⟩
  · intro i req hi
    rcases update_cases hi with ⟨rfl, hx⟩ | ⟨-, hi⟩
    · exact absurd hx.symm (hwaits req)
    · exact h.waits i req hi

/-- The claims of a trace after a call that is none. -/
theorem claimed_called (hc : ∀ req, c ≠ .claimIdempotencyKey req) :
    Claimed (.called k c a :: t) j req isNew ↔ Claimed t j req isNew := by
  refine claimed_cons_of_ne ?_
  intro row he
  exact hc req (Event.called.inj he).2.1

theorem Row.called (h : Row jsonb s t) (hc : ∀ req, c ≠ .claimIdempotencyKey req)
    (hrec : recorded (.called k c a :: t) = recorded t) :
    Row jsonb s (.called k c a :: t) := by
  refine ⟨?_, ?_, ?_, by rw [hrec]; exact h.pending, ?_⟩
  · intro hs j req isNew hj
    exact h.empty hs j req isNew ((claimed_called hc).1 hj)
  · intro j req hj
    exact h.creator j req ((claimed_called hc).1 hj)
  · intro j r hj
    rw [hrec] at hj
    exact h.completed j r hj
  · intro hs
    rw [hrec]
    exact h.idle hs

theorem Good.claimed_new (h : Good jsonb q m none t) (hst : m k = some (.waiting req)) :
    Good jsonb q (update m k (some .handling))
      (some ⟨requestHash req, none⟩)
      (.called k (.claimIdempotencyKey req) (⟨requestHash req, none⟩, true) :: t) := by
  have hnone := h.row.empty rfl
  have hrec : recorded t = [] := h.row.idle rfl
  have hclaimed : ∀ {j first isNew}, Claimed (.called k
      (.claimIdempotencyKey req) (⟨requestHash req, none⟩, true) :: t)
      j first isNew → first = req := by
    intro j first isNew hc
    obtain ⟨row, hrow⟩ := hc
    rcases mem_cons.1 hrow with he | hrow
    · exact (KeyCall.claimIdempotencyKey.inj (Event.called.inj he).2.1)
    · exact absurd ⟨row, hrow⟩ (hnone j first isNew)
  refine h.called hst ?_ (by simp [recorded, hrec]) ?_ ?_ ?_ (by simp) ?_
  · refine ⟨by simp, ?_, by simp [recorded, hrec], fun _ => rfl, by simp⟩
    intro j first hc
    rw [hclaimed hc]
    rfl
  · -- Nobody claimed the key before, so nothing is asked of the reply.
    intro new old req' ans reply heq
    rcases split_cons heq with ⟨-, -, hold⟩ | ⟨new', -, ht⟩
    · rw [← hold]
      exact ⟨fun j r first _ hc => absurd hc (hnone j first true),
        fun j first hc => absurd hc (hnone j first true),
        fun j first hc => absurd hc (hnone j first true)⟩
    · have hmem : Event.called k (.claimIdempotencyKey req') ans ∈ t := by simp [ht]
      exact absurd rfl (h.pledged k _ hst _ hmem)
  · exact fun _ => ⟨.inr rfl, by simp, by simp [recorded, hrec]⟩
  · exact .inr fun hs => absurd rfl hs
  · intro j first isNew hc
    rw [hclaimed hc]
    exact h.waits k req hst

/-- A later request finds the row. -/
theorem Good.claimed_old {row : KeyRow} (h : Good jsonb q m (some row) t)
    (hst : m k = some (.waiting req)) :
    Good jsonb q (update m k (some (.replying (verdict row req))))
      (some row)
      (.called k (.claimIdempotencyKey req) (row, false) :: t) := by
  have hq := h.waits k req hst
  have hclaimed : ∀ {j first}, Claimed (.called k
      (.claimIdempotencyKey req) (row, false) :: t) j first true →
      Claimed t j first true := by
    intro j first hc
    obtain ⟨row', hrow⟩ := hc
    rcases mem_cons.1 hrow with he | hrow
    · obtain ⟨-, hreq, hans⟩ := Event.called.inj he
      exact absurd (congrArg Prod.snd (eq_of_heq hans)) (by simp)
    · exact ⟨row', hrow⟩
  refine h.called hst ?_ h.kept.once ?_ (by simp [Stage.busy])
    (.inr fun hs => ⟨hs, rfl⟩) (by simp) ?_
  · exact ⟨by simp, fun j first hc => h.row.creator j first (hclaimed hc), h.row.completed,
      h.row.pending, by simp⟩
  · intro new old req' ans heq
    rcases split_cons heq with ⟨-, he, hold⟩ | ⟨new', -, ht⟩
    · obtain rfl := KeyCall.claimIdempotencyKey.inj (Event.called.inj he).2.1
      rw [← hold]
      exact verdict_answer h hq
    · have hmem : Event.called k (.claimIdempotencyKey req') ans ∈ t := by simp [ht]
      exact absurd rfl (h.pledged k _ hst _ hmem)
  · intro j first isNew hc
    obtain ⟨row', hrow⟩ := hc
    rcases mem_cons.1 hrow with he | hrow
    · rw [KeyCall.claimIdempotencyKey.inj (Event.called.inj he).2.1]
      exact hq
    · exact h.queries j first isNew ⟨row', hrow⟩

/-- The handler of the first request answers, and the request goes on to `st`. -/
theorem Good.served (h : Good jsonb q m s t) (hst : m k = some .handling)
    (hnext : (∃ r, st = .finishing r) ∨ ∃ reply, st = .replying reply) :
    Good jsonb q (update m k (some st)) s (.called k (.serveHTTP req) r :: t) := by
  have hc : ∀ req', KeyCall.serveHTTP req ≠ .claimIdempotencyKey req' := by
    simp
  have hu := h.unrecorded k _ hst rfl
  have hpledged : ∀ new old req' ans reply, .called k (.serveHTTP req) r :: t =
      new ++ Event.called k (.claimIdempotencyKey req') ans :: old →
      Answer jsonb old req' reply := by
    intro new old req' ans reply heq
    rcases split_cons heq with ⟨-, he, -⟩ | ⟨new', -, ht⟩
    · cases he
    · exact h.pledged k _ hst new' old req' ans reply ht
  refine h.called hst (h.row.called hc rfl) h.kept.once ?_
    (fun _ => ⟨.inl rfl, hu⟩) (.inl rfl) ?_ ?_
  · rcases hnext with ⟨r', rfl⟩ | ⟨reply, rfl⟩
    · exact hpledged
    · exact fun new old req' ans heq => hpledged new old req' ans reply heq
  · rcases hnext with ⟨r', rfl⟩ | ⟨reply, rfl⟩ <;> simp
  · intro j first isNew hj
    exact h.queries j first isNew ((claimed_called hc).1 hj)

theorem Good.recorded_one (h : Good jsonb q m s t)
    (hst : m k = some (.finishing r)) (done : Bool) :
    Good jsonb q (update m k (some (.replying (.answered r))))
      (if done then s.map fun row =>
        { row with completed := some (stored jsonb r) } else s)
      (.called k (.completeIdempotencyKey r) done :: t) := by
  have hc : ∀ req', KeyCall.completeIdempotencyKey r ≠ .claimIdempotencyKey req' := by simp
  have hu := h.unrecorded k _ hst rfl
  have hpledged : Pledged jsonb (.called k (.completeIdempotencyKey r) done :: t) k
      (.replying (.answered r)) := by
    intro new old req' ans heq
    rcases split_cons heq with ⟨-, he, -⟩ | ⟨new', -, ht⟩
    · cases he
    · exact h.pledged k _ hst new' old req' ans _ ht
  have hquery : ∀ j first isNew, Claimed
      (.called k (.completeIdempotencyKey r) done :: t) j first isNew →
      first.query = q := fun j first isNew hj =>
    h.queries j first isNew ((claimed_called hc).1 hj)
  cases done with
  | false =>
    exact h.called hst (h.row.called hc rfl) h.kept.once hpledged
      (by simp [Stage.busy]) (.inl rfl) (by simp) hquery
  | true =>
    obtain ⟨row, rfl⟩ := Option.ne_none_iff_exists'.1 hu.1
    have hrec : recorded (.called k (.completeIdempotencyKey r) true :: t) = [(k, r)] := by
      show (k, r) :: recorded t = [(k, r)]
      rw [hu.2]
    refine h.called hst ?_ (by rw [hrec]; simp) hpledged (by simp [Stage.busy])
      (.inl rfl) (by simp) hquery
    refine ⟨by simp, ?_, ?_, by rw [hrec]; simp, by simp⟩
    · intro j first hj
      exact h.row.creator j first ((claimed_called hc).1 hj)
    · intro j r' hj
      rw [hrec, mem_singleton] at hj
      rw [(Prod.mk.inj hj).2]
      simp

end Steps

section Contract

variable {q : Bytes}

theorem Good.started (h : Good jsonb q m s t) (hfresh : ∀ e ∈ t, e.proc ≠ k)
    (hq : req.query = q) :
    Good jsonb q (update m k (some (.waiting req))) s t := by
  refine ⟨h.row, h.kept, ?_, ?_, ?_, ?_, h.queries⟩
  · intro i x hi
    rcases update_cases hi with ⟨hik, hx⟩ | ⟨-, hi⟩
    · rw [hik, hx]
      exact hfresh
    · exact h.pledged i x hi
  · intro i j x y hi hj hx hy
    rcases update_cases hi with ⟨-, hst⟩ | ⟨-, hi⟩
    · rw [hst] at hx
      cases hx
    · rcases update_cases hj with ⟨-, hst⟩ | ⟨-, hj⟩
      · rw [hst] at hy
        cases hy
      · exact h.single i j x y hi hj hx hy
  · intro i x hi hx
    rcases update_cases hi with ⟨-, hst⟩ | ⟨-, hi⟩
    · rw [hst] at hx
      cases hx
    · exact h.unrecorded i x hi hx
  · intro i req' hi
    rcases update_cases hi with ⟨-, hst⟩ | ⟨-, hi⟩
    · rw [Stage.waiting.inj hst]
      exact hq
    · exact h.waits i req' hi

theorem Good.dead (h : Good jsonb q m s t) (k : Nat) : Good jsonb q (update m k none) s t :=
  ⟨h.row, h.kept, fun i x hi => h.pledged i x (update_none hi),
    fun i j x y hi hj => h.single i j x y (update_none hi) (update_none hj),
    fun i x hi => h.unrecorded i x (update_none hi),
    fun i req hi => h.waits i req (update_none hi), h.queries⟩

theorem Good.ended (h : Good jsonb q m s t) (hst : m k = some (.replying reply)) :
    Good jsonb q (update m k none) s (.ended k reply :: t) := by
  have hd := h.dead k
  have hclaimed : ∀ {j req isNew}, Claimed (.ended k reply :: t) j req isNew →
      Claimed t j req isNew := fun hj =>
    (claimed_cons_of_ne (by simp)).1 hj
  refine ⟨?_, h.kept.cons h.kept.once ?_, ?_, hd.single, hd.unrecorded, hd.waits, ?_⟩
  · exact ⟨fun hs j req isNew hj => h.row.empty hs j req isNew (hclaimed hj),
      fun j req hj => h.row.creator j req (hclaimed hj), h.row.completed,
      h.row.pending, h.row.idle⟩
  · -- The reply that was pledged.
    intro new old j req ans reply' he ht
    obtain ⟨rfl, rfl⟩ := Event.ended.inj he
    exact h.pledged k _ hst new old req ans ht
  · intro i x hi
    have hik : i ≠ k := by
      intro hik
      rw [hik, update_self] at hi
      cases hi
    exact (h.pledged i x (update_none hi)).cons fun hk => hik hk.symm
  · exact fun j req isNew hj => h.queries j req isNew (hclaimed hj)

theorem watch_requests : Pool.Watch (requests jsonb q) Stage.next
    Stage.calls Stage.ends (Good jsonb q) where
  start := by
    intro m s t k p s' h _ hfresh hspawn
    obtain ⟨rfl, req, hq, rfl⟩ := hspawn
    exact ⟨.waiting req, follows_Handler req, h.started hfresh hq⟩
  call := by
    intro m s t k st c o h hst hc ho
    cases st with
    | waiting req =>
      obtain rfl := hc
      cases s with
      | none => exact h.claimed_new hst
      | some row => exact h.claimed_old hst
    | handling =>
      obtain ⟨req, rfl⟩ := hc
      have hnext : ∀ r : Response,
          (∃ r', Stage.next .handling (.serveHTTP req) r = .finishing r') ∨
            ∃ reply, Stage.next .handling (.serveHTTP req) r = .replying reply := by
        intro r
        simp only [Stage.next]
        split
        · exact .inl ⟨_, rfl⟩
        · exact .inr ⟨_, rfl⟩
      exact h.served hst (hnext o.response)
    | finishing r =>
      obtain rfl := hc
      have := h.recorded_one hst o.recorded
      cases hrec : o.recorded with
      | false | true =>
        simpa [keySystem, KeyCall.act, hrec, Stage.next] using this
    | replying reply => exact hc.elim
  done := by
    intro m s t k st reply h hst hend
    cases st with
    | replying reply' =>
      obtain rfl := hend
      exact h.ended hst
    | _ => exact hend.elim
  die := fun h => h.dead _
  other := by
    intro m s s' t h hs
    obtain rfl := hs
    exact h

/-- In every run of requests with one query, at most one response is recorded,
another body is refused, and what is replayed is what the row holds.  The
contract is kept exactly if no request with the body of the first one comes
after a recorded response that the row does not give back as it was, or after
an error. -/
theorem contract_kept {x : Pool.Config KeyAns (Option KeyRow) Reply}
    (hx : (requests jsonb q).Reaches none x) :
    Kept jsonb x.trace ∧
    (Contract x.trace ↔ ∀ new old k req ans reply,
      x.trace = new ++ Event.called k (.claimIdempotencyKey req) ans :: old →
      Event.ended k reply ∈ new → Fortunate jsonb old req) := by
  have hinit : Good jsonb q (fun _ => none) none [] := by
    refine ⟨⟨?_, ?_, ?_, ?_, ?_⟩, ⟨?_, ?_⟩, ?_, ?_, ?_, ?_, ?_⟩ <;>
      simp [Claimed, recorded]
  obtain ⟨m, hm⟩ := watch_requests.reaches hinit hx
  refine ⟨hm.kept, fun hcontract new old k req ans reply ht hended => ?_, fun hgood => ?_⟩
  · exact (hm.kept.right new old k req ans reply ht hended).right_iff.1
      (hcontract.right new old k req ans reply ht hended)
  · refine ⟨hm.kept.once, fun new old k req ans reply ht hended => ?_⟩
    exact (hm.kept.right new old k req ans reply ht hended).right_iff.2
      (hgood new old k req ans reply ht hended)

end Contract

/-! ## Runs -/

/-- A request starts and makes its next `n` calls with the outcome `o`, and
ends. -/
def request (jsonb : Bytes → Option Bytes) (req : Request) (o : Served) (n : Nat)
    (x : Pool.Config KeyAns (Option KeyRow) Reply) : Pool.Config KeyAns (Option KeyRow) Reply :=
  ((x.started (Handler req) x.state).calls (keySystem jsonb) o x.next n).finish x.next

theorem reaches_request (h : (requests jsonb q).Reaches none x) (hreq : req.query = q)
    (o : Served) (n : Nat) : (requests jsonb q).Reaches none (request jsonb req o n x) := by
  refine Pool.Reaches.finish (Pool.Reaches.calls (h.tail
    (.start x _ _ ⟨rfl, req, hreq, rfl⟩)) ?_) x.next
  exact Pool.Config.callsOk_of_forall (fun _ _ => trivial) _ _ _

/-- A request without a query. -/
def bodyRequest (body : Bytes) : Request :=
  ⟨[], body, by simp⟩

/-- A column that knows one JSON text, also with a line break after it. -/
def emptyObject (text : Bytes) : Option Bytes :=
  if text = [123, 125] ∨ text = [123, 125, 10] then some [123, 125] else none

/-- A request, the same request again, and one with another body. -/
def threeRequests (o : Served) (n : Nat) : Pool.Config KeyAns (Option KeyRow) Reply :=
  request emptyObject (bodyRequest [1]) o 1
    (request emptyObject (bodyRequest []) o 1
      (request emptyObject (bodyRequest []) o n (.initial none)))

theorem reaches_threeRequests (o : Served) (n : Nat) :
    (requests emptyObject []).Reaches none (threeRequests o n) := by
  unfold threeRequests
  exact reaches_request (reaches_request (reaches_request .refl (by rfl) o n) (by rfl) o 1)
    (by rfl) o 1

/-- The handler answers as `WriteJSON` does, with a line break at the end. -/
theorem contract_kept_replayed :
    (recorded (threeRequests ⟨⟨201, [123, 125, 10]⟩, true⟩ 3).trace =
      [(0, ⟨201, [123, 125, 10]⟩)]) ∧
    Kept emptyObject (threeRequests ⟨⟨201, [123, 125, 10]⟩, true⟩ 3).trace :=
  ⟨rfl, (contract_kept (reaches_threeRequests _ _)).1⟩

/-- After an error the retry is refused as being in progress, although nothing
is; and a success without a body is replayed with another one. -/
theorem contract_broken :
    ((threeRequests ⟨⟨500, []⟩, true⟩ 2).trace = [.ended 2 .conflict,
        .called 2 (.claimIdempotencyKey (bodyRequest [1])) (⟨[10], none⟩, false),
        .ended 1 .inProgress,
        .called 1 (.claimIdempotencyKey (bodyRequest [])) (⟨[10], none⟩, false),
        .ended 0 (.answered ⟨500, []⟩),
        .called 0 (.serveHTTP (bodyRequest [])) (⟨500, []⟩ : Response),
        .called 0 (.claimIdempotencyKey (bodyRequest [])) (⟨[10], none⟩, true)] ∧
      ¬Contract (threeRequests ⟨⟨500, []⟩, true⟩ 2).trace) ∧
    ((threeRequests ⟨⟨204, []⟩, true⟩ 3).trace = [.ended 2 .conflict,
        .called 2 (.claimIdempotencyKey (bodyRequest [1])) (⟨[10], some ⟨204, [123, 125]⟩⟩, false),
        .ended 1 (.replayed ⟨204, [123, 125]⟩),
        .called 1 (.claimIdempotencyKey (bodyRequest [])) (⟨[10], some ⟨204, [123, 125]⟩⟩, false),
        .ended 0 (.answered ⟨204, []⟩),
        .called 0 (.completeIdempotencyKey ⟨204, []⟩) true,
        .called 0 (.serveHTTP (bodyRequest [])) (⟨204, []⟩ : Response),
        .called 0 (.claimIdempotencyKey (bodyRequest [])) (⟨[10], none⟩, true)] ∧
      ¬Contract (threeRequests ⟨⟨204, []⟩, true⟩ 3).trace) := by
  refine ⟨⟨rfl, fun h => ?_⟩, rfl, fun h => ?_⟩
  · have hright := h.right [.ended 2 .conflict,
        .called 2 (.claimIdempotencyKey (bodyRequest [1])) (⟨[10], none⟩, false),
        .ended 1 .inProgress] _ 1 (bodyRequest []) _ .inProgress rfl (by simp)
    obtain ⟨r', hr'⟩ := hright.retried 0 (bodyRequest []) ⟨500, []⟩
      ⟨⟨[10], none⟩, .tail _ (.tail _ (.head _))⟩ (.head _) rfl rfl rfl
    cases hr'
  · have hright := h.right [.ended 2 .conflict,
        .called 2 (.claimIdempotencyKey (bodyRequest [1])) (⟨[10], some ⟨204, [123, 125]⟩⟩, false),
        .ended 1 (.replayed ⟨204, [123, 125]⟩)] _ 1 (bodyRequest []) _
      (.replayed ⟨204, [123, 125]⟩) rfl (by simp)
    have hreply := hright.replayed 0 ⟨204, []⟩ (bodyRequest [])
      (.head _) ⟨⟨[10], none⟩, .tail _ (.tail _ (.tail _ (.head _)))⟩ rfl
    exact absurd hreply (by decide)

end Akerdock.HttpApi
