import Akerdock.Lib.Slot
import Akerdock.Sessions.Rows

/-!
# The attach that a process serves

Each attach of a session claims the row, which gives it a generation, and is
then served by one process.  The process has a table with one entry for the
session, `TunnelPresence.live` or `terminalLive`: it is how a revocation, a
shutdown or the next attach reaches the socket.  A port forward over HTTP has a
second one, `egressLive`, in which the data streams find their session.

* An attach is named by its generation, and `State.cuts` are the attaches whose
  channel holds a reason to stop.
* `Event` are the steps of an attach after its claim.  The steps of different
  attaches come in any order.
* `OfRow` says what the state has of the row: a claim and an end of the session
  do to it what the statements of `Akerdock.Sessions.Rows` do to the row.
* A cut by an attach goes to whoever is in the table.  `State.hits` records
  which attach cut or displaced which one.
-/

namespace Akerdock.Sessions.Presence

open Table Slot List
open Machine (Reaches run)

/-! ## Attaches -/

/-- An attach of the session.

* `superseding` says that it has cut the attach before it, which a port forward
  does right after the claim.
* `refused` says that its target was not found, before it was registered.
* `presence` and `egress` say how far it is with the two tables.
* `left` says that its bridge has returned. -/
structure Attach where
  gen : Nat
  superseding : Bool
  refused : Bool
  presence : Mark
  egress : Mark
  left : Bool

/-- The steps of an attach after its claim.

* `supersede` is `supersedePortForwardAttach`.
* `refuse` is a target that cannot be named, or a connection that cannot
  stream.  The attach ends the session, if `ok` says that the statement took
  effect and it is still the latest.
* `register` and `expose` put it into the two tables.
* `fails` is `cutOnFailedResolution`.  It runs beside the attach, so it can come
  when the attach has left already.
* `stopped` is the heartbeat that finds the target gone.
* `leave` is the return of the bridge; `ends` says that the session ends with
  it.
* `conceal` and `unregister` take it out of the tables. -/
inductive Event where
  | supersede
  | refuse (ok : Bool)
  | register
  | expose
  | fails
  | stopped
  | leave (ends : Bool)
  | conceal
  | unregister

/-- The attach has not come to its registration. -/
def Attach.opening (b : Attach) : Bool :=
  b.presence = .never && !b.refused

/-- Where in the handlers the steps are. -/
def Attach.may (f : Family) (b : Attach) : Event → Bool
  | .supersede => f = .portForward && b.opening && !b.superseding
  | .refuse _ | .register => b.opening && (b.superseding || f ≠ .portForward)
  | .expose =>
    f = .portForward && b.presence = .held && b.egress = .never && !b.left
  | .fails => f = .portForward && b.presence ≠ .never
  | .stopped => b.presence = .held && !b.left
  | .leave _ => b.presence = .held && !b.left
  | .conceal => b.left && b.egress = .held
  | .unregister => b.presence = .held && b.left && b.egress ≠ .held

/-- What a step does to its attach. -/
def Attach.after (b : Attach) : Event → Attach
  | .supersede => { b with superseding := true }
  | .refuse _ => { b with refused := true }
  | .register => { b with presence := .held }
  | .expose => { b with egress := .held }
  | .fails | .stopped => b
  | .leave _ => { b with left := true }
  | .conceal => { b with egress := .released }
  | .unregister => { b with presence := .released }

/-! ## The process -/

/-- The session and the process that serves it.  `seq` and `ended` are of the
row. -/
structure State where
  seq : Nat
  ended : Bool
  attaches : List Attach
  live : Option Nat
  egress : Option Nat
  cuts : List Nat
  hits : List (Nat × Nat)

def State.empty : State := ⟨0, false, [], none, none, [], []⟩

/-- `claim` is a claim that succeeds.  `revoke` is the cut of a revocation or of
the operator's close, and `finish` the statement that ends the session after
it. -/
inductive Action where
  | claim
  | attach (g : Nat) (e : Event)
  | revoke
  | finish

/-- `TunnelPresence.Cut` and `terminalCut`: the reason goes to the attach in the
table. -/
def State.cut (s : State) : State :=
  { s with cuts := s.live.toList ++ s.cuts }

/-- The attach `g` reaches the attach in a table. -/
def State.hit (s : State) (g : Nat) (slot : Option Nat) : State :=
  { s with hits := slot.toList.map (fun v => (g, v)) ++ s.hits }

/-- The attach ends the session if it is still the latest one. -/
def State.endBy (s : State) (g : Nat) (ok : Bool) : State :=
  { s with ended := s.ended || ok && s.seq = g }

/-- What a step of the attach `g` does to the process. -/
def State.act (f : Family) (s : State) (g : Nat) : Event → State
  | .supersede => if 1 < g then (s.hit g s.live).cut else s
  | .refuse ok => s.endBy g ok
  | .register =>
    -- A terminal cuts the attach that it displaces.
    match f with
    | .portForward => { s.hit g s.live with live := some g }
    | .terminal _ => { (s.hit g s.live).cut with live := some g }
  | .expose => { s.hit g s.egress with egress := some g }
  | .fails | .stopped => (s.hit g s.live).cut
  | .leave ends => s.endBy g ends
  | .conceal =>
    { s with egress := if s.egress = some g then none else s.egress }
  | .unregister => { s with live := if s.live = some g then none else s.live }

def State.apply (f : Family) (a : Action) (s : State) : Option State :=
  match a with
  | .claim =>
    if s.ended then none
    else some { s with
      seq := s.seq + 1
      attaches := ⟨s.seq + 1, false, false, .never, .never, false⟩ :: s.attaches }
  | .attach g e =>
    (row? Attach.gen g s.attaches).bind fun b =>
      if b.may f e then
        some { s.act f g e with
          attaches := updateWhere (fun b => b.gen = g) (·.after e) s.attaches }
      else none
  | .revoke => some s.cut
  | .finish => some { s with ended := true }

/-! ## The row -/

/-- The row of the session, as far as the process depends on it. -/
def OfRow (s : State) (r : Session) : Prop :=
  s.seq = r.attachSeq ∧ s.ended = r.endedAt.isSome

section Row

variable {s : State} {r : Session} (h : OfRow s r)

include h

/-- A claim that hits the row is possible, and counts the attach. -/
theorem OfRow.claim (f : Family) (hhits : (f.claim tokenHash key now).hits r = true) :
    ∃ s', s.apply f .claim = some s' ∧ OfRow s' ((f.claim tokenHash key now).write r) := by
  have hopen : r.endedAt.isSome = false := by
    cases f <;> simp_all [Family.claim, claimPortForwardSession, claimTerminalSession, claimSession]
  refine ⟨_, if_neg (by simp [h.2, hopen]), ?_⟩
  cases f <;> exact ⟨congrArg (· + 1) h.1, h.2⟩

/-- The end of the session by an attach, and the one by anyone. -/
theorem OfRow.finish (f : Family) (g : Nat) (reason : EndReason) (now : Nat) :
    OfRow (s.endBy g true) (if (f.finish r.id reason (some g) now).hits r
      then (f.finish r.id reason (some g) now).write r else r) ∧
    OfRow { s with ended := true } (if (f.finish r.id reason none now).hits r
      then (f.finish r.id reason none now).write r else r) := by
  obtain ⟨hseq, hended⟩ := h
  have hfinish : f.finish = endSession := by cases f <;> rfl
  rw [hfinish]
  cases hr : r.endedAt <;> by_cases hg : r.attachSeq = g <;>
    simp_all [OfRow, State.endBy, endSession]

end Row

/-! ## What a step does -/

section Act

variable (f : Family) (s : State) (g : Nat)

theorem act_supersede : s.act f g .supersede =
    if 1 < g then (s.hit g s.live).cut else s := rfl

theorem seq_act (e : Event) : (s.act f g e).seq = s.seq := by
  cases e <;> try rfl
  case supersede =>
    rw [act_supersede]
    split <;> rfl
  case register => cases f <;> rfl

theorem live_act (e : Event) :
    (s.act f g e).live = match e with
      | .register => some g
      | .unregister => if s.live = some g then none else s.live
      | _ => s.live := by
  cases e <;> try rfl
  case supersede =>
    rw [act_supersede]
    split <;> rfl
  case register => cases f <;> rfl

theorem egress_act (e : Event) :
    (s.act f g e).egress = match e with
      | .expose => some g
      | .conceal => if s.egress = some g then none else s.egress
      | _ => s.egress := by
  cases e <;> try rfl
  case supersede =>
    rw [act_supersede]
    split <;> rfl
  case register => cases f <;> rfl

theorem hits_act (e : Event) (hp : p ∈ (s.act f g e).hits) :
    p ∈ s.hits ∨ p.1 = g ∧
      match e with
      | .supersede | .register | .fails | .stopped => s.live = some p.2
      | .expose => s.egress = some p.2
      | _ => False := by
  have hhit : ∀ slot : Option Nat,
      p ∈ slot.toList.map (fun v => (g, v)) ++ s.hits →
      p ∈ s.hits ∨ p.1 = g ∧ slot = some p.2 := by
    intro slot h
    rcases mem_append.1 h with h | h
    · obtain ⟨v, hv, rfl⟩ := mem_map.1 h
      exact .inr ⟨rfl, Option.mem_toList.1 hv⟩
    · exact .inl h
  cases e with
  | supersede =>
    rw [act_supersede] at hp
    split at hp
    · exact hhit s.live hp
    · exact .inl hp
  | register =>
    cases f with
    | portForward | terminal maxDuration => exact hhit s.live hp
  | expose => exact hhit s.egress hp
  | fails | stopped => exact hhit s.live hp
  | refuse ok | leave ends | conceal | unregister => exact .inl hp

theorem ended_act (e : Event) (h : s.ended = true) : (s.act f g e).ended = true := by
  cases e <;> try exact h
  case supersede =>
    rw [act_supersede]
    split <;> exact h
  case refuse ok =>
    show (s.ended || ok && decide (s.seq = g)) = true
    rw [h, Bool.true_or]
  case leave ends =>
    show (s.ended || ends && decide (s.seq = g)) = true
    rw [h, Bool.true_or]
  case register =>
    cases f <;> exact h

theorem gen_after (b : Attach) (e : Event) : (b.after e).gen = b.gen := by
  cases e <;> rfl

end Act

/-! ## The condition -/

/-- The attaches come to their tables in the order of their claims.

* When an attach cuts the one in the table, registers, or finds its target
  unreachable or gone, no attach with a later claim has registered.
* The same holds for the table of the data streams.
* The statement with which a refused attach ends the session takes effect. -/
def InOrder (a : Action) (s : State) : Prop :=
  match a with
  | .attach g .supersede | .attach g .register | .attach g .fails
  | .attach g .stopped => ∀ b ∈ s.attaches, g < b.gen → b.presence = .never
  | .attach g .expose => ∀ b ∈ s.attaches, g < b.gen → b.egress = .never
  | .attach _ (.refuse ok) => ok = true
  | _ => True

instance (a : Action) (s : State) : Decidable (InOrder a s) := by
  unfold InOrder
  split <;> infer_instance

/-! ## The invariant -/

/-- What holds in every run in order. -/
structure Served (s : State) : Prop where
  gens : ∀ b ∈ s.attaches, b.gen ≤ s.seq
  distinct : (s.attaches.map Attach.gen).Nodup
  top : s.attaches = [] ∨ ∃ b ∈ s.attaches, b.gen = s.seq
  live : Latest Attach.gen Attach.presence s.live s.attaches
  egress : Latest Attach.gen Attach.egress s.egress s.attaches
  hits : ∀ p ∈ s.hits, p.2 ≤ p.1
  refused : ∀ b ∈ s.attaches, b.refused = true → b.gen = s.seq →
    s.ended = true
  released : ∀ b ∈ s.attaches, b.presence = .released → b.left = true

theorem served_empty : Served .empty where
  gens := nofun
  distinct := nodup_nil
  top := .inl rfl
  live := latest_nil
  egress := latest_nil
  hits := nofun
  refused := nofun
  released := nofun

variable {g : Nat} {b : Attach}

section Steps

variable {f : Family} {s : State}

theorem Served.gen_ne (hs : Served s) : ∀ b ∈ s.attaches, b.gen ≠ s.seq + 1 :=
  fun b hb => Nat.ne_of_lt (Nat.lt_succ_of_le (hs.gens b hb))

theorem Served.claim (hs : Served s) :
    Served { s with
      seq := s.seq + 1
      attaches := ⟨s.seq + 1, false, false, .never, .never, false⟩ :: s.attaches } where
  gens := by
    exact forall_mem_cons.2
      ⟨Nat.le_refl _, fun b hb => Nat.le_succ_of_le (hs.gens b hb)⟩
  distinct := nodup_insert hs.distinct hs.gen_ne
  top := .inr ⟨_, mem_cons_self, rfl⟩
  live := hs.live.join rfl
  egress := hs.egress.join rfl
  hits := hs.hits
  refused := by
    exact forall_mem_cons.2 ⟨nofun, fun b hb _ hgen => absurd hgen (hs.gen_ne b hb)⟩
  released := forall_mem_cons.2 ⟨nofun, hs.released⟩

/-- An attach reaches no attach with a later claim. -/
theorem Served.hits_act (hs : Served s) (hmay : InOrder (.attach g e) s) :
    ∀ p ∈ (s.act f g e).hits, p.2 ≤ p.1 := by
  intro p hp
  rcases Presence.hits_act f s g e hp with hold | ⟨hg, hslot⟩
  · exact hs.hits p hold
  · have hlive : (∀ b ∈ s.attaches, g < b.gen → b.presence = .never) →
        s.live = some p.2 → p.2 ≤ p.1 := by
      intro horder hv
      obtain ⟨b, hb, hgen, hheld⟩ := hs.live.held p.2 hv
      by_contra hlt
      cases (horder b hb (by omega)).symm.trans hheld
    have hegress : (∀ b ∈ s.attaches, g < b.gen → b.egress = .never) →
        s.egress = some p.2 → p.2 ≤ p.1 := by
      intro horder hv
      obtain ⟨b, hb, hgen, hheld⟩ := hs.egress.held p.2 hv
      by_contra hlt
      cases (horder b hb (by omega)).symm.trans hheld
    cases e with
    | supersede | register | fails | stopped => exact hlive hmay hslot
    | expose => exact hegress hmay hslot
    | refuse | leave | conceal | unregister => exact hslot.elim

/-- The attach of a step is one of the session. -/
theorem exists_of_row (hb : row? Attach.gen g s.attaches = some b) : ∃ b ∈ s.attaches, b.gen = g :=
  ⟨b, row?_mem hb, row?_key hb⟩

section

variable (hs : Served s) (hb : row? Attach.gen g s.attaches = some b)
    (hmay : InOrder (.attach g e) s)

include hs hb hmay

theorem Served.live_act :
    Latest Attach.gen Attach.presence (s.act f g e).live
      (updateWhere (fun b => b.gen = g) (·.after e) s.attaches) := by
  rw [Presence.live_act]
  cases e with
  | register =>
    exact Latest.take (fun _ => rfl) (fun _ => rfl) (exists_of_row hb) hmay
  | unregister => exact hs.live.release (fun _ => rfl) fun _ => rfl
  | _ => exact hs.live.keep (fun _ => rfl) fun _ => rfl

theorem Served.egress_act :
    Latest Attach.gen Attach.egress (s.act f g e).egress
      (updateWhere (fun b => b.gen = g) (·.after e) s.attaches) := by
  rw [Presence.egress_act]
  cases e with
  | expose =>
    exact Latest.take (fun _ => rfl) (fun _ => rfl) (exists_of_row hb) hmay
  | conceal => exact hs.egress.release (fun _ => rfl) fun _ => rfl
  | _ => exact hs.egress.keep (fun _ => rfl) fun _ => rfl

end

/-- A refused attach that was the latest has ended the session. -/
theorem Served.refused_act (hs : Served s) (hmay : InOrder (.attach g e) s)
    (hb : b ∈ updateWhere (fun b => b.gen = g) (·.after e) s.attaches)
    (hrefused : b.refused = true) (hgen : b.gen = s.seq) :
    (s.act f g e).ended = true := by
  obtain ⟨q, hq, rfl⟩ := mem_updateWhere.1 hb
  have hold : q.refused = true → q.gen = s.seq → (s.act f g e).ended = true := by
    intro hr hg
    exact ended_act f s g e (hs.refused q hq hr hg)
  by_cases hqg : q.gen = g
  · rw [if_pos (decide_eq_true hqg)] at hrefused hgen
    cases e with
    | refuse ok =>
      have hok : ok = true := hmay
      subst hok
      show (s.ended || true && decide (s.seq = g)) = true
      rw [decide_eq_true (hgen.symm.trans hqg), Bool.true_and, Bool.or_true]
    | _ => exact hold hrefused hgen
  · rw [if_neg (by simpa using hqg)] at hrefused hgen
    exact hold hrefused hgen

theorem Served.attach (hs : Served s)
    (hb : row? Attach.gen g s.attaches = some b) (hmay : b.may f e = true)
    (horder : InOrder (.attach g e) s) :
    Served { s.act f g e with
      attaches := updateWhere (fun b => b.gen = g) (·.after e) s.attaches } := by
  have hgens : (updateWhere (fun b => b.gen = g) (·.after e) s.attaches).map
      Attach.gen = s.attaches.map Attach.gen :=
    map_updateWhere (fun b => gen_after b e) _ _
  refine ⟨?_, ?_, ?_, hs.live_act hb horder, hs.egress_act hb horder,
    hs.hits_act horder, ?_, ?_⟩
  · intro q hq
    have hmem : q.gen ∈ (updateWhere (fun b => b.gen = g) (·.after e)
        s.attaches).map Attach.gen := mem_map_of_mem hq
    rw [hgens] at hmem
    obtain ⟨q₀, hq₀, heq⟩ := mem_map.1 hmem
    show q.gen ≤ (s.act f g e).seq
    rw [← heq, seq_act]
    exact hs.gens q₀ hq₀
  · show ((updateWhere _ _ s.attaches).map Attach.gen).Nodup
    rw [hgens]
    exact hs.distinct
  · refine .inr ?_
    have hmem : s.seq ∈ s.attaches.map Attach.gen := by
      rcases hs.top with hnil | ⟨q, hq, hgen⟩
      · have hthere := row?_mem hb
        rw [hnil] at hthere
        cases hthere
      · exact hgen ▸ mem_map_of_mem hq
    rw [← hgens] at hmem
    obtain ⟨q, hq, hgen⟩ := mem_map.1 hmem
    refine ⟨q, hq, ?_⟩
    rw [hgen]
    exact (seq_act f s g e).symm
  · intro q hq hrefused hgen
    refine hs.refused_act horder hq hrefused ?_
    rw [hgen]
    exact seq_act f s g e
  · intro q hq hreleased
    obtain ⟨q₀, hq₀, rfl⟩ := mem_updateWhere.1 hq
    by_cases hqg : q₀.gen = g
    · obtain rfl := inj_on_of_nodup_map hs.distinct hq₀ (row?_mem hb) (hqg.trans (row?_key hb).symm)
      rw [if_pos (decide_eq_true hqg)] at hreleased ⊢
      cases e with
      | register => cases hreleased
      | leave ends => rfl
      | unregister =>
        simp only [Attach.may, Bool.and_eq_true] at hmay
        exact hmay.1.2
      | _ => exact hs.released q₀ hq₀ hreleased
    · rw [if_neg (by simpa using hqg)] at hreleased ⊢
      exact hs.released q₀ hq₀ hreleased

theorem Served.step (hs : Served s) (hmay : InOrder a s)
    (h : s.apply f a = some s') : Served s' := by
  cases a with
  | claim =>
    simp only [State.apply] at h
    split at h
    · cases h
    · cases h
      exact hs.claim
  | attach g e =>
    obtain ⟨b, hb, hguard, rfl⟩ := Machine.of_bind_guard h
    exact hs.attach hb hguard hmay
  | revoke =>
    cases h
    exact { hs with }
  | finish =>
    cases h
    exact { hs with refused := fun _ _ _ _ => rfl }

end Steps

/-! ## The result -/

/-- In every run in which the attaches come to their tables in the order of
their claims:

* no attach cuts, or takes out of a table, an attach with a later claim;
* while the session is not ended, the latest attach is in the tables from its
  registration until its bridge returns, and a revocation reaches it. -/
theorem latest_attach_wins {f : Family} {s : State}
    (h : Reaches (State.apply f) InOrder .empty s) :
    (∀ p ∈ s.hits, p.2 ≤ p.1) ∧
    ∀ b ∈ s.attaches, (∀ b' ∈ s.attaches, b'.gen ≤ b.gen) →
      s.ended = false → b.opening = false → b.left = false →
      s.live = some b.gen ∧ (b.egress = .held → s.egress = some b.gen) ∧
        ∀ s', s.apply f .revoke = some s' → b.gen ∈ s'.cuts := by
  have hs : Served s := h.invariant
    (fun a s s' hmay happly hs => hs.step hmay happly) served_empty
  refine ⟨hs.hits, ?_⟩
  intro b hb hmax hended hopening hleft
  have hgen : b.gen = s.seq := by
    rcases hs.top with hnil | ⟨q, hq, hq'⟩
    · rw [hnil] at hb
      cases hb
    · have hle := hs.gens b hb
      have hge := hmax q hq
      omega
  have hheld : b.presence = .held := by
    cases hpresence : b.presence with
    | held => rfl
    | released =>
      cases (hs.released b hb hpresence).symm.trans hleft
    | never =>
      have hrefused : b.refused = true := by
        simpa [Attach.opening, hpresence] using hopening
      cases (hs.refused b hb hrefused hgen).symm.trans hended
  have hlive := hs.live.latest b hb hheld fun b' hb' _ => hmax b' hb'
  refine ⟨hlive, ?_, ?_⟩
  · intro hegress
    exact hs.egress.latest b hb hegress fun b' hb' _ => hmax b' hb'
  · intro s' hrevoke
    cases hrevoke
    show b.gen ∈ s.live.toList ++ s.cuts
    rw [hlive]
    exact mem_cons_self

/-- A port forward that is taken over: the second attach cuts the first and
registers, and then the first leaves. -/
def takeover : List Action :=
  [.claim, .attach 1 .supersede, .attach 1 .register, .attach 1 .expose,
    .claim, .attach 2 .supersede, .attach 2 .register, .attach 2 .expose,
    .attach 1 (.leave false), .attach 1 .conceal, .attach 1 .unregister]

theorem latest_attach_wins_takeover :
    ∃ s, run (State.apply .portForward) takeover .empty = some s ∧
      s.ended = false ∧ s.hits = [(2, 1), (2, 1), (2, 1)] ∧
      (∀ p ∈ s.hits, p.2 ≤ p.1) ∧
      ∀ b ∈ s.attaches, (∀ b' ∈ s.attaches, b'.gen ≤ b.gen) →
        s.ended = false → b.opening = false → b.left = false →
        s.live = some b.gen ∧ (b.egress = .held → s.egress = some b.gen) ∧
          ∀ s', s.apply .portForward .revoke = some s' → b.gen ∈ s'.cuts := by
  have hrun : (run (State.apply .portForward) takeover .empty).any
      (fun s => s.ended = false ∧ s.hits = [(2, 1), (2, 1), (2, 1)]) = true := by
    decide +kernel
  obtain ⟨s, hs, hlast⟩ := (Option.any_eq_true _ _).1 hrun
  obtain ⟨hended, hhits⟩ := of_decide_eq_true hlast
  have h : Reaches (State.apply .portForward) InOrder .empty s :=
    .of_run hs (by decide +kernel)
  exact ⟨s, hs, hended, hhits, latest_attach_wins h⟩

/-- The first attach of a port forward is still at its registration when the
second has registered. -/
def overtaken : List Action :=
  [.claim, .attach 1 .supersede, .claim, .attach 2 .supersede,
    .attach 2 .register, .attach 1 .register]

/-- The first attach then takes the place of the second while both run, and a
revocation reaches only the first.  In a terminal the first also cuts the
second.  A port forward whose first attach finds its target unreachable cuts the
second too. -/
theorem latest_attach_displaced :
    ((run (State.apply .portForward)
        (overtaken ++ [.revoke]) .empty).any fun s =>
      s.ended = false ∧ s.live = some 1 ∧ (1, 2) ∈ s.hits ∧ s.cuts = [1] ∧
        s.attaches.map (fun b => (b.gen, b.left)) = [(2, false), (1, false)]) = true ∧
    ((run (State.apply (.terminal 3600))
        [.claim, .claim, .attach 2 .register, .attach 1 .register]
        .empty).any fun s =>
      s.ended = false ∧ s.live = some 1 ∧ (1, 2) ∈ s.hits ∧ s.cuts = [2]) =
      true ∧
    ((run (State.apply .portForward)
        [.claim, .attach 1 .supersede, .attach 1 .register, .claim,
          .attach 2 .supersede, .attach 2 .register, .attach 1 .fails]
        .empty).any fun s =>
      s.ended = false ∧ (1, 2) ∈ s.hits ∧ s.cuts = [2, 1]) = true := by
  decide +kernel

end Akerdock.Sessions.Presence
