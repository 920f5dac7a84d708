import Akerdock.Lib.Machine

/-!
# Attaching to an ingress endpoint

`internal/agent/ingress.go`: a laptop attaches to the endpoint of a public host
with a token that the control plane has armed before.  The module keeps three
tables under one lock, but a request takes the lock more than once: `ServeHTTP`
looks the host up, `claimAttach` consumes the token and occupies the endpoint,
and `release` frees it again.  An end reason is sent after the lock is given
back.

* `Kept` holds in every run: which tokens were accepted, which sessions hold
  their endpoint, and which were told to end.
* `Settled` is that the table loses no endpoint for which a request is on its
  way to claim.  `claimAttach` does not look at the table again.
* `attach_exclusive` is the result.
-/

namespace Akerdock.Agent.Ingress

open List Function Option Machine

/-! ## The model -/

/-- `ingressExpect`, with the hash that it is armed under and the number of the
`Expect` that armed it. -/
structure Expectation where
  hash : Nat
  session : Nat
  endpoint : Nat
  expires : Nat
  arming : Nat

/-- `ingressSession`, from the placeholder on.  `reason` is the channel `cancel`,
and `ended` says that the session is over, with the reason from the channel or
with another one. -/
structure Session where
  uuid : Nat
  endpoint : Nat
  reason : Option String
  ended : Bool
  released : Bool

/-- `Ingress`.

* `sessions` are all sessions so far, and `live` gives the position of the one
  at an endpoint.
* `requests` are the endpoints that `ServeHTTP` has found for requests that have
  not claimed yet, and `sends` the reasons that are still to be sent.
* `accepted` are the armings that were accepted, `cuts` the sessions that a
  `Cut` or a `SetRoutes` has ended, and `strays` the endpoints that were claimed
  while no host had them. -/
structure State where
  clock : Nat
  hosts : List (Nat × Nat)
  expects : List Expectation
  live : Nat → Option Nat
  sessions : List Session
  requests : List Nat
  sends : List (Nat × String)
  armings : Nat
  accepted : List Nat
  cuts : List Nat
  strays : List Nat

def State.empty : State :=
  ⟨0, [], [], fun _ => none, [], [], [], 0, [], [], []⟩

def known (hosts : List (Nat × Nat)) (endpoint : Nat) : Bool :=
  hosts.any fun r => r.2 = endpoint

/-- The steps.  `cut` names the session that it finds, if there is one, and
`send` is what `Cut` and `SetRoutes` do after they have given the lock back. -/
inductive Action where
  | tick (n : Nat)
  | setRoutes (routes : List (Nat × Nat))
  | expect (hash session endpoint expires : Nat)
  | cut (session : Nat) (target : Option Nat) (reason : String)
  | send (k : Nat) (reason : String)
  | lookup (host : Nat)
  | claim (endpoint hash : Nat)
  | finish (k : Nat)
  | release (k : Nat)

def endReasonRevoked : String := "revoked"

def State.liveWith (s : State) (p : Session → Bool) : List Nat :=
  (List.range s.sessions.length).filter fun k =>
    (s.sessions[k]?).any fun x => s.live x.endpoint = some k && p x

/-- The sessions `ks` are to end. -/
def State.cutAll (s : State) (ks : List Nat) (reason : String) : State :=
  { s with
    sends := s.sends ++ ks.map fun k => (k, reason)
    cuts := s.cuts ++ ks }

def State.claimAttach (s : State) (endpoint hash : Nat) : State :=
  let s' := { s with
    expects := s.expects.filter fun e => e.hash ≠ hash
    requests := s.requests.erase endpoint }
  match s.expects.find? fun e => e.hash = hash with
  | none => s'
  | some e =>
    if e.endpoint ≠ endpoint ∨ e.expires < s.clock ∨ s.live endpoint ≠ none then s'
    else { s' with
      live := Function.update s.live endpoint (some s.sessions.length)
      sessions := s.sessions ++ [⟨e.session, endpoint, none, false, false⟩]
      accepted := e.arming :: s.accepted
      strays := if known s.hosts endpoint then s.strays
        else endpoint :: s.strays }

def State.apply (a : Action) (s : State) : Option State :=
  match a with
  | .tick n => some { s with clock := s.clock + n }
  | .setRoutes routes => some ({ s with hosts := routes }.cutAll
      (s.liveWith fun x => !known routes x.endpoint) endReasonRevoked)
  | .expect hash session endpoint expires => some { s with
      expects := ⟨hash, session, endpoint, expires, s.armings⟩ ::
        s.expects.filter fun e => !(e.expires < s.clock) && e.hash ≠ hash
      armings := s.armings + 1 }
  | .cut session target reason =>
    let found := s.liveWith fun x => x.uuid = session
    if target.all (· ∈ found) ∧ (target = none → found = []) then
      some ({ s with
        expects := s.expects.filter fun e => e.session ≠ session }.cutAll
        target.toList (if reason = "" then endReasonRevoked else reason))
    else none
  | .send k reason =>
    if (k, reason) ∈ s.sends then
      some { s with
        sends := s.sends.erase (k, reason)
        sessions := s.sessions.modify k fun x =>
          { x with reason := x.reason.or (some reason) } }
    else none
  | .lookup host =>
    (s.hosts.reverse.lookup host).map fun e =>
      { s with requests := e :: s.requests }
  | .claim endpoint hash =>
    if endpoint ∈ s.requests then some (s.claimAttach endpoint hash) else none
  | .finish k => some { s with
      sessions := s.sessions.modify k fun x =>
        { x with reason := none, ended := true } }
  | .release k =>
    (s.sessions[k]?).bind fun x =>
      if x.released then none
      else some { s with
        live := if s.live x.endpoint = some k then
          Function.update s.live x.endpoint none else s.live
        sessions := s.sessions.modify k fun x => { x with released := true } }

/-! ## What every run keeps -/

/-- The session has an end reason, or had one. -/
def Session.told (x : Session) : Prop := x.reason.isSome = true ∨ x.ended = true

/-- What holds in every run.

* `armed`, `once`: an arming is waiting or was accepted, not both.
* `holds`: a session holds its endpoint until it is released.
* `told`: a session that is to end has a reason, or gets one. -/
structure Kept (s : State) : Prop where
  armed : (s.expects.map Expectation.arming).Nodup ∧
    ∀ e ∈ s.expects, e.arming < s.armings ∧ e.arming ∉ s.accepted
  once : s.accepted.Nodup ∧ ∀ a ∈ s.accepted, a < s.armings
  holds : ∀ k x, s.sessions[k]? = some x → x.released = false →
    s.live x.endpoint = some k
  told : ∀ k ∈ s.cuts, (∃ r, (k, r) ∈ s.sends) ∨
    ∃ x, s.sessions[k]? = some x ∧ x.told
  found : ∀ k ∈ s.cuts, k < s.sessions.length

section

variable {s s' : State}

theorem kept_empty : Kept .empty :=
  ⟨⟨nodup_nil, nofun⟩, ⟨nodup_nil, nofun⟩, nofun, nofun, nofun⟩

theorem Kept.disarm (h : Kept s) (p : Expectation → Bool) :
    Kept { s with expects := s.expects.filter p } := by
  refine { h with armed := ⟨?_, ?_⟩ }
  · exact h.armed.1.sublist (filter_sublist.map _)
  · intro e he
    exact h.armed.2 e (mem_filter.1 he).1

/-- A session changes, with the tables that go with it. -/
theorem Kept.modify (h : Kept s) (hholds : ∀ j x, s.sessions[j]? = some x →
      (if k = j then f x else x).released = false →
      live (if k = j then f x else x).endpoint = some j)
    (htold : ∀ j x, (∃ r, (j, r) ∈ s.sends) ∨ x.told →
      (∃ r, (j, r) ∈ sends) ∨ (if k = j then f x else x).told) :
    Kept { s with live, sends, sessions := s.sessions.modify k f } := by
  refine { h with holds := ?_, told := ?_, found := ?_ }
  · intro j y hy
    rw [getElem?_modify] at hy
    obtain ⟨x, hx, rfl⟩ := map_eq_some_iff.1 hy
    exact hholds j x hx
  · intro j hj
    obtain ⟨x, hx⟩ : ∃ x, s.sessions[j]? = some x :=
      ⟨_, getElem?_eq_getElem (h.found j hj)⟩
    have hbefore : (∃ r, (j, r) ∈ s.sends) ∨ x.told := by
      rcases h.told j hj with hr | ⟨x', hx', ht⟩
      · exact .inl hr
      · rw [hx'] at hx
        exact .inr (some.inj hx ▸ ht)
    rcases htold j x hbefore with hr | ht
    · exact .inl hr
    · refine .inr ⟨_, ?_, ht⟩
      rw [getElem?_modify, hx]
      rfl
  · intro j hj
    rw [length_modify]
    exact h.found j hj

theorem Kept.cutAll (h : Kept s) (hks : ∀ k ∈ ks, k < s.sessions.length)
    (reason : String) : Kept (s.cutAll ks reason) := by
  refine { h with told := ?_, found := ?_ }
  · intro k hk
    rcases mem_append.1 hk with hk | hk
    · rcases h.told k hk with ⟨r, hr⟩ | hx
      · exact .inl ⟨r, mem_append_left _ hr⟩
      · exact .inr hx
    · exact .inl ⟨reason, mem_append_right _ (mem_map_of_mem hk)⟩
  · intro k hk
    rcases mem_append.1 hk with hk | hk
    · exact h.found k hk
    · exact hks k hk

theorem lt_of_mem_liveWith (h : k ∈ s.liveWith p) : k < s.sessions.length :=
  mem_range.1 (mem_filter.1 h).1

theorem Kept.claim (h : Kept s) (endpoint hash : Nat) : Kept (s.claimAttach endpoint hash) := by
  have hdisarm := h.disarm fun e => e.hash ≠ hash
  unfold State.claimAttach
  split
  · exact { hdisarm with }
  · next e hfind =>
    have he := mem_of_find?_eq_some hfind
    have hhash : e.hash = hash := by simpa using find?_some hfind
    split
    · exact { hdisarm with }
    · next hfree =>
      simp only [not_or, not_not] at hfree
      refine { hdisarm with
        armed := ⟨hdisarm.armed.1, ?_⟩, once := ⟨?_, ?_⟩
        holds := ?_, told := ?_, found := ?_ }
      · intro e' he'
        obtain ⟨he'', hne⟩ := mem_filter.1 he'
        obtain ⟨hlt, hnot⟩ := h.armed.2 e' he''
        refine ⟨hlt, fun hmem => ?_⟩
        rcases mem_cons.1 hmem with heq | hmem
        · have hsame := inj_on_of_nodup_map h.armed.1 he'' he heq
          simp [hsame, hhash] at hne
        · exact hnot hmem
      · exact nodup_cons.2 ⟨(h.armed.2 e he).2, h.once.1⟩
      · exact forall_mem_cons.2 ⟨(h.armed.2 e he).1, h.once.2⟩
      · intro k x hx hlive
        show update s.live endpoint _ x.endpoint = _
        rcases Nat.lt_or_ge k s.sessions.length with hk | hk
        · rw [getElem?_append_left hk] at hx
          have hholds := h.holds k x hx hlive
          rw [update_of_ne]
          · exact hholds
          · rintro rfl
            cases hfree.2.2.symm.trans hholds
        · rw [getElem?_append_right hk] at hx
          rw [getElem?_singleton] at hx
          obtain ⟨hzero, hsession⟩ := ite_none_right_eq_some.1 hx
          rw [← some.inj hsession, update_self]
          exact congrArg some (by omega)
      · intro k hk
        rcases h.told k hk with hr | ⟨x, hx, ht⟩
        · exact .inl hr
        · refine .inr ⟨x, ?_, ht⟩
          rw [getElem?_append_left (h.found k hk)]
          exact hx
      · intro k hk
        have := h.found k hk
        rw [length_append]
        omega

/-- No release takes an endpoint from another session. -/
theorem Kept.release (h : Kept s) {x : Session} :
    Kept { s with
      live := if s.live x.endpoint = some k then
        update s.live x.endpoint none else s.live
      sessions := s.sessions.modify k fun x => { x with released := true } } := by
  refine h.modify ?_ ?_
  · intro j y hy hlive
    split at hlive
    · cases hlive
    · next hne =>
      have hholds := h.holds j y hy hlive
      split
      · next hmine =>
        rw [update_of_ne]
        · exact hholds
        · intro heq
          rw [heq] at hholds
          exact hne (some.inj (hmine.symm.trans hholds))
      · exact hholds
  · intro j y hbefore
    split <;> exact hbefore

theorem Kept.step (happly : s.apply a = some s') (h : Kept s) : Kept s' := by
  cases a with
  | tick n =>
    cases happly
    exact { h with }
  | setRoutes routes =>
    cases happly
    have hrouted : Kept { s with hosts := routes } := { h with }
    exact hrouted.cutAll (fun k hk => lt_of_mem_liveWith (s := s) hk) _
  | expect hash session endpoint expires =>
    cases happly
    have hdisarm := h.disarm fun e => !(e.expires < s.clock) && e.hash ≠ hash
    refine { hdisarm with
      armed := ⟨nodup_cons.2 ⟨?_, hdisarm.armed.1⟩, ?_⟩
      once := ⟨h.once.1, fun a ha => Nat.lt_succ_of_lt (h.once.2 a ha)⟩ }
    · intro hmem
      obtain ⟨e, he, heq⟩ := mem_map.1 hmem
      exact absurd heq (Nat.ne_of_lt (hdisarm.armed.2 e he).1)
    · refine forall_mem_cons.2 ⟨⟨Nat.lt_succ_self _, fun ha => ?_⟩, fun e he => ?_⟩
      · exact absurd (h.once.2 _ ha) (Nat.lt_irrefl _)
      · exact ⟨Nat.lt_succ_of_lt (hdisarm.armed.2 e he).1, (hdisarm.armed.2 e he).2⟩
  | cut session target reason =>
    obtain ⟨⟨hfound, -⟩, rfl⟩ := of_guard happly
    refine (h.disarm _).cutAll (fun k hk => ?_) _
    rw [mem_toList] at hk
    rw [hk] at hfound
    exact lt_of_mem_liveWith (of_decide_eq_true hfound)
  | send k reason =>
    obtain ⟨-, rfl⟩ := of_guard happly
    refine h.modify (fun j x hx => ?_) fun j x hbefore => ?_
    · split <;> exact h.holds j x hx
    · rcases hbefore with ⟨r, hr⟩ | ht
      · by_cases hsame : (j, r) = (k, reason)
        · cases hsame
          rw [if_pos rfl]
          exact .inr (.inl (by cases x.reason <;> rfl))
        · exact .inl ⟨r, (mem_erase_of_ne hsame).2 hr⟩
      · refine .inr ?_
        split
        · exact ht.imp (fun _ => by simp) id
        · exact ht
  | lookup host =>
    obtain ⟨e, -, rfl⟩ := map_eq_some_iff.1 happly
    exact { h with }
  | claim endpoint hash =>
    obtain ⟨-, rfl⟩ := of_guard happly
    exact h.claim endpoint hash
  | finish k =>
    cases happly
    refine h.modify (fun j x hx => ?_) fun j x hbefore => ?_
    · split <;> exact h.holds j x hx
    · refine hbefore.imp id fun ht => ?_
      split
      · exact .inr rfl
      · exact ht
  | release k =>
    obtain ⟨x, hx, hrest⟩ := bind_eq_some_iff.1 happly
    split at hrest
    · cases hrest
    · cases hrest
      exact h.release

end

/-! ## When no attach claims an endpoint that has left the table -/

/-- No request is on its way to an endpoint that the table loses. -/
def Settled : Action → State → Prop
  | .setRoutes routes, s => ∀ e ∈ s.requests, known routes e = true
  | _, _ => True

instance (a : Action) (s : State) : Decidable (Settled a s) := by
  unfold Settled
  split <;> infer_instance

/-- Requests are for endpoints of the table, and so were all claims. -/
structure Listed (s : State) : Prop where
  requests : ∀ e ∈ s.requests, known s.hosts e = true
  strays : s.strays = []

theorem Listed.step (hmay : Settled a s) (happly : s.apply a = some s')
    (h : Listed s) : Listed s' := by
  cases a with
  | setRoutes routes =>
    cases happly
    exact ⟨hmay, h.strays⟩
  | lookup host =>
    obtain ⟨e, he, rfl⟩ := map_eq_some_iff.1 happly
    refine ⟨forall_mem_cons.2 ⟨?_, h.requests⟩, h.strays⟩
    obtain ⟨l, r, hsplit, -⟩ := lookup_eq_some_iff.1 he
    have hmem : (host, e) ∈ s.hosts.reverse := by simp [hsplit]
    exact any_eq_true.2 ⟨_, mem_reverse.1 hmem, decide_eq_true rfl⟩
  | claim endpoint hash =>
    obtain ⟨hmem, rfl⟩ := of_guard happly
    have hrequests : ∀ e ∈ s.requests.erase endpoint, known s.hosts e = true :=
      fun e he => h.requests e (mem_of_mem_erase he)
    unfold State.claimAttach
    split
    · exact ⟨hrequests, h.strays⟩
    · split
      · exact ⟨hrequests, h.strays⟩
      · exact ⟨hrequests, by simp [h.requests _ hmem, h.strays]⟩
  | cut session target reason | send k reason =>
    obtain ⟨-, rfl⟩ := of_guard happly
    exact ⟨h.requests, h.strays⟩
  | release k =>
    obtain ⟨x, hx, hrest⟩ := bind_eq_some_iff.1 happly
    split at hrest
    · cases hrest
    · cases hrest
      exact ⟨h.requests, h.strays⟩
  | _ =>
    cases happly
    exact ⟨h.requests, h.strays⟩

/-- In every run in which the table loses no endpoint that a request is about to
claim: an arming is accepted at most once; a session that is not released holds
its endpoint, so there is at most one, and no other release has taken it away;
a session that was cut has an end reason, or the call that cuts it is about to
send it; and no claim was for an endpoint outside of the table. -/
theorem attach_exclusive (s : State) (h : Machine.Reaches State.apply Settled .empty s) :
    s.accepted.Nodup ∧
    (∀ k x, s.sessions[k]? = some x → x.released = false → s.live x.endpoint = some k) ∧
    (∀ k ∈ s.cuts, (∃ r, (k, r) ∈ s.sends) ∨ ∃ x, s.sessions[k]? = some x ∧ x.told) ∧
    s.strays = [] := by
  have hkept : Kept s :=
    h.invariant (fun _ _ _ _ happly hs => hs.step happly) kept_empty
  have hlisted : Listed s :=
    h.invariant (fun _ _ _ hmay happly hs => hs.step hmay happly) ⟨nofun, rfl⟩
  exact ⟨hkept.once.1, hkept.holds, hkept.told, hlisted.strays⟩

/-- A laptop attaches, a second one finds the endpoint occupied, and the session
is cut. -/
def attached : List Action :=
  [.setRoutes [(1, 7)], .expect 5 100 7 60, .expect 6 101 7 60, .lookup 1,
    .lookup 1, .claim 7 5, .claim 7 6, .cut 100 (some 0) "", .send 0 "revoked"]

theorem attach_exclusive_attached :
    ∃ s, Machine.Reaches State.apply Settled .empty s ∧ s.accepted = [0] ∧
      s.cuts = [0] ∧ s.accepted.Nodup ∧ s.strays = [] := by
  have hrun : (run State.apply attached .empty).any
      (fun s => s.accepted = [0] ∧ s.cuts = [0]) = true := by decide +kernel
  obtain ⟨s, hs, hlast⟩ := (any_eq_true _ _).1 hrun
  have hreaches : Machine.Reaches State.apply Settled .empty s :=
    .of_run hs (by decide +kernel)
  obtain ⟨haccepted, hcuts⟩ := of_decide_eq_true hlast
  obtain ⟨honce, -, -, hstrays⟩ := attach_exclusive s hreaches
  exact ⟨s, hreaches, haccepted, hcuts, honce, hstrays⟩

/-- The table loses the endpoint between the lookup of a request and its claim:
the claim succeeds, and nothing cuts the session. -/
theorem attach_strays :
    (Machine.run State.apply
      [.setRoutes [(1, 7)], .expect 5 100 7 60, .lookup 1, .setRoutes [],
        .claim 7 5] .empty).any
      (fun s => s.strays = [7] ∧ s.live 7 = some 0 ∧ s.cuts = []) = true := by
  decide +kernel

end Akerdock.Agent.Ingress
