import Akerdock.Sessions.Rows

/-!
# Claims are bound to one attacher and one generation

Claims, heartbeats, ends, sweeps and revocations of sessions come in any order
and at any time.  The row itself keeps them apart: its `attach_key_hash` lets
one key in, its `attach_seq` counts the claims, and its `ended_at` is the end.

* `State.claims` records the claims that succeeded, with what `RETURNING`
  gave, the newest first.
* `Quiet` are the updates beside the claim.  They leave alone who attached, and
  how a session ended.
* `Bound` is the invariant that ties the claims to the rows.
* `claims_bound` is the result, for both families.
-/

namespace Akerdock.Sessions

open Table List Option Prod Machine

/-! ## Runs -/

/-- A claim that succeeded: the row, the key that was presented, and the row
that the statement returned. -/
structure Claim where
  row : Nat
  key : String
  seq : Nat
  claimedAt : Option Nat
  startedAt : Nat
  deriving DecidableEq

/-- The table of a family. -/
structure State where
  rows : List Session
  nextId : Nat
  claims : List Claim

def State.empty : State := ⟨[], 1, []⟩

/-- The statements that sessions see.  A heartbeat carries the number of its
attach, and an end carries one if an attach asks for it. -/
inductive Action where
  | create (tokenHash : String) (expiresAt : Nat) (until? : Option Nat) (now : Nat)
  | claim (tokenHash key : String) (now : Nat)
  | heartbeat (id attachSeq now : Nat)
  | finish (id : Nat) (reason : EndReason) (attachSeq : Option Nat) (now : Nat)
  | sweep (id now : Nat)
  | mark (id : Nat) (until? : Option Nat) (now : Nat)
  | purge (before : Nat)

/-- What a claim returns. -/
def Session.claim (r : Session) (key : String) : Claim :=
  ⟨r.id, key, r.attachSeq, r.claimedAt, r.startedAt⟩

def State.apply (f : Family) (a : Action) (s : State) : Option State :=
  match a with
  | .create tokenHash expiresAt until? now =>
    -- `token_hash` is unique.
    if s.rows.any fun r => r.tokenHash = tokenHash then none
    else some { s with
      rows := createSession s.nextId tokenHash expiresAt until? now :: s.rows
      nextId := s.nextId + 1 }
  | .claim tokenHash key now =>
    let u := f.claim tokenHash key now
    some { s with
      rows := u.run s.rows
      claims := ((s.rows.filter u.hits).map fun r => (u.write r).claim key) ++ s.claims }
  | .heartbeat id attachSeq now =>
    some { s with rows := (f.heartbeat id attachSeq now).run s.rows }
  | .finish id reason attachSeq now =>
    some { s with rows := (f.finish id reason attachSeq now).run s.rows }
  | .sweep id now => some { s with rows := (f.sweep id now).run s.rows }
  | .mark id until? now =>
    some { s with rows := (f.mark id until? now).run s.rows }
  | .purge before =>
    some { s with
      rows := deleteWhere (fun r => r.endedAt.any (· < before)) s.rows }

/-! ## What a statement does -/

/-- The part of a row that the statements beside the claim leave alone. -/
def Session.attach (r : Session) : Nat × Option Nat × Nat × Option String × Nat :=
  (r.id, r.claimedAt, r.startedAt, r.attachKeyHash, r.attachSeq)

def Session.ending (r : Session) : Option Nat × Option EndReason :=
  (r.endedAt, r.endReason)

/-- An update that is not a claim: it leaves the attach alone, and the end of a
session that has one. -/
structure Quiet (u : Update) : Prop where
  attach : ∀ r, (u.write r).attach = r.attach
  ending : ∀ r, u.hits r = true → r.endedAt.isSome = true →
    (u.write r).ending = r.ending

theorem quiet_heartbeat (f : Family) (id attachSeq now : Nat) :
    Quiet (f.heartbeat id attachSeq now) := by
  cases f <;> exact ⟨fun _ => rfl, fun _ _ _ => rfl⟩

theorem quiet_of_open (hattach : ∀ r, (u.write r).attach = r.attach)
    (hopen : ∀ r, u.hits r = true → r.endedAt = none) : Quiet u where
  attach := hattach
  ending := by
    intro r hhit hended
    rw [hopen r hhit] at hended
    cases hended

theorem quiet_finish (f : Family) (id : Nat) (reason : EndReason)
    (attachSeq : Option Nat) (now : Nat) :
    Quiet (f.finish id reason attachSeq now) := by
  have hquiet : Quiet (endSession id reason attachSeq now) := by
    refine quiet_of_open (fun _ => rfl) ?_
    intro r hhit
    simp only [endSession, Bool.and_eq_true, isNone_iff_eq_none] at hhit
    exact hhit.1.2
  cases f <;> exact hquiet

theorem quiet_sweep (f : Family) (id now : Nat) : Quiet (f.sweep id now) := by
  cases f with
  | portForward =>
    refine quiet_of_open (fun _ => rfl) ?_
    intro r hhit
    simp only [Family.sweep, sweepPortForwardSessions, Bool.and_eq_true,
      isNone_iff_eq_none] at hhit
    exact hhit.1.2
  | terminal maxDuration =>
    refine quiet_of_open (fun _ => rfl) ?_
    intro r hhit
    simp only [Family.sweep, sweepTerminalSessions, Bool.and_eq_true,
      isNone_iff_eq_none] at hhit
    exact hhit.1.2

theorem quiet_mark (f : Family) (id : Nat) (until? : Option Nat) (now : Nat) :
    Quiet (f.mark id until? now) := by
  cases f <;> exact ⟨fun _ => rfl, fun _ _ _ => rfl⟩

/-- The claim of either family: which rows it can hit, and what it writes. -/
theorem claim_hits (f : Family) (h : (f.claim tokenHash key now).hits r = true) :
    r.endedAt = none ∧ (r.attachKeyHash = none ∨ r.attachKeyHash = some key) := by
  have hboth : ∀ authorized : Session → Bool,
      (claimSession authorized tokenHash key now).hits r = true →
      r.endedAt = none ∧ (r.attachKeyHash = none ∨ r.attachKeyHash = some key) := by
    intro authorized h
    simp only [claimSession, Bool.and_eq_true, Bool.or_eq_true,
      isNone_iff_eq_none, decide_eq_true_eq] at h
    exact ⟨h.1.1.1.2, h.1.2⟩
  cases f with
  | portForward | terminal maxDuration => exact hboth _ h

section Write

variable (f : Family) (tokenHash key : String) (now : Nat) (r : Session)

theorem claim_id : ((f.claim tokenHash key now).write r).id = r.id := by
  cases f <;> rfl

theorem claim_claimedAt :
    ((f.claim tokenHash key now).write r).claimedAt = r.claimedAt.or (some now) := by
  cases f <;> rfl

theorem claim_startedAt : ((f.claim tokenHash key now).write r).startedAt =
    if r.attachSeq = 0 then now else r.startedAt := by
  cases f <;> rfl

theorem claim_key : ((f.claim tokenHash key now).write r).attachKeyHash = some key := by
  cases f <;> rfl

theorem claim_seq : ((f.claim tokenHash key now).write r).attachSeq = r.attachSeq + 1 := by
  cases f <;> rfl

end Write

/-- The states that a statement can lead to. -/
inductive Step (f : Family) (s : State) : Action → State → Prop where
  | create (tokenHash : String) (expiresAt : Nat) (until? : Option Nat) (now : Nat) :
      Step f s (.create tokenHash expiresAt until? now) { s with
        rows := createSession s.nextId tokenHash expiresAt until? now :: s.rows
        nextId := s.nextId + 1 }
  | claim (tokenHash key : String) (now : Nat) :
      Step f s (.claim tokenHash key now) { s with
        rows := (f.claim tokenHash key now).run s.rows
        claims := ((s.rows.filter (f.claim tokenHash key now).hits).map fun r =>
          ((f.claim tokenHash key now).write r).claim key) ++ s.claims }
  | update {a : Action} {u : Update} (hu : Quiet u) : Step f s a { s with rows := u.run s.rows }
  | purge (before : Nat) :
      Step f s (.purge before) { s with
        rows := deleteWhere (fun r => r.endedAt.any (· < before)) s.rows }

theorem step_of_apply (h : s.apply f a = some s') : Step f s a s' := by
  cases a with
  | create tokenHash expiresAt until? now =>
    simp only [State.apply] at h
    split at h
    · cases h
    · cases h
      exact .create tokenHash expiresAt until? now
  | claim tokenHash key now =>
    cases h
    exact .claim tokenHash key now
  | heartbeat id attachSeq now =>
    cases h
    exact .update (quiet_heartbeat f id attachSeq now)
  | finish id reason attachSeq now =>
    cases h
    exact .update (quiet_finish f id reason attachSeq now)
  | sweep id now =>
    cases h
    exact .update (quiet_sweep f id now)
  | mark id until? now =>
    cases h
    exact .update (quiet_mark f id until? now)
  | purge before =>
    cases h
    exact .purge before

/-! ## The invariant -/

/-- What a claim has returned is still so: the row has the stamps and the key of
the claim, and a number that is not smaller. -/
structure Stamped (r : Session) (c : Claim) : Prop where
  claimedAt : r.claimedAt = c.claimedAt
  startedAt : r.startedAt = c.startedAt
  key : r.attachKeyHash = some c.key
  seq : c.seq ≤ r.attachSeq

/-- Two claims of one row, the first of them the later one. -/
structure Follows (c c' : Claim) : Prop where
  key : c.key = c'.key
  claimedAt : c.claimedAt = c'.claimedAt
  startedAt : c.startedAt = c'.startedAt
  seq : c'.seq < c.seq

/-- What holds of the claims and the rows in every run. -/
structure Bound (s : State) : Prop where
  ids : ∀ r ∈ s.rows, r.id < s.nextId
  distinct : (s.rows.map Session.id).Nodup
  known : ∀ c ∈ s.claims, c.row < s.nextId
  made : ∀ c ∈ s.claims, 0 < c.seq ∧ c.claimedAt.isSome = true
  stamped : ∀ r ∈ s.rows, ∀ c ∈ s.claims, c.row = r.id → Stamped r c
  ordered : s.claims.Pairwise fun c c' => c.row = c'.row → Follows c c'

theorem bound_empty : Bound .empty where
  ids := forall_mem_nil _
  distinct := nodup_nil
  known := nofun
  made := nofun
  stamped := forall_mem_nil _
  ordered := .nil

section Steps

variable {f : Family} {s : State} {a : Action}

/-- A row with the attach of another one has the same stamps. -/
theorem Stamped.of_attach (h : Stamped r c) (heq : r'.attach = r.attach) : Stamped r' c := by
  simp only [Session.attach, mk.injEq] at heq
  obtain ⟨_, hclaimed, hstarted, hkey, hseq⟩ := heq
  exact ⟨hclaimed.trans h.claimedAt, hstarted.trans h.startedAt, hkey.trans h.key, hseq ▸ h.seq⟩

theorem mem_run {u : Update} (h : r' ∈ u.run rows) :
    ∃ r ∈ rows, u.hits r = true ∧ r' = u.write r ∨ u.hits r = false ∧ r' = r := by
  rcases of_mem_updateWhere h with ⟨r, hr, hhit, rfl⟩ | ⟨hr, hhit⟩
  · exact ⟨r, hr, .inl ⟨hhit, rfl⟩⟩
  · exact ⟨_, hr, .inr ⟨hhit, rfl⟩⟩

theorem Quiet.mem_run {u : Update} (hu : Quiet u) (h : r' ∈ u.run rows) :
    ∃ r ∈ rows, r'.attach = r.attach ∧ (r.endedAt.isSome = true → r'.ending = r.ending) := by
  obtain ⟨r, hr, ⟨hhit, rfl⟩ | ⟨_, rfl⟩⟩ := Sessions.mem_run h
  · exact ⟨r, hr, hu.attach r, hu.ending r hhit⟩
  · exact ⟨r', hr, rfl, fun _ => rfl⟩

theorem Bound.create (hs : Bound s) (tokenHash : String) (expiresAt : Nat)
    (until? : Option Nat) (now : Nat) :
    Bound { s with
      rows := createSession s.nextId tokenHash expiresAt until? now :: s.rows
      nextId := s.nextId + 1 } where
  ids := by
    exact forall_mem_cons.2
      ⟨Nat.lt_succ_self _, fun r hr => Nat.lt_succ_of_lt (hs.ids r hr)⟩
  distinct := nodup_insert hs.distinct fun r hr => Nat.ne_of_lt (hs.ids r hr)
  known := fun c hc => Nat.lt_succ_of_lt (hs.known c hc)
  made := hs.made
  stamped := by
    refine forall_mem_cons.2 ⟨fun c hc hrow => ?_, hs.stamped⟩
    exact absurd hrow (Nat.ne_of_lt (hs.known c hc))
  ordered := hs.ordered

theorem Bound.update (hs : Bound s) (hu : Quiet u) : Bound { s with rows := u.run s.rows } := by
  have hids : (u.run s.rows).map Session.id = s.rows.map Session.id := by
    refine map_updateWhere ?_ _ _
    intro r
    exact congrArg fst (hu.attach r)
  refine { hs with ids := ?_, distinct := ?_, stamped := ?_ }
  · intro r' hr'
    obtain ⟨r, hr, hattach, _⟩ := hu.mem_run hr'
    have hid : r'.id = r.id := congrArg fst hattach
    rw [hid]
    exact hs.ids r hr
  · show ((u.run s.rows).map Session.id).Nodup
    rw [hids]
    exact hs.distinct
  · intro r' hr' c hc hrow
    obtain ⟨r, hr, hattach, _⟩ := hu.mem_run hr'
    have hid : r'.id = r.id := congrArg fst hattach
    exact (hs.stamped r hr c hc (hrow.trans hid)).of_attach hattach

/-- A claim of a row that was claimed before: the key is the same, and so are
the stamps. -/
theorem follows_of_stamped {c : Claim} (h : Stamped r c)
    (hmade : 0 < c.seq ∧ c.claimedAt.isSome = true)
    (hhit : (f.claim tokenHash key now).hits r = true) :
    Follows (((f.claim tokenHash key now).write r).claim key) c := by
  obtain ⟨_, hkey⟩ := claim_hits f hhit
  have hsome : r.claimedAt.isSome = true := by
    rw [h.claimedAt]
    exact hmade.2
  have hnz : r.attachSeq ≠ 0 := by
    have hle := h.seq
    omega
  refine ⟨?_, ?_, ?_, ?_⟩
  · rcases hkey with hnone | hsame
    · cases h.key.symm.trans hnone
    · rw [h.key] at hsame
      exact (some.inj hsame).symm
  · rw [Session.claim, claim_claimedAt, ← h.claimedAt]
    exact or_of_isSome hsome
  · rw [Session.claim, claim_startedAt, if_neg hnz]
    exact h.startedAt
  · rw [Session.claim, claim_seq]
    exact Nat.lt_succ_of_le h.seq

theorem Bound.claim (hs : Bound s) (tokenHash key : String) (now : Nat) :
    Bound { s with
      rows := (f.claim tokenHash key now).run s.rows
      claims := ((s.rows.filter (f.claim tokenHash key now).hits).map fun r =>
        ((f.claim tokenHash key now).write r).claim key) ++ s.claims } := by
  have hid := claim_id f tokenHash key now
  -- A new claim comes from a row that the statement hits.
  have hnew : ∀ c ∈ (s.rows.filter (f.claim tokenHash key now).hits).map fun r =>
      ((f.claim tokenHash key now).write r).claim key, ∃ r ∈ s.rows,
        (f.claim tokenHash key now).hits r = true ∧
        c = ((f.claim tokenHash key now).write r).claim key := by
    intro c hc
    obtain ⟨r, hr, rfl⟩ := mem_map.1 hc
    obtain ⟨hr, hhit⟩ := mem_filter.1 hr
    exact ⟨r, hr, hhit, rfl⟩
  refine ⟨?_, ?_, ?_, ?_, ?_, ?_⟩
  · refine forall_updateWhere hs.ids fun r _ _ hr => ?_
    rw [hid]
    exact hr
  · rw [Update.run, map_updateWhere hid]
    exact hs.distinct
  · refine forall_mem_append.2 ⟨fun c hc => ?_, hs.known⟩
    obtain ⟨r, hr, _, rfl⟩ := hnew c hc
    rw [Session.claim, hid]
    exact hs.ids r hr
  · refine forall_mem_append.2 ⟨fun c hc => ?_, hs.made⟩
    obtain ⟨r, hr, _, rfl⟩ := hnew c hc
    rw [Session.claim, claim_seq, claim_claimedAt, isSome_or, isSome_some, Bool.or_true]
    exact ⟨Nat.succ_pos _, rfl⟩
  · intro r' hr' c hc hrow
    obtain ⟨r, hr, hcase⟩ := mem_run hr'
    have hsame : r'.id = r.id := by
      rcases hcase with ⟨_, rfl⟩ | ⟨_, rfl⟩
      · exact hid r
      · rfl
    rcases mem_append.1 hc with hc | hc
    · -- The claim was just made, of this row.
      obtain ⟨q, hq, hhit, rfl⟩ := hnew c hc
      have hqr : q.id = r.id := (hid q).symm.trans (hrow.trans hsame)
      obtain rfl := inj_on_of_nodup_map hs.distinct hq hr hqr
      rcases hcase with ⟨_, rfl⟩ | ⟨hmiss, _⟩
      · exact ⟨rfl, rfl, claim_key .., Nat.le_refl _⟩
      · cases hmiss.symm.trans hhit
    · have hstamped := hs.stamped r hr c hc (hrow.trans hsame)
      rcases hcase with ⟨hhit, rfl⟩ | ⟨_, rfl⟩
      · have hfollows := follows_of_stamped hstamped (hs.made c hc) hhit
        refine ⟨hfollows.claimedAt, hfollows.startedAt, ?_, Nat.le_of_lt hfollows.seq⟩
        rw [claim_key, ← hfollows.key]
        rfl
      · exact hstamped
  · refine pairwise_append.2 ⟨?_, hs.ordered, ?_⟩
    · refine pairwise_map.2 ?_
      have hdistinct : (s.rows.filter
          (f.claim tokenHash key now).hits).Pairwise fun r q => r.id ≠ q.id := by
        refine List.Pairwise.sublist filter_sublist ?_
        exact pairwise_map.1 hs.distinct
      refine hdistinct.imp ?_
      intro r q hne hrow
      exact absurd ((hid r).symm.trans (hrow.trans (hid q))) hne
    · intro c hc c' hc' hrow
      obtain ⟨r, hr, hhit, rfl⟩ := hnew c hc
      have hrow' : c'.row = r.id := hrow.symm.trans (hid r)
      exact follows_of_stamped (hs.stamped r hr c' hc' hrow') (hs.made c' hc') hhit

theorem Bound.step (hs : Bound s) (h : Step f s a s') : Bound s' := by
  cases h with
  | create tokenHash expiresAt until? now =>
    exact hs.create tokenHash expiresAt until? now
  | claim tokenHash key now => exact hs.claim tokenHash key now
  | update hu => exact hs.update hu
  | purge before =>
    exact { hs with
      ids := fun r hr => hs.ids r (mem_filter.1 hr).1
      distinct := hs.distinct.sublist (filter_sublist.map _)
      stamped := fun r hr => hs.stamped r (mem_filter.1 hr).1 }

/-! ## The end -/

/-- The session `r` is over: its row says how it ended, and no claim of it is
new since `claims`. -/
structure Over (r : Session) (claims : List Claim) (s : State) : Prop where
  known : r.id < s.nextId
  ending : ∀ r' ∈ s.rows, r'.id = r.id → r'.ending = r.ending
  claims : ∀ c ∈ s.claims, c.row = r.id → c ∈ claims

theorem Over.step {r : Session} {claims : List Claim} (hs : Over r claims s)
    (hended : r.endedAt.isSome = true) (h : Step f s a s') :
    Over r claims s' := by
  have hsome : ∀ r' ∈ s.rows, r'.id = r.id → r'.endedAt.isSome = true := by
    intro r' hr' hid
    have heq : r'.endedAt = r.endedAt :=
      congrArg fst (hs.ending r' hr' hid)
    rw [heq]
    exact hended
  cases h with
  | create tokenHash expiresAt until? now =>
    refine ⟨Nat.lt_succ_of_lt hs.known, ?_, hs.claims⟩
    exact forall_mem_cons.2 ⟨fun hid => absurd hid (Nat.ne_of_gt hs.known), hs.ending⟩
  | claim tokenHash key now =>
    have hmiss : ∀ q ∈ s.rows, q.id = r.id → (f.claim tokenHash key now).hits q = false := by
      intro q hq hid
      refine Bool.eq_false_iff.2 fun hhit => ?_
      have hend := hsome q hq hid
      rw [(claim_hits f hhit).1] at hend
      cases hend
    have hwrite := claim_id f tokenHash key now
    refine ⟨hs.known, ?_, ?_⟩
    · intro r' hr' hid
      obtain ⟨q, hq, ⟨hhit, rfl⟩ | ⟨_, rfl⟩⟩ := mem_run hr'
      · cases (hmiss q hq ((hwrite q).symm.trans hid)).symm.trans hhit
      · exact hs.ending r' hq hid
    · intro c hc hrow
      rcases mem_append.1 hc with hc | hc
      · obtain ⟨q, hq, rfl⟩ := mem_map.1 hc
        obtain ⟨hq, hhit⟩ := mem_filter.1 hq
        cases (hmiss q hq ((hwrite q).symm.trans hrow)).symm.trans hhit
      · exact hs.claims c hc hrow
  | update hu =>
    refine ⟨hs.known, ?_, hs.claims⟩
    intro r' hr' hid
    obtain ⟨q, hq, hattach, hending⟩ := hu.mem_run hr'
    have hqid : q.id = r.id := (congrArg fst hattach).symm.trans hid
    rw [hending (hsome q hq hqid)]
    exact hs.ending q hq hqid
  | purge before =>
    refine ⟨hs.known, ?_, hs.claims⟩
    intro r' hr' hid
    exact hs.ending r' (mem_filter.1 hr').1 hid

end Steps

/-! ## The result -/

/-- In every run of either family:

* all claims of a row that succeeded present the same key and return the same
  `claimed_at` and `started_at`, each with a larger number than the one before;
* the row still has these values, so they do not change after the first claim;
* a heartbeat or an end for an attach that was superseded changes nothing;
* once a session is over, no claim of it succeeds and its end stays as it
  is. -/
theorem claims_bound {f : Family} {s : State}
    (h : Reaches (State.apply f) (fun _ _ => True) .empty s) :
    (s.claims.Pairwise fun c c' => c.row = c'.row → Follows c c') ∧
    (∀ r ∈ s.rows, ∀ c ∈ s.claims, c.row = r.id → Stamped r c) ∧
    (∀ c ∈ s.claims, ∀ seq < c.seq, ∀ now reason,
      s.apply f (.heartbeat c.row seq now) = some s ∧
        s.apply f (.finish c.row reason (some seq) now) = some s) ∧
    ∀ r ∈ s.rows, r.endedAt.isSome = true → ∀ s',
      Reaches (State.apply f) (fun _ _ => True) s s' →
        (∀ r' ∈ s'.rows, r'.id = r.id → r'.endedAt = r.endedAt ∧ r'.endReason = r.endReason) ∧
        ∀ c ∈ s'.claims, c.row = r.id → c ∈ s.claims := by
  have hs : Bound s := h.invariant
    (fun a s s' _ happly hs => hs.step (step_of_apply happly)) bound_empty
  refine ⟨hs.ordered, hs.stamped, ?_, ?_⟩
  · intro c hc seq hlt now reason
    have hother : ∀ r ∈ s.rows, r.id = c.row → r.attachSeq ≠ seq := by
      intro r hr hid
      have hle := (hs.stamped r hr c hc hid.symm).seq
      omega
    have hbeat : (f.heartbeat c.row seq now).run s.rows = s.rows := by
      refine updateWhere_eq_self ?_
      intro r hr
      have hmiss : (heartbeatSession c.row seq now).hits r = false := by
        refine Bool.eq_false_iff.2 fun hhit => ?_
        simp only [heartbeatSession, Bool.and_eq_true,
          decide_eq_true_eq] at hhit
        exact hother r hr hhit.1.1.1 hhit.1.1.2
      cases f <;> exact hmiss
    have hfinish : (f.finish c.row reason (some seq) now).run s.rows = s.rows := by
      refine updateWhere_eq_self ?_
      intro r hr
      have hmiss : (endSession c.row reason (some seq) now).hits r = false := by
        refine Bool.eq_false_iff.2 fun hhit => ?_
        simp only [endSession, Bool.and_eq_true, Bool.or_eq_true,
          isNone_some, some.injEq, decide_eq_true_eq,
          Bool.false_eq_true, false_or] at hhit
        exact hother r hr hhit.1.1 hhit.2
      cases f <;> exact hmiss
    exact ⟨by rw [State.apply, hbeat], by rw [State.apply, hfinish]⟩
  · intro r hr hended s' hreach
    have hover : Over r s.claims s' := by
      refine hreach.invariant (fun a s s' _ happly hs =>
        hs.step hended (step_of_apply happly)) ⟨hs.ids r hr, ?_, ?_⟩
      · intro r' hr' hid
        rw [inj_on_of_nodup_map hs.distinct hr' hr hid]
      · exact fun c hc _ => hc
    refine ⟨?_, hover.claims⟩
    intro r' hr' hid
    have hending := hover.ending r' hr' hid
    exact ⟨congrArg fst hending, congrArg snd hending⟩

/-- An attach is claimed twice with its key, a stranger tries in between, and
the session ends while the first attach still beats. -/
def reattached : List Action :=
  [.create "token" 60 none 0, .claim "token" "key" 5,
    .claim "token" "stranger" 6, .claim "token" "key" 9, .heartbeat 1 1 20,
    .finish 1 .disconnect (some 1) 21, .finish 1 .userClose (some 2) 30,
    .claim "token" "key" 40]

theorem claims_bound_reattached :
    ∃ s, run (State.apply .portForward) reattached .empty = some s ∧
      s.claims = [⟨1, "key", 2, some 5, 5⟩, ⟨1, "key", 1, some 5, 5⟩] ∧
      s.rows.map Session.ending = [(some 30, some .userClose)] ∧
      (s.claims.Pairwise fun c c' => c.row = c'.row → Follows c c') ∧
      (∀ r ∈ s.rows, ∀ c ∈ s.claims, c.row = r.id → Stamped r c) ∧
      (∀ c ∈ s.claims, ∀ seq < c.seq, ∀ now reason,
        s.apply .portForward (.heartbeat c.row seq now) = some s ∧
          s.apply .portForward (.finish c.row reason (some seq) now) = some s) ∧
      ∀ r ∈ s.rows, r.endedAt.isSome = true → ∀ s',
        Reaches (State.apply .portForward) (fun _ _ => True) s s' →
          (∀ r' ∈ s'.rows, r'.id = r.id → r'.endedAt = r.endedAt ∧ r'.endReason = r.endReason) ∧
          ∀ c ∈ s'.claims, c.row = r.id → c ∈ s.claims := by
  have hrun : (run (State.apply .portForward) reattached .empty).any
      (fun s => s.claims = [⟨1, "key", 2, some 5, 5⟩, ⟨1, "key", 1, some 5, 5⟩] ∧
        s.rows.map Session.ending = [(some 30, some .userClose)]) = true := by
    decide +kernel
  obtain ⟨s, hs, hstate⟩ := (any_eq_true _ _).1 hrun
  obtain ⟨hclaims, hrows⟩ := of_decide_eq_true hstate
  refine ⟨s, hs, hclaims, hrows, ?_⟩
  exact @claims_bound .portForward s (Reaches.of_run hs runMay_true)

end Akerdock.Sessions
