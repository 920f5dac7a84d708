import Akerdock.Lib.Machine
import Akerdock.Secrets.Rotation

/-!
# A rotation comes to its end

`rotateColumn` has no cursor: it reads a batch of the rows that are not under
the active key version, writes them back, and starts again until there is no
such row.  A batch of which no row could be written is an error, since the next
one would be the same.  But rows that were deleted cannot be written either.

* `State.next` is one statement of a rotation with batches of any size, and
  `apply` has deletions and crashes between the statements.  `program_next`: the
  calls of `rotateColumn` are these steps.
* `Spares` is the condition: no deletion takes the last row of a batch of which
  nothing was written.  `deleted_batch_fails` is a run without it.
* `left` bounds the calls that are left, and `rotation_converges` is the result.
-/

namespace Akerdock.Secrets.Convergence

open Crypto Table List Proc
open Function (update)

/-- A rotation of one column, with the size of its batches. -/
structure Job where
  A : IdealAead
  k : Keyring
  column : Column
  limit : Nat
  limit_pos : 0 < limit

def Job.decrypt (c : Job) (rowAAD ciphertext : Bytes) : Except EnvelopeError Bytes :=
  Decrypt c.A c.k c.column.table c.column.column rowAAD ciphertext

/-- Where `rotateColumn` is.  A batch has its size, what is left of it, and the
number of rows written. -/
inductive Phase where
  | reads
  | batch (size : Nat) (rest : List Candidate) (written : Nat)
  | ended (result : Except RotateError Unit)
  deriving DecidableEq

structure State where
  table : SecretTable
  phase : Phase

/-- What happens to the column.  After a crash, the rotation is made again. -/
inductive Action where
  | rotate (nonce : Nonce)
  | delete (id : Nat)
  | crash

section

variable (c : Job)

/-- `rewrite`, with the nonce that it draws. -/
def reseal (nonce : Nonce) (row : Candidate) : Except EnvelopeError Bytes := do
  let plaintext ← c.decrypt row.rowAAD row.ciphertext
  Encrypt c.A c.k (some nonce) c.column.table c.column.column row.rowAAD plaintext

/-- The next statement of `rotateColumn`, and what it does with the answer. -/
def State.next (nonce : Nonce) : State → State
  | ⟨t, .reads⟩ =>
    match encryptionRotationCandidates c.k.active c.limit t with
    | none => ⟨t, .ended (.error (.candidates c.column))⟩
    | some [] => ⟨t, .ended (.ok ())⟩
    | some (row :: rows) => ⟨t, .batch (rows.length + 1) (row :: rows) 0⟩
  | ⟨t, .batch size (row :: rest) written⟩ =>
    match reseal c nonce row with
    | .error e => ⟨t, .ended (.error (.rewrite c.column row.rowID e))⟩
    | .ok enc => ⟨(encryptionRotationApply row.rowID enc t).2, .batch size rest
        (if (encryptionRotationApply row.rowID enc t).1 = 0 then written
          else written + 1)⟩
  | ⟨t, .batch size [] written⟩ =>
    if written = 0 then ⟨t, .ended (.error (.notRewritten c.column size))⟩
    else ⟨t, .reads⟩
  | ⟨t, .ended result⟩ => ⟨t, .ended result⟩

def State.apply : Action → State → Option State
  | .rotate nonce, s => some (s.next c nonce)
  | .delete id, s => some ⟨s.table.delete id, s.phase⟩
  | .crash, s => some ⟨s.table, .reads⟩

/-- A deletion leaves a row of the batch at hand, unless one was written. -/
def Spares : Action → State → Prop
  | .delete id, ⟨t, .batch _ rest written⟩ => 0 < written ∨ ∃ row ∈ rest,
      row.rowID ≠ id ∧ row.rowID ∈ t.rows.map SecretRow.id
  | _, _ => True

instance (a : Action) (s : State) : Decidable (Spares a s) := by
  unfold Spares
  split <;> infer_instance

/-- What `rotateColumn` has yet to do. -/
def Phase.program (batches rotated : Nat) : Phase → Rotation Nat
  | .reads => rotateColumn c.A c.k c.column c.k.active batches rotated
  | .batch size rest written => do
    let (rotated, written) ← rotateRows c.A c.k c.column rest rotated written
    if written = 0 then throw (rotated, .notRewritten c.column size)
    else rotateColumn c.A c.k c.column c.k.active batches rotated
  | .ended (.ok ()) => return rotated
  | .ended (.error e) => throw (rotated, e)

/-- The row is one of the table, with the same plaintext. -/
def From (t : SecretTable) (r : SecretRow) : Prop :=
  ∃ r₀ ∈ t.rows, r.id = r₀.id ∧ r.identity = r₀.identity ∧
    r.plaintext c.A c.k c.column = r₀.plaintext c.A c.k c.column

/-- The values can be opened. -/
def Readable (t : SecretTable) : Prop :=
  ∀ r ∈ t.rows, ∀ x ∈ r.plaintext c.A c.k c.column, ∃ p, x = .ok p

/-- The row of a batch as it was read. -/
def asRead (row : Candidate) : SecretRow :=
  ⟨row.rowID, row.rowAAD, some row.ciphertext, none⟩

/-- What is known of the rotation, for the table at the start and the one at
hand. -/
def Phase.Sound (t₀ t : SecretTable) : Phase → Prop
  | .reads => True
  | .batch _ rest written => (∀ row ∈ rest, From c t₀ (asRead row)) ∧
      (0 < written ∨ ∃ row ∈ rest, row.rowID ∈ t.rows.map SecretRow.id)
  | .ended result => result = .ok () ∧ ∀ r ∈ t.rows, r.candidate c.k.active = none

structure Sound (t₀ : SecretTable) (s : State) : Prop where
  rows : ∀ r ∈ s.table.rows, From c t₀ r
  phase : s.phase.Sound c t₀ s.table

end

section

variable {c : Job} {t : SecretTable} {r : SecretRow} {row : Candidate} {s s' : State}

theorem candidate_eq_some :
    r.candidate active = some row ↔ ∃ ct, r.value = some ct ∧
      keyVersion ct ≠ active ∧ row = ⟨r.id, r.identity, ct⟩ := by
  unfold SecretRow.candidate
  cases r.value with
  | none => simp
  | some ct =>
    by_cases h : keyVersion ct = active
    · simp [h]
    · simpa [h] using eq_comm

theorem From.read (h : From c t₀ r) (hrow : r.candidate active = some row) :
    From c t₀ (asRead row) := by
  obtain ⟨ct, hct, -, rfl⟩ := candidate_eq_some.1 hrow
  obtain ⟨r₀, hr₀, hid, hidentity, hplain⟩ := h
  refine ⟨r₀, hr₀, hid, hidentity, ?_⟩
  rw [← hplain, SecretRow.plaintext, SecretRow.plaintext, hct]
  rfl

theorem From.opens (h : From c t₀ r) (ht : Readable c t₀)
    (hct : r.value = some ct) : ∃ p, c.decrypt r.identity ct = .ok p := by
  obtain ⟨r₀, hr₀, -, -, hplain⟩ := h
  refine ht r₀ hr₀ _ ?_
  rw [← hplain, SecretRow.plaintext, hct]
  rfl

/-- A row that gets back what was read from it. -/
theorem From.write (h : From c t₀ r) (hrow : From c t₀ (asRead row))
    (hid : r.id = row.rowID) (henc : c.decrypt row.rowAAD enc =
      c.decrypt row.rowAAD row.ciphertext) :
    From c t₀ { r with value := some enc } := by
  obtain ⟨r₀, hr₀, hid₀, hidentity, hplain⟩ := hrow
  obtain ⟨r₁, hr₁, hid₁, hidentity₁, -⟩ := h
  obtain rfl : r₁ = r₀ := inj_on_of_nodup_map t₀.distinct hr₁ hr₀
    ((hid₁.symm.trans hid).trans hid₀)
  refine ⟨r₁, hr₁, hid₁, hidentity₁, ?_⟩
  have hsame : r.identity = row.rowAAD := hidentity₁.trans hidentity.symm
  rw [← hplain]
  show some (c.decrypt r.identity enc) = some _
  rw [hsame, henc]
  rfl

/-- A value that can be opened has a version, so the statement does not
fail. -/
theorem candidates_eq (h : ∀ r ∈ t.rows, From c t₀ r) (ht : Readable c t₀) :
    encryptionRotationCandidates c.k.active c.limit t =
      some (((t.rows.insertionSort fun r r' => r.id ≤ r'.id).filterMap
        (SecretRow.candidate c.k.active)).take c.limit) := by
  rw [encryptionRotationCandidates, if_neg]
  intro hany
  obtain ⟨r, hr, hshort⟩ := any_eq_true.1 hany
  obtain ⟨ct, hct, hlen⟩ := (Option.any_eq_true _ _).1 hshort
  obtain ⟨p, hp⟩ := (h r hr).opens ht hct
  have hlt : ct.length < 4 + nonceSize := by
    have := of_decide_eq_true hlen
    omega
  rw [Job.decrypt, Decrypt, if_pos hlt] at hp
  cases hp

/-- The answer of the statement: no row is left, or some rows of the table. -/
theorem candidates_spec (h : ∀ r ∈ t.rows, From c t₀ r) (ht : Readable c t₀) :
    ∃ rows, encryptionRotationCandidates c.k.active c.limit t = some rows ∧
      rows.length ≤ c.limit ∧
      (rows = [] → ∀ r ∈ t.rows, r.candidate c.k.active = none) ∧
      ∀ row ∈ rows, ∃ r ∈ t.rows, r.candidate c.k.active = some row := by
  refine ⟨_, candidates_eq h ht, length_take_le _ _, ?_, ?_⟩
  · intro hnil r hr
    rw [take_eq_nil_iff, filterMap_eq_nil_iff] at hnil
    exact hnil.resolve_left (Nat.ne_of_gt c.limit_pos) r ((mem_insertionSort _).2 hr)
  · intro row hrow
    obtain ⟨r, hr, hcand⟩ := mem_filterMap.1 (mem_of_mem_take hrow)
    exact ⟨r, (mem_insertionSort _).1 hr, hcand⟩

/-- What is sealed again is under the active version, with the same
plaintext. -/
theorem reseal_spec (ht : Readable c t₀) (h : From c t₀ (asRead row)) (nonce : Nonce) :
    ∃ enc, reseal c nonce row = .ok enc ∧ keyVersion enc = c.k.active ∧
      c.decrypt row.rowAAD enc = c.decrypt row.rowAAD row.ciphertext := by
  obtain ⟨p, hp⟩ : ∃ p, c.decrypt row.rowAAD row.ciphertext = .ok p := h.opens ht rfl
  obtain ⟨key, hkey⟩ := c.k.active_key
  have henc := Encrypt_ok c.A hkey nonce c.column.table c.column.column row.rowAAD p
  have hopened := Decrypt_of_Encrypt (Keyring.Extends.refl c.k) henc
  refine ⟨_, ?_, ?_, hopened.trans hp.symm⟩
  · rw [reseal, hp]
    exact henc
  · rw [keyVersion, append_assoc, show take 4 (putUint32 c.k.active ++ _) =
      putUint32 c.k.active from take_left' rfl, uint32_putUint32]

/-! ## The calls of `rotateColumn` -/

/-- `rewrite` draws a nonce if the value can be opened. -/
theorem execN_rewrite (c : Job) (row : Candidate) (nonce : Nonce) (w : SecretStore) :
    ∃ n, ∀ (f : Except EnvelopeError Bytes → Rotation Nat) (m : Nat),
      (ExceptT.lift (rewrite c.A c.k c.column row.rowAAD row.ciphertext) >>= f).run.execN
        (fun call => rotationSem call ⟨false, nonce⟩) (m + n) w =
      (f (reseal c nonce row)).run.execN (fun call => rotationSem call ⟨false, nonce⟩) m w := by
  unfold rewrite reseal Job.decrypt
  cases Decrypt c.A c.k c.column.table c.column.column row.rowAAD row.ciphertext with
  | error e => exact ⟨0, fun f m => rfl⟩
  | ok p => exact ⟨1, fun f m => rfl⟩

/-- Some calls of the program take it from one phase to the next, with the
column as `next` has it. -/
theorem program_next (hlimit : c.limit = rotateBatch) (hknown : c.column.known = true)
    (w : SecretStore) (s : State) (nonce : Nonce) (rotated : Nat) :
    ∃ n batches rotated', ∀ more, (s.phase.program c (more + batches) rotated).run.execN
        (fun call => rotationSem call ⟨false, nonce⟩) n (update w c.column s.table) =
      (((s.next c nonce).phase.program c more rotated').run,
        update w c.column (s.next c nonce).table) := by
  obtain ⟨t, phase⟩ := s
  cases phase with
  | reads =>
    refine ⟨1, 1, rotated, fun more => ?_⟩
    have hsem : rotationSem (.candidates c.column c.k.active rotateBatch) ⟨false, nonce⟩
        (update w c.column t) = (encryptionRotationCandidates c.k.active c.limit t,
          update w c.column t) := by
      simp [rotationSem, hknown, hlimit]
    rw [State.next, Phase.program, rotateColumn, rotationCall, Prog.execN_lift, hsem]
    rcases encryptionRotationCandidates c.k.active c.limit t with _ | _ | ⟨row, rows⟩ <;> rfl
  | ended result => exact ⟨0, 0, rotated, fun more => rfl⟩
  | batch size rest written =>
    cases rest with
    | nil =>
      refine ⟨0, 0, rotated, fun more => ?_⟩
      cases written <;> rfl
    | cons row rest =>
      have happly : ∀ enc, rotationSem (.apply c.column row enc) ⟨false, nonce⟩
          (update w c.column t) = (some (encryptionRotationApply row.rowID enc t).1,
            update w c.column (encryptionRotationApply row.rowID enc t).2) := by
        simp [rotationSem, hknown]
      simp only [State.next, Phase.program, rotateRows, bind_assoc]
      obtain ⟨n, hn⟩ := execN_rewrite c row nonce (update w c.column t)
      cases hseal : reseal c nonce row with
      | error e => exact ⟨0 + n, 0, rotated, fun more => by rw [hn, hseal]; rfl⟩
      | ok enc =>
        refine ⟨1 + n, 0, if (encryptionRotationApply row.rowID enc t).1 = 0 then rotated
          else rotated + 1, fun more => ?_⟩
        rw [hn, hseal]
        dsimp only
        rw [bind_assoc, rotationCall, Prog.execN_lift, happly]
        cases (encryptionRotationApply row.rowID enc t).1 <;> rfl

/-! ## No error -/

theorem Sound.reads (hs : Sound c t₀ ⟨t, .reads⟩) (ht : Readable c t₀) (nonce : Nonce) :
    Sound c t₀ (State.next c nonce ⟨t, .reads⟩) := by
  obtain ⟨rows, hread, -, hnil, hrows⟩ :=
    candidates_spec hs.rows ht
  rw [State.next, hread]
  cases rows with
  | nil => exact ⟨hs.rows, rfl, hnil rfl⟩
  | cons row rows =>
    refine ⟨hs.rows, ?_, .inr ⟨row, mem_cons_self, ?_⟩⟩
    · intro row' hrow'
      obtain ⟨r, hr, hcand⟩ := hrows row' hrow'
      exact (hs.rows r hr).read hcand
    · obtain ⟨r, hr, hcand⟩ := hrows row mem_cons_self
      obtain ⟨_, -, -, rfl⟩ := candidate_eq_some.1 hcand
      exact mem_map_of_mem hr

theorem map_apply (enc : Bytes) :
    (encryptionRotationApply row.rowID enc t).2.rows.map SecretRow.id =
      t.rows.map SecretRow.id :=
  map_updateWhere (f := fun r : SecretRow => { r with value := some enc }) (fun _ => rfl) _ _

theorem Sound.write (hs : Sound c t₀ ⟨t, .batch size (row :: rest) written⟩)
    (henc : c.decrypt row.rowAAD enc = c.decrypt row.rowAAD row.ciphertext) :
    Sound c t₀ ⟨(encryptionRotationApply row.rowID enc t).2,
      .batch size rest (if (encryptionRotationApply row.rowID enc t).1 = 0
        then written else written + 1)⟩ := by
  obtain ⟨hrows, hfrom, halive⟩ := hs
  refine ⟨forall_updateWhere hrows ?_,
    fun row' hrow' => hfrom row' (mem_cons_of_mem _ hrow'), ?_⟩
  · intro r _ hid hr
    exact hr.write (hfrom row mem_cons_self) (of_decide_eq_true hid) henc
  · rw [map_apply]
    split
    · next hnone =>
      refine halive.imp_right ?_
      rintro ⟨row', hrow', hmem⟩
      refine ⟨row', ?_, hmem⟩
      rcases mem_cons.1 hrow' with rfl | hrow'
      · obtain ⟨r, hr, hid⟩ := mem_map.1 hmem
        exact absurd (decide_eq_true hid) (countP_eq_zero.1 hnone r hr)
      · exact hrow'
    · exact .inl (Nat.succ_pos _)

theorem Sound.next (hs : Sound c t₀ s) (ht : Readable c t₀) (nonce : Nonce) :
    Sound c t₀ (s.next c nonce) := by
  match s, hs with
  | ⟨t, .reads⟩, hs => exact hs.reads ht nonce
  | ⟨t, .batch size (row :: rest) written⟩, hs =>
    obtain ⟨enc, hok, -, henc⟩ :=
      reseal_spec ht (hs.phase.1 row mem_cons_self) nonce
    rw [State.next, hok]
    exact hs.write henc
  | ⟨t, .batch size [] written⟩, hs =>
    have hpos : 0 < written := by simpa using hs.phase.2
    rw [State.next, if_neg (Nat.ne_of_gt hpos)]
    exact ⟨hs.rows, trivial⟩
  | ⟨t, .ended result⟩, hs => exact hs

theorem Sound.delete (hs : Sound c t₀ s) {id : Nat} (hspares : Spares (.delete id) s) :
    Sound c t₀ ⟨s.table.delete id, s.phase⟩ := by
  have hsub : ∀ r ∈ (s.table.delete id).rows, r ∈ s.table.rows :=
    fun r hr => mem_of_mem_filter hr
  obtain ⟨t, phase⟩ := s
  refine ⟨fun r hr => hs.rows r (hsub r hr), ?_⟩
  cases phase with
  | reads => trivial
  | ended result =>
    exact ⟨hs.phase.1, fun r hr => hs.phase.2 r (hsub r hr)⟩
  | batch size rest written =>
    refine ⟨hs.phase.1, hspares.imp_right ?_⟩
    rintro ⟨row, hrow, hne, hmem⟩
    obtain ⟨r, hr, hid⟩ := mem_map.1 hmem
    refine ⟨row, hrow, mem_map.2 ⟨r, mem_filter.2 ⟨hr, ?_⟩, hid⟩⟩
    simpa [hid] using hne

/-! ## Termination -/

/-- The rows of the batch that are left. -/
def Phase.rest : Phase → List Candidate
  | .batch _ rest _ => rest
  | _ => []

/-- The rows under another version that the batch does not have. -/
def State.outside (c : Job) (s : State) : Nat :=
  s.table.rows.countP fun r => (r.id ∉ s.phase.rest.map Candidate.rowID) &&
    (r.candidate c.k.active).isSome

/-- A bound of the calls that are left. -/
def State.left (c : Job) (s : State) : Nat :=
  match s.phase with
  | .ended _ => 0
  | .reads => (c.limit + 3) * s.outside c + 1
  | .batch _ rest _ => rest.length + (c.limit + 3) * s.outside c + 2

/-- A batch takes a row from those that are outside. -/
theorem outside_batch (size : Nat) (rows : List Candidate) (hr : r ∈ t.rows)
    (hcand : r.candidate c.k.active = some row) :
    State.outside c ⟨t, .batch size (row :: rows) 0⟩ < State.outside c ⟨t, .reads⟩ := by
  have hid : r.id = row.rowID := by
    obtain ⟨_, -, -, rfl⟩ := candidate_eq_some.1 hcand
    rfl
  show countP (fun r : SecretRow => _ && _) _ <
    countP (fun r => true && (SecretRow.candidate c.k.active r).isSome) _
  rw [← countP_filter, ← countP_filter, countP_true, countP_lt_length_iff]
  exact ⟨r, mem_filter.2 ⟨hr, by rw [hcand]; rfl⟩, by
    simp [Phase.rest, hid]⟩

theorem outside_write (size written n : Nat) (row : Candidate)
    (rest : List Candidate) (henc : keyVersion enc = c.k.active) :
    State.outside c ⟨(encryptionRotationApply row.rowID enc t).2, .batch size rest n⟩ ≤
      State.outside c ⟨t, .batch size (row :: rest) written⟩ := by
  show countP _ (map _ _) ≤ _
  rw [countP_map]
  refine countP_mono_left ?_
  intro r _ h
  by_cases hid : r.id = row.rowID
  · simp [hid, SecretRow.candidate, henc] at h
  · simpa [hid, Phase.rest] using h

theorem left_next (hs : Sound c t₀ s) (ht : Readable c t₀)
    (nonce : Nonce) (hend : ∀ r, s.phase ≠ .ended r) :
    (s.next c nonce).left c < s.left c := by
  match s, hs with
  | ⟨t, .reads⟩, hs =>
    obtain ⟨rows, hread, hlength, -, hrows⟩ :=
      candidates_spec hs.rows ht
    rw [State.next, hread]
    cases rows with
    | nil => exact Nat.succ_pos _
    | cons row rows =>
      obtain ⟨r, hr, hcand⟩ := hrows row mem_cons_self
      have hless := Nat.mul_le_mul_left (c.limit + 3)
        (outside_batch (t := t) (rows.length + 1) rows hr hcand)
      rw [Nat.mul_succ] at hless
      show (row :: rows).length + (c.limit + 3) * State.outside c ⟨t, .batch
        (rows.length + 1) (row :: rows) 0⟩ + 2 < (c.limit + 3) * _ + 1
      omega
  | ⟨t, .batch size (row :: rest) written⟩, hs =>
    obtain ⟨enc, hok, hversion, -⟩ :=
      reseal_spec ht (hs.phase.1 row mem_cons_self) nonce
    rw [State.next, hok]
    exact Nat.add_lt_add_right (Nat.add_lt_add_of_lt_of_le
      (Nat.lt_succ_self _) (Nat.mul_le_mul_left (c.limit + 3)
        (outside_write size written _ row rest hversion))) 2
  | ⟨t, .batch size [] written⟩, hs =>
    rw [State.next]
    split
    · exact Nat.succ_pos _
    · simp [State.left, State.outside, Phase.rest]
  | ⟨t, .ended result⟩, hs => exact absurd rfl (hend result)

theorem left_delete (id : Nat) : State.left c ⟨s.table.delete id, s.phase⟩ ≤ s.left c := by
  obtain ⟨t, phase⟩ := s
  have hle : State.outside c ⟨t.delete id, phase⟩ ≤ State.outside c ⟨t, phase⟩ :=
    filter_sublist.countP_le
  have hmul := Nat.mul_le_mul_left (c.limit + 3) hle
  cases phase <;> unfold State.left <;> dsimp only <;> omega

theorem map_next (nonce : Nonce) :
    (s.next c nonce).table.rows.map SecretRow.id = s.table.rows.map SecretRow.id := by
  unfold State.next
  split
  · split <;> rfl
  · split
    · rfl
    · exact map_apply _
  · split <;> rfl
  · rfl

/-- In every run whose deletions leave a row of the batch at hand, unless one
was written: the rotation has no error, each of its calls lowers the bound of
those that are left, which no deletion raises, and at the end every row that was
not deleted is under the active version and has the plaintext that it had at the
start. -/
theorem rotation_converges (ht : Readable c t)
    (h : Machine.Reaches (State.apply c) Spares ⟨t, .reads⟩ s) :
    (∀ e, s.phase ≠ .ended (.error e)) ∧
    (∀ nonce, (s.next c nonce).table.rows.map SecretRow.id = s.table.rows.map SecretRow.id) ∧
    (s.phase ≠ .ended (.ok ()) → ∀ nonce, (s.next c nonce).left c < s.left c) ∧
    (∀ id, State.left c ⟨s.table.delete id, s.phase⟩ ≤ s.left c) ∧
    (s.phase = .ended (.ok ()) → ∀ r ∈ s.table.rows,
      From c t r ∧ ∀ ct ∈ r.value, keyVersion ct = c.k.active) := by
  have hs : Sound c t s := by
    refine h.invariant ?_ ⟨fun r hr => ⟨r, hr, rfl, rfl, rfl⟩, trivial⟩
    intro a s s' hspares happly hs
    cases a with
    | rotate nonce =>
      cases happly
      exact hs.next ht nonce
    | delete id =>
      cases happly
      exact hs.delete hspares
    | crash =>
      cases happly
      exact ⟨hs.rows, trivial⟩
  have hfine : ∀ e, s.phase ≠ .ended (.error e) := by
    intro e he
    have hphase := hs.phase
    rw [he] at hphase
    cases hphase.1
  refine ⟨hfine, map_next, ?_, left_delete, ?_⟩
  · intro hend nonce
    refine left_next hs ht nonce ?_
    rintro (e | _)
    · exact hfine e
    · exact hend
  · intro hend r hr
    have hphase := hs.phase
    rw [hend] at hphase
    refine ⟨hs.rows r hr, ?_⟩
    intro ct hct
    by_contra hne
    exact nomatch (hphase.2 r hr).symm.trans (candidate_eq_some.2 ⟨ct, hct, hne, rfl⟩)

end

/-- The rotation of the examples, row by row. -/
def caKeyJob : Job :=
  ⟨clear, twoKeys, caKey, 1, Nat.one_pos⟩

/-- Three servers whose keys were sealed before the second key version. -/
def threeServers : SecretTable where
  rows := [1, 2, 3].map fun id =>
    .store clear oneKey (some zeroNonce) caKey (ascii "old") ⟨id, ascii "u1", none, none⟩
  distinct := by decide +kernel

/-- A server is deleted before the batch is read, and one after the update. -/
def deletions : List Action :=
  [.delete 2, .rotate zeroNonce, .rotate zeroNonce, .delete 3, .rotate zeroNonce, .rotate zeroNonce]

theorem rotation_converges_deletions : ∃ s,
    Machine.run (State.apply caKeyJob) deletions ⟨threeServers, .reads⟩ = some s ∧
      s.phase = .ended (.ok ()) ∧ s.table.rows.map SecretRow.id = [1] ∧
      ∀ r ∈ s.table.rows, From caKeyJob threeServers r ∧
        ∀ ct ∈ r.value, keyVersion ct = twoKeys.active := by
  refine ⟨_, rfl, by decide +kernel, by decide +kernel, ?_⟩
  have hplain : ∀ r ∈ threeServers.rows,
      r.plaintext clear twoKeys caKey = some (.ok (ascii "old")) := by
    decide +kernel
  have hreadable : Readable caKeyJob threeServers := by
    intro r hr x hx
    rw [show x = .ok (ascii "old") from
      Option.some.inj (hx.symm.trans (hplain r hr))]
    exact ⟨_, rfl⟩
  have hrun : Machine.Reaches (State.apply caKeyJob) Spares ⟨threeServers, .reads⟩ _ :=
    .of_run (l := deletions) rfl (by decide +kernel)
  exact (rotation_converges hreadable hrun).2.2.2.2 (by decide +kernel)

/-- The only row of a batch is deleted before it is written, and the rotation
fails although no row is left that needs it. -/
theorem deleted_batch_fails :
    ∃ s, Machine.run (State.apply caKeyJob)
      [.rotate zeroNonce, .delete 1, .rotate zeroNonce, .rotate zeroNonce]
      ⟨beforeRotation caKey, .reads⟩ = some s ∧
        s.table.rows.length = 0 ∧
        s.phase = .ended (.error (.notRewritten caKey 1)) :=
  ⟨_, rfl, by decide +kernel, by decide +kernel⟩

end Akerdock.Secrets.Convergence
