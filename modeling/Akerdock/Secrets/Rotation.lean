import Akerdock.Lib.Attempts
import Akerdock.Lib.Table
import Akerdock.Secrets.Envelope

/-!
# Rotation of the master key

`internal/jobs/encryptionrotate.go` and the functions of migration 00093 that
it calls.  A rotation reads a batch of rows whose value is not under the active
key version, opens and seals each value again, and writes it back, row by
row; meanwhile other requests store new values.

* A `SecretRow` carries, next to its value, what its last writer `stored`.
  The rotation does not touch that field, and a row is `Intact` when its value
  opens to it.
* `encryptionRotationApply` is an `UPDATE … WHERE id = $2`: it does not look at
  the value that it replaces.
* `rotateColumn_rewrites` bounds the updates of a rotation: each seals the
  plaintext of the value that the batch has read.
* Where no value changes between the read of its batch and its own update,
  a rotation keeps every row intact.  `rotation_loses_update` is a run in
  which a value does change, and the old one comes back.
-/

namespace Akerdock.Secrets

open Crypto Proc Proc.Prog Table
open Function (update)

/-! ## The encrypted columns of the database -/

structure Column where
  table : Bytes
  column : Bytes
  deriving DecidableEq

/-- A row, as far as one encrypted column goes.  `identity` is what enters the
additional data.  `stored` is not in the database: it is what the last writer
meant the column to hold. -/
structure SecretRow where
  id : Nat
  identity : Bytes
  value : Option Bytes
  stored : Option (Except EnvelopeError Bytes)

/-- A table: `id` is its primary key. -/
structure SecretTable where
  rows : List SecretRow
  distinct : (rows.map SecretRow.id).Nodup

/-- The rows of each encrypted column. -/
abbrev SecretStore := Column → SecretTable

/-- `UPDATE … WHERE id = $1`. -/
def SecretTable.update (t : SecretTable) (id : Nat)
    (f : SecretRow → SecretRow) (hf : ∀ r, (f r).id = r.id) : SecretTable where
  rows := updateWhere (fun r => r.id = id) f t.rows
  distinct := by
    rw [map_updateWhere hf]
    exact t.distinct

def SecretTable.insert (t : SecretTable) (r : SecretRow)
    (hnew : r.id ∉ t.rows.map SecretRow.id) : SecretTable where
  rows := t.rows ++ [r]
  distinct := nodup_concat t.distinct fun _ hq heq =>
    hnew (heq ▸ List.mem_map_of_mem hq)

/-- `DELETE … WHERE id = $1`. -/
def SecretTable.delete (t : SecretTable) (id : Nat) : SecretTable where
  rows := deleteWhere (fun r => r.id = id) t.rows
  distinct := t.distinct.sublist (List.filter_sublist.map _)

section

variable (A : IdealAead) (k : Keyring)

/-- What a reader gets from the column. -/
def SecretRow.plaintext (column : Column) (r : SecretRow) : Option (Except EnvelopeError Bytes) :=
  r.value.map (Decrypt A k column.table column.column r.identity)

/-- The value of a row opens to what its last writer stored. -/
def SecretRow.Intact (column : Column) (r : SecretRow) : Prop :=
  r.plaintext A k column = r.stored

def Intact (w : SecretStore) : Prop :=
  ∀ column, ∀ r ∈ (w column).rows, r.Intact A k column

/-! ## The writers -/

/-- A row with a new value, sealed for it under the keyring `kw`. -/
def SecretRow.store (kw : Keyring) (nonce : Option Nonce) (column : Column)
    (p : Bytes) (r : SecretRow) : SecretRow :=
  match Encrypt A kw nonce column.table column.column r.identity p with
  | .ok ct => { r with value := some ct, stored := some (.ok p) }
  | .error _ => r

theorem SecretRow.store_id (kw : Keyring) (nonce : Option Nonce)
    (column : Column) (p : Bytes) (r : SecretRow) :
    (r.store A kw nonce column p).id = r.id := by
  unfold store
  split <;> rfl

def SecretRow.cleared (r : SecretRow) : SecretRow :=
  { r with value := none, stored := none }

/-- What the requests of users do to the encrypted columns.  A writer may run
with an older key file, so it seals under any of the versions. -/
inductive Writer : SecretStore → SecretStore → Prop where
  | store (w : SecretStore) (column : Column) (id : Nat) (kw : Keyring)
      (hkw : kw.Extends k) (nonce : Option Nonce) (p : Bytes) :
      Writer w (update w column ((w column).update id
        (SecretRow.store A kw nonce column p)
        (SecretRow.store_id A kw nonce column p)))
  | clear (w : SecretStore) (column : Column) (id : Nat) :
      Writer w (update w column ((w column).update id SecretRow.cleared fun _ => rfl))
  | insert (w : SecretStore) (column : Column) (id : Nat) (identity : Bytes)
      (hnew : id ∉ (w column).rows.map SecretRow.id) :
      Writer w (update w column ((w column).insert ⟨id, identity, none, none⟩ hnew))
  | delete (w : SecretStore) (column : Column) (id : Nat) :
      Writer w (update w column ((w column).delete id))

end

/-! ## The statements -/

/-- A row of a batch. -/
structure Candidate where
  rowID : Nat
  rowAAD : Bytes
  ciphertext : Bytes
  deriving DecidableEq

/-- The column is in the inventory.  The statements refuse any other. -/
def Column.known (column : Column) : Bool :=
  inventory.contains (column.table, column.column)

/-- The key version that a value begins with. -/
def keyVersion (ciphertext : Bytes) : UInt32 :=
  uint32 (ciphertext.take 4)

/-- The row, if its value is under another version than the active one. -/
def SecretRow.candidate (active : UInt32) (r : SecretRow) : Option Candidate :=
  match r.value with
  | none => none
  | some ct =>
    if keyVersion ct = active then none else some ⟨r.id, r.identity, ct⟩

/-- `encryption_rotation_candidates`.  `get_byte` fails on a value that has
no version. -/
def encryptionRotationCandidates (active : UInt32) (limit : Nat)
    (t : SecretTable) : Option (List Candidate) :=
  if t.rows.any fun r => r.value.any fun ct => ct.length < 4 then none
  else
    some (((t.rows.insertionSort fun r r' => r.id ≤ r'.id).filterMap
      (SecretRow.candidate active)).take limit)

/-- `encryption_rotation_apply`: the table, and the number of rows written. -/
def encryptionRotationApply (rowID : Nat) (value : Bytes) (t : SecretTable) : Nat × SecretTable :=
  (t.rows.countP fun r => r.id = rowID,
    t.update rowID (fun r => { r with value := some value }) fun _ => rfl)

/-- The calls of a rotation.  `apply` names the row as the batch has read it;
the statement gets the id and the value. -/
inductive RotationCall where
  | listEncryptedColumns
  | candidates (column : Column) (active : UInt32) (limit : Nat)
  | nonce
  | apply (column : Column) (row : Candidate) (value : Bytes)

/-- The answers.  `none` is an error of the database or of the random
reader. -/
abbrev RotationAns : RotationCall → Type
  | .listEncryptedColumns => Option (List Column)
  | .candidates _ _ _ => Option (List Candidate)
  | .nonce => Option Nonce
  | .apply _ _ _ => Option Nat

/-- How a call goes. -/
structure RotationOutcome where
  fails : Bool
  nonce : Nonce

/-- The effect of a call. -/
def rotationSem : (c : RotationCall) → RotationOutcome → SecretStore → RotationAns c × SecretStore
  | .listEncryptedColumns, o, w =>
    (if o.fails then none
      else some (inventory.map fun e => ⟨e.1, e.2⟩), w)
  | .candidates column active limit, o, w =>
    (if o.fails || !column.known then none
      else encryptionRotationCandidates active limit (w column), w)
  | .nonce, o, w => (if o.fails then none else some o.nonce, w)
  | .apply column row value, o, w =>
    if o.fails || !column.known then (none, w)
    else
      (some (encryptionRotationApply row.rowID value (w column)).1,
        update w column (encryptionRotationApply row.rowID value (w column)).2)

/-! ## The rotation -/

/-- Why a rotation stops. -/
inductive RotateError where
  | inventory
  | emptyInventory
  | candidates (column : Column)
  | rewrite (column : Column) (rowID : Nat) (e : EnvelopeError)
  | apply (column : Column) (rowID : Nat)
  | notRewritten (column : Column) (rows : Nat)
  | stillRotating
  deriving DecidableEq

/-- A rotation in progress: an exit carries the number of rows rotated. -/
abbrev Rotation := ExceptT (Nat × RotateError) (Prog RotationAns)

def rotationCall (c : RotationCall) : Rotation (RotationAns c) :=
  ExceptT.lift (perform c)

def rotateBatch : Nat := 200

section

variable (A : IdealAead) (k : Keyring)

/-- `rewrite`: open with the version that the row carries, seal with the
active one. -/
def rewrite (column : Column) (rowAAD ciphertext : Bytes) :
    Prog RotationAns (Except EnvelopeError Bytes) :=
  match Decrypt A k column.table column.column rowAAD ciphertext with
  | .error e => ret (.error e)
  | .ok plaintext => do
    let nonce ← perform .nonce
    return Encrypt A k nonce column.table column.column rowAAD plaintext

/-- The rows of a batch, one after the other: the numbers of rows rotated so
far and written in this batch. -/
def rotateRows (column : Column) : List Candidate → (rotated written : Nat) → Rotation (Nat × Nat)
  | [], rotated, written => return (rotated, written)
  | row :: rows, rotated, written => do
    match ← ExceptT.lift (rewrite A k column row.rowAAD row.ciphertext) with
    | .error e => throw (rotated, .rewrite column row.rowID e)
    | .ok enc =>
      match ← rotationCall (.apply column row enc) with
      | none => throw (rotated, .apply column row.rowID)
      | some 0 => rotateRows column rows rotated written
      | some _ => rotateRows column rows (rotated + 1) (written + 1)

/-- `rotateColumn`, for at most so many batches.  The loop of the source has
no such bound: as long as others write old versions, it goes on. -/
def rotateColumn (column : Column) (active : UInt32) : (batches rotated : Nat) → Rotation Nat
  | 0, rotated => throw (rotated, .stillRotating)
  | batches + 1, rotated => do
    match ← rotationCall (.candidates column active rotateBatch) with
    | none => throw (rotated, .candidates column)
    | some [] => return rotated
    | some (row :: rows) =>
      let (rotated, written) ← rotateRows A k column (row :: rows) rotated 0
      if written = 0 then
        throw (rotated, .notRewritten column (row :: rows).length)
      else rotateColumn column active batches rotated

/-- The loop of `Execute`. -/
def rotateColumns (batches : Nat) : List Column → (total : Nat) → Rotation Nat
  | [], total => return total
  | column :: columns, total => do
    let n ← rotateColumn A k column k.active batches 0
    rotateColumns batches columns (total + n)

/-- `Execute`: the numbers of columns covered and of rows re-encrypted. -/
def ExecuteRotation (batches : Nat) : Rotation (Nat × Nat) := do
  match ← rotationCall .listEncryptedColumns with
  | none => throw (0, .inventory)
  | some [] => throw (0, .emptyInventory)
  | some (column :: columns) =>
    let total ← rotateColumns A k batches (column :: columns) 0
    return ((column :: columns).length, total)

/-! ## What a rotation writes -/

/-- An update seals the plaintext of the value that the batch has read. -/
def Rewrites : RotationCall → Prop
  | .apply column row value => ∃ p nonce,
      Decrypt A k column.table column.column row.rowAAD row.ciphertext = .ok p ∧
        Encrypt A k (some nonce) column.table column.column row.rowAAD p = .ok value
  | _ => True

/-- What `rewrite` returns may be written. -/
theorem rewrite_spec (column : Column) (row : Candidate) :
    Follows (fun _ _ _ => ()) (fun _ c => Rewrites A k c)
      (fun _ r => ∀ value, r = .ok value → Rewrites A k (.apply column row value)) ()
      (rewrite A k column row.rowAAD row.ciphertext) := by
  unfold rewrite
  cases hdec : Decrypt A k column.table column.column row.rowAAD row.ciphertext with
  | error e =>
    refine .ret _ _ ?_
    intro value h
    cases h
  | ok p =>
    refine .call _ _ _ trivial ?_
    intro nonce
    refine .ret _ _ ?_
    intro value h
    cases nonce with
    | none =>
      rw [Encrypt_none] at h
      cases h
    | some nonce => exact ⟨p, nonce, hdec, h⟩

theorem rotateRows_rewrites (column : Column) (rows : List Candidate) (rotated written : Nat) :
    Makes (Rewrites A k) (rotateRows A k column rows rotated written).run := by
  induction rows generalizing rotated written with
  | nil => exact makes_ret _ _
  | cons row rows ih =>
    apply Follows.run_bind (rewrite_spec A k column row).lift
    · intro _ r h
      obtain ⟨r', heq, hr⟩ := h
      obtain rfl := Except.ok.inj heq
      cases r with
      | error e => exact makes_ret _ _
      | ok enc =>
        apply Makes.run_bind (Makes.call (hr enc rfl) fun _ => makes_ret _ _)
        intro n
        match n with
        | none => exact makes_ret _ _
        | some 0 => exact ih rotated written
        | some (_ + 1) => exact ih (rotated + 1) (written + 1)
    · intro _ _ _
      trivial

/-- Every update of a rotation of a column seals what its batch has read. -/
theorem rotateColumn_rewrites (column : Column) (active : UInt32) (batches rotated : Nat) :
    Makes (Rewrites A k) (rotateColumn A k column active batches rotated).run := by
  induction batches generalizing rotated with
  | zero => exact makes_ret _ _
  | succ batches ih =>
    refine Makes.run_bind (Makes.call trivial fun _ => makes_ret _ _) ?_
    intro answer
    match answer with
    | none => exact makes_ret _ _
    | some [] => exact makes_ret _ _
    | some (row :: rows) =>
      refine Makes.run_bind (rotateRows_rewrites A k column _ rotated 0) ?_
      rintro ⟨rotated, written⟩
      show Makes _ (ite (written = 0) _ _ : Rotation Nat).run
      split
      · exact makes_ret _ _
      · exact ih rotated

theorem rotateColumns_rewrites (batches : Nat) (columns : List Column) (total : Nat) :
    Makes (Rewrites A k) (rotateColumns A k batches columns total).run := by
  induction columns generalizing total with
  | nil => exact makes_ret _ _
  | cons column columns ih =>
    exact Makes.run_bind (rotateColumn_rewrites A k column k.active batches 0) fun n => ih _

theorem ExecuteRotation_rewrites (batches : Nat) :
    Makes (Rewrites A k) (ExecuteRotation A k batches).run := by
  refine Makes.run_bind (Makes.call trivial fun _ => makes_ret _ _) ?_
  intro answer
  match answer with
  | none => exact makes_ret _ _
  | some [] => exact makes_ret _ _
  | some (column :: columns) =>
    exact Makes.run_bind
      (rotateColumns_rewrites A k batches (column :: columns) 0)
      fun _ => makes_ret _ _

/-! ## Interleaving with the writers -/

/-- Rotations among writers. -/
def rotation : System RotationAns RotationOutcome SecretStore where
  sem := rotationSem
  ok := fun _ _ _ => True
  rely := Relation.ReflTransGen (Writer A k)

/-- An update finds its row as the batch has read it, if it finds it. -/
def Unchanged : RotationCall → SecretStore → Prop
  | .apply column row _, w => ∀ r ∈ (w column).rows, r.id = row.rowID →
      r.identity = row.rowAAD ∧ r.value = some row.ciphertext
  | _, _ => True

instance (c : RotationCall) (w : SecretStore) : Decidable (Unchanged c w) := by
  unfold Unchanged
  split <;> infer_instance

/-- The runs in which every update finds its row unchanged. -/
def rotationUnchanged : System RotationAns RotationOutcome SecretStore where
  sem := rotationSem
  ok := fun c _ w => Unchanged c w
  rely := Relation.ReflTransGen (Writer A k)

variable {A k}

/-- What was sealed under one of the versions opens. -/
theorem Decrypt_of_Encrypt (hkw : kw.Extends k)
    (h : Encrypt A kw (some nonce) t c r p = .ok ct) :
    Decrypt A k t c r ct = .ok p := by
  obtain ⟨ct', hct', hdec⟩ := Decrypt_Encrypt A hkw nonce t c r p
  rw [h] at hct'
  obtain rfl := Except.ok.inj hct'
  exact (hdec t c r p).2 ⟨rfl, rfl⟩

/-- One column is replaced by another with intact rows. -/
theorem Intact.update (hw : Intact A k w) (ht : ∀ r ∈ t.rows, r.Intact A k column) :
    Intact A k (update w column t) := by
  unfold Intact
  rw [Function.forall_update_iff w fun column t => ∀ r ∈ t.rows, r.Intact A k column]
  exact ⟨ht, fun column _ => hw column⟩

theorem SecretRow.Intact.store (hkw : kw.Extends k) (nonce : Option Nonce)
    (p : Bytes) {r : SecretRow} (hr : r.Intact A k column) :
    (r.store A kw nonce column p).Intact A k column := by
  unfold SecretRow.store
  split
  · rename_i ct hct
    cases nonce with
    | none =>
      rw [Encrypt_none] at hct
      cases hct
    | some nonce =>
      show some (Decrypt A k _ _ _ ct) = some (.ok p)
      rw [Decrypt_of_Encrypt hkw hct]
  · exact hr

theorem Writer.intact {w w' : SecretStore} (h : Writer A k w w')
    (hw : Secrets.Intact A k w) : Secrets.Intact A k w' := by
  cases h with
  | store column id kw hkw nonce p =>
    refine hw.update (forall_updateWhere (hw column) ?_)
    intro r _ _ hr
    exact hr.store hkw nonce p
  | clear column id =>
    refine hw.update (forall_updateWhere (hw column) ?_)
    intro r _ _ _
    rfl
  | insert column id identity hnew =>
    exact hw.update (forall_concat (hw column) rfl)
  | delete column id =>
    refine hw.update ?_
    intro r hr
    exact hw column r (List.mem_of_mem_filter hr)

theorem writers_intact (h : Relation.ReflTransGen (Writer A k) w w')
    (hw : Intact A k w) : Intact A k w' := by
  induction h with
  | refl => exact hw
  | tail _ hstep ih => exact hstep.intact ih

theorem apply_intact (hw : Intact A k w)
    (hrew : Rewrites A k (.apply column row value))
    (hun : Unchanged (.apply column row value) w) :
    Intact A k (update w column
      (encryptionRotationApply row.rowID value (w column)).2) := by
  obtain ⟨p, nonce, hdec, henc⟩ := hrew
  refine hw.update (forall_updateWhere (hw column) ?_)
  intro r hmem hid hr
  obtain ⟨hidentity, hvalue⟩ := hun r hmem (of_decide_eq_true hid)
  have hnew : Decrypt A k column.table column.column row.rowAAD value =
      .ok p := Decrypt_of_Encrypt (Keyring.Extends.refl k) henc
  have hold : r.stored = some (.ok p) := by
    rw [← hr, SecretRow.plaintext, hvalue, hidentity, ← hdec]
    rfl
  show some (Decrypt A k _ _ r.identity value) = r.stored
  rw [hold, hidentity, hnew]

theorem rotationSem_intact (hrew : Rewrites A k c) (hw : Intact A k w)
    (hun : Unchanged c w) : Intact A k (rotationSem c o w).2 := by
  cases c with
  | listEncryptedColumns | candidates column active limit | nonce => exact hw
  | apply column row value =>
    rw [rotationSem]
    split
    · exact hw
    · exact apply_intact hw hrew hun

/-- A program whose updates seal what a batch has read keeps every row intact,
at each of its calls and at its end. -/
theorem wp_intact (h : Makes (Rewrites A k) p) (hw : Intact A k w) :
    wp ((rotationUnchanged A k).keeping (Intact A k)) p (fun _ w => Intact A k w) w :=
  wp_of_makes h (fun _ h => h) (fun _ _ hw h => writers_intact h hw)
    (fun _ _ _ hrew hw hun => rotationSem_intact hrew hw hun) hw

/-! ## Whole runs -/

variable (A k)

/-- What a worker may be running: the rotation of a column, or of all of
them. -/
inductive Rotating : Prog RotationAns Unit → Prop where
  | column (column : Column) (active : UInt32) (batches : Nat) :
      Rotating ((rotateColumn A k column active batches 0).run.bind fun _ => ret ())
  | job (batches : Nat) : Rotating ((ExecuteRotation A k batches).run.bind fun _ => ret ())

/-- Rotations that are made one after the other.  One that dies is made
again. -/
def rotations (M : System RotationAns RotationOutcome SecretStore) : Retry M Unit where
  attempt := Rotating A k
  mayDie := fun _ => True
  mayEnd := fun _ _ => True

variable {A k} in
theorem Rotating.rewrites (h : Rotating A k p) : Makes (Rewrites A k) p := by
  cases h with
  | column column active batches =>
    exact Makes.bind (rotateColumn_rewrites A k column active batches 0) fun _ => makes_ret _ _
  | job batches =>
    exact Makes.bind (ExecuteRotation_rewrites A k batches) fun _ => makes_ret _ _

theorem rotations_sound :
    Retry.Sound (rotations A k (rotationUnchanged A k)) (Intact A k)
      (Intact A k) (fun _ w => Intact A k w) where
  refl := fun _ => .refl
  trans := Relation.ReflTransGen.trans
  attempt := fun _ _ hp hw => wp_intact hp.rewrites hw
  pre_inv := fun _ hw => hw
  pre_stable := fun _ _ hw h => writers_intact h hw
  post_inv := fun _ _ hw => hw
  post_stable := fun _ _ _ hw h => writers_intact h hw
  done := fun _ _ hw _ => hw
  die := fun _ hw _ => hw

/-- In every run in which each update finds its row as its batch has read it,
every row holds what its last writer stored, in every state of the run. -/
theorem rotation_keeps_updates {w : SecretStore} (hw : Intact A k w)
    {x : Retry.Config RotationAns SecretStore Unit}
    (hx : (rotations A k (rotationUnchanged A k)).Reaches w x) :
    Intact A k x.state :=
  (rotations_sound A k).reaches_inv hw hx

variable {A k}

theorem rotation_execN
    (h : (rotations A k (rotation A k)).Reaches w₀ ⟨some p, w⟩)
    (o : RotationOutcome) (n : Nat) :
    (rotations A k (rotation A k)).Reaches w₀
      ⟨some (p.execN (fun c => rotationSem c o) n w).1,
        (p.execN (fun c => rotationSem c o) n w).2⟩ :=
  h.execN (o := o) (allN_of_forall _ (fun _ _ => trivial) n p w)

end

/-! ## A lost update -/

def caKey : Column :=
  ⟨ascii "servers", ascii "ca_key_enc"⟩

/-- A server whose key was sealed before the second key version. -/
def beforeRotation : SecretStore := fun column =>
  if column = caKey then
    ⟨[SecretRow.store clear oneKey (some zeroNonce) caKey (ascii "old")
      ⟨1, ascii "u1", none, none⟩], by simp⟩
  else ⟨[], by simp⟩

def smoothRotation : RotationOutcome :=
  ⟨false, zeroNonce⟩

def rotateCaKey : Prog RotationAns Unit :=
  (rotateColumn clear twoKeys caKey twoKeys.active 2 0).run.bind fun _ => ret ()

/-- The server gets another key. -/
def renewed (kw : Keyring) (p : String) (w : SecretStore) : SecretStore :=
  update w caKey ((w caKey).update 1
    (SecretRow.store clear kw (some zeroNonce) caKey (ascii p))
    (SecretRow.store_id clear kw (some zeroNonce) caKey (ascii p)))

theorem writer_renewed (hkw : kw.Extends twoKeys) (p : String) (w : SecretStore) :
    Writer clear twoKeys w (renewed kw p w) :=
  .store w caKey 1 kw hkw (some zeroNonce) (ascii p)

theorem beforeRotation_intact : Intact clear twoKeys beforeRotation := by
  intro column r hr
  unfold beforeRotation at hr
  split at hr
  · rename_i h
    subst h
    rw [List.mem_singleton.1 hr]
    refine SecretRow.Intact.store (Keyring.extends_of_append rfl) _ _ ?_
    rfl
  · cases hr

theorem rotateCaKey_starts (M : System RotationAns RotationOutcome SecretStore) :
    (rotations clear twoKeys M).Reaches beforeRotation ⟨some rotateCaKey, beforeRotation⟩ :=
  .single (.start _ _ (Rotating.column caKey twoKeys.active 2))

/-- A writer with the old key file stores a key before the batch is read, and
another one stores a key after the update. -/
def writtenBefore : SecretStore :=
  renewed oneKey "mid" beforeRotation

def rotatedMid : Prog RotationAns Unit × SecretStore :=
  rotateCaKey.execN (fun c => rotationSem c smoothRotation) 3 writtenBefore

def writtenAfter : SecretStore :=
  renewed twoKeys "new" rotatedMid.2

theorem rotatedMid_unchanged : rotateCaKey.AllN (fun c => rotationSem c smoothRotation)
    Unchanged 3 writtenBefore := by
  decide +kernel

theorem rotation_keeps_updates_writers :
    (rotatedMid.2 caKey).rows.map (fun r => r.value.map keyVersion) = [some 2] ∧
      (writtenAfter caKey).rows.map (SecretRow.plaintext clear twoKeys caKey) =
        [some (.ok (ascii "new"))] ∧
      Intact clear twoKeys writtenAfter := by
  refine ⟨by decide +kernel, by decide +kernel, ?_⟩
  have hstart : (rotations clear twoKeys (rotationUnchanged clear twoKeys)).Reaches
      beforeRotation ⟨some rotateCaKey, writtenBefore⟩ :=
    (rotateCaKey_starts _).tail
      (.other _ _ _ (.single (writer_renewed (Keyring.extends_of_append rfl) "mid" _)))
  have hok := rotatedMid_unchanged
  unfold writtenAfter rotatedMid
  -- the program is not to be run to check the types of the run
  generalize rotateCaKey = p at hstart hok ⊢
  exact rotation_keeps_updates clear twoKeys beforeRotation_intact
    ((hstart.execN (o := smoothRotation) hok).tail
      (.other _ _ _ (.single (writer_renewed (Keyring.Extends.refl _) "new" _))))

/-- The batch is read and its row sealed again. -/
def beforeApply : Prog RotationAns Unit × SecretStore :=
  rotateCaKey.execN (fun c => rotationSem c smoothRotation) 2 beforeRotation

/-- The rest of the rotation, after the new key was stored. -/
def afterRenewal : Prog RotationAns Unit × SecretStore :=
  beforeApply.1.execN (fun c => rotationSem c smoothRotation) 2
    (renewed twoKeys "new" beforeApply.2)

/-- By then the rotation has come to its end. -/
theorem afterRenewal_done : afterRenewal.1 = ret () :=
  eq_ret_of_value? (by decide +kernel)

/-- A key that is stored between the read of a batch and the update is
overwritten with the old one, and the rotation ends like that. -/
theorem rotation_loses_update :
    Intact clear twoKeys beforeRotation ∧
      (rotations clear twoKeys (rotation clear twoKeys)).Reaches
        beforeRotation ⟨none, afterRenewal.2⟩ ∧
      (afterRenewal.2 caKey).rows.map (fun r =>
        (r.plaintext clear twoKeys caKey, r.stored)) =
        [(some (.ok (ascii "old")), some (.ok (ascii "new")))] := by
  refine ⟨beforeRotation_intact, ?_, by decide +kernel⟩
  have hread : (rotations clear twoKeys (rotation clear twoKeys)).Reaches
      beforeRotation ⟨some beforeApply.1, beforeApply.2⟩ :=
    rotation_execN (rotateCaKey_starts _) smoothRotation 2
  have hstore : Writer clear twoKeys beforeApply.2 (renewed twoKeys "new" beforeApply.2) :=
    .store _ caKey 1 twoKeys (Keyring.Extends.refl _) _ _
  have hend : (rotations clear twoKeys (rotation clear twoKeys)).Reaches
      beforeRotation ⟨some afterRenewal.1, afterRenewal.2⟩ :=
    rotation_execN (hread.tail (.other _ _ _ (.single hstore))) smoothRotation 2
  rw [afterRenewal_done] at hend
  exact hend.tail (.done () _ trivial)

end Akerdock.Secrets
