import Akerdock.Lib.Aead

/-!
# Envelope encryption

`internal/envelope`: the keyring, and the format of every encrypted column.  A
value is sealed under the highest key version of the keyring and is stored as

    key version (4 bytes) || nonce (12 bytes) || ciphertext

with the table, the column and the row identity as additional data, joined
without a separator.

* `Keyring` carries what is checked when the key file is read: there is a key,
  every key has 32 bytes, and no version occurs twice.
* `Decrypt_Encrypt` reads the format back, under the sealing keyring and under
  every one that extends it: what decides is the joined identity.
* `inventory` are the encrypted columns of the schema.  None of their joined
  names begins another one, so there the joined identity determines the
  table, the column and the row.
-/

namespace Akerdock.Secrets

open Crypto List

def ascii (s : String) : Bytes :=
  s.toList.map fun c => UInt8.ofNat c.toNat

/-! ## The keyring -/

def keySize : Nat := 32

/-- Key versions, in the order of the file. -/
structure KeyTable where
  keys : List (UInt32 × Bytes)
  size : ∀ e ∈ keys, e.2.length = keySize
  distinct : (keys.map Prod.fst).Nodup

structure Keyring extends KeyTable where
  nonempty : keys ≠ []

namespace Keyring

def key? (k : Keyring) (version : UInt32) : Option Bytes :=
  (k.keys.find? fun e => e.1 = version).map Prod.snd

/-- The highest version. -/
def highest : List (UInt32 × Bytes) → UInt32
  | [] => 0
  | e :: es => if highest es < e.1 then e.1 else highest es

/-- `active`: the version that encrypts. -/
def active (k : Keyring) : UInt32 :=
  highest k.keys

/-- `k'` has all the keys of `k`, under the same versions. -/
def Extends (k k' : Keyring) : Prop :=
  ∀ version key, k.key? version = some key → k'.key? version = some key

theorem Extends.refl (k : Keyring) : k.Extends k :=
  fun _ _ h => h

theorem highest_mem (h : es ≠ []) : ∃ e ∈ es, e.1 = highest es := by
  induction es with
  | nil => exact absurd rfl h
  | cons e es ih =>
    by_cases hes : es = []
    · subst hes
      refine ⟨e, mem_cons_self, ?_⟩
      rw [highest, highest]
      split
      · rfl
      · rename_i hlt
        have hle : e.1 ≤ 0 := UInt32.not_lt.1 hlt
        exact UInt32.le_antisymm hle (UInt32.zero_le)
    · obtain ⟨e', he', heq⟩ := ih hes
      rw [highest]
      split
      · exact ⟨e, mem_cons_self, rfl⟩
      · exact ⟨e', mem_cons_of_mem _ he', heq⟩

theorem active_key (k : Keyring) : ∃ key, k.key? k.active = some key := by
  obtain ⟨e, he, heq⟩ := highest_mem k.nonempty
  have hsome : (k.keys.find? fun e => e.1 = k.active).isSome = true := by
    rw [find?_isSome]
    exact ⟨e, he, decide_eq_true heq⟩
  obtain ⟨e', he'⟩ := Option.isSome_iff_exists.1 hsome
  exact ⟨e'.2, by rw [key?, he']; rfl⟩

theorem extends_of_append {k k' : Keyring} (h : k'.keys = k.keys ++ more) : k.Extends k' := by
  intro version key hkey
  unfold key? at hkey ⊢
  obtain ⟨e, he, rfl⟩ := Option.map_eq_some_iff.1 hkey
  rw [h, find?_append, he]
  rfl

end Keyring

/-! ## The format of a value -/

def nonceSize : Nat := 12

/-- What `io.ReadFull` fills. -/
abbrev Nonce := { bytes : Bytes // bytes.length = nonceSize }

def putUint32 (v : UInt32) : Bytes :=
  [UInt8.ofNat (v.toNat / 2 ^ 24), UInt8.ofNat (v.toNat / 2 ^ 16),
    UInt8.ofNat (v.toNat / 2 ^ 8), UInt8.ofNat v.toNat]

def uint32 (bytes : Bytes) : UInt32 :=
  UInt32.ofNat (bytes.foldl (fun n b => n * 2 ^ 8 + b.toNat) 0)

theorem uint32_putUint32 (v : UInt32) : uint32 (putUint32 v) = v := by
  have hlt := v.toNat_lt
  have hsum : (putUint32 v).foldl (fun n b => n * 2 ^ 8 + b.toNat) 0 = v.toNat := by
    simp only [putUint32, foldl_cons, foldl_nil, UInt8.toNat_ofNat']
    omega
  rw [uint32, hsum, UInt32.ofNat_toNat]

/-- What can go wrong with a value. -/
inductive EnvelopeError where
  | tooShort (length : Nat)
  | missingVersion (version : UInt32) (table column : Bytes)
  | keySize (size : Nat)
  | nonceGeneration
  | decryption (table column : Bytes) (version : UInt32)
  deriving DecidableEq

/-- `aad`: table, column and row identity, one after the other. -/
def aad (table column rowUUID : Bytes) : Bytes :=
  table ++ column ++ rowUUID

/-- `gcm`: the cipher of a version, here its key.  A version that is not there
has the empty key, and AES takes keys of 16, 24 and 32 bytes. -/
def Keyring.gcm (k : Keyring) (version : UInt32) : Except EnvelopeError Bytes :=
  let key := (k.key? version).getD []
  if key.length = 16 || key.length = 24 || key.length = 32 then .ok key
  else .error (.keySize key.length)

section

variable (A : IdealAead)

/-- `Encrypt`.  The nonce is what the random reader returns, if it does. -/
def Encrypt (k : Keyring) (nonce : Option Nonce)
    (table column rowUUID plaintext : Bytes) : Except EnvelopeError Bytes := do
  let key ← k.gcm k.active
  match nonce with
  | none => .error .nonceGeneration
  | some nonce =>
    .ok (putUint32 k.active ++ nonce.1 ++
      A.Seal key nonce.1 plaintext (aad table column rowUUID))

def Decrypt (k : Keyring) (table column rowUUID ciphertext : Bytes) : Except EnvelopeError Bytes :=
  if ciphertext.length < 4 + nonceSize then
    .error (.tooShort ciphertext.length)
  else
    let version := uint32 (ciphertext.take 4)
    match k.key? version with
    | none => .error (.missingVersion version table column)
    | some _ => do
      let key ← k.gcm version
      match A.Open key ((ciphertext.drop 4).take nonceSize)
          (ciphertext.drop (4 + nonceSize)) (aad table column rowUUID) with
      | none => .error (.decryption table column version)
      | some plaintext => .ok plaintext

theorem Keyring.gcm_of_key {k : Keyring} (h : k.key? version = some key) :
    k.gcm version = .ok key := by
  have hsize : key.length = 32 := by
    obtain ⟨e, he, rfl⟩ := Option.map_eq_some_iff.1 h
    exact k.size e (mem_of_find?_eq_some he)
  simp [gcm, h, hsize]

theorem Encrypt_ok {k : Keyring} (hkey : k.key? k.active = some key)
    (nonce : Nonce) (t c r p : Bytes) :
    Encrypt A k (some nonce) t c r p =
      .ok (putUint32 k.active ++ nonce.1 ++ A.Seal key nonce.1 p (aad t c r)) := by
  rw [Encrypt, Keyring.gcm_of_key hkey]
  rfl

theorem Encrypt_none (k : Keyring) (t c r p : Bytes) :
    Encrypt A k none t c r p = .error .nonceGeneration := by
  obtain ⟨key, hkey⟩ := k.active_key
  rw [Encrypt, Keyring.gcm_of_key hkey]
  rfl

/-- The parts of a value are read back where they were written. -/
theorem Decrypt_parts {k : Keyring} (hkey : k.key? version = some key)
    (nonce : Nonce) (t c r body : Bytes) :
    Decrypt A k t c r (putUint32 version ++ nonce.1 ++ body) =
      match A.Open key nonce.1 body (aad t c r) with
      | none => .error (.decryption t c version)
      | some plaintext => .ok plaintext := by
  obtain ⟨bytes, hbytes⟩ := nonce
  have hlen : ¬ (putUint32 version ++ bytes ++ body).length < 4 + nonceSize := by
    simp only [length_append, hbytes]
    change ¬ 4 + nonceSize + body.length < _
    omega
  have hversion : (putUint32 version ++ bytes ++ body).take 4 = putUint32 version := by
    rw [append_assoc]
    exact take_left' rfl
  have hnonce : ((putUint32 version ++ bytes ++ body).drop 4).take nonceSize =
      bytes := by
    exact take_left' hbytes
  have hbody : (putUint32 version ++ bytes ++ body).drop (4 + nonceSize) =
      body := by
    refine drop_left' ?_
    rw [length_append, hbytes]
    rfl
  rw [Decrypt, if_neg hlen, hversion, uint32_putUint32, hnonce, hbody]
  simp only [hkey, Keyring.gcm_of_key hkey]
  rfl

/-- Under every keyring that extends the sealing one, a value opens to its
plaintext under its own additional data, and under no other. -/
theorem Decrypt_Encrypt (hext : k.Extends k') (nonce : Nonce) (t c r p : Bytes) :
    ∃ ct, Encrypt A k (some nonce) t c r p = .ok ct ∧
      ∀ t' c' r' q, Decrypt A k' t' c' r' ct = .ok q ↔ aad t' c' r' = aad t c r ∧ q = p := by
  obtain ⟨key, hkey⟩ := k.active_key
  refine ⟨_, Encrypt_ok A hkey nonce t c r p, ?_⟩
  intro t' c' r' q
  rw [Decrypt_parts A (hext _ _ hkey), ← A.Open_Seal key nonce.1]
  split
  · rename_i hopen
    simp [hopen]
  · rename_i q' hopen
    simp [hopen]

end

/-! ## The encrypted columns -/

/-- The columns of the schema whose names end in `_enc`, with their tables. -/
def encryptedColumns : List (String × String) :=
  [("agent_tokens", "token_enc"),
    ("applications", "access_basic_auth_enc"),
    ("cloud_credentials", "config_enc"),
    ("database_credentials", "password_enc"),
    ("environment_variables", "value_enc"),
    ("git_sources", "api_token_enc"),
    ("github_apps", "app_private_key_enc"),
    ("github_apps", "client_secret_enc"),
    ("github_apps", "webhook_secret_enc"),
    ("instance_settings", "otlp_config_enc"),
    ("instance_settings", "transactional_email_config_enc"),
    ("mfa_factors", "secret_enc"),
    ("notification_channels", "config_enc"),
    ("oauth_provider_configs", "client_secret_enc"),
    ("private_keys", "private_key_enc"),
    ("registry_credentials", "password_enc"),
    ("s3_storages", "access_key_enc"),
    ("s3_storages", "secret_key_enc"),
    ("servers", "ca_key_enc"),
    ("servers", "log_drain_config_enc"),
    ("services", "access_basic_auth_enc"),
    ("shared_variables", "value_enc"),
    ("webhook_endpoints", "secret_enc")]

/-- The same, as the bytes that enter the additional data. -/
def inventory : List (Bytes × Bytes) :=
  encryptedColumns.map fun e => (ascii e.1, ascii e.2)

theorem inventory_prefixFree :
    ∀ e ∈ inventory, ∀ e' ∈ inventory,
      (e.1 ++ e.2).isPrefixOf (e'.1 ++ e'.2) = true → e = e' := by
  decide +kernel

/-- Over the inventory the joined identity determines its three parts. -/
theorem aad_inj (h : (t, c) ∈ inventory) (h' : (t', c') ∈ inventory)
    (heq : aad t' c' r' = aad t c r) : (t', c', r') = (t, c, r) := by
  unfold aad at heq
  have hpair : (t', c') = (t, c) := by
    rcases prefix_or_prefix_of_prefix
      (prefix_append (t' ++ c') r') (heq ▸ prefix_append (t ++ c) r)
      with hpre | hpre
    · exact inventory_prefixFree _ h' _ h ( isPrefixOf_iff_prefix.2 hpre)
    · exact (inventory_prefixFree _ h _ h' ( isPrefixOf_iff_prefix.2 hpre)).symm
  cases hpair
  rw [append_cancel_left heq]

/-- A stored value opens exactly under the joined identity it was sealed for,
and stays readable when the keyring grows.  Between encrypted columns of the
schema that is its own table, column and row. -/
theorem ciphertext_bound (A : IdealAead) (k k' : Keyring)
    (hext : k.Extends k') (nonce : Nonce) (t c r t' c' r' p : Bytes) :
    ∃ ct, Encrypt A k (some nonce) t c r p = .ok ct ∧
      (∀ q, Decrypt A k' t' c' r' ct = .ok q ↔ t' ++ c' ++ r' = t ++ c ++ r ∧ q = p) ∧
      ((t, c) ∈ inventory → (t', c') ∈ inventory →
        ∀ q, Decrypt A k' t' c' r' ct = .ok q ↔ (t', c', r') = (t, c, r) ∧ q = p) := by
  obtain ⟨ct, hct, hdec⟩ := Decrypt_Encrypt A hext nonce t c r p
  refine ⟨ct, hct, hdec t' c' r', ?_⟩
  intro h h' q
  rw [hdec]
  constructor
  · intro hq
    exact ⟨aad_inj h h' hq.1, hq.2⟩
  · intro hq
    obtain ⟨rfl, rfl, rfl⟩ : t' = t ∧ c' = c ∧ r' = r := by
      simpa using hq.1
    exact ⟨rfl, hq.2⟩

def oneKey : Keyring where
  keys := [(1, List.replicate 32 7)]
  size := by decide
  distinct := by decide
  nonempty := by decide

/-- The same keyring after a rotation. -/
def twoKeys : Keyring where
  keys := oneKey.keys ++ [(2, List.replicate 32 9)]
  size := by decide
  distinct := by decide
  nonempty := by decide

/-- The nonce of the examples. -/
def zeroNonce : Nonce :=
  ⟨List.replicate 12 0, by decide⟩

theorem ciphertext_bound_twoKeys :
    ∃ ct, Encrypt clear oneKey (some zeroNonce) (ascii "servers")
        (ascii "ca_key_enc") (ascii "u1") (ascii "pem") = .ok ct ∧
      ∀ q, Decrypt clear twoKeys (ascii "servers") (ascii "ca_key_enc")
          (ascii "u1") ct = .ok q ↔ q = ascii "pem" := by
  obtain ⟨ct, hct, hdec, _⟩ := ciphertext_bound clear oneKey twoKeys
    (Keyring.extends_of_append rfl) zeroNonce (ascii "servers")
    (ascii "ca_key_enc") (ascii "u1") (ascii "servers") (ascii "ca_key_enc")
    (ascii "u1") (ascii "pem")
  refine ⟨ct, hct, ?_⟩
  intro q
  rw [hdec]
  exact and_iff_right rfl

/-- The identity is joined without a separator: what was sealed for the column
`c` of the table `ab` opens as the column `bc` of the table `a`. -/
theorem ciphertext_replayed :
    ∃ ct, Encrypt clear oneKey (some zeroNonce) (ascii "ab") (ascii "c")
        (ascii "d") (ascii "pem") = .ok ct ∧
      Decrypt clear oneKey (ascii "a") (ascii "bc") (ascii "d") ct = .ok (ascii "pem") := by
  refine ⟨_, rfl, ?_⟩
  decide +kernel

end Akerdock.Secrets
