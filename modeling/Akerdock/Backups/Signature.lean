import Akerdock.Access.Route
import Akerdock.Lib.Segments

/-!
# Signatures of S3 requests

`internal/s3/s3.go`: a signature covers a canonical path and query, which the
storage computes again from the request.  They agree if the path has none of
the characters that `url.PathEscape` keeps, and the credential no blank:
`canonical_iff`.
-/

namespace Akerdock.S3

open Crypto (Bytes forall_byte)
open Secrets (ascii)
open Access (slash isUnreserved)
open List Segments

/-! ## Encodings -/

def hexDigit (n : UInt8) : UInt8 :=
  if n < 10 then 48 + n else 55 + n

/-- A byte as it stands, or percent-encoded. -/
def escape (keep : UInt8 → Bool) (b : UInt8) : Bytes :=
  if keep b then [b] else [37, hexDigit (b / 16), hexDigit (b % 16)]

/-- The `UriEncode` of the specification, for a query. -/
def uriEncode (s : Bytes) : Bytes :=
  s.flatMap (escape isUnreserved)

/-- The same for a path. -/
def uriEncodePath (path : Bytes) : Bytes :=
  path.flatMap (escape fun b => isUnreserved b || b = slash)

/-- What `url.PathEscape` keeps besides. -/
def reserved : Bytes :=
  ascii "$&+:=@"

def pathEscape (s : Bytes) : Bytes :=
  s.flatMap (escape fun b => isUnreserved b || reserved.contains b)

def queryEscape (s : Bytes) : Bytes :=
  s.flatMap fun b => if b = 32 then [43] else escape isUnreserved b

/-- `URL.EscapedPath`. -/
def escapedPath (path : Bytes) : Bytes :=
  path.flatMap (escape fun b => isUnreserved b || (ascii "$&+,/:;=@").contains b)

def escapePath (path : Bytes) : Bytes :=
  [slash].intercalate ((path.splitOn slash).map fun p =>
    (pathEscape p).flatMap fun b => if b = 43 then ascii "%20" else [b])

/-- `url.Values.Encode`, for values in the order of their keys. -/
def Encode (enc : Bytes → Bytes) (q : List (Bytes × Bytes)) : Bytes :=
  [38].intercalate (q.map fun p => enc p.1 ++ 61 :: enc p.2)

def fromHex (c : UInt8) : UInt8 :=
  if c < 58 then c - 48 else c - 55

/-- What an encoded path stands for. -/
def unescape : Bytes → Bytes
  | 37 :: h :: l :: s => (fromHex h * 16 + fromHex l) :: unescape s
  | b :: s => b :: unescape s
  | [] => []

/-! ## Requests -/

structure Config where
  bucket : Bytes
  pathPrefix : Bytes
  region : Bytes
  accessKey : Bytes
  sseAlgorithm : Bytes

def Config.Key (c : Config) (name : Bytes) : Bytes :=
  let pathPrefix := (c.pathPrefix.dropWhile (· = slash)).rdropWhile (· = slash)
  let name := if name.head? = some slash then name.tail else name
  if pathPrefix = [] then name else pathPrefix ++ slash :: name

/-- The path of `objectURL`. -/
def Config.path (c : Config) (key : Bytes) : Bytes :=
  slash :: c.bucket ++ slash :: key

/-- A formatted time or number. -/
abbrev Plain := { s : Bytes // 32 ∉ s }

def Config.credential (c : Config) (scopeDate : Plain) : Bytes :=
  c.accessKey ++ slash :: scopeDate.1 ++ slash ::
    (if c.region = [] then ascii "us-east-1" else c.region) ++ ascii "/s3/aws4_request"

/-- The query of `presign` that is signed. -/
def Config.query (c : Config) (put : Bool) (amzDate scopeDate expires : Plain) :
    List (Bytes × Bytes) :=
  [(ascii "X-Amz-Algorithm", ascii "AWS4-HMAC-SHA256"),
    (ascii "X-Amz-Credential", c.credential scopeDate),
    (ascii "X-Amz-Date", amzDate.1),
    (ascii "X-Amz-Expires", expires.1),
    (ascii "X-Amz-SignedHeaders",
      if put && c.sseAlgorithm ≠ [] then ascii "host;x-amz-server-side-encryption"
      else ascii "host")]

/-! ## What is signed and what is sent -/

theorem unescape_escape (hkeep : keep 37 = false) (s : Bytes) :
    unescape (s.flatMap (escape keep)) = s := by
  have hbyte : ∀ b : UInt8, fromHex (hexDigit (b / 16)) * 16 + fromHex (hexDigit (b % 16)) = b :=
    forall_byte (by decide +kernel)
  induction s with
  | nil => rfl
  | cons b s ih =>
    rw [flatMap_cons, escape]
    split
    · next hb =>
      have hne : b ≠ 37 := by
        rintro rfl
        cases hkeep.symm.trans hb
      simp [unescape, hne, ih]
    · simp [unescape, hbyte, ih]

theorem escapePath_eq_iff (path : Bytes) :
    escapePath path = uriEncodePath path ↔ ∀ b ∈ path, b ∉ reserved := by
  simp only [escapePath, pathEscape, uriEncodePath, flatMap_assoc]
  rw [intercalate_flatMap, flatMap_eq_iff (forall_byte (by decide +kernel))]
  refine forall₂_congr fun b hb => ?_
  clear hb
  revert b
  exact forall_byte (by decide +kernel)

theorem queryEscape_eq_iff (s : Bytes) : queryEscape s = uriEncode s ↔ 32 ∉ s := by
  rw [queryEscape, uriEncode, flatMap_eq_iff (forall_byte (by decide +kernel))]
  have hbyte : ∀ b : UInt8, (if b = 32 then [43] else escape isUnreserved b) =
      escape isUnreserved b ↔ b ≠ 32 := forall_byte (by decide +kernel)
  simp only [hbyte]
  exact ⟨fun h hs => h 32 hs rfl, fun h b hb heq => h (heq ▸ hb)⟩

/-- The path that is signed is the one of the specification, and of the object
that is asked for, and so is the query, exactly if there is nothing in them
that is encoded in another way. -/
theorem canonical_iff (c : Config) (name : Bytes) (put : Bool) (amzDate scopeDate expires : Plain) :
    (escapePath (c.path (c.Key name)) = uriEncodePath (c.path (c.Key name)) ∧
      unescape (escapePath (c.path (c.Key name))) = unescape (escapedPath (c.path (c.Key name))) ∧
      Encode queryEscape (c.query put amzDate scopeDate expires) =
        Encode uriEncode (c.query put amzDate scopeDate expires)) ↔
    (∀ b ∈ c.path (c.Key name), b ∉ reserved) ∧ 32 ∉ c.credential scopeDate := by
  have hquery : Encode queryEscape (c.query put amzDate scopeDate expires) =
      Encode uriEncode (c.query put amzDate scopeDate expires) ↔
        32 ∉ c.credential scopeDate := by
    have hplain : ∀ {s : Bytes}, 32 ∉ s → queryEscape s = uriEncode s :=
      (queryEscape_eq_iff _).2
    rw [← queryEscape_eq_iff, Encode, Encode, Config.query]
    simp (disch := decide) only [map_cons, map_nil, hplain amzDate.2, hplain expires.2, hplain,
      apply_ite queryEscape, apply_ite uriEncode]
    simp
  rw [escapePath_eq_iff, hquery]
  refine ⟨fun h => ⟨h.1, h.2.2⟩, fun h => ⟨h.1, ?_, h.2⟩⟩
  rw [(escapePath_eq_iff _).2 h.1, uriEncodePath, escapedPath, unescape_escape rfl,
    unescape_escape rfl]

def dumps : Config :=
  ⟨ascii "dumps", [], [], ascii "key", []⟩

/-- The object `a+b` is asked for, and `a b` is signed. -/
theorem plus_signed_as_blank :
    escapedPath (dumps.path (dumps.Key (ascii "a+b"))) = ascii "/dumps/a+b" ∧
      escapePath (dumps.path (dumps.Key (ascii "a+b"))) = ascii "/dumps/a%20b" := by
  decide +kernel

end Akerdock.S3
