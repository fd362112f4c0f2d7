import Quadlet.Table.Document
/-!
# The KERI v1 tables

The codes of version 1 of the Key Event Receipt Infrastructure: primitives, indexed signatures and counters, each with
its sizes and its name.
-/
namespace Quadlet.KeriV1

/-- A code, its sizes and its name. -/
abbrev Row := String × SizeEntry × String

def sizesOf (rows : List Row) : KeyMap SizeEntry := .ofList (rows.map (fun r => (Bytes.ofString r.1, r.2.1)))

def namesOf (rows : List Row) : KeyMap String := .ofList (rows.map (fun r => (Bytes.ofString r.1, r.2.2)))

/-! ## Primitives -/

/-- A code without soft digits and with a body of fixed size. -/
def plain (hs fs ls : UInt64) : SizeEntry := { hs, ss := 0, fs := some fs, ls }

/-- A code whose soft digits are its value. -/
def tag (hs ss fs : UInt64) : SizeEntry := { hs, ss, fs := some fs }

/-- A code whose soft digits count the quadlets of its body. -/
def counted (hs ss ls : UInt64) : SizeEntry := { hs, ss, fs := none, ls }

def matter : List Row :=
  [("A", plain 1 44 0, "Ed25519_Seed"),
   ("B", plain 1 44 0, "Ed25519N"),
   ("C", plain 1 44 0, "X25519"),
   ("D", plain 1 44 0, "Ed25519"),
   ("E", plain 1 44 0, "Blake3_256"),
   ("F", plain 1 44 0, "Blake2b_256"),
   ("G", plain 1 44 0, "Blake2s_256"),
   ("H", plain 1 44 0, "SHA3_256"),
   ("I", plain 1 44 0, "SHA2_256"),
   ("J", plain 1 44 0, "ECDSA_256k1_Seed"),
   ("K", plain 1 76 0, "Ed448_Seed"),
   ("L", plain 1 76 0, "X448"),
   ("M", plain 1 4 0, "Short"),
   ("N", plain 1 12 0, "Big"),
   ("O", plain 1 44 0, "X25519_Private"),
   ("P", plain 1 124 0, "X25519_Cipher_Seed"),
   ("Q", plain 1 44 0, "ECDSA_256r1_Seed"),
   ("R", plain 1 8 0, "Tall"),
   ("S", plain 1 16 0, "Large"),
   ("T", plain 1 20 0, "Great"),
   ("U", plain 1 24 0, "Vast"),
   ("V", plain 1 4 1, "Label1"),
   ("W", plain 1 4 0, "Label2"),
   ("X", tag 1 3 4, "Tag3"),
   ("Y", tag 1 7 8, "Tag7"),
   ("0A", plain 2 24 0, "Salt_128"),
   ("0B", plain 2 88 0, "Ed25519_Sig"),
   ("0C", plain 2 88 0, "ECDSA_256k1_Sig"),
   ("0D", plain 2 88 0, "Blake3_512"),
   ("0E", plain 2 88 0, "Blake2b_512"),
   ("0F", plain 2 88 0, "SHA3_512"),
   ("0G", plain 2 88 0, "SHA2_512"),
   ("0H", plain 2 8 0, "Long"),
   ("0I", plain 2 88 0, "ECDSA_256r1_Sig"),
   ("0J", tag 2 2 4, "Tag1"),
   ("0K", tag 2 2 4, "Tag2"),
   ("0L", tag 2 6 8, "Tag5"),
   ("0M", tag 2 6 8, "Tag6"),
   ("1AAA", plain 4 48 0, "ECDSA_256k1N"),
   ("1AAB", plain 4 48 0, "ECDSA_256k1"),
   ("1AAC", plain 4 80 0, "Ed448N"),
   ("1AAD", plain 4 80 0, "Ed448"),
   ("1AAE", plain 4 156 0, "Ed448_Sig"),
   ("1AAF", plain 4 8 0, "Tern"),
   ("1AAG", plain 4 36 0, "DateTime"),
   ("1AAH", plain 4 100 0, "X25519_Cipher_Salt"),
   ("1AAI", plain 4 48 0, "ECDSA_256r1N"),
   ("1AAJ", plain 4 48 0, "ECDSA_256r1"),
   ("1AAK", plain 4 4 0, "Null"),
   ("1AAL", plain 4 4 0, "No"),
   ("1AAM", plain 4 4 0, "Yes"),
   ("1AAN", tag 4 4 8, "Tag4"),
   ("1AAO", tag 4 8 12, "Tag8"),
   ("1AAP", plain 4 4 0, "Escape"),
   ("1AAQ", plain 4 4 0, "Empty"),
   ("4A", counted 2 2 0, "StrB64_L0"),
   ("5A", counted 2 2 1, "StrB64_L1"),
   ("6A", counted 2 2 2, "StrB64_L2"),
   ("7AAA", counted 4 4 0, "StrB64_Big_L0"),
   ("8AAA", counted 4 4 1, "StrB64_Big_L1"),
   ("9AAA", counted 4 4 2, "StrB64_Big_L2"),
   ("4B", counted 2 2 0, "Bytes_L0"),
   ("5B", counted 2 2 1, "Bytes_L1"),
   ("6B", counted 2 2 2, "Bytes_L2"),
   ("7AAB", counted 4 4 0, "Bytes_Big_L0"),
   ("8AAB", counted 4 4 1, "Bytes_Big_L1"),
   ("9AAB", counted 4 4 2, "Bytes_Big_L2"),
   ("4C", counted 2 2 0, "X25519_Cipher_L0"),
   ("5C", counted 2 2 1, "X25519_Cipher_L1"),
   ("6C", counted 2 2 2, "X25519_Cipher_L2"),
   ("7AAC", counted 4 4 0, "X25519_Cipher_Big_L0"),
   ("8AAC", counted 4 4 1, "X25519_Cipher_Big_L1"),
   ("9AAC", counted 4 4 2, "X25519_Cipher_Big_L2")]

/-! ## Indexed signatures -/

/-- A code whose soft digits are an index, or an index of `os` digits and another one. -/
def indexed (hs ss os fs : UInt64) : SizeEntry := { hs, ss, os, fs := some fs }

def indexer : List Row :=
  [("A", indexed 1 1 0 88, "Ed25519_Sig"),
   ("B", indexed 1 1 0 88, "Ed25519_Crt_Sig"),
   ("C", indexed 1 1 0 88, "ECDSA_256k1_Sig"),
   ("D", indexed 1 1 0 88, "ECDSA_256k1_Crt_Sig"),
   ("E", indexed 1 1 0 88, "ECDSA_256r1_Sig"),
   ("F", indexed 1 1 0 88, "ECDSA_256r1_Crt_Sig"),
   ("0A", indexed 2 2 1 156, "Ed448_Sig"),
   ("0B", indexed 2 2 1 156, "Ed448_Crt_Sig"),
   ("2A", indexed 2 4 2 92, "Ed25519_Big_Sig"),
   ("2B", indexed 2 4 2 92, "Ed25519_Big_Crt_Sig"),
   ("2C", indexed 2 4 2 92, "ECDSA_256k1_Big_Sig"),
   ("2D", indexed 2 4 2 92, "ECDSA_256k1_Big_Crt_Sig"),
   ("2E", indexed 2 4 2 92, "ECDSA_256r1_Big_Sig"),
   ("2F", indexed 2 4 2 92, "ECDSA_256r1_Big_Crt_Sig"),
   ("3A", indexed 2 6 3 160, "Ed448_Big_Sig"),
   ("3B", indexed 2 6 3 160, "Ed448_Big_Crt_Sig")]

/-! ## Counters -/

/-- A counter, or the version code: nothing but the code itself. -/
def count (hs ss fs : UInt64) : SizeEntry := { hs, ss, fs := some fs }

def counter : List Row :=
  [("-A", count 2 2 4, "ControllerIdxSigs"),
   ("-B", count 2 2 4, "WitnessIdxSigs"),
   ("-C", count 2 2 4, "NonTransReceiptCouples"),
   ("-D", count 2 2 4, "TransReceiptQuadruples"),
   ("-E", count 2 2 4, "FirstSeenReplayCouples"),
   ("-F", count 2 2 4, "TransIdxSigGroups"),
   ("-G", count 2 2 4, "SealSourceCouples"),
   ("-H", count 2 2 4, "TransLastIdxSigGroups"),
   ("-I", count 2 2 4, "SealSourceTriples"),
   ("-J", count 2 2 4, "SadPathSig"),
   ("-K", count 2 2 4, "SadPathSigGroup"),
   ("-L", count 2 2 4, "PathedMaterialQuadlets"),
   ("-V", count 2 2 4, "AttachedMaterialQuadlets"),
   ("-0V", count 3 5 8, "BigAttachedMaterialQuadlets"),
   ("-_AAA", count 5 3 8, "KERIACDCGenusVersion")]

/-- What the counters count.  Those left out count the quadlets that follow. -/
def contents : List (String × CounterEntry) :=
  [("-A", { multiplier := some "x1", context := some "Indexer" }),
   ("-B", { multiplier := some "x1", context := some "Indexer" }),
   ("-C", { multiplier := some "x2" }),
   ("-D", { multiplier := some "x4" }),
   ("-E", { multiplier := some "x2" }),
   ("-F", { multiplier := some "x4" }),
   ("-G", { multiplier := some "x2" }),
   ("-H", { multiplier := some "x2" }),
   ("-I", { multiplier := some "x3" }),
   ("-J", { multiplier := some "x2" }),
   ("-K", { multiplier := some "x2+1" }),
   ("-L", { frame := true }),
   ("-_AAA", { version := true })]

/-! ## The documents -/

def sizes : Sizes where
  matter := sizesOf matter
  indexer := sizesOf indexer
  counter := sizesOf counter

def codex : Codex where
  matter := namesOf matter
  indexer := namesOf indexer
  counter := namesOf counter

def counters : KeyMap CounterEntry := .ofList (contents.map (fun c => (Bytes.ofString c.1, c.2)))

/-- The documents agree with each other. -/
theorem isOk_ofDocuments : (Tables.ofDocuments sizes codex counters).isOk = true := by decide +kernel

/-- The tables that the documents describe. -/
def tables : Tables :=
  match Tables.ofDocuments sizes codex counters, isOk_ofDocuments with
  | .ok tables, _ => tables

end Quadlet.KeriV1
