import KrovaCoin.Primitives

/-!
# Hash functions and public keys (`hash.h`, `pubkey.h`, `pubkey.cpp`)

The hash functions and the elliptic-curve arithmetic come from other libraries; a `Crypto` is any
choice of them with the output sizes they have.

* `hash160` / `hash256` — `CHash160` and `CHash256`.
-/

namespace KrovaCoin

inductive SigVersion where
  | SIGVERSION_BASE
  | SIGVERSION_SAPLING
  deriving DecidableEq, Repr

def CTransaction.getRequiredSigVersion (tx : CTransaction) : SigVersion :=
  if tx.isSaplingVersion then .SIGVERSION_SAPLING else .SIGVERSION_BASE

/-- The hash functions, the signature scheme and `SignatureHash`. -/
structure Crypto where
  ripemd160 : List UInt8 → Vector UInt8 20
  sha1 : List UInt8 → Vector UInt8 20
  sha256 : List UInt8 → Vector UInt8 32
  /-- What `CPubKey::Verify` asks of `secp256k1`: key, message hash, signature. -/
  ecdsaVerify : List UInt8 → Uint256 → List UInt8 → Bool
  /-- `CPubKey::CheckLowS`. -/
  checkLowS : List UInt8 → Bool
  /-- `SignatureHash(scriptCode, txTo, nIn, nHashType, amount, sigversion)`. -/
  signatureHash : CScript → CTransaction → Nat → UInt8 → Int → SigVersion → Uint256

namespace Crypto

def hash160 (c : Crypto) (b : List UInt8) : List UInt8 := (c.ripemd160 (c.sha256 b).toList).toList

def hash256 (c : Crypto) (b : List UInt8) : List UInt8 := (c.sha256 (c.sha256 b).toList).toList

end Crypto

/-- The 32 bytes of a `uint256`, the least significant one first. -/
def Uint256.toBytes (x : Uint256) : List UInt8 :=
  (List.range 32).map fun i => UInt8.ofNat (x.toNat / 256 ^ i)

/-- The `uint256` with the given bytes. -/
def Uint256.ofBytes (b : List UInt8) : Uint256 := BitVec.ofNat 256 (leNat b)

/-- `CPubKey::PUBLIC_KEY_SIZE` and `CPubKey::COMPRESSED_PUBLIC_KEY_SIZE`. -/
def PUBLIC_KEY_SIZE : Nat := 65

def COMPRESSED_PUBLIC_KEY_SIZE : Nat := 33

/-- `CPubKey::GetLen`. -/
def pubKeyLen (chHeader : UInt8) : Nat :=
  if chHeader = 2 ∨ chHeader = 3 then COMPRESSED_PUBLIC_KEY_SIZE
  else if chHeader = 4 ∨ chHeader = 6 ∨ chHeader = 7 then PUBLIC_KEY_SIZE
  else 0

def validSize (vch : List UInt8) : Bool :=
  match vch with
  | [] => false
  | b :: _ => pubKeyLen b == vch.length

/-- `CPubKey`: bytes of the length that the first one announces; no bytes for the invalid key. -/
structure CPubKey where
  vch : List UInt8
  size_ok : vch = [] ∨ validSize vch = true
  deriving DecidableEq

namespace CPubKey

/-- `CPubKey::Invalidate`. -/
def invalid : CPubKey := ⟨[], .inl rfl⟩

/-- `CPubKey::Set`. -/
def ofBytes (b : List UInt8) : CPubKey := if h : validSize b = true then ⟨b, .inr h⟩ else invalid

def isValid (k : CPubKey) : Bool := !k.vch.isEmpty

def verify (k : CPubKey) (c : Crypto) (hash : Uint256) (vchSig : List UInt8) : Bool :=
  k.isValid && c.ecdsaVerify k.vch hash vchSig

def getID (k : CPubKey) (c : Crypto) : List UInt8 := c.hash160 k.vch

theorem ofBytes_vch {b : List UInt8} (h : (ofBytes b).isValid = true) : (ofBytes b).vch = b := by
  unfold ofBytes at h ⊢
  split
  · rfl
  · rename_i hsize
    rw [dif_neg hsize] at h
    cases h

end CPubKey

end KrovaCoin
