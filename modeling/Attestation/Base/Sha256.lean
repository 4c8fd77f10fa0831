import Attestation.Base.Bytes

/-! SHA-256 on byte strings, with 32-bit words as numbers below `2 ^ 32`, and
collision-freeness of a hash on a finite set of messages. No hash into 32 bytes
is injective on all messages, so what a run may assume is that the messages
hashed in it do not collide. -/

namespace Attestation

/-- The output of SHA-256. -/
abbrev Digest := Vector UInt8 32

/-- Distinct messages of the list have distinct hashes. -/
def CollisionFreeOn (hash : Bytes → Digest) (messages : List Bytes) : Prop :=
  ∀ a ∈ messages, ∀ b ∈ messages, hash a = hash b → a = b

instance (hash : Bytes → Digest) (messages : List Bytes) :
    Decidable (CollisionFreeOn hash messages) :=
  inferInstanceAs (Decidable (∀ a ∈ messages, ∀ b ∈ messages, hash a = hash b → a = b))

theorem CollisionFreeOn.mono {hash : Bytes → Digest} {ms ms' : List Bytes}
    (h : CollisionFreeOn hash ms') (hsub : ms ⊆ ms') : CollisionFreeOn hash ms :=
  fun a ha b hb => h a (hsub ha) b (hsub hb)

namespace Sha256

def rotr (x n : ℕ) : ℕ := (x >>> n ||| x <<< (32 - n)) % 2 ^ 32

def bigSigma0 (x : ℕ) : ℕ := rotr x 2 ^^^ rotr x 13 ^^^ rotr x 22

def bigSigma1 (x : ℕ) : ℕ := rotr x 6 ^^^ rotr x 11 ^^^ rotr x 25

def smallSigma0 (x : ℕ) : ℕ := rotr x 7 ^^^ rotr x 18 ^^^ x >>> 3

def smallSigma1 (x : ℕ) : ℕ := rotr x 17 ^^^ rotr x 19 ^^^ x >>> 10

def choose (x y z : ℕ) : ℕ := (x &&& y) ^^^ ((0xffffffff ^^^ x) &&& z)

def majority (x y z : ℕ) : ℕ := (x &&& y) ^^^ (x &&& z) ^^^ (y &&& z)

def roundConstants : List ℕ := [
  0x428a2f98, 0x71374491, 0xb5c0fbcf, 0xe9b5dba5, 0x3956c25b, 0x59f111f1, 0x923f82a4, 0xab1c5ed5,
  0xd807aa98, 0x12835b01, 0x243185be, 0x550c7dc3, 0x72be5d74, 0x80deb1fe, 0x9bdc06a7, 0xc19bf174,
  0xe49b69c1, 0xefbe4786, 0x0fc19dc6, 0x240ca1cc, 0x2de92c6f, 0x4a7484aa, 0x5cb0a9dc, 0x76f988da,
  0x983e5152, 0xa831c66d, 0xb00327c8, 0xbf597fc7, 0xc6e00bf3, 0xd5a79147, 0x06ca6351, 0x14292967,
  0x27b70a85, 0x2e1b2138, 0x4d2c6dfc, 0x53380d13, 0x650a7354, 0x766a0abb, 0x81c2c92e, 0x92722c85,
  0xa2bfe8a1, 0xa81a664b, 0xc24b8b70, 0xc76c51a3, 0xd192e819, 0xd6990624, 0xf40e3585, 0x106aa070,
  0x19a4c116, 0x1e376c08, 0x2748774c, 0x34b0bcb5, 0x391c0cb3, 0x4ed8aa4a, 0x5b9cca4f, 0x682e6ff3,
  0x748f82ee, 0x78a5636f, 0x84c87814, 0x8cc70208, 0x90befffa, 0xa4506ceb, 0xbef9a3f7, 0xc67178f2]

/-- The eight working variables. -/
structure State where
  a : ℕ
  b : ℕ
  c : ℕ
  d : ℕ
  e : ℕ
  f : ℕ
  g : ℕ
  h : ℕ

def initial : State :=
  ⟨0x6a09e667, 0xbb67ae85, 0x3c6ef372, 0xa54ff53a, 0x510e527f, 0x9b05688c, 0x1f83d9ab, 0x5be0cd19⟩

/-- One round, given the sum of its constant and its schedule word. -/
def round (s : State) (kw : ℕ) : State :=
  let t1 := s.h + bigSigma1 s.e + choose s.e s.f s.g + kw
  let t2 := bigSigma0 s.a + majority s.a s.b s.c
  ⟨(t1 + t2) % 2 ^ 32, s.a, s.b, s.c, (s.d + t1) % 2 ^ 32, s.e, s.f, s.g⟩

/-- The next `n` schedule words from the window of sixteen, oldest first. -/
def schedule : ℕ → List ℕ → List ℕ
  | n + 1, w :: rest =>
    let next := smallSigma1 (rest.getD 13 0) + rest.getD 8 0 + smallSigma0 (rest.getD 0 0) + w
    w :: schedule n (rest ++ [next % 2 ^ 32])
  | _, _ => []

def compress (s : State) (block : List ℕ) : State :=
  let t := (List.zipWith (· + ·) roundConstants (schedule 64 block)).foldl round s
  ⟨(s.a + t.a) % 2 ^ 32, (s.b + t.b) % 2 ^ 32, (s.c + t.c) % 2 ^ 32, (s.d + t.d) % 2 ^ 32,
    (s.e + t.e) % 2 ^ 32, (s.f + t.f) % 2 ^ 32, (s.g + t.g) % 2 ^ 32, (s.h + t.h) % 2 ^ 32⟩

def pad (message : Bytes) : Bytes :=
  message ++ 0x80 :: List.replicate ((119 - message.length % 64) % 64) 0 ++
    beBytes 8 (8 * message.length)

def words : Bytes → List ℕ
  | a :: b :: c :: d :: rest => ofBe [a, b, c, d] :: words rest
  | _ => []

def blocks : ℕ → List ℕ → List (List ℕ)
  | 0, _ => []
  | n + 1, ws => ws.take 16 :: blocks n (ws.drop 16)

def digest (s : State) : Digest :=
  ⟨([s.a, s.b, s.c, s.d, s.e, s.f, s.g, s.h].flatMap (beBytes 4)).toArray, by simp⟩

end Sha256

open Sha256 in
def sha256 (message : Bytes) : Digest :=
  let padded := pad message
  digest ((blocks (padded.length / 64) (words padded)).foldl compress initial)

example : (sha256 [0x61, 0x62, 0x63]).toList.take 4 = [0xba, 0x78, 0x16, 0xbf] := by
  decide +kernel

end Attestation
