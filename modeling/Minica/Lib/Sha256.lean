import Minica.Lib.Bytes

/-!
# SHA-256

A hash function with 32-byte digests, and SHA-256 itself as a function on bytes.  What a program
owes to its hash function is proved for every `Sha256`; the real one shows that the assumptions
on digests can be met.
-/

namespace Rust

/-- A hash function with the digest size of SHA-256. -/
structure Sha256 where
  digest : Bytes → Bytes
  length_digest : ∀ bs, (digest bs).length = 32

namespace Sha256

/-! ## The function

Words are numbers below `2 ^ 32`. -/

def roundConstants : List Nat := [
  0x428a2f98, 0x71374491, 0xb5c0fbcf, 0xe9b5dba5, 0x3956c25b, 0x59f111f1, 0x923f82a4,
  0xab1c5ed5, 0xd807aa98, 0x12835b01, 0x243185be, 0x550c7dc3, 0x72be5d74, 0x80deb1fe,
  0x9bdc06a7, 0xc19bf174, 0xe49b69c1, 0xefbe4786, 0x0fc19dc6, 0x240ca1cc, 0x2de92c6f,
  0x4a7484aa, 0x5cb0a9dc, 0x76f988da, 0x983e5152, 0xa831c66d, 0xb00327c8, 0xbf597fc7,
  0xc6e00bf3, 0xd5a79147, 0x06ca6351, 0x14292967, 0x27b70a85, 0x2e1b2138, 0x4d2c6dfc,
  0x53380d13, 0x650a7354, 0x766a0abb, 0x81c2c92e, 0x92722c85, 0xa2bfe8a1, 0xa81a664b,
  0xc24b8b70, 0xc76c51a3, 0xd192e819, 0xd6990624, 0xf40e3585, 0x106aa070, 0x19a4c116,
  0x1e376c08, 0x2748774c, 0x34b0bcb5, 0x391c0cb3, 0x4ed8aa4a, 0x5b9cca4f, 0x682e6ff3,
  0x748f82ee, 0x78a5636f, 0x84c87814, 0x8cc70208, 0x90befffa, 0xa4506ceb, 0xbef9a3f7,
  0xc67178f2]

def initialState : List Nat :=
  [0x6a09e667, 0xbb67ae85, 0x3c6ef372, 0xa54ff53a,
   0x510e527f, 0x9b05688c, 0x1f83d9ab, 0x5be0cd19]

def rotateRight (x n : Nat) : Nat := (x >>> n) ||| ((x <<< (32 - n)) % 2 ^ 32)

/-- The words of a block, read big-endian. -/
def blockWords : Bytes → List Nat
  | a :: b :: c :: d :: bs => ofBe [a, b, c, d] :: blockWords bs
  | _ => []

/-- Further words of the message schedule, the latest first. -/
def extend : Nat → List Nat → List Nat
  | 0, ws => ws
  | n + 1, ws =>
      let s0 x := rotateRight x 7 ^^^ rotateRight x 18 ^^^ (x >>> 3)
      let s1 x := rotateRight x 17 ^^^ rotateRight x 19 ^^^ (x >>> 10)
      extend n ((s1 (ws.getD 1 0) + ws.getD 6 0 + s0 (ws.getD 14 0) + ws.getD 15 0) % 2 ^ 32 :: ws)

/-- One round with the sum of its constant and its schedule word. -/
def round : List Nat → Nat → List Nat
  | [a, b, c, d, e, f, g, h], kw =>
      let s1 := rotateRight e 6 ^^^ rotateRight e 11 ^^^ rotateRight e 25
      let ch := (e &&& f) ^^^ ((e ^^^ 0xffffffff) &&& g)
      let t1 := h + s1 + ch + kw
      let s0 := rotateRight a 2 ^^^ rotateRight a 13 ^^^ rotateRight a 22
      let maj := (a &&& b) ^^^ (a &&& c) ^^^ (b &&& c)
      [(t1 + s0 + maj) % 2 ^ 32, a, b, c, (d + t1) % 2 ^ 32, e, f, g]
  | state, _ => state

def compress (state : List Nat) (block : Bytes) : List Nat :=
  let schedule := (extend 48 (blockWords block).reverse).reverse
  let rounds := (roundConstants.zip schedule).foldl (fun s kw ↦ round s (kw.1 + kw.2)) state
  (state.zip rounds).map fun p ↦ (p.1 + p.2) % 2 ^ 32

/-- The message with its end mark and its length in bits, a whole number of blocks. -/
def padded (bs : Bytes) : Bytes :=
  bs ++ 0x80 :: List.replicate ((119 - bs.length % 64) % 64) 0 ++ beBytes 8 (8 * bs.length)

def hashBlocks : Nat → List Nat → Bytes → List Nat
  | 0, state, _ => state
  | n + 1, state, bs => hashBlocks n (compress state (bs.take 64)) (bs.drop 64)

/-- The eight words of a state, written big-endian. -/
def stateBytes (state : List Nat) : Bytes :=
  (List.range 8).flatMap fun i ↦ beBytes 4 (state.getD i 0)

/-- SHA-256. -/
def sha256 : Sha256 where
  digest bs := stateBytes (hashBlocks ((padded bs).length / 64) initialState (padded bs))
  length_digest bs := by simp [stateBytes]

example : sha256.digest [0x61, 0x62, 0x63] = beBytes 32
    0xba7816bf8f01cfea414140de5dae2223b00361a396177a9cb410ff61f20015ad := by decide +kernel

end Sha256

end Rust
