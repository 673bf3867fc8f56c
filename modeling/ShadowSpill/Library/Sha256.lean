import ShadowSpill.Library.BlockStream

/-!
# The Secure Hash Algorithm with a 256-bit digest

The standard's own words: a message is padded to whole blocks of sixty-four bytes, each block
is expanded into sixty-four words by a recurrence, and sixty-four rounds over eight registers
fold the words into the chaining value.  Numbers are read from bytes, and written to bytes,
with the greatest byte first.
-/

namespace ShadowSpill.Library.Sha256

open BlockStream

/-! ## Numbers as bytes -/

/-- The number that bytes write, the greatest byte first. -/
def number (bytes : List UInt8) : Nat :=
  bytes.foldl (fun value byte => 256 * value + byte.toNat) 0

/-- The last `count` bytes of a number, the greatest byte first. -/
def bytesOf (count value : Nat) : List UInt8 :=
  (List.range count).map fun index => UInt8.ofNat (value / 256 ^ (count - 1 - index))

/-! ## Functions and constants -/

def rotateRight (value count : UInt32) : UInt32 :=
  (value >>> count) ||| (value <<< (32 - count))

def choose (e f g : UInt32) : UInt32 := (e &&& f) ^^^ (~~~e &&& g)

def majority (a b c : UInt32) : UInt32 := (a &&& b) ^^^ (a &&& c) ^^^ (b &&& c)

def big0 (value : UInt32) : UInt32 :=
  rotateRight value 2 ^^^ rotateRight value 13 ^^^ rotateRight value 22

def big1 (value : UInt32) : UInt32 :=
  rotateRight value 6 ^^^ rotateRight value 11 ^^^ rotateRight value 25

def small0 (value : UInt32) : UInt32 :=
  rotateRight value 7 ^^^ rotateRight value 18 ^^^ (value >>> 3)

def small1 (value : UInt32) : UInt32 :=
  rotateRight value 17 ^^^ rotateRight value 19 ^^^ (value >>> 10)

/-- The first thirty-two bits of the fractional parts of the cube roots of the first
sixty-four primes. -/
def constants : List UInt32 :=
  [0x428a2f98, 0x71374491, 0xb5c0fbcf, 0xe9b5dba5, 0x3956c25b, 0x59f111f1, 0x923f82a4, 0xab1c5ed5,
   0xd807aa98, 0x12835b01, 0x243185be, 0x550c7dc3, 0x72be5d74, 0x80deb1fe, 0x9bdc06a7, 0xc19bf174,
   0xe49b69c1, 0xefbe4786, 0x0fc19dc6, 0x240ca1cc, 0x2de92c6f, 0x4a7484aa, 0x5cb0a9dc, 0x76f988da,
   0x983e5152, 0xa831c66d, 0xb00327c8, 0xbf597fc7, 0xc6e00bf3, 0xd5a79147, 0x06ca6351, 0x14292967,
   0x27b70a85, 0x2e1b2138, 0x4d2c6dfc, 0x53380d13, 0x650a7354, 0x766a0abb, 0x81c2c92e, 0x92722c85,
   0xa2bfe8a1, 0xa81a664b, 0xc24b8b70, 0xc76c51a3, 0xd192e819, 0xd6990624, 0xf40e3585, 0x106aa070,
   0x19a4c116, 0x1e376c08, 0x2748774c, 0x34b0bcb5, 0x391c0cb3, 0x4ed8aa4a, 0x5b9cca4f, 0x682e6ff3,
   0x748f82ee, 0x78a5636f, 0x84c87814, 0x8cc70208, 0x90befffa, 0xa4506ceb, 0xbef9a3f7, 0xc67178f2]

/-- The eight words of a chaining value, and the working variables of a round. -/
structure Registers where
  a : UInt32
  b : UInt32
  c : UInt32
  d : UInt32
  e : UInt32
  f : UInt32
  g : UInt32
  h : UInt32
  deriving DecidableEq, Repr

def Registers.words (registers : Registers) : List UInt32 :=
  [registers.a, registers.b, registers.c, registers.d,
    registers.e, registers.f, registers.g, registers.h]

/-- Word by word, modulo the word. -/
def Registers.add (left right : Registers) : Registers where
  a := left.a + right.a
  b := left.b + right.b
  c := left.c + right.c
  d := left.d + right.d
  e := left.e + right.e
  f := left.f + right.f
  g := left.g + right.g
  h := left.h + right.h

/-- The first thirty-two bits of the fractional parts of the square roots of the first
eight primes. -/
def initial : Registers :=
  ⟨0x6a09e667, 0xbb67ae85, 0x3c6ef372, 0xa54ff53a,
    0x510e527f, 0x9b05688c, 0x1f83d9ab, 0x5be0cd19⟩

/-! ## One block -/

/-- The message schedule of a block. -/
def messageWord (block : List UInt8) (index : Nat) : UInt32 :=
  if index < 16 then UInt32.ofNat (number ((block.drop (4 * index)).take 4))
  else
    small1 (messageWord block (index - 2)) + messageWord block (index - 7) +
      small0 (messageWord block (index - 15)) + messageWord block (index - 16)
termination_by index
decreasing_by all_goals omega

def round (word constant : UInt32) (registers : Registers) : Registers :=
  let temporary1 := registers.h + big1 registers.e +
    choose registers.e registers.f registers.g + constant + word
  let temporary2 := big0 registers.a + majority registers.a registers.b registers.c
  { a := temporary1 + temporary2
    b := registers.a
    c := registers.b
    d := registers.c
    e := registers.d + temporary1
    f := registers.e
    g := registers.f
    h := registers.g }

/-- The registers after the rounds of the given words. -/
def rounds (word : Nat → UInt32) (registers : Registers) : Registers :=
  (List.range 64).foldl
    (fun current index => round (word index) (constants.getD index 0) current) registers

def compress (state : Registers) (block : List UInt8) : Registers :=
  state.add (rounds (messageWord block) state)

/-! ## Messages -/

/-- The zero bytes between the marker and the length. -/
def zeros (length : Nat) : Nat := (119 - length % 64) % 64

/-- A marker bit, zeros, and the number of the message's bits in eight bytes. -/
def padding (length : Nat) : List UInt8 :=
  0x80 :: (List.replicate (zeros length) 0 ++ bytesOf 8 (8 * length))

/-- The digest of a message. -/
def sha256 (message : List UInt8) : List UInt8 :=
  (absorb 64 compress initial (message ++ padding message.length)).words.flatMap
    fun word => bytesOf 4 word.toNat

end ShadowSpill.Library.Sha256
