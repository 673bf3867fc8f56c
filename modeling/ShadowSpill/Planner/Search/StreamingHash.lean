import ShadowSpill.Library.Sha256

/-!
# The digest's own SHA-256

The planner hashes a schedule while it writes it: a block of sixty-four bytes fills up, is
transformed when it is full, and is written again from its start.  What stands in the block
behind the bytes in use is left from earlier blocks.  Its constants and its rounds are the
standard's.  However the text arrives, the state is the chaining value of the bytes so far,
and finishing pads them and gives their digest.
-/

namespace ShadowSpill.Planner.Search.StreamingHash

open Library Library.BlockStream Library.Sha256

/-! ## The functions -/

/-- `Sha256`. -/
structure Sha256 where
  state : Registers
  bytes : UInt64
  block : List UInt8
  used : Nat
  deriving DecidableEq, Repr

/-- The word at an offset of a block, the greatest byte first. -/
def loadWord (block : List UInt8) (offset : Nat) : UInt32 :=
  ((block.getD offset 0).toUInt32 <<< 24) ||| ((block.getD (offset + 1) 0).toUInt32 <<< 16) |||
    ((block.getD (offset + 2) 0).toUInt32 <<< 8) ||| (block.getD (offset + 3) 0).toUInt32

/-- `rotate_right`. -/
def rotateRight (value count : UInt32) : UInt32 :=
  (value >>> count) ||| (value <<< (32 - count))

/-- `constants` of `sha256_transform`. -/
def constants : List UInt32 :=
  [0x428a2f98, 0x71374491, 0xb5c0fbcf, 0xe9b5dba5,
   0x3956c25b, 0x59f111f1, 0x923f82a4, 0xab1c5ed5,
   0xd807aa98, 0x12835b01, 0x243185be, 0x550c7dc3,
   0x72be5d74, 0x80deb1fe, 0x9bdc06a7, 0xc19bf174,
   0xe49b69c1, 0xefbe4786, 0x0fc19dc6, 0x240ca1cc,
   0x2de92c6f, 0x4a7484aa, 0x5cb0a9dc, 0x76f988da,
   0x983e5152, 0xa831c66d, 0xb00327c8, 0xbf597fc7,
   0xc6e00bf3, 0xd5a79147, 0x06ca6351, 0x14292967,
   0x27b70a85, 0x2e1b2138, 0x4d2c6dfc, 0x53380d13,
   0x650a7354, 0x766a0abb, 0x81c2c92e, 0x92722c85,
   0xa2bfe8a1, 0xa81a664b, 0xc24b8b70, 0xc76c51a3,
   0xd192e819, 0xd6990624, 0xf40e3585, 0x106aa070,
   0x19a4c116, 0x1e376c08, 0x2748774c, 0x34b0bcb5,
   0x391c0cb3, 0x4ed8aa4a, 0x5b9cca4f, 0x682e6ff3,
   0x748f82ee, 0x78a5636f, 0x84c87814, 0x8cc70208,
   0x90befffa, 0xa4506ceb, 0xbef9a3f7, 0xc67178f2]

/-- The next of the sixty-four words. -/
def nextWord (words : List UInt32) (index : Nat) : UInt32 :=
  let left := words.getD (index - 15) 0
  let right := words.getD (index - 2) 0
  let small0 := rotateRight left 7 ^^^ rotateRight left 18 ^^^ (left >>> 3)
  let small1 := rotateRight right 17 ^^^ rotateRight right 19 ^^^ (right >>> 10)
  words.getD (index - 16) 0 + small0 + words.getD (index - 7) 0 + small1

/-- `words`. -/
def messageWords (block : List UInt8) : List UInt32 :=
  (List.range' 16 48).foldl (fun words index => words ++ [nextWord words index])
    ((List.range 16).map fun index => loadWord block (index * 4))

/-- One pass of the last loop of `sha256_transform`. -/
def transformRound (words : List UInt32) (registers : Registers) (index : Nat) : Registers :=
  let ⟨a, b, c, d, e, f, g, h⟩ := registers
  let big1 := rotateRight e 6 ^^^ rotateRight e 11 ^^^ rotateRight e 25
  let choose := (e &&& f) ^^^ (~~~e &&& g)
  let temporary1 := h + big1 + choose + constants.getD index 0 + words.getD index 0
  let big0 := rotateRight a 2 ^^^ rotateRight a 13 ^^^ rotateRight a 22
  let majority := (a &&& b) ^^^ (a &&& c) ^^^ (b &&& c)
  let temporary2 := big0 + majority
  ⟨temporary1 + temporary2, a, b, c, d + temporary1, e, f, g⟩

/-- `sha256_transform`. -/
def sha256Transform (state : Registers) (block : List UInt8) : Registers :=
  let ⟨a, b, c, d, e, f, g, h⟩ :=
    (List.range 64).foldl (transformRound (messageWords block)) state
  ⟨state.a + a, state.b + b, state.c + c, state.d + d,
    state.e + e, state.f + f, state.g + g, state.h + h⟩

/-- `sha256_init`. -/
def sha256Init : Sha256 where
  state :=
    ⟨0x6a09e667, 0xbb67ae85, 0x3c6ef372, 0xa54ff53a,
      0x510e527f, 0x9b05688c, 0x1f83d9ab, 0x5be0cd19⟩
  bytes := 0
  block := List.replicate 64 0
  used := 0

/-- `memcpy` into a block. -/
def copyInto (block : List UInt8) (offset : Nat) (data : List UInt8) : List UInt8 :=
  block.take offset ++ data ++ block.drop (offset + data.length)

/-- One pass of the loop of `sha256_update`: what fits the block, and a full block's transform. -/
def fillBlock (hash : Sha256) (data : List UInt8) : Sha256 :=
  let block := copyInto hash.block hash.used data
  let used := hash.used + data.length
  if used = 64 then { hash with state := sha256Transform hash.state block, block, used := 0 }
  else { hash with block, used }

/-- The loop of `sha256_update`.  Every pass takes a byte, so the number of bytes bounds the
passes. -/
def updateLoop : Nat → Sha256 → List UInt8 → Sha256
  | 0, hash, _ => hash
  | passes + 1, hash, data =>
      if data.length = 0 then hash
      else
        let available := 64 - hash.used
        let take := if data.length < available then data.length else available
        updateLoop passes (fillBlock hash (data.take take)) (data.drop take)

/-- `sha256_update`. -/
def sha256Update (hash : Sha256) (data : List UInt8) : Sha256 :=
  updateLoop data.length { hash with bytes := hash.bytes + UInt64.ofNat data.length } data

/-- `sha256_text`: the bytes up to the terminating zero. -/
def sha256Text (hash : Sha256) (value : List UInt8) : Sha256 :=
  sha256Update hash (value.takeWhile (· ≠ 0))

/-- The zeros of `sha256_finish`: a block has sixty-four places. -/
def zeroLoop : Nat → Sha256 → Sha256
  | 0, hash => hash
  | passes + 1, hash =>
      if hash.used = 56 then hash else zeroLoop passes (sha256Update hash [0])

/-- `length` of `sha256_finish`. -/
def lengthBytes (bits : UInt64) : List UInt8 :=
  (List.range 8).map fun index => (bits >>> UInt64.ofNat ((7 - index) * 8)).toUInt8

/-- One word of the digest. -/
def storeWord (word : UInt32) : List UInt8 :=
  [(word >>> 24).toUInt8, (word >>> 16).toUInt8, (word >>> 8).toUInt8, word.toUInt8]

/-- `sha256_finish`. -/
def sha256Finish (hash : Sha256) : List UInt8 :=
  let bits := hash.bytes * 8
  let padded := zeroLoop 64 (sha256Update hash [0x80])
  (sha256Update padded (lengthBytes bits)).state.words.flatMap storeWord

/-! ## The transform is the standard's compression -/

theorem constants_eq : constants = Sha256.constants :=
  rfl

theorem sha256Init_state : sha256Init.state = initial :=
  rfl

theorem nextWord_eq (words : List UInt32) (index : Nat) :
    nextWord words index = words.getD (index - 16) 0 + small0 (words.getD (index - 15) 0) +
      words.getD (index - 7) 0 + small1 (words.getD (index - 2) 0) :=
  rfl

/-- A pass is a round of the standard with the constant and the word of its index. -/
theorem transformRound_eq (words : List UInt32) (registers : Registers) (index : Nat) :
    transformRound words registers index =
      Sha256.round (words.getD index 0) (Sha256.constants.getD index 0) registers := by
  rw [← constants_eq]
  rfl

theorem getD_drop_take {block : List UInt8} {offset : Nat} (inside : offset + 4 ≤ block.length) :
    (block.drop offset).take 4 =
      [block.getD offset 0, block.getD (offset + 1) 0, block.getD (offset + 2) 0,
        block.getD (offset + 3) 0] := by
  refine List.ext_getElem ?_ ?_
  · rw [List.length_take, List.length_drop]
    simp only [List.length_cons, List.length_nil]
    omega
  · intro index _ bound
    simp only [List.length_cons, List.length_nil] at bound
    rw [List.getElem_take, List.getElem_drop]
    interval_cases index <;> simp [List.getD_eq_getElem?_getD,
      show offset < block.length by omega, show offset + 1 < block.length by omega,
      show offset + 2 < block.length by omega, show offset + 3 < block.length by omega]

theorem toNat_shiftLeft_byte (byte : UInt8) {count : UInt32} (small : count.toNat ≤ 24) :
    (byte.toUInt32 <<< count).toNat = 2 ^ count.toNat * byte.toNat := by
  have bound : byte.toNat * 2 ^ count.toNat < 2 ^ 32 := by
    have place := Nat.pow_le_pow_right (show 0 < 2 by decide) small
    calc
      byte.toNat * 2 ^ count.toNat < 2 ^ 8 * 2 ^ 24 :=
        Nat.mul_lt_mul_of_lt_of_le byte.toNat_lt place (by decide)
      _ = 2 ^ 32 := rfl
  rw [UInt32.toNat_shiftLeft, UInt8.toNat_toUInt32, Nat.shiftLeft_eq,
    Nat.mod_eq_of_lt (show count.toNat < 32 by omega), Nat.mod_eq_of_lt bound, Nat.mul_comm]

/-- Bytes shifted to places of their own write a number. -/
theorem or_bytes (first second third fourth : UInt8) :
    (first.toUInt32 <<< 24 ||| second.toUInt32 <<< 16 ||| third.toUInt32 <<< 8 |||
      fourth.toUInt32) = UInt32.ofNat (number [first, second, third, fourth]) := by
  have bound1 := first.toNat_lt
  have bound2 := second.toNat_lt
  have bound3 := third.toNat_lt
  have bound4 := fourth.toNat_lt
  have total : number [first, second, third, fourth] =
      2 ^ 24 * first.toNat + (2 ^ 16 * second.toNat + (2 ^ 8 * third.toNat + fourth.toNat)) := by
    simp only [number, List.foldl_cons, List.foldl_nil]
    omega
  rw [← UInt32.toNat_inj, UInt32.toNat_or, UInt32.toNat_or, UInt32.toNat_or,
    toNat_shiftLeft_byte first (by decide), toNat_shiftLeft_byte second (by decide),
    toNat_shiftLeft_byte third (by decide), UInt8.toNat_toUInt32,
    UInt32.toNat_ofNat_of_lt' (by rw [total, UInt32.size]; omega), total,
    Nat.two_pow_add_eq_or_of_lt (by omega), Nat.two_pow_add_eq_or_of_lt (by omega),
    Nat.two_pow_add_eq_or_of_lt (by omega), ← Nat.or_assoc, ← Nat.or_assoc]
  rfl

theorem loadWord_eq {block : List UInt8} {index : Nat} (inside : index * 4 + 4 ≤ block.length) :
    loadWord block (index * 4) = UInt32.ofNat (number ((block.drop (4 * index)).take 4)) := by
  rw [Nat.mul_comm 4 index, getD_drop_take inside, ← or_bytes]
  rfl

/-- The words of a full block are its message schedule. -/
theorem messageWords_eq {block : List UInt8} (full : block.length = 64) :
    messageWords block = (List.range 64).map (messageWord block) := by
  have first : (List.range 16).map (fun index => loadWord block (index * 4)) =
      (List.range 16).map (messageWord block) := by
    refine List.map_congr_left ?_
    intro index mem
    have small := List.mem_range.mp mem
    rw [loadWord_eq (by omega), messageWord, if_pos small]
  have grown (count : Nat) : (List.range' 16 count).foldl
      (fun words index => words ++ [nextWord words index])
      ((List.range 16).map (messageWord block)) =
      (List.range (16 + count)).map (messageWord block) := by
    induction count with
    | zero => rfl
    | succ count inductionHypothesis =>
        -- Every word that the recurrence reads stands in the list already.
        have read (back : Nat) (near : back ≤ 16) (later : 0 < back) :
            ((List.range (16 + count)).map (messageWord block)).getD (16 + count - back) 0 =
              messageWord block (16 + count - back) := by
          rw [List.getD_eq_getElem?_getD, List.getElem?_map,
            List.getElem?_range (by omega), Option.map_some, Option.getD_some]
        rw [List.range'_concat, List.foldl_append, inductionHypothesis, List.foldl_cons,
          List.foldl_nil, one_mul, ← Nat.add_assoc, List.range_succ, List.map_append,
          List.map_singleton]
        congr 2
        rw [nextWord_eq, read 16 (by omega) (by omega), read 15 (by omega) (by omega),
          read 7 (by omega) (by omega), read 2 (by omega) (by omega),
          messageWord.eq_1 block (16 + count), if_neg (by omega)]
        ac_rfl
  rw [messageWords, first, grown]

theorem sha256Transform_eq (state : Registers) {block : List UInt8} (full : block.length = 64) :
    sha256Transform state block = compress state block := by
  have same : (List.range 64).foldl (transformRound (messageWords block)) state =
      rounds (messageWord block) state := by
    rw [messageWords_eq full]
    refine List.foldl_ext _ _ _ ?_
    intro current index mem
    have read : ((List.range 64).map (messageWord block)).getD index 0 =
        messageWord block index := by
      rw [List.getD_eq_getElem?_getD, List.getElem?_map,
        List.getElem?_range (List.mem_range.mp mem), Option.map_some, Option.getD_some]
    rw [transformRound_eq, read]
  rw [sha256Transform, same, compress]
  rfl

/-! ## Feeding a message -/

/-- The block and the chaining value after a message. -/
structure Filled (hash : Sha256) (message : List UInt8) : Prop where
  state : hash.state = absorb 64 compress initial message
  block : hash.block.length = 64
  used : hash.used = message.length % 64
  waiting : hash.block.take hash.used = remainder 64 message

/-- The whole state after a message. -/
structure Absorbed (hash : Sha256) (message : List UInt8) : Prop extends Filled hash message where
  bytes : hash.bytes = UInt64.ofNat message.length

theorem init_absorbed : Absorbed sha256Init [] where
  state := sha256Init_state.trans (absorb_nil 64 compress initial).symm
  block := rfl
  used := rfl
  waiting := rfl
  bytes := rfl

section Filling

variable {hash : Sha256} {message : List UInt8}

theorem copyInto_take (block data : List UInt8) {offset : Nat} (inside : offset ≤ block.length) :
    (copyInto block offset data).take (offset + data.length) = block.take offset ++ data := by
  have covered : (block.take offset ++ data).length = offset + data.length := by
    rw [List.length_append, List.length_take, min_eq_left inside]
  rw [copyInto, ← covered, List.take_left]

theorem copyInto_length (block data : List UInt8) {offset : Nat}
    (inside : offset + data.length ≤ block.length) :
    (copyInto block offset data).length = block.length := by
  rw [copyInto, List.length_append, List.length_append, List.length_take, List.length_drop]
  omega

theorem Filled.fillBlock (filled : Filled hash message) (data : List UInt8)
    (fits : hash.used + data.length ≤ 64) :
    Filled (fillBlock hash data) (message ++ data) := by
  have copied := copyInto_take hash.block data (show hash.used ≤ hash.block.length by
    rw [filled.block]
    omega)
  have length := copyInto_length hash.block data (by rwa [filled.block])
  rw [filled.waiting] at copied
  rw [filled.block] at length
  unfold StreamingHash.fillBlock
  have used := filled.used
  by_cases full : hash.used + data.length = 64
  · rw [if_pos full]
    rw [full, List.take_of_length_le length.le] at copied
    have whole : message.length % 64 + data.length = 64 := by omega
    constructor
    case state =>
      change sha256Transform hash.state _ = _
      rw [sha256Transform_eq _ length, copied, filled.state,
        absorb_append_whole 64 compress initial (by decide) whole]
    case block => exact length
    case used =>
      change 0 = _
      rw [List.length_append]
      omega
    case waiting => exact (remainder_append_whole 64 whole).symm
  · rw [if_neg full]
    have short : message.length % 64 + data.length < 64 := by omega
    constructor
    case state =>
      change hash.state = _
      rw [filled.state, absorb_append_short 64 compress initial short]
    case block => exact length
    case used =>
      change hash.used + data.length = _
      rw [List.length_append]
      omega
    case waiting => exact copied.trans (remainder_append_short 64 short).symm

theorem fillBlock_bytes (hash : Sha256) (data : List UInt8) :
    (fillBlock hash data).bytes = hash.bytes := by
  simp only [fillBlock]
  split <;> rfl

/-- The passes of an update consume its bytes, whatever they are. -/
theorem Filled.updateLoop {passes : Nat} (filled : Filled hash message) (data : List UInt8)
    (enough : data.length ≤ passes) :
    Filled (updateLoop passes hash data) (message ++ data) ∧
      (updateLoop passes hash data).bytes = hash.bytes := by
  induction passes generalizing hash message data with
  | zero =>
      rw [List.eq_nil_of_length_eq_zero (Nat.le_zero.mp enough), List.append_nil]
      exact ⟨filled, rfl⟩
  | succ passes inductionHypothesis =>
      unfold StreamingHash.updateLoop
      by_cases empty : data.length = 0
      · rw [if_pos empty, List.eq_nil_of_length_eq_zero empty, List.append_nil]
        exact ⟨filled, rfl⟩
      · rw [if_neg empty]
        have used := filled.used
        have room := Nat.mod_lt message.length (show 0 < 64 by decide)
        set take := if data.length < 64 - hash.used then data.length else 64 - hash.used
          with taken
        have some_byte : 0 < take ∧ take ≤ data.length ∧ hash.used + take ≤ 64 := by
          split at taken <;> omega
        have step := filled.fillBlock (data.take take) (by
          rw [List.length_take]
          omega)
        obtain ⟨rest, bytes⟩ := inductionHypothesis step (data.drop take) (by
          rw [List.length_drop]
          omega)
        rw [List.append_assoc, List.take_append_drop] at rest
        exact ⟨rest, bytes.trans (fillBlock_bytes hash _)⟩

theorem Absorbed.sha256Update (absorbed : Absorbed hash message) (data : List UInt8) :
    Absorbed (sha256Update hash data) (message ++ data) := by
  have counted : Filled { hash with bytes := hash.bytes + UInt64.ofNat data.length } message :=
    ⟨absorbed.state, absorbed.block, absorbed.used, absorbed.waiting⟩
  obtain ⟨filled, bytes⟩ := counted.updateLoop data le_rfl
  refine ⟨filled, ?_⟩
  rw [StreamingHash.sha256Update, bytes, absorbed.bytes, List.length_append, UInt64.ofNat_add]

/-- Any way of cutting a message into chunks leaves the state of the whole message. -/
theorem Absorbed.chunks (absorbed : Absorbed hash message) (chunks : List (List UInt8)) :
    Absorbed (chunks.foldl StreamingHash.sha256Update hash) (message ++ chunks.flatten) := by
  induction chunks generalizing hash message with
  | nil => simpa using absorbed
  | cons chunk rest inductionHypothesis =>
      rw [List.foldl_cons, List.flatten_cons, ← List.append_assoc]
      exact inductionHypothesis (absorbed.sha256Update chunk)

theorem Absorbed.sha256Text (absorbed : Absorbed hash message) {value : List UInt8}
    (terminated : 0 ∉ value) : Absorbed (sha256Text hash value) (message ++ value) := by
  have whole : value.takeWhile (· ≠ 0) = value := by
    refine List.takeWhile_eq_self_iff.mpr ?_
    intro byte mem
    exact decide_eq_true (ne_of_mem_of_not_mem mem terminated)
  rw [StreamingHash.sha256Text, whole]
  exact absorbed.sha256Update value

/-! ## Finishing -/

theorem Absorbed.zeroLoop (passes : Nat) (absorbed : Absorbed hash message)
    (enough : (120 - message.length % 64) % 64 ≤ passes) :
    Absorbed (zeroLoop passes hash)
      (message ++ List.replicate ((120 - message.length % 64) % 64) 0) := by
  have used := absorbed.used
  induction passes generalizing hash message with
  | zero =>
      rw [Nat.le_zero.mp enough, List.replicate_zero, List.append_nil]
      exact absorbed
  | succ passes inductionHypothesis =>
      unfold StreamingHash.zeroLoop
      by_cases there : hash.used = 56
      · rw [if_pos there, show (120 - message.length % 64) % 64 = 0 by omega,
          List.replicate_zero, List.append_nil]
        exact absorbed
      · rw [if_neg there]
        have step := absorbed.sha256Update [0]
        have length : (message ++ [0]).length = message.length + 1 := by simp
        have count : (120 - message.length % 64) % 64 =
            (120 - (message ++ [0]).length % 64) % 64 + 1 := by
          rw [length]
          omega
        have rest := inductionHypothesis step (by omega) step.used
        rw [count, List.replicate_succ, List.append_cons]
        exact rest

theorem storeWord_eq (word : UInt32) : storeWord word = bytesOf 4 word.toNat := by
  have byte (count : UInt32) (small : count.toNat < 32) :
      (word >>> count).toUInt8 = UInt8.ofNat (word.toNat / 2 ^ count.toNat) := by
    rw [← UInt8.toNat_inj, UInt32.toNat_toUInt8, UInt32.toNat_shiftRight,
      Nat.mod_eq_of_lt small, Nat.shiftRight_eq_div_pow, UInt8.toNat_ofNat']
  have last : word.toUInt8 = UInt8.ofNat (word.toNat / 1) := by
    rw [← UInt8.toNat_inj, UInt32.toNat_toUInt8, Nat.div_one, UInt8.toNat_ofNat']
  rw [storeWord, byte 24 (by decide), byte 16 (by decide), byte 8 (by decide), last]
  rfl

/-- The counter holds eight times the length modulo its width, and the length bytes with it. -/
theorem lengthBytes_eq (length : Nat) :
    lengthBytes (UInt64.ofNat length * 8) = bytesOf 8 (8 * length) := by
  unfold lengthBytes bytesOf
  refine List.map_congr_left ?_
  intro index mem
  have small := List.mem_range.mp mem
  have shift : (UInt64.ofNat ((7 - index) * 8)).toNat = 8 * (7 - index) := by
    rw [UInt64.toNat_ofNat_of_lt' (by rw [UInt64.size]; omega), Nat.mul_comm]
  have power : (256 : Nat) ^ (8 - 1 - index) = 2 ^ (8 * (7 - index)) := by
    rw [Nat.pow_mul]
  have total : (UInt64.ofNat length * 8).toNat = 8 * length % 2 ^ 64 := by
    rw [UInt64.toNat_mul, UInt64.toNat_ofNat', Nat.mod_mul_mod, Nat.mul_comm]
    rfl
  have width : (2 : Nat) ^ 64 = 2 ^ (8 * (7 - index)) * 2 ^ (8 * (index + 1)) := by
    rw [← Nat.pow_add]
    congr 1
    omega
  have low : 2 ^ 8 ∣ 2 ^ (8 * (index + 1)) := Nat.pow_dvd_pow 2 (by omega)
  rw [← UInt8.toNat_inj, UInt64.toNat_toUInt8, UInt64.toNat_shiftRight, shift, power,
    Nat.mod_eq_of_lt (show 8 * (7 - index) < 64 by omega), Nat.shiftRight_eq_div_pow, total,
    UInt8.toNat_ofNat', width, Nat.mod_mul_right_div_self, Nat.mod_mod_of_dvd _ low]

/-- Finishing gives the digest of the message that was fed. -/
theorem Absorbed.sha256Finish (absorbed : Absorbed hash message) :
    sha256Finish hash = sha256 message := by
  have marked := absorbed.sha256Update [0x80]
  have length : (message ++ [0x80]).length = message.length + 1 := by simp
  have zeroed := marked.zeroLoop 64 (by omega)
  have count : (120 - (message ++ [0x80]).length % 64) % 64 = zeros message.length := by
    rw [length, zeros]
    omega
  have whole := zeroed.sha256Update (lengthBytes (hash.bytes * 8))
  rw [count, absorbed.bytes, lengthBytes_eq, List.append_assoc, List.append_assoc,
    List.singleton_append, ← padding] at whole
  rw [StreamingHash.sha256Finish, absorbed.bytes, lengthBytes_eq, whole.state, sha256,
    funext storeWord_eq]

end Filling

/-- Whatever chunks a message is fed in, the digest is the message's. -/
theorem digest_chunks (chunks : List (List UInt8)) :
    sha256Finish (chunks.foldl sha256Update sha256Init) = sha256 chunks.flatten :=
  (init_absorbed.chunks chunks).sha256Finish

example : (sha256Finish (sha256Text sha256Init [97, 98, 99])).take 4 =
    [0xba, 0x78, 0x16, 0xbf] := by
  decide +kernel

end ShadowSpill.Planner.Search.StreamingHash
