import Mathlib

/-!
# A chaining value over the blocks of a message

An iterated hash cuts its message into blocks of one size and folds a compression over them;
the bytes after the last whole block wait for more.  Bytes that arrive later either stay
behind the last whole block or complete the next one, and these two rules determine every way
of feeding the message in pieces.
-/

namespace ShadowSpill.Library.BlockStream

variable {State Byte : Type} (size : Nat) (compress : State → List Byte → State)

/-- The whole blocks of a message. -/
def blocks (message : List Byte) : List (List Byte) :=
  (List.range (message.length / size)).map fun index => (message.drop (size * index)).take size

/-- The bytes after the last whole block. -/
def remainder (message : List Byte) : List Byte :=
  message.drop (size * (message.length / size))

/-- The chaining value after the whole blocks of a message. -/
def absorb (start : State) (message : List Byte) : State :=
  (blocks size message).foldl compress start

theorem remainder_length (message : List Byte) :
    (remainder size message).length = message.length % size := by
  rw [remainder, List.length_drop]
  have whole := Nat.div_add_mod message.length size
  omega

@[simp]
theorem absorb_nil (start : State) : absorb size compress start [] = start := by
  simp [absorb, blocks]

/-- A block that was whole stays as it was. -/
theorem block_append {message : List Byte} (more : List Byte) {index : Nat}
    (inside : index < message.length / size) :
    ((message ++ more).drop (size * index)).take size =
      (message.drop (size * index)).take size := by
  have fits : size * index + size ≤ message.length := by
    have scaled := Nat.mul_le_mul_left size (Nat.succ_le_of_lt inside)
    rw [Nat.mul_succ] at scaled
    exact scaled.trans (Nat.mul_div_le message.length size)
  rw [List.drop_append_of_le_length (by omega), List.take_append_of_le_length]
  rw [List.length_drop]
  omega

section Arriving

variable {message more : List Byte}

theorem quotient_append (positive : 0 < size) (message more : List Byte) :
    (message ++ more).length / size =
      message.length / size + (message.length % size + more.length) / size := by
  rw [List.length_append, ← Nat.mul_add_div positive, ← Nat.add_assoc, Nat.div_add_mod]

theorem quotient_append_short (short : message.length % size + more.length < size) :
    (message ++ more).length / size = message.length / size := by
  rw [quotient_append size (by omega), Nat.div_eq_of_lt short, Nat.add_zero]

/-- Bytes that do not complete a block wait behind those that wait already. -/
theorem remainder_append_short (short : message.length % size + more.length < size) :
    remainder size (message ++ more) = remainder size message ++ more := by
  rw [remainder, quotient_append_short size short, remainder,
    List.drop_append_of_le_length (Nat.mul_div_le _ _)]

theorem absorb_append_short (start : State)
    (short : message.length % size + more.length < size) :
    absorb size compress start (message ++ more) = absorb size compress start message := by
  have unchanged : blocks size (message ++ more) = blocks size message := by
    rw [blocks, quotient_append_short size short, blocks]
    refine List.map_congr_left ?_
    intro index mem
    exact block_append size more (List.mem_range.mp mem)
  rw [absorb, unchanged, absorb]

/-- Bytes that complete a block leave nothing waiting. -/
theorem remainder_append_whole
    (whole : message.length % size + more.length = size) :
    remainder size (message ++ more) = [] := by
  refine List.eq_nil_of_length_eq_zero ?_
  rw [remainder_length, List.length_append, ← Nat.mod_add_mod, whole, Nat.mod_self]

/-- Bytes that complete a block are compressed behind those that waited. -/
theorem absorb_append_whole (start : State) (positive : 0 < size)
    (whole : message.length % size + more.length = size) :
    absorb size compress start (message ++ more) =
      compress (absorb size compress start message) (remainder size message ++ more) := by
  have last : ((message ++ more).drop (size * (message.length / size))).take size =
      remainder size message ++ more := by
    rw [List.drop_append_of_le_length (Nat.mul_div_le _ _), ← remainder]
    refine List.take_of_length_le ?_
    rw [List.length_append, remainder_length, whole]
  have grown : blocks size (message ++ more) =
      blocks size message ++ [remainder size message ++ more] := by
    have one_more : (message ++ more).length / size = message.length / size + 1 := by
      rw [quotient_append size positive, whole, Nat.div_self positive]
    rw [blocks, one_more, List.range_succ, List.map_append,
      List.map_singleton, last, blocks]
    congr 1
    refine List.map_congr_left ?_
    intro index mem
    exact block_append size more (List.mem_range.mp mem)
  rw [absorb, grown, List.foldl_append, List.foldl_cons, List.foldl_nil, absorb]

end Arriving

end ShadowSpill.Library.BlockStream
