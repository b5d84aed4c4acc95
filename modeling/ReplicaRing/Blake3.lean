import ReplicaRing.Bytes

/-! The BLAKE3 hash with its default key and length of 32 bytes.  The input is cut into chunks of 1024
bytes, which are the leaves of a binary tree; every left subtree is full and as large as it can be. -/

namespace ReplicaRing.Blake3

abbrev Chain := Vector UInt32 8
abbrev Block := Vector UInt32 16

def initial : Chain :=
  #v[0x6A09E667, 0xBB67AE85, 0x3C6EF372, 0xA54FF53A, 0x510E527F, 0x9B05688C, 0x1F83D9AB, 0x5BE0CD19]

def schedule : Vector (Fin 16) 16 := #v[2, 6, 3, 10, 7, 0, 4, 13, 1, 11, 12, 5, 9, 14, 15, 8]

def chunkStart : UInt32 := 1
def chunkEnd : UInt32 := 2
def parent : UInt32 := 4
def root : UInt32 := 8

@[inline] def rotateRight (word count : UInt32) : UInt32 :=
  (word >>> count) ||| (word <<< (32 - count))

@[inline] def mix (state : Block) (a b c d : Fin 16) (x y : UInt32) : Block :=
  let va := state[a] + state[b] + x
  let vd := rotateRight (state[d] ^^^ va) 16
  let vc := state[c] + vd
  let vb := rotateRight (state[b] ^^^ vc) 12
  let va := va + vb + y
  let vd := rotateRight (vd ^^^ va) 8
  let vc := vc + vd
  let vb := rotateRight (vb ^^^ vc) 7
  (((state.set a va).set b vb).set c vc).set d vd

def round (state message : Block) : Block :=
  let state := mix state 0 4 8 12 message[0] message[1]
  let state := mix state 1 5 9 13 message[2] message[3]
  let state := mix state 2 6 10 14 message[4] message[5]
  let state := mix state 3 7 11 15 message[6] message[7]
  let state := mix state 0 5 10 15 message[8] message[9]
  let state := mix state 1 6 11 12 message[10] message[11]
  let state := mix state 2 7 8 13 message[12] message[13]
  mix state 3 4 9 14 message[14] message[15]

def rounds : (count : Nat) → (state message : Block) → Block
  | 0, state, _ => state
  | count + 1, state, message =>
      rounds count (round state message) (schedule.map fun index => message[index])

/-- What is compressed last at a place of the tree: kept open, because the root is marked as such. -/
structure Node where
  chain : Chain
  block : Block
  counter : UInt64
  length : UInt32
  flags : UInt32

def Node.compress (node : Node) (flags : UInt32) : Chain :=
  let chain := node.chain
  let state := rounds 7
    #v[chain[0], chain[1], chain[2], chain[3], chain[4], chain[5], chain[6], chain[7],
      initial[0], initial[1], initial[2], initial[3],
      node.counter.toUInt32, (node.counter >>> 32).toUInt32, node.length, node.flags ||| flags]
    node.block
  #v[state[0] ^^^ state[8], state[1] ^^^ state[9], state[2] ^^^ state[10], state[3] ^^^ state[11],
    state[4] ^^^ state[12], state[5] ^^^ state[13], state[6] ^^^ state[14], state[7] ^^^ state[15]]

def words (bytes : Bytes) : Block :=
  let bytes := bytes.toArray
  Vector.ofFn fun i =>
    let byte (offset : Nat) := (bytes.getD (4 * i.val + offset) 0).toUInt32
    byte 0 ||| (byte 1 <<< 8) ||| (byte 2 <<< 16) ||| (byte 3 <<< 24)

def chunkBlocks (counter : UInt64) : (chain : Chain) → (flags : UInt32) → List Bytes → Node
  | chain, flags, [] => ⟨chain, words [], counter, 0, flags ||| chunkEnd⟩
  | chain, flags, [block] =>
      ⟨chain, words block, counter, block.length.toUInt32, flags ||| chunkEnd⟩
  | chain, flags, block :: rest =>
      let node : Node := ⟨chain, words block, counter, block.length.toUInt32, flags⟩
      chunkBlocks counter (node.compress 0) 0 rest

def chunk (counter : UInt64) (bytes : Bytes) : Node :=
  chunkBlocks counter initial chunkStart (bytes.runs 64 (by decide))

def join (left right : Chain) : Node :=
  ⟨initial, left ++ right, 0, 64, parent⟩

/-- The top of the tree over some chunks, the first of which has the given number. -/
def tree (counter : UInt64) (chunks : List Bytes) : Node :=
  match chunks with
  | [] => chunk counter []
  | [bytes] => chunk counter bytes
  | first :: second :: rest =>
      let all := first :: second :: rest
      let left := 1 <<< (all.length - 1).log2
      join ((tree counter (all.take left)).compress 0)
        ((tree (counter + left.toUInt64) (all.drop left)).compress 0)
termination_by chunks.length
decreasing_by
  · have : 1 <<< (rest.length + 1).log2 ≤ rest.length + 1 := by
      rw [Nat.one_shiftLeft]
      exact Nat.log2_self_le (by omega)
    simp
    omega
  · have : 0 < 1 <<< (rest.length + 1).log2 := by
      rw [Nat.one_shiftLeft]
      exact Nat.two_pow_pos _
    simp
    omega

def wordBytes (word : UInt32) : Bytes :=
  [word.toUInt8, (word >>> 8).toUInt8, (word >>> 16).toUInt8, (word >>> 24).toUInt8]

def digest (bytes : Bytes) : Bytes :=
  ((tree 0 (bytes.runs 1024 (by decide))).compress root).toList.flatMap wordBytes

end ReplicaRing.Blake3
