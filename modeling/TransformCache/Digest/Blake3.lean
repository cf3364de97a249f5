/-
The BLAKE3 digest.

A text is cut into chunks of 1024 bytes, a chunk into blocks of 64. `compress` mixes a block into
a chaining value of eight words. A chunk mixes its blocks in turn, and the chunks are joined in
pairs, level by level, an odd one at the end moving up unpaired: so every left subtree is the
largest full one. A `Node` is a last block not mixed in yet, because the top one is mixed with a
mark of its own.

Blocks are padded with zero bytes; words are read from and written to bytes lowest byte first.
-/
import TransformCache.Text.Utf8

namespace TransformCache.Blake3

-- ====================================================== mixing

/-- Eight words that stand for all that was mixed in so far. -/
abbrev Chain := Vector UInt32 8

/-- The words of a block. -/
abbrev Block := Vector UInt32 16

/-- The chaining value before anything was mixed in. -/
def start : Chain :=
  #v[0x6A09E667, 0xBB67AE85, 0x3C6EF372, 0xA54FF53A,
     0x510E527F, 0x9B05688C, 0x1F83D9AB, 0x5BE0CD19]

/-- Marks of a block: where it stands in its chunk and in the tree. -/
structure Marks where
  chunkStart : Bool := false
  chunkEnd : Bool := false
  parent : Bool := false
  root : Bool := false
  deriving DecidableEq, Repr

/-- The marks as the word that is mixed in. -/
def Marks.word (m : Marks) : UInt32 :=
  (if m.chunkStart then 1 else 0) ||| (if m.chunkEnd then 2 else 0) |||
  (if m.parent then 4 else 0) ||| (if m.root then 8 else 0)

/-- A word turned right by `n` bits. -/
def rotate (x n : UInt32) : UInt32 := (x >>> n) ||| (x <<< (32 - n))

/-- Mixes two words of a block into four words of the state. -/
def quarter (v : Block) (a b c d : Fin 16) (x y : UInt32) : Block :=
  let va := v[a] + v[b] + x
  let vd := rotate (v[d] ^^^ va) 16
  let vc := v[c] + vd
  let vb := rotate (v[b] ^^^ vc) 12
  let va := va + vb + y
  let vd := rotate (vd ^^^ va) 8
  let vc := vc + vd
  let vb := rotate (vb ^^^ vc) 7
  (((v.set a va).set b vb).set c vc).set d vd

/-- One round: the columns of the state, then its diagonals. -/
def round (v m : Block) : Block :=
  let v := quarter v 0 4 8 12 m[0] m[1]
  let v := quarter v 1 5 9 13 m[2] m[3]
  let v := quarter v 2 6 10 14 m[4] m[5]
  let v := quarter v 3 7 11 15 m[6] m[7]
  let v := quarter v 0 5 10 15 m[8] m[9]
  let v := quarter v 1 6 11 12 m[10] m[11]
  let v := quarter v 2 7 8 13 m[12] m[13]
  quarter v 3 4 9 14 m[14] m[15]

/-- The order of a block's words in the next round. -/
def permute (m : Block) : Block :=
  #v[m[2], m[6], m[3], m[10], m[7], m[0], m[4], m[13],
     m[1], m[11], m[12], m[5], m[9], m[14], m[15], m[8]]

/-- The given number of rounds, the block's words permuted between them. -/
def rounds : Nat → Block → Block → Block
  | 0, v, _ => v
  | n + 1, v, m => rounds n (round v m) (permute m)

/-- Mixes a block of `length` bytes, the `counter`-th chunk's, into a chaining value. -/
def compress (chain : Chain) (block : Block) (counter : UInt64) (length : UInt32)
    (marks : Marks) : Chain :=
  let v : Block :=
    #v[chain[0], chain[1], chain[2], chain[3], chain[4], chain[5], chain[6], chain[7],
       start[0], start[1], start[2], start[3],
       counter.toUInt32, (counter >>> 32).toUInt32, length, marks.word]
  let v := rounds 7 v block
  Vector.ofFn fun i : Fin 8 => v[i.val] ^^^ v[i.val + 8]

-- ====================================================== bytes and words

/-- A word from the first four bytes. -/
def wordOf (bytes : Bytes) : UInt32 :=
  (bytes.take 4).foldr (fun b word => word <<< 8 ||| b.toUInt32) 0

def wordBytes (word : UInt32) : Bytes :=
  [word.toUInt8, (word >>> 8).toUInt8, (word >>> 16).toUInt8, (word >>> 24).toUInt8]

def blockOf (bytes : Bytes) : Block :=
  Vector.ofFn fun i : Fin 16 => wordOf (bytes.drop (4 * i.val))

/-- Cuts a list into pieces of `size`, the last one shorter. Nothing gives no piece. -/
def pieces (size : Nat) : Nat → Bytes → List Bytes
  | 0, _ => []
  | limit + 1, bytes =>
    if bytes.isEmpty then [] else bytes.take size :: pieces size limit (bytes.drop size)

-- ====================================================== the tree

/-- What is left to mix: a last block on top of a chaining value. -/
structure Node where
  chain : Chain
  block : Block
  counter : UInt64
  length : UInt32
  marks : Marks

/-- A node's chaining value inside the tree. -/
def Node.chainValue (n : Node) : Chain := compress n.chain n.block n.counter n.length n.marks

/-- A node's chaining value at the top of the tree. -/
def Node.rootValue (n : Node) : Chain :=
  compress n.chain n.block n.counter n.length { n.marks with root := true }

/-- A chunk, given as its blocks: all but the last are mixed in. -/
def chunkNode (counter : UInt64) (chain : Chain) (first : Bool) : List Bytes → Node
  | [] => ⟨chain, blockOf [], counter, 0, { chunkStart := first, chunkEnd := true }⟩
  | [b] =>
    ⟨chain, blockOf b, counter, b.length.toUInt32, { chunkStart := first, chunkEnd := true }⟩
  | b :: rest =>
    let mixed := compress chain (blockOf b) counter b.length.toUInt32 { chunkStart := first }
    chunkNode counter mixed false rest

/-- Two subtrees under one node. -/
def join (left right : Node) : Node :=
  let l := left.chainValue
  let r := right.chainValue
  let block : Block :=
    #v[l[0], l[1], l[2], l[3], l[4], l[5], l[6], l[7],
       r[0], r[1], r[2], r[3], r[4], r[5], r[6], r[7]]
  ⟨start, block, 0, 64, { parent := true }⟩

/-- One level: neighbours are joined, an odd last one moves up. -/
def joinPairs : List Node → List Node
  | left :: right :: rest => join left right :: joinPairs rest
  | rest => rest

/-- The chaining value at the top, over at most `levels` levels. -/
def rootValue : Nat → List Node → Chain
  | _, [] => start
  | _, [n] => n.rootValue
  | 0, n :: _ => n.rootValue
  | levels + 1, nodes => rootValue levels (joinPairs nodes)

/-- The chunks of a text, each as a node. No text is one empty chunk. -/
def chunkNodes (bytes : Bytes) : List Node :=
  let chunks := if bytes.isEmpty then [[]] else pieces 1024 bytes.length bytes
  chunks.mapIdx fun i chunk => chunkNode i.toUInt64 start true (pieces 64 chunk.length chunk)

def digest (bytes : Bytes) : Bytes :=
  let nodes := chunkNodes bytes
  (rootValue nodes.length nodes).toList.flatMap wordBytes

def hex (bytes : Bytes) : String :=
  String.ofList (bytes.flatMap fun b =>
    [Nat.digitChar (b.toNat / 16), Nat.digitChar (b.toNat % 16)])

end TransformCache.Blake3
