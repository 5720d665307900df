/-! # Digests

The BLAKE3 hash with its default output of 32 bytes, written as lower-case
hexadecimal.  A message is cut into chunks of 1024 bytes, each chunk into blocks
of 64; the blocks of a chunk are chained by a compression function on sixteen
words, and the chunks are joined by a binary tree whose left part is always a
full one (`Digest.leftSize`).
-/
namespace StyleEngine

namespace Digest

/-- The eight initial words. -/
def initialWords : Array UInt32 :=
  #[0x6A09E667, 0xBB67AE85, 0x3C6EF372, 0xA54FF53A, 0x510E527F, 0x9B05688C, 0x1F83D9AB, 0x5BE0CD19]

/-- How the message words are permuted between rounds. -/
def schedule : List Nat := [2, 6, 3, 10, 7, 0, 4, 13, 1, 11, 12, 5, 9, 14, 15, 8]

def word (ws : Array UInt32) (i : Nat) : UInt32 := ws.getD i 0

def rotateRight (x : UInt32) (n : UInt32) : UInt32 := (x >>> n) ||| (x <<< (32 - n))

/-- Mixes two message words into four words of the state. -/
def mix (v : Array UInt32) (a b c d : Nat) (x y : UInt32) : Array UInt32 :=
  let va := word v a + word v b + x
  let vd := rotateRight (word v d ^^^ va) 16
  let vc := word v c + vd
  let vb := rotateRight (word v b ^^^ vc) 12
  let va := va + vb + y
  let vd := rotateRight (vd ^^^ va) 8
  let vc := vc + vd
  let vb := rotateRight (vb ^^^ vc) 7
  (((v.setIfInBounds a va).setIfInBounds b vb).setIfInBounds c vc).setIfInBounds d vd

/-- Mixes the columns of the state, then its diagonals. -/
def round (v m : Array UInt32) : Array UInt32 :=
  let v := mix v 0 4 8 12 (word m 0) (word m 1)
  let v := mix v 1 5 9 13 (word m 2) (word m 3)
  let v := mix v 2 6 10 14 (word m 4) (word m 5)
  let v := mix v 3 7 11 15 (word m 6) (word m 7)
  let v := mix v 0 5 10 15 (word m 8) (word m 9)
  let v := mix v 1 6 11 12 (word m 10) (word m 11)
  let v := mix v 2 7 8 13 (word m 12) (word m 13)
  mix v 3 4 9 14 (word m 14) (word m 15)

/-- A number of rounds, with the message words permuted after each. -/
def rounds : Nat → Array UInt32 → Array UInt32 → Array UInt32
  | 0, v, _ => v
  | n + 1, v, m => rounds n (round v m) (schedule.map (word m)).toArray

/-- The input of one compression. -/
structure Block where
  chaining : Array UInt32
  words : Array UInt32
  counter : Nat
  length : Nat
  flags : UInt32

def chunkStart : UInt32 := 1
def chunkEnd : UInt32 := 2
def parentFlag : UInt32 := 4
def rootFlag : UInt32 := 8

/-- The first half of the compressed state, which is all that chaining and the digest use. -/
def Block.compress (b : Block) (extra : UInt32) : Array UInt32 :=
  let v := b.chaining ++ initialWords.extract 0 4 ++
    #[UInt32.ofNat b.counter, UInt32.ofNat (b.counter / UInt32.size), UInt32.ofNat b.length,
      b.flags ||| extra]
  let v := rounds 7 v b.words
  ((List.range 8).map fun i => word v i ^^^ word v (i + 8)).toArray

/-- The byte at a place, or zero past the end. -/
def byteAt (bytes : ByteArray) (i : Nat) : UInt32 :=
  if h : i < bytes.size then bytes[i].toUInt32 else 0

/-- Sixteen little-endian words from a place on, filled up with zeros from `stop` on. -/
def loadWords (bytes : ByteArray) (start stop : Nat) : Array UInt32 :=
  ((List.range 16).map fun i =>
    let byte := fun k => if start + 4 * i + k < stop then byteAt bytes (start + 4 * i + k) else 0
    byte 0 ||| (byte 1 <<< 8) ||| (byte 2 <<< 16) ||| (byte 3 <<< 24)).toArray

/-- The last block of a chunk, after chaining the `blocks` before it. -/
def chunkFrom (bytes : ByteArray) (counter stop : Nat) :
    Nat → Nat → Array UInt32 → UInt32 → Block
  | 0, start, chaining, flags =>
    { chaining, words := loadWords bytes start stop, counter, length := stop - start,
      flags := flags ||| chunkEnd }
  | blocks + 1, start, chaining, flags =>
    let block : Block :=
      { chaining, words := loadWords bytes start stop, counter, length := 64, flags }
    chunkFrom bytes counter stop blocks (start + 64) (block.compress 0) 0

/-- The last block of the chunk with a given number. -/
def chunk (bytes : ByteArray) (counter : Nat) : Block :=
  let start := counter * 1024
  let stop := min bytes.size (start + 1024)
  chunkFrom bytes counter stop ((stop - start - 1) / 64) start initialWords chunkStart

/-- The block that joins two chaining values. -/
def parent (left right : Array UInt32) : Block :=
  { chaining := initialWords, words := left ++ right, counter := 0, length := 64,
    flags := parentFlag }

/-- The greatest power of two below `n`, found by doubling `k` at most `steps` times. -/
def doubleUpTo (n : Nat) : Nat → Nat → Nat
  | 0, k => k
  | steps + 1, k => if 2 * k < n then doubleUpTo n steps (2 * k) else k

/-- How many of `n` chunks go to the left of the root. -/
def leftSize (n : Nat) : Nat := doubleUpTo n n 1

/-- The block at the top of the tree over `count` chunks from `first` on; `depth` bounds the
height of the tree. -/
def tree (bytes : ByteArray) : Nat → Nat → Nat → Block
  | 0, first, _ => chunk bytes first
  | depth + 1, first, count =>
    if count ≤ 1 then chunk bytes first
    else
      let left := leftSize count
      parent ((tree bytes depth first left).compress 0)
        ((tree bytes depth (first + left) (count - left)).compress 0)

/-- The digest of some bytes as eight words. -/
def ofBytes (bytes : ByteArray) : Array UInt32 :=
  let chunks := max 1 ((bytes.size + 1023) / 1024)
  (tree bytes chunks 0 chunks).compress rootFlag

def hexDigit (n : Nat) : Char := Char.ofNat (if n < 10 then 48 + n else 87 + n)

/-- A word as the hexadecimal digits of its bytes, the lowest byte first. -/
def hexWord (w : UInt32) : List Char :=
  (List.range 4).flatMap fun i =>
    let b := (w.toNat >>> (8 * i)) % 256
    [hexDigit (b / 16), hexDigit (b % 16)]

/-- The digest of a text, as hexadecimal digits. -/
def ofText (s : String) : String :=
  String.ofList ((ofBytes s.toUTF8).toList.flatMap hexWord)

end Digest

end StyleEngine
