/-!
The BLAKE3 hash of a byte string, and bytes written as pairs of lower-case hexadecimal digits. The input
of the hash is cut into chunks of 1024 bytes and a chunk into blocks of 64.
-/

namespace DesignMetrics.Digest

def hexDigit (n : Nat) : Char := Nat.digitChar n

def hex (bytes : List UInt8) : String :=
  String.ofList (bytes.flatMap fun b => [hexDigit (b.toNat / 16), hexDigit (b.toNat % 16)])

def hexValue? (c : Char) : Option Nat :=
  if '0' ≤ c ∧ c ≤ '9' then some (c.toNat - '0'.toNat)
  else if 'a' ≤ c ∧ c ≤ 'f' then some (c.toNat - 'a'.toNat + 10)
  else if 'A' ≤ c ∧ c ≤ 'F' then some (c.toNat - 'A'.toNat + 10)
  else none

namespace Blake3

abbrev Chain := Vector UInt32 8

abbrev Words := Vector UInt32 16

def initial : Chain :=
  #v[0x6A09E667, 0xBB67AE85, 0x3C6EF372, 0xA54FF53A, 0x510E527F, 0x9B05688C, 0x1F83D9AB, 0x5BE0CD19]

def chunkStart : UInt32 := 1
def chunkEnd : UInt32 := 2
def parent : UInt32 := 4
def root : UInt32 := 8

def rotateRight (w : UInt32) (n : UInt32) : UInt32 := (w >>> n) ||| (w <<< (32 - n))

def quarter (s : Words) (a b c d : Fin 16) (x y : UInt32) : Words :=
  let va := s[a] + s[b] + x
  let vd := rotateRight (s[d] ^^^ va) 16
  let vc := s[c] + vd
  let vb := rotateRight (s[b] ^^^ vc) 12
  let va := va + vb + y
  let vd := rotateRight (vd ^^^ va) 8
  let vc := vc + vd
  let vb := rotateRight (vb ^^^ vc) 7
  (((s.set a va).set b vb).set c vc).set d vd

def round (s m : Words) : Words :=
  let s := quarter s 0 4 8 12 m[0] m[1]
  let s := quarter s 1 5 9 13 m[2] m[3]
  let s := quarter s 2 6 10 14 m[4] m[5]
  let s := quarter s 3 7 11 15 m[6] m[7]
  let s := quarter s 0 5 10 15 m[8] m[9]
  let s := quarter s 1 6 11 12 m[10] m[11]
  let s := quarter s 2 7 8 13 m[12] m[13]
  quarter s 3 4 9 14 m[14] m[15]

def permute (m : Words) : Words :=
  #v[m[2], m[6], m[3], m[10], m[7], m[0], m[4], m[13], m[1], m[11], m[12], m[5], m[9], m[14], m[15], m[8]]

def rounds : Nat → Words → Words → Words
  | 0, s, _ => s
  | n + 1, s, m => rounds n (round s m) (permute m)

/-- A compression still to be done: everything but the flag that marks the root. -/
structure Output where
  chain : Chain
  block : Words
  counter : Nat
  length : UInt32
  flags : UInt32

namespace Output

def compress (o : Output) (extra : UInt32) : Chain :=
  let h := o.chain
  let start : Words :=
    #v[h[0], h[1], h[2], h[3], h[4], h[5], h[6], h[7],
      initial[0], initial[1], initial[2], initial[3],
      o.counter.toUInt32, (o.counter / 0x100000000).toUInt32, o.length, o.flags ||| extra]
  let s := rounds 7 start o.block
  #v[s[0] ^^^ s[8], s[1] ^^^ s[9], s[2] ^^^ s[10], s[3] ^^^ s[11],
    s[4] ^^^ s[12], s[5] ^^^ s[13], s[6] ^^^ s[14], s[7] ^^^ s[15]]

def chaining (o : Output) : Chain := o.compress 0

/-- The digest is read from the compression at the root. -/
def digest (o : Output) : List UInt8 :=
  (o.compress root).toList.flatMap fun (w : UInt32) =>
    [w.toUInt8, (w >>> 8).toUInt8, (w >>> 16).toUInt8, (w >>> 24).toUInt8]

end Output

def word (block : List UInt8) (i : Nat) : UInt32 :=
  ((block.drop (4 * i)).take 4).foldr (fun b w => (w <<< 8) ||| b.toUInt32) 0

def words (block : List UInt8) : Words := Vector.ofFn fun i => word block i

def chunkFrom (counter : Nat) (chain : Chain) (flags : UInt32) (bytes : List UInt8) : Output :=
  let block := bytes.take 64
  let here : Output := ⟨chain, words block, counter, block.length.toUInt32, flags⟩
  if 64 < bytes.length then chunkFrom counter here.chaining 0 (bytes.drop 64)
  else { here with flags := flags ||| chunkEnd }
termination_by bytes.length
decreasing_by simp; omega

/-- Compressing a chunk's blocks one after the other gives its output. -/
def chunk (counter : Nat) (bytes : List UInt8) : Output :=
  chunkFrom counter initial chunkStart bytes

def join (left right : Output) : Output :=
  let l := left.chaining
  let r := right.chaining
  ⟨initial,
    #v[l[0], l[1], l[2], l[3], l[4], l[5], l[6], l[7], r[0], r[1], r[2], r[3], r[4], r[5], r[6], r[7]],
    0, 64, parent⟩

def leftLength (n : Nat) : Nat := 1024 * Nat.pow 2 ((n - 1) / 1024).log2

theorem leftLength_pos (n : Nat) : 0 < leftLength n := by
  have := Nat.two_pow_pos ((n - 1) / 1024).log2
  simp only [leftLength, Nat.pow_eq]
  omega

theorem leftLength_lt {n : Nat} (h : 1024 < n) : leftLength n < n := by
  have := Nat.log2_self_le (n := (n - 1) / 1024) (by omega)
  simp only [leftLength, Nat.pow_eq]
  omega

/-- The outputs of chunks are joined pairwise in a binary tree whose left side always holds the
largest power of two of chunks that leaves some for the right. -/
def tree (counter : Nat) (bytes : List UInt8) : Output :=
  if h : 1024 < bytes.length then
    let left := leftLength bytes.length
    join (tree counter (bytes.take left)) (tree (counter + left / 1024) (bytes.drop left))
  else chunk counter bytes
termination_by bytes.length
decreasing_by
  · have := leftLength_lt h
    simp only [List.length_take]
    omega
  · have := leftLength_pos bytes.length
    simp only [List.length_drop]
    omega

def hash (bytes : List UInt8) : List UInt8 := (tree 0 bytes).digest

def hexHash (bytes : ByteArray) : String := hex (hash bytes.data.toList)

end Blake3

end DesignMetrics.Digest
