import SampleSort.Random.Source

set_option relaxedAutoImplicit false
set_option autoImplicit false

/-!
# The ChaCha stream with twelve rounds

A ChaCha block is a square of sixteen words: a row of constants, two rows of key, and a row with
the 64-bit number of the block and a zero nonce. Six double rounds stir the square, the square
before them is added, and the sixteen words are handed out row by row.

## Main definitions

* `SampleSort.ChaCha.Row`, `SampleSort.ChaCha.Square` — four words, and four rows.
* `SampleSort.ChaCha.Square.doubleRound` — a round on the columns and one on the diagonals.
* `SampleSort.ChaCha` — a stream: its key, the next block's number, and words not yet taken.
* `SampleSort.ChaCha.ofSeed` — the stream of a 64-bit seed.
-/

namespace SampleSort

namespace ChaCha

/-- Four words, one for each column of a square. -/
structure Row where
  a : UInt32
  b : UInt32
  c : UInt32
  d : UInt32
  deriving DecidableEq, Repr

/-- The word with its bits moved `n` places up, those that leave coming back below; `n` lies between
`1` and `31`. -/
def rotateUp (n x : UInt32) : UInt32 :=
  (x <<< n) ||| (x >>> (32 - n))

namespace Row

/-- Column by column. -/
def zipWith (f : UInt32 → UInt32 → UInt32) (x y : Row) : Row :=
  ⟨f x.a y.a, f x.b y.b, f x.c y.c, f x.d y.d⟩

/-- The sums, modulo `2 ^ 32`. -/
def add (x y : Row) : Row :=
  zipWith (· + ·) x y

/-- The exclusive disjunctions with every word then rotated by `n` bits. -/
def xorRotate (n : UInt32) (x y : Row) : Row :=
  zipWith (fun u v => rotateUp n (u ^^^ v)) x y

/-- The row moved one column to the left, its first word becoming the last. -/
def turn (x : Row) : Row :=
  ⟨x.b, x.c, x.d, x.a⟩

/-- The words of a row. -/
def toList (x : Row) : List UInt32 :=
  [x.a, x.b, x.c, x.d]

end Row

/-- Four rows of four words. -/
structure Square where
  a : Row
  b : Row
  c : Row
  d : Row
  deriving DecidableEq, Repr

namespace Square

/-- The quarter round, in all four columns at once. -/
def columnRound (s : Square) : Square :=
  let a := s.a.add s.b
  let d := s.d.xorRotate 16 a
  let c := s.c.add d
  let b := s.b.xorRotate 12 c
  let a := a.add b
  let d := d.xorRotate 8 a
  let c := c.add d
  let b := b.xorRotate 7 c
  ⟨a, b, c, d⟩

/-- The square with its diagonals moved into the columns. -/
def skew (s : Square) : Square :=
  ⟨s.a, s.b.turn, s.c.turn.turn, s.d.turn.turn.turn⟩

/-- The square with its columns moved back into the diagonals. -/
def unskew (s : Square) : Square :=
  ⟨s.a, s.b.turn.turn.turn, s.c.turn.turn, s.d.turn⟩

/-- The columns go back to where the diagonals were. -/
theorem unskew_skew (s : Square) : s.skew.unskew = s := rfl

/-- A round on the columns, then one on the diagonals. -/
def doubleRound (s : Square) : Square :=
  s.columnRound.skew.columnRound.unskew

/-- Row by row, the sums modulo `2 ^ 32`. -/
def add (s t : Square) : Square :=
  ⟨s.a.add t.a, s.b.add t.b, s.c.add t.c, s.d.add t.d⟩

/-- The square after six double rounds, added to what it was. -/
def stir (s : Square) : Square :=
  s.doubleRound.doubleRound.doubleRound.doubleRound.doubleRound.doubleRound.add s

/-- The words of a square, row by row. -/
def toList (s : Square) : List UInt32 :=
  s.a.toList ++ s.b.toList ++ s.c.toList ++ s.d.toList

end Square

/-- The first row of every block. -/
def constants : Row :=
  ⟨0x61707865, 0x3320646e, 0x79622d32, 0x6b206574⟩

/-- The eight words of a key. -/
structure Key where
  low : Row
  high : Row
  deriving DecidableEq, Repr

/-- The block with a given number in the stream of a key. -/
def block (key : Key) (number : UInt64) : Square :=
  Square.stir ⟨constants, key.low, key.high, ⟨number.toUInt32, (number >>> 32).toUInt32, 0, 0⟩⟩

/-- The next state of the seed expander, a linear congruential generator. -/
def advanceSeed (seed : UInt64) : UInt64 :=
  seed * 6364136223846793005 + 11634580027462260723

/-- The key word of an expander state: its folded upper bits, rotated down by the number that its
top five bits are. -/
def seedWord (seed : UInt64) : UInt32 :=
  let folded := (((seed >>> 18) ^^^ seed) >>> 27).toUInt32
  let turn := (seed >>> 59).toUInt32
  (folded >>> turn) ||| (folded <<< (32 - turn))

/-- The key of a seed: the words of the eight expander states after it. -/
def keyOfSeed (seed : UInt64) : Key :=
  let s₁ := advanceSeed seed
  let s₂ := advanceSeed s₁
  let s₃ := advanceSeed s₂
  let s₄ := advanceSeed s₃
  let s₅ := advanceSeed s₄
  let s₆ := advanceSeed s₅
  let s₇ := advanceSeed s₆
  let s₈ := advanceSeed s₇
  ⟨⟨seedWord s₁, seedWord s₂, seedWord s₃, seedWord s₄⟩,
    ⟨seedWord s₅, seedWord s₆, seedWord s₇, seedWord s₈⟩⟩

end ChaCha

/-- A ChaCha stream from some point on. -/
structure ChaCha where
  /-- The key of the stream. -/
  key : ChaCha.Key
  /-- The number of the first block that has not been computed yet. -/
  nextBlock : UInt64
  /-- The words of computed blocks that have not been handed out yet. -/
  pending : List UInt32
  deriving DecidableEq, Repr

namespace ChaCha

/-- The stream of a seed, from its beginning. -/
def ofSeed (seed : UInt64) : ChaCha :=
  ⟨keyOfSeed seed, 0, []⟩

/-- The next word, for which a new block is computed when none is pending. -/
def next (s : ChaCha) : UInt32 × ChaCha :=
  match s.pending with
  | word :: rest => (word, { s with pending := rest })
  | [] =>
    let square := block s.key s.nextBlock
    (square.a.a, ⟨s.key, s.nextBlock + 1, square.toList.tail⟩)

/-- A stream is a supply of words. -/
instance : WordSource ChaCha :=
  ⟨next⟩

end ChaCha

end SampleSort
