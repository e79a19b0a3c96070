import LedgerLoad.Arithmetic

/-! # The stream of ChaCha with eight rounds

From a key of eight words comes a stream of words, sixteen from each value of a counter. A seed of
one word is spread over the key by a permuted congruential generator. Main statements: `below_lt`, a
number drawn below a bound is below it, and `draw_of_counts`, the limit on draws makes no difference
once a draw counts. -/

namespace LedgerLoad.Random

/-! ### Blocks -/

def rotateLeft (x : UInt32) (n : UInt32) : UInt32 := (x <<< n) ||| (x >>> (32 - n))

def rotateRight (x : UInt32) (n : UInt32) : UInt32 := (x >>> n) ||| (x <<< ((32 - n) % 32))

/-- Mixes four of the sixteen words of a block. -/
def quarterRound (w : Array UInt32) (a b c d : Nat) : Array UInt32 :=
  let xa := w.getD a 0
  let xb := w.getD b 0
  let xc := w.getD c 0
  let xd := w.getD d 0
  let xa := xa + xb
  let xd := rotateLeft (xd ^^^ xa) 16
  let xc := xc + xd
  let xb := rotateLeft (xb ^^^ xc) 12
  let xa := xa + xb
  let xd := rotateLeft (xd ^^^ xa) 8
  let xc := xc + xd
  let xb := rotateLeft (xb ^^^ xc) 7
  (((w.setIfInBounds a xa).setIfInBounds b xb).setIfInBounds c xc).setIfInBounds d xd

/-- A round over the columns and a round over the diagonals. -/
def doubleRound (w : Array UInt32) : Array UInt32 :=
  let w := quarterRound w 0 4 8 12
  let w := quarterRound w 1 5 9 13
  let w := quarterRound w 2 6 10 14
  let w := quarterRound w 3 7 11 15
  let w := quarterRound w 0 5 10 15
  let w := quarterRound w 1 6 11 12
  let w := quarterRound w 2 7 8 13
  quarterRound w 3 4 9 14

/-- The sixteen words of one value of the counter. -/
def block (key : Array UInt32) (counter : UInt64) : Array UInt32 :=
  let constants : Array UInt32 := #[0x61707865, 0x3320646e, 0x79622d32, 0x6b206574]
  let start := constants ++ key ++ #[counter.toUInt32, (counter >>> 32).toUInt32, 0, 0]
  let mixed := doubleRound (doubleRound (doubleRound (doubleRound start)))
  Array.zipWith (· + ·) start mixed

/-! ### Sources -/

/-- A stream of words that has been read up to a place. -/
structure Source where
  key : Array UInt32
  /-- The counter of the block after this one. -/
  counter : UInt64
  /-- The block that is being read. -/
  words : Array UInt32
  /-- How many words of it were read. -/
  used : Nat

/-- The next state of the generator that spreads a seed, and the word it puts out. -/
def spread (state : UInt64) : UInt64 × UInt32 :=
  let s := state * 6364136223846793005 + 11634580027462260723
  let mixed := (((s >>> 18) ^^^ s) >>> 27).toUInt32
  (s, rotateRight mixed (s >>> 59).toUInt32)

/-- So many words from a seed. -/
def spreadWords : (n : Nat) → UInt64 → List UInt32
  | 0, _ => []
  | n + 1, state =>
    let (state, word) := spread state
    word :: spreadWords n state

namespace Source

/-- The stream of a seed. -/
def ofSeed (seed : Nat) : Source :=
  let key := (spreadWords 8 (UInt64.ofNat seed)).toArray
  { key, counter := 1, words := block key 0, used := 0 }

/-- The next word. -/
def next (s : Source) : UInt32 × Source :=
  if s.used < 16 then (s.words.getD s.used 0, { s with used := s.used + 1 })
  else
    let words := block s.key s.counter
    (words.getD 0 0, { s with counter := s.counter + 1, words, used := 1 })

/-- The next two words as one number, the low one first. -/
def nextLong (s : Source) : Nat × Source :=
  let (low, s) := s.next
  let (high, s) := s.next
  (low.toNat + 2 ^ 32 * high.toNat, s)

/-- The high half of a draw times the bound, and whether the draw counts: the low half must not be
in the uneven rest at the top. -/
def scaled (bound draw : Nat) : Nat × Bool :=
  let product := draw * bound
  let shift := 63 - Nat.log2 bound
  let zone := bound * 2 ^ shift - 1
  (product / 2 ^ 64, product % 2 ^ 64 ≤ zone)

/-- Draws until a draw counts. After `tries` draws that do not, the next one is taken as it is, where
the loop of the generator would draw on. -/
def draw (bound : Nat) : (tries : Nat) → (s : Source) → Nat × Source
  | 0, s =>
    let (v, s) := s.nextLong
    ((scaled bound v).1, s)
  | tries + 1, s =>
    let (v, s) := s.nextLong
    if (scaled bound v).2 then ((scaled bound v).1, s) else draw bound tries s

/-- Draws a number below a bound. At least half of all draws count, so the limit is met once in
`2 ^ 4096` times at most, and short of it no number below the bound is preferred (`draw_of_counts`). -/
def below (bound : Nat) (s : Source) : Nat × Source := draw bound 4096 s

/-- Whether one of the next `tries` draws counts. -/
def Counts (bound : Nat) : (tries : Nat) → (s : Source) → Prop
  | 0, _ => False
  | tries + 1, s => (scaled bound s.nextLong.1).2 ∨ Counts bound tries s.nextLong.2

/-- **The limit makes no difference** where a draw counts before it is met: with any more tries the
same draw is taken. -/
theorem draw_of_counts {bound tries : Nat} {s : Source} (h : s.Counts bound tries) (more : Nat) :
    s.draw bound (tries + more) = s.draw bound tries := by
  induction tries generalizing s with
  | zero => exact h.elim
  | succ tries ih =>
    rw [Nat.add_right_comm, draw, draw]
    dsimp only
    split
    · rfl
    · rename_i hnot
      exact ih (h.resolve_left hnot)

theorem nextLong_lt (s : Source) : s.nextLong.1 < 2 ^ 64 := by
  unfold nextLong
  have h₁ := s.next.1.toNat_lt
  have h₂ := s.next.2.next.1.toNat_lt
  show s.next.1.toNat + 2 ^ 32 * s.next.2.next.1.toNat < 2 ^ 64
  omega

theorem scaled_lt {bound v : Nat} (hb : 0 < bound) (hv : v < 2 ^ 64) :
    (scaled bound v).1 < bound :=
  Nat.div_lt_of_lt_mul (Nat.mul_lt_mul_of_pos_right hv hb)

/-- A number drawn below a bound is below it. -/
theorem below_lt {bound : Nat} (hb : 0 < bound) (s : Source) : (s.below bound).1 < bound := by
  unfold below
  generalize 4096 = tries
  induction tries generalizing s with
  | zero => exact scaled_lt hb s.nextLong_lt
  | succ tries ih =>
    unfold draw
    split
    split
    · rename_i v s' h _
      exact scaled_lt hb (by have := s.nextLong_lt; rw [h] at this; exact this)
    · exact ih _

end Source

end LedgerLoad.Random
