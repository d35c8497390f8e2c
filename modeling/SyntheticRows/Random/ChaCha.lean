import SyntheticRows.Random.Words

/-!
The ChaCha stream generator with eight rounds, and its seeding by one word of 64 bits. The keystream is
a fixed sequence of words for each key; a generator stands at a place in it.
-/

namespace SyntheticRows

namespace ChaCha

/-- The sixteen words on which the rounds work. -/
abbrev Block := Vector UInt32 16

/-- The eight secret words. -/
abbrev Key := Vector UInt32 8

def rotateLeft (x amount : UInt32) : UInt32 :=
  x <<< amount ||| x >>> (32 - amount)

/-! ### Blocks -/

def quarterRound (s : Block) (a b c d : Fin 16) : Block :=
  let wa := s[a] + s[b]
  let wd := rotateLeft (s[d] ^^^ wa) 16
  let wc := s[c] + wd
  let wb := rotateLeft (s[b] ^^^ wc) 12
  let wa := wa + wb
  let wd := rotateLeft (wd ^^^ wa) 8
  let wc := wc + wd
  let wb := rotateLeft (wb ^^^ wc) 7
  (((s.set a.1 wa a.2).set b.1 wb b.2).set c.1 wc c.2).set d.1 wd d.2

/-- A round down the columns and one along the diagonals. -/
def doubleRound (s : Block) : Block :=
  let s := quarterRound s 0 4 8 12
  let s := quarterRound s 1 5 9 13
  let s := quarterRound s 2 6 10 14
  let s := quarterRound s 3 7 11 15
  let s := quarterRound s 0 5 10 15
  let s := quarterRound s 1 6 11 12
  let s := quarterRound s 2 7 8 13
  quarterRound s 3 4 9 14

/-- The words before the rounds: four constants, the key, the block's number in two words, and zeros. -/
def initial (key : Key) (number : UInt64) : Block :=
  let constants : Vector UInt32 4 := #v[0x61707865, 0x3320646e, 0x79622d32, 0x6b206574]
  let counter : Vector UInt32 4 := #v[number.toUInt32, (number >>> 32).toUInt32, 0, 0]
  constants ++ key ++ counter

/-- A block of the keystream: four double rounds, added to the words they began with. -/
def block (key : Key) (number : UInt64) : Block :=
  let start := initial key number
  Vector.zipWith (· + ·) (doubleRound (doubleRound (doubleRound (doubleRound start)))) start

/-- A word of the keystream. -/
def word (key : Key) (place : Nat) : UInt32 :=
  (block key (UInt64.ofNat (place / 16))).get ⟨place % 16, Nat.mod_lt _ (by decide)⟩

/-! ### Seeding -/

/-- One step of the counter that spreads a seed over the key, and the word that it gives. -/
def expand (state : UInt64) : UInt64 × UInt32 :=
  let state := state * 6364136223846793005 + 11634580027462260723
  let mixed := (((state >>> 18) ^^^ state) >>> 27).toUInt32
  let turn := (state >>> 59).toUInt32
  (state, mixed >>> turn ||| mixed <<< ((32 - turn) % 32))

/-- The key of a seed: eight words in turn. -/
def keyOfSeed (seed : UInt64) : Key :=
  let s0 := expand seed
  let s1 := expand s0.1
  let s2 := expand s1.1
  let s3 := expand s2.1
  let s4 := expand s3.1
  let s5 := expand s4.1
  let s6 := expand s5.1
  let s7 := expand s6.1
  #v[s0.2, s1.2, s2.2, s3.2, s4.2, s5.2, s6.2, s7.2]

end ChaCha

/-! ### Generators -/

/-- A place in the keystream of a key, with the block that holds the next word. -/
structure Keystream where
  key : ChaCha.Key
  place : Nat
  current : ChaCha.Block
  current_eq : current = ChaCha.block key (UInt64.ofNat (place / 16))

namespace Keystream

def ofKey (key : ChaCha.Key) : Keystream :=
  ⟨key, 0, ChaCha.block key 0, rfl⟩

def ofSeed (seed : UInt64) : Keystream :=
  ofKey (ChaCha.keyOfSeed seed)

/-- The next word. A new block is made when the old one is used up. -/
def next (s : Keystream) : UInt32 × Keystream :=
  let word := s.current.get ⟨s.place % 16, Nat.mod_lt _ (by decide)⟩
  if h : (s.place + 1) / 16 = s.place / 16 then
    (word, ⟨s.key, s.place + 1, s.current, by rw [h]; exact s.current_eq⟩)
  else
    (word, ⟨s.key, s.place + 1, ChaCha.block s.key (UInt64.ofNat ((s.place + 1) / 16)), rfl⟩)

instance : WordSource Keystream := ⟨next⟩

end Keystream

end SyntheticRows
