/-!
Random words: sources that yield one word of 32 bits after another.
-/

namespace SyntheticRows

/-- A source of random words: each state yields a word and the state after it. -/
class WordSource (σ : Type) where
  next : σ → UInt32 × σ

/-- An infinite sequence of words, given beforehand. -/
structure WordSequence where
  word : Nat → UInt32

namespace WordSequence

def tail (s : WordSequence) : WordSequence :=
  ⟨fun i => s.word (i + 1)⟩

instance : WordSource WordSequence where
  next s := (s.word 0, s.tail)

end WordSequence

end SyntheticRows
