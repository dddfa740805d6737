/-! # A seeded source of random draws

The Mersenne twister with a state of 624 words. A seed of any size is cut into 32-bit words, least
significant first, and stirred into the state; the sign of the seed does not count. Each draw takes
two words of the output and makes of their upper bits a multiple of `2 ^ -53` in the unit
interval. -/

namespace FiniteAutomata.Random

/-- The number of words of a state. -/
def stateSize : Nat := 624

/-- A state of the generator. -/
abbrev State := Array UInt32

/-- The word at an index, counted around. -/
def wordAt (mt : State) (i : Nat) : UInt32 := mt.getD (i % stateSize) 0

/-! ### Seeding -/

/-- A word mixed with its own upper bits. -/
def fold30 (w : UInt32) : UInt32 := w ^^^ (w >>> 30)

/-- The state grown from one word. -/
def growState (seed : UInt32) : State :=
  (List.range (stateSize - 1)).foldl
    (fun mt i => mt.push (1812433253 * fold30 (wordAt mt i) + UInt32.ofNat (i + 1))) #[seed]

/-- Writes the word at an index from 1 to 623; the last one is written at 0 as well. -/
def putWord (mt : State) (i : Nat) (w : UInt32) : State :=
  let mt := mt.setIfInBounds i w
  if i + 1 = stateSize then mt.setIfInBounds 0 w else mt

/-- The index that is stirred at a turn: 1 to 623, over and over. -/
def stirred (turn : Nat) : Nat := turn % (stateSize - 1) + 1

/-- Stirs the words of a key into a state, at the given turn. -/
def stirKey (key : Array UInt32) (mt : State) (turn : Nat) : State :=
  let i := stirred turn
  let j := turn % key.size
  putWord mt i
    ((wordAt mt i ^^^ (fold30 (wordAt mt (i - 1)) * 1664525)) + key.getD j 0 + UInt32.ofNat j)

/-- Stirs a state once more, at the given turn. -/
def stirIndex (mt : State) (turn : Nat) : State :=
  let i := stirred turn
  putWord mt i ((wordAt mt i ^^^ (fold30 (wordAt mt (i - 1)) * 1566083941)) - UInt32.ofNat i)

/-- The state that a key stands for. -/
def stateOfKey (key : Array UInt32) : State :=
  let turns := max stateSize key.size
  let mt := (List.range turns).foldl (stirKey key) (growState 19650218)
  let mt := (List.range (stateSize - 1)).foldl (fun mt turn => stirIndex mt (turns + turn)) mt
  mt.setIfInBounds 0 0x80000000

/-- The 32-bit words of a number, least significant first; `fuel` bounds how many there are. -/
def wordsOf : (fuel : Nat) → Nat → List UInt32
  | 0, _ => []
  | fuel + 1, n =>
    if n < 2 ^ 32 then [UInt32.ofNat n] else UInt32.ofNat (n % 2 ^ 32) :: wordsOf fuel (n / 2 ^ 32)

/-- The state that a seed stands for. -/
def stateOfSeed (seed : Int) : State :=
  let n := seed.natAbs
  stateOfKey (wordsOf (n.log2 / 32 + 1) n).toArray

/-! ### Output -/

/-- Replaces the word at an index by one of the next state; words before it are replaced already. -/
def twistAt (mt : State) (i : Nat) : State :=
  let y := (wordAt mt i &&& 0x80000000) ||| (wordAt mt (i + 1) &&& 0x7fffffff)
  let odd : UInt32 := if y &&& 1 = 1 then 0x9908b0df else 0
  mt.setIfInBounds i (wordAt mt (i + 397) ^^^ (y >>> 1) ^^^ odd)

/-- The next state. -/
def twist (mt : State) : State := (List.range stateSize).foldl twistAt mt

/-- The output word that a word of the state gives. -/
def temper (w : UInt32) : UInt32 :=
  let w := w ^^^ (w >>> 11)
  let w := w ^^^ ((w <<< 7) &&& 0x9d2c5680)
  let w := w ^^^ ((w <<< 15) &&& 0xefc60000)
  w ^^^ (w >>> 18)

/-- The draw that two output words give. -/
def unitOf (a b : UInt32) : Float :=
  Float.scaleB (Float.ofNat ((a >>> 5).toNat * Nat.pow 2 26 + (b >>> 6).toNat)) (-53)

/-- The draw at a place of the output of a state. -/
def drawIn (mt : State) (i : Nat) : Float :=
  unitOf (temper (wordAt mt (2 * i))) (temper (wordAt mt (2 * i + 1)))

/-- States that follow each other, computed when they are needed. -/
inductive States where
  | stop
  | from (state : State) (later : Thunk States)

/-- The states that follow one, `fuel` of them. -/
def States.after (state : State) : (fuel : Nat) → States
  | 0 => .stop
  | fuel + 1 =>
    let next := twist state
    .from next (Thunk.mk fun _ => States.after next fuel)

/-- The draw with a given number. -/
def States.draw : States → Nat → Float
  | .stop, _ => 0
  | .from state later, n =>
    if n < stateSize / 2 then drawIn state n else later.get.draw (n - stateSize / 2)

/-- The states of a seed, for `count` draws at least. -/
def statesOf (seed : Int) (count : Nat) : States :=
  States.after (stateOfSeed seed) (count / (stateSize / 2) + 1)

end FiniteAutomata.Random
