import LineBasic.Number.Binary64

/-!
The random numbers of a run: the Mersenne Twister with 624 words of 32 bits,
seeded by the words of a natural number. Each number uses two outputs, 27 and
26 bits of them, and lies between zero and one.
-/

namespace LineBasic

structure Generator where
  words : Array UInt32
  -- of the next output
  place : Nat
deriving DecidableEq

namespace Generator

def size : Nat := 624

def wordAt (ws : Array UInt32) (i : Nat) : UInt32 := ws[i]?.getD 0

def fold (w : UInt32) : UInt32 := w ^^^ (w >>> 30)

def spread (seed : UInt32) : Array UInt32 :=
  (List.range (size - 1)).foldl
    (fun ws k => ws.push (1812433253 * fold (wordAt ws k) + UInt32.ofNat (k + 1))) #[seed]

/-- The words of a natural number, least significant first; zero has one. -/
def keyWords (n : Nat) : List UInt32 :=
  UInt32.ofNat n :: (if n < 0x100000000 then [] else keyWords (n / 0x100000000))
termination_by n

/-- One pass over the words, each computed from the word before it. After the
last word the pass goes on at the second, the last word being copied to the
front. -/
def pass (mix : UInt32 → UInt32 → Nat → UInt32) (steps : List Nat)
    (start : Array UInt32 × Nat) : Array UInt32 × Nat :=
  steps.foldl
    (fun (ws, i) k =>
      let ws := ws.setIfInBounds i (mix (wordAt ws i) (fold (wordAt ws (i - 1))) k)
      if size ≤ i + 1 then (ws.setIfInBounds 0 (wordAt ws (size - 1)), 1) else (ws, i + 1))
    start

def ofSeed (seed : Nat) : Generator :=
  let key := (keyWords seed).toArray
  let first := pass
    (fun w before k =>
      (w ^^^ (before * 1664525)) + wordAt key (k % key.size) + UInt32.ofNat (k % key.size))
    (List.range (max size key.size)) (spread 19650218, 1)
  let second := (List.range (size - 1)).foldl
    (fun (state : Array UInt32 × Nat) _ =>
      let i := state.2
      pass (fun w before _ => (w ^^^ (before * 1566083941)) - UInt32.ofNat i) [0] state)
    first
  { words := second.1.setIfInBounds 0 0x80000000, place := size }

def twist (ws : Array UInt32) : Array UInt32 :=
  (List.range size).foldl
    (fun ws i =>
      let joined := (wordAt ws i &&& 0x80000000) ||| (wordAt ws ((i + 1) % size) &&& 0x7fffffff)
      let odd : UInt32 := if joined &&& 1 = 1 then 0x9908b0df else 0
      ws.setIfInBounds i (wordAt ws ((i + 397) % size) ^^^ (joined >>> 1) ^^^ odd))
    ws

def temper (w : UInt32) : UInt32 :=
  let w := w ^^^ (w >>> 11)
  let w := w ^^^ ((w <<< 7) &&& 0x9d2c5680)
  let w := w ^^^ ((w <<< 15) &&& 0xefc60000)
  w ^^^ (w >>> 18)

def next (g : Generator) : UInt32 × Generator :=
  if size ≤ g.place then
    let ws := twist g.words
    (temper (wordAt ws 0), ⟨ws, 1⟩)
  else
    (temper (wordAt g.words g.place), { g with place := g.place + 1 })

def draw (g : Generator) : Float × Generator :=
  let (a, g) := g.next
  let (b, g) := g.next
  (Binary64.ofRatio false ((a >>> 5).toNat * 0x4000000 + (b >>> 6).toNat) 0x20000000000000, g)

end Generator

end LineBasic
