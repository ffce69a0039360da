/-!
# The 64-bit xxHash of a byte sequence

Four accumulators absorb stripes of 32 bytes. The tail is absorbed in words of eight bytes, then at
most one word of four, then single bytes, and a final avalanche mixes the accumulator. Words are
read little-endian and all arithmetic is modulo `2 ^ 64`.
-/

namespace TemplateCheck.Xxh64

def prime1 : UInt64 := 0x9E3779B185EBCA87
def prime2 : UInt64 := 0xC2B2AE3D27D4EB4F
def prime3 : UInt64 := 0x165667B19E3779F9
def prime4 : UInt64 := 0x85EBCA77C2B2AE63
def prime5 : UInt64 := 0x27D4EB2F165667C5

def rotate (x amount : UInt64) : UInt64 :=
  (x <<< amount) ||| (x >>> (64 - amount))

def word (bytes : List UInt8) : UInt64 :=
  bytes.foldr (fun b acc => (acc <<< 8) ||| b.toUInt64) 0

def round (acc lane : UInt64) : UInt64 :=
  rotate (acc + lane * prime2) 31 * prime1

def mergeRound (acc lane : UInt64) : UInt64 :=
  (acc ^^^ round 0 lane) * prime1 + prime4

structure Lanes where
  a : UInt64
  b : UInt64
  c : UInt64
  d : UInt64
deriving DecidableEq, Repr

def Lanes.start (seed : UInt64) : Lanes :=
  ⟨seed + prime1 + prime2, seed + prime2, seed, seed - prime1⟩

def Lanes.absorb (lanes : Lanes) (stripe : List UInt8) : Lanes where
  a := round lanes.a (word (stripe.take 8))
  b := round lanes.b (word ((stripe.drop 8).take 8))
  c := round lanes.c (word ((stripe.drop 16).take 8))
  d := round lanes.d (word ((stripe.drop 24).take 8))

def Lanes.merge (lanes : Lanes) : UInt64 :=
  let joined := rotate lanes.a 1 + rotate lanes.b 7 + rotate lanes.c 12 + rotate lanes.d 18
  mergeRound (mergeRound (mergeRound (mergeRound joined lanes.a) lanes.b) lanes.c) lanes.d

def stripes (lanes : Lanes) (bytes : List UInt8) : Lanes × List UInt8 :=
  if _h : 32 ≤ bytes.length then stripes (lanes.absorb bytes) (bytes.drop 32) else (lanes, bytes)
termination_by bytes.length
decreasing_by simp only [List.length_drop]; omega

def absorbByte (acc : UInt64) (byte : UInt8) : UInt64 :=
  rotate (acc ^^^ (byte.toUInt64 * prime5)) 11 * prime1

def absorbTail (acc : UInt64) (bytes : List UInt8) : UInt64 :=
  if _h : 8 ≤ bytes.length then
    absorbTail (rotate (acc ^^^ round 0 (word (bytes.take 8))) 27 * prime1 + prime4) (bytes.drop 8)
  else if 4 ≤ bytes.length then
    (bytes.drop 4).foldl absorbByte
      (rotate (acc ^^^ (word (bytes.take 4) * prime1)) 23 * prime2 + prime3)
  else
    bytes.foldl absorbByte acc
termination_by bytes.length
decreasing_by simp only [List.length_drop]; omega

def avalanche (acc : UInt64) : UInt64 :=
  let x := (acc ^^^ (acc >>> 33)) * prime2
  let y := (x ^^^ (x >>> 29)) * prime3
  y ^^^ (y >>> 32)

def hash (seed : UInt64) (bytes : List UInt8) : UInt64 :=
  let (lanes, tail) := stripes (Lanes.start seed) bytes
  let start := if 32 ≤ bytes.length then lanes.merge else seed + prime5
  avalanche (absorbTail (start + bytes.length.toUInt64) tail)

end TemplateCheck.Xxh64
