import Mathlib.Data.BitVec
import Mathlib.Data.List.GetD

/-! SHA-1 of messages of whole bytes, as RFC 3174 has it. -/

namespace Library.Sha1

abbrev Byte := BitVec 8

abbrev Word := BitVec 32

/-- The circular left shift `S^n`. -/
def rotl (n : Nat) (x : Word) : Word := (x <<< n) ||| (x >>> (32 - n))

/-- Four bytes as a word. The first is the high one. -/
def word (b0 b1 b2 b3 : Byte) : Word := b0 ++ b1 ++ b2 ++ b3

/-- The bytes of a word, the high one first. -/
def wordBytes (x : Word) : List Byte :=
  [x.extractLsb' 24 8, x.extractLsb' 16 8, x.extractLsb' 8 8, x.extractLsb' 0 8]

/-- Section 4: a one bit, zeros up to the last two words of a block, and the length in bits. -/
def padding (length : Nat) : List Byte :=
  0x80 :: List.replicate ((119 - length % 64) % 64) 0 ++
    (wordBytes (BitVec.ofNat 32 (8 * length / 2 ^ 32)) ++ wordBytes (BitVec.ofNat 32 (8 * length)))

def pad (message : List Byte) : List Byte := message ++ padding message.length

/-- Section 5: the functions and constants of the rounds. -/
def f (t : Nat) (b c d : Word) : Word :=
  if t < 20 then (b &&& c) ||| (~~~b &&& d)
  else if t < 40 then b ^^^ c ^^^ d
  else if t < 60 then (b &&& c) ||| (b &&& d) ||| (c &&& d)
  else b ^^^ c ^^^ d

def k (t : Nat) : Word :=
  if t < 20 then 0x5A827999
  else if t < 40 then 0x6ED9EBA1
  else if t < 60 then 0x8F1BBCDC
  else 0xCA62C1D6

structure Vars where
  a : Word
  b : Word
  c : Word
  d : Word
  e : Word
  deriving DecidableEq

def init : Vars := ⟨0x67452301, 0xEFCDAB89, 0x98BADCFE, 0x10325476, 0xC3D2E1F0⟩

def Vars.add (x y : Vars) : Vars := ⟨x.a + y.a, x.b + y.b, x.c + y.c, x.d + y.d, x.e + y.e⟩

/-- The sixteen words of a block. -/
def blockWords (bytes : Nat → Byte) : List Word :=
  (List.range 16).map fun i =>
    word (bytes (4 * i)) (bytes (4 * i + 1)) (bytes (4 * i + 2)) (bytes (4 * i + 3))

/-- The words from 16 on, each from the ones before. -/
def extend (words : List Word) : (count : Nat) → List Word
  | 0 => words
  | count + 1 =>
    let words := extend words count
    let t := words.length
    words ++ [rotl 1 (words.getD (t - 3) 0 ^^^ words.getD (t - 8) 0 ^^^ words.getD (t - 14) 0 ^^^
      words.getD (t - 16) 0)]

def step (w : Word) (t : Nat) (v : Vars) : Vars :=
  ⟨rotl 5 v.a + f t v.b v.c v.d + v.e + w + k t, v.a, rotl 30 v.b, v.c, v.d⟩

/-- Section 6.1: the hash so far, after one more block. -/
def compress (h : Vars) (block : List Word) : Vars :=
  let w := extend block 64
  h.add ((List.range 80).foldl (fun v t => step (w.getD t 0) t v) h)

/-- The hash after the first blocks of padded bytes. -/
def afterBlocks (padded : List Byte) : (blocks : Nat) → Vars
  | 0 => init
  | n + 1 =>
    compress (afterBlocks padded n) (blockWords fun i => padded.getD (64 * n + i) 0)

def Vars.digest (h : Vars) : List Byte :=
  wordBytes h.a ++ wordBytes h.b ++ wordBytes h.c ++ wordBytes h.d ++ wordBytes h.e

def sha1 (message : List Byte) : List Byte :=
  (afterBlocks (pad message) ((pad message).length / 64)).digest

end Library.Sha1
