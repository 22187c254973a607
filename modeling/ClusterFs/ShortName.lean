/-!
Short names: eight bytes and an extension of three, padded with zeros. Names are equal only if all
eleven bytes are; there is no case folding and no trimming.
-/
namespace ClusterFs

structure ShortName where
  base : Vector UInt8 8
  extension : Vector UInt8 3
  deriving DecidableEq

namespace ShortName

def dot : UInt8 := 46

def empty : ShortName := ⟨Vector.replicate 8 0, Vector.replicate 3 0⟩

/-- The name with the given parts, each cut or zero-padded to its width. -/
def ofParts (base extension : List UInt8) : ShortName :=
  ⟨Vector.ofFn fun i => base.getD i 0, Vector.ofFn fun i => extension.getD i 0⟩

/-- The bytes before and after the last dot, if there is one. -/
def splitLastDot : List UInt8 → Option (List UInt8 × List UInt8)
  | [] => none
  | b :: bs =>
    match splitLastDot bs with
    | some (before, after) => some (b :: before, after)
    | none => if b = dot then some ([], bs) else none

/-- A text without a dot is a name with an empty extension. -/
def ofBytes (bytes : List UInt8) : ShortName :=
  match splitLastDot bytes with
  | some (before, after) => ofParts before after
  | none => ofParts bytes []

/-- Byte `k` of the eleven. -/
def byte (name : ShortName) (k : Nat) : UInt8 :=
  if h : k < 8 then name.base[k] else name.extension.getD (k - 8) 0

/-- The name whose eleven bytes start at an offset of a byte vector. -/
def atOffset {n : Nat} (raw : Vector UInt8 n) (i : Nat) (h : i + 10 < n := by decide) : ShortName :=
  ⟨Vector.ofFn fun k : Fin 8 => raw[i + k.1], Vector.ofFn fun k : Fin 3 => raw[i + 8 + k.1]⟩

def parse (text : String) : ShortName := ofBytes text.toUTF8.data.toList

/-- The bytes up to the last non-zero one. -/
def trimmed (bytes : List UInt8) : List UInt8 :=
  (bytes.reverse.dropWhile (· = 0)).reverse

/-- The displayed bytes: the trimmed base, then a dot and the trimmed extension unless that is
empty. -/
def displayBytes (name : ShortName) : List UInt8 :=
  let extension := trimmed name.extension.toList
  trimmed name.base.toList ++ if extension.isEmpty then [] else dot :: extension

/-- Each displayed byte is shown as the character of that number. -/
def displayChars (name : ShortName) : List Char :=
  name.displayBytes.map fun b => Char.ofNat b.toNat

def display (name : ShortName) : String := String.ofList name.displayChars

/-- The display as the single characters in which it is printed. -/
def pieces (name : ShortName) : List String := name.displayChars.map String.singleton

end ShortName

end ClusterFs
