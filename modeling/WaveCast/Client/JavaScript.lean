import WaveCast.Platform

/-!
# What the client takes from JavaScript

White space, `Math.max(0, ·)` on whole numbers, and objects under string keys:
`undefined` members and missing ones read the same.
-/

namespace WaveCast

namespace Client

/-- `Math.max(0, n)`. -/
def atLeastZero (n : Int) : Int := max 0 n

/-- The white space and the line terminators of JavaScript, which `\s` matches
and `trim` removes. -/
def isWhiteSpace (code : Nat) : Bool :=
  (9 ≤ code && code ≤ 13) || code = 0x20 || code = 0xa0 || code = 0x1680 ||
  (0x2000 ≤ code && code ≤ 0x200a) || code = 0x2028 || code = 0x2029 || code = 0x202f ||
  code = 0x205f || code = 0x3000 || code = 0xfeff

/-- `text.trim()`. -/
def trim (text : String) : String :=
  .ofList (trimChars (fun c => isWhiteSpace c.toNat) text.toList)

/-- A `Record<K, V>`, of which members may be missing. -/
abbrev Record (K V : Type) := K → Option V

namespace Record

variable {K V : Type} [DecidableEq K]

/-- The object without members. -/
def empty : Record K V := fun _ => none

/-- `{ ...record, [key]: value }`. -/
def set (record : Record K V) (key : K) (value : V) : Record K V :=
  fun k => if k = key then some value else record k

@[simp] theorem set_self (record : Record K V) (key : K) (value : V) :
    record.set key value key = some value := by
  simp [set]

theorem set_of_ne (record : Record K V) {key k : K} (value : V) (h : k ≠ key) :
    record.set key value k = record k := by
  simp [set, h]

end Record

end Client

end WaveCast
