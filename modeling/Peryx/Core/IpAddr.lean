import Peryx.Core.Text

/-! # Internet addresses (core::net) -/

namespace Peryx

inductive IpAddr where
  | v4 (a b c d : UInt8)
  | v6 (segments : Vector UInt16 8)
  deriving Repr, DecidableEq

namespace IpAddr

/-- `to_canonical`: a mapped IPv4 address is that address. -/
def toCanonical (address : IpAddr) : IpAddr :=
  match address with
  | v4 a b c d => v4 a b c d
  | v6 segments =>
    match segments.toList with
    | [0, 0, 0, 0, 0, 0xFFFF, high, low] =>
      v4 (high >>> 8).toUInt8 high.toUInt8 (low >>> 8).toUInt8 low.toUInt8
    | _ => v6 segments

abbrev Reader (α : Type) := Str → Option (α × Str)

def toDigit (radix : Nat) (byte : UInt8) : Option Nat :=
  let digit :=
    if 0x30 ≤ byte ∧ byte ≤ 0x39 then some (byte.toNat - 0x30)
    else if 0x61 ≤ byte ∧ byte ≤ 0x7A then some (byte.toNat - 0x61 + 10)
    else if 0x41 ≤ byte ∧ byte ≤ 0x5A then some (byte.toNat - 0x41 + 10)
    else none
  digit.filter fun digit => digit < radix

def readNumber (radix maxDigits : Nat) (allowZeroPrefix : Bool) (maximum : Nat) : Reader Nat :=
  fun input =>
    let digits := (input.takeWhile fun byte => (toDigit radix byte).isSome).filterMap (toDigit radix)
    let number := digits.foldl (fun number digit => number * radix + digit) 0
    if digits.length = 0 ∨ maxDigits < digits.length then none
    else if allowZeroPrefix = false ∧ digits.head? = some 0 ∧ 1 < digits.length then none
    else if maximum < number then none
    else some (number, input.drop digits.length)

def readGivenChar (byte : UInt8) (input : Str) : Option Str :=
  match input with
  | [] => none
  | first :: rest => if first = byte then some rest else none

def readSeparator {α : Type} (separator : UInt8) (index : Nat) (inner : Reader α) : Reader α :=
  fun input => if index = 0 then inner input else (readGivenChar separator input).bind inner

def readIpv4Addr : Reader (UInt8 × UInt8 × UInt8 × UInt8) := fun input => do
  let octet (index : Nat) : Reader Nat := readSeparator 0x2E index (readNumber 10 3 false 255)
  let (a, input) ← octet 0 input
  let (b, input) ← octet 1 input
  let (c, input) ← octet 2 input
  let (d, input) ← octet 3 input
  return ((a.toUInt8, b.toUInt8, c.toUInt8, d.toUInt8), input)

/-- `read_groups`, from this slot with so many left: the groups, whether the last two were an
IPv4 address, and the rest. -/
def readGroups : Nat → Nat → Str → List UInt16 × Bool × Str
  | _, 0, input => ([], false, input)
  | index, slots + 1, input =>
    match if slots = 0 then none else readSeparator 0x3A index readIpv4Addr input with
    | some ((a, b, c, d), rest) =>
      ([a.toUInt16 <<< 8 ||| b.toUInt16, c.toUInt16 <<< 8 ||| d.toUInt16], true, rest)
    | none =>
      match readSeparator 0x3A index (readNumber 16 4 true 0xFFFF) input with
      | none => ([], false, input)
      | some (group, rest) =>
        let (groups, ipv4, rest) := readGroups (index + 1) slots rest
        (group.toUInt16 :: groups, ipv4, rest)

def segmentsOf (head tail : List UInt16) : Vector UInt16 8 :=
  let zeros := 8 - (head.length + tail.length)
  Vector.ofFn fun slot => (head ++ List.replicate zeros 0 ++ tail).getD slot 0

def readIpv6Addr : Reader (Vector UInt16 8) := fun input => do
  let (head, ipv4, input) := readGroups 0 8 input
  if head.length = 8 then return (segmentsOf head [], input)
  if ipv4 then none
  let input ← readGivenChar 0x3A input
  let input ← readGivenChar 0x3A input
  let (tail, _, input) := readGroups 0 (8 - (head.length + 1)) input
  return (segmentsOf head tail, input)

def readIpAddr : Reader IpAddr := fun input =>
  match readIpv4Addr input with
  | some ((a, b, c, d), rest) => some (v4 a b c d, rest)
  | none => (readIpv6Addr input).map fun (segments, rest) => (v6 segments, rest)

/-- `FromStr`. -/
def parse (text : Str) : Option IpAddr :=
  match readIpAddr text with
  | some (address, []) => some address
  | _ => none

example : parse (str "::ffff:198.51.100.7") = some (v6 #v[0, 0, 0, 0, 0, 0xFFFF, 0xC633, 0x6407]) ∧
    (parse (str "::ffff:198.51.100.7")).map toCanonical = parse (str "198.51.100.7") ∧
    parse (str "[2001:db8::1]:80") = none ∧ parse (str "198.51.100.07") = none := by
  decide +kernel

end IpAddr
end Peryx
