/-
**Strings as C# has them.**

A string is a list of UTF-16 code units, which need not be well formed.

* `decode`: the characters that `Encoding.UTF8` writes; a surrogate without its other half is replaced
  by U+FFFD. `utf8_eq_iff`: **strings have the same bytes exactly if they decode to the same.**
* `units`: the code units of a literal.
-/

import Foldback.Core.Io

namespace Foldback.Unity

/-- A C# string. -/
abbrev Text := List UInt16

def isHighSurrogate (unit : UInt16) : Bool := 0xD800 ≤ unit.toNat ∧ unit.toNat < 0xDC00

def isLowSurrogate (unit : UInt16) : Bool := 0xDC00 ≤ unit.toNat ∧ unit.toNat < 0xE000

/-- The character of a surrogate pair. -/
def pair (high low : UInt16) : Char :=
  Char.ofNat (0x10000 + (high.toNat - 0xD800) * 0x400 + (low.toNat - 0xDC00))

def replacement : Char := '\uFFFD'

/-- The characters of a string, each surrogate without its other half replaced. -/
def decode : Text → List Char
  | [] => []
  | [unit] =>
    [if isHighSurrogate unit || isLowSurrogate unit then replacement else Char.ofNat unit.toNat]
  | unit :: next :: rest =>
    if isHighSurrogate unit then
      if isLowSurrogate next then pair unit next :: decode rest
      else replacement :: decode (next :: rest)
    else if isLowSurrogate unit then replacement :: decode (next :: rest)
    else Char.ofNat unit.toNat :: decode (next :: rest)

/-- `Encoding.UTF8.GetBytes`. -/
def utf8 (text : Text) : Bytes := asBytes (String.ofList (decode text))

/-- **Strings have the same bytes exactly if they decode to the same.** -/
theorem utf8_eq_iff {first second : Text} :
    utf8 first = utf8 second ↔ decode first = decode second := by
  constructor
  · exact fun same => String.ofList_injective (asBytes_injective same)
  · exact fun same => by rw [utf8, same, utf8]

/-- The code units of a literal. -/
def units (literal : String) : Text :=
  literal.toList.flatMap fun char =>
    if char.toNat < 0x10000 then [UInt16.ofNat char.toNat]
    else [UInt16.ofNat (0xD800 + (char.toNat - 0x10000) / 0x400),
      UInt16.ofNat (0xDC00 + (char.toNat - 0x10000) % 0x400)]

/-- Half of a pair is written as the replacement, whichever half it is. -/
example : utf8 [0xD800] = utf8 [0xDC00] ∧ utf8 [0xD83D, 0xDE00] = [0xF0, 0x9F, 0x98, 0x80] := by
  decide

end Foldback.Unity
