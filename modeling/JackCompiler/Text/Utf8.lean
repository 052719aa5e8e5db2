/-!
# Strict UTF-8 decoding

The decoder reads one octet at a time. Inside a character it knows how many octets are still owed
and between which bounds the next one lies, so overlong forms, surrogates and values above
`10FFFF` are refused at the first octet that rules the text out.
-/

namespace JackCompiler.Utf8

/-- Why octets are not UTF-8. `start` is where the refused character begins. -/
inductive Fault
  /-- `length` octets begin a character, and the next octet cannot go on with it. -/
  | invalid (length start : Nat)
  /-- The octets end inside a character. -/
  | incomplete (start : Nat)
  deriving DecidableEq, Repr

def Fault.message : Fault → String
  | .invalid length start =>
    "invalid utf-8 sequence of " ++ toString length ++ " bytes from index " ++ toString start
  | .incomplete start => "incomplete utf-8 byte sequence from index " ++ toString start

/-- A character read in part: where it began, its bits so far, the octets owed, and the bounds of
the next one. -/
structure Partial where
  start : Nat
  bits : Nat
  owed : Nat
  low : UInt8 := 0x80
  high : UInt8 := 0xBF
  deriving DecidableEq, Repr

/-- What the first octet of a character of several octets promises. -/
def leading? (start : Nat) (octet : UInt8) : Option Partial :=
  if 0xC2 ≤ octet ∧ octet ≤ 0xDF then some { start, bits := octet.toNat - 0xC0, owed := 1 }
  else if octet = 0xE0 then some { start, bits := 0, owed := 2, low := 0xA0 }
  else if octet = 0xED then some { start, bits := 0xD, owed := 2, high := 0x9F }
  else if 0xE1 ≤ octet ∧ octet ≤ 0xEF then some { start, bits := octet.toNat - 0xE0, owed := 2 }
  else if octet = 0xF0 then some { start, bits := 0, owed := 3, low := 0x90 }
  else if octet = 0xF4 then some { start, bits := 4, owed := 3, high := 0x8F }
  else if 0xF1 ≤ octet ∧ octet ≤ 0xF3 then some { start, bits := octet.toNat - 0xF0, owed := 3 }
  else none

/-- Decodes the octets from offset `index` on. `done` holds the characters so far, the last one
first. -/
def decodeFrom (index : Nat) (current : Option Partial) (done : List Char) :
    List UInt8 → Except Fault String
  | [] =>
    match current with
    | none => .ok (String.ofList done.reverse)
    | some character => .error (.incomplete character.start)
  | octet :: octets =>
    match current with
    | none =>
      if octet < 0x80 then decodeFrom (index + 1) none (Char.ofNat octet.toNat :: done) octets
      else
        match leading? index octet with
        | some character => decodeFrom (index + 1) (some character) done octets
        | none => .error (.invalid 1 index)
    | some character =>
      if character.low ≤ octet ∧ octet ≤ character.high then
        let bits := character.bits * 64 + (octet.toNat - 0x80)
        if character.owed ≤ 1 then decodeFrom (index + 1) none (Char.ofNat bits :: done) octets
        else
          decodeFrom (index + 1) (some ⟨character.start, bits, character.owed - 1, 0x80, 0xBF⟩)
            done octets
      else .error (.invalid (index - character.start) character.start)

/-- The text the octets encode. -/
def decode (octets : List UInt8) : Except Fault String := decodeFrom 0 none [] octets

end JackCompiler.Utf8
