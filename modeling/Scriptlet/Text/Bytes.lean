import Scriptlet.Text.Quoted

/-!
# Bytes as text

Bytes are written in quotes after the letter `b`, and read from base64.  In base64 four characters
stand for three bytes; characters outside the alphabet do not count, and padding ends the data once
it completes a group of four.
-/

namespace Scriptlet.Text

set_option autoImplicit false

/-- One byte of quoted bytes, written between the quotes `q`. -/
def quoteByte (q : Char) (b : UInt8) : List Char :=
  let c := Char.ofNat b.toNat
  if b < 0x80 then quoteChar q c else '\\' :: 'x' :: hexDigits 2 b.toNat

/-- Bytes between quotes. -/
def quotedBytes (bytes : List UInt8) : String :=
  let q := quoteMark (bytes.map fun b => Char.ofNat b.toNat)
  String.ofList ('b' :: q :: bytes.flatMap (quoteByte q) ++ [q])

/-- The six bits that a character of base64 stands for. -/
def sixBits? (c : Char) : Option Nat :=
  if 'A' ≤ c && c ≤ 'Z' then some (c.toNat - 65)
  else if 'a' ≤ c && c ≤ 'z' then some (c.toNat - 71)
  else if '0' ≤ c && c ≤ '9' then some (c.toNat + 4)
  else if c = '+' then some 62
  else if c = '/' then some 63
  else none

/-- The bytes of base64 text behind `filled` characters of a group, whose last bits `left` are not
yet part of a byte, and `pads` padding characters. -/
def fromBase64 (filled left pads : Nat) : List Char → Option (List UInt8)
  | [] => if filled = 0 then some [] else none
  | c :: rest =>
    if c = '=' then
      if 2 ≤ filled && 4 ≤ filled + pads + 1 then some []
      else fromBase64 filled left (if 2 ≤ filled then pads + 1 else pads) rest
    else
      match sixBits? c with
      | none => fromBase64 filled left pads rest
      | some bits =>
        match filled with
        | 0 => fromBase64 1 bits 0 rest
        | 1 => (fromBase64 2 (bits % 16) 0 rest).map (UInt8.ofNat (left * 4 + bits / 16) :: ·)
        | 2 => (fromBase64 3 (bits % 4) 0 rest).map (UInt8.ofNat (left * 16 + bits / 4) :: ·)
        | _ => (fromBase64 0 0 0 rest).map (UInt8.ofNat (left * 64 + bits) :: ·)

/-- The bytes that a base64 text stands for. -/
def base64? (cs : List Char) : Option (List UInt8) :=
  fromBase64 0 0 0 cs

end Scriptlet.Text
