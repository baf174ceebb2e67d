/-!
# Reading bytes as text

Files hold bytes. `decode` reads them as UTF-8 one byte at a time: a character
comes out when its last byte has come in, and a sequence that cannot go on is
given up as one unreadable stretch, after which reading starts afresh at the byte
that broke it. Overlong forms, surrogates and values past the last code point
never get as far as their last byte.
-/

namespace ModelSource.Text

/-- A character that is not complete: how many bytes are missing, between which
values the next of them has to lie, and the bits read so far. -/
structure Pending where
  missing : Nat
  least : Nat
  greatest : Nat
  value : Nat
deriving DecidableEq

/-- What a byte does at the start of a character. -/
def startByte (byte : Nat) : List (Option Char) × Option Pending :=
  if byte < 0x80 then ([some (Char.ofNat byte)], none)
  else if 0xc2 ≤ byte ∧ byte ≤ 0xdf then ([], some ⟨1, 0x80, 0xbf, byte - 0xc0⟩)
  else if 0xe0 ≤ byte ∧ byte ≤ 0xef then
    ([], some ⟨2, if byte = 0xe0 then 0xa0 else 0x80, if byte = 0xed then 0x9f else 0xbf,
      byte - 0xe0⟩)
  else if 0xf0 ≤ byte ∧ byte ≤ 0xf4 then
    ([], some ⟨3, if byte = 0xf0 then 0x90 else 0x80, if byte = 0xf4 then 0x8f else 0xbf,
      byte - 0xf0⟩)
  else ([none], none)

/-- What a byte does to a character that is not complete. -/
def continueByte (p : Pending) (byte : Nat) : List (Option Char) × Option Pending :=
  if p.least ≤ byte ∧ byte ≤ p.greatest then
    let value := p.value * 64 + (byte - 0x80)
    if p.missing ≤ 1 then ([some (Char.ofNat value)], none)
    else ([], some ⟨p.missing - 1, 0x80, 0xbf, value⟩)
  else
    let (out, next) := startByte byte
    (none :: out, next)

/-- Characters, and `none` for every unreadable stretch. -/
def decodeFrom : Option Pending → List UInt8 → List (Option Char)
  | none, [] => []
  | some _, [] => [none]
  | state, byte :: rest =>
    let (out, next) :=
      match state with
      | none => startByte byte.toNat
      | some p => continueByte p byte.toNat
    out ++ decodeFrom next rest

def decode (bytes : List UInt8) : List (Option Char) :=
  decodeFrom none bytes

end ModelSource.Text
