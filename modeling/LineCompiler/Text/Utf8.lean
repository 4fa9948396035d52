/-!
# UTF-8

`encode` writes each character in one to four bytes.  `decode` reads bytes up to the first byte that
no character can have there; it tells apart bytes that are wrong from bytes that merely stop inside
a character.
-/

namespace LineCompiler.Text

/-- How a sequence of bytes ends. -/
inductive Ending where
  /-- After a whole character, or with no byte at all. -/
  | whole
  /-- Inside a character that more bytes could complete. -/
  | cut
  /-- At a byte that cannot stand where it does. -/
  | malformed
  deriving DecidableEq

/-- The characters read before the end, and how the bytes end. -/
structure Decoded where
  text : List Char
  ending : Ending
  deriving DecidableEq

/-- One more character in front. -/
def Decoded.cons (code : Nat) (rest : Decoded) : Decoded :=
  { rest with text := Char.ofNat code :: rest.text }

/-- Bytes that continue a character. -/
def isTail (byte : UInt8) : Bool :=
  0x80 ≤ byte && byte ≤ 0xBF

/-- The six bits that a continuing byte carries. -/
def tailBits (byte : UInt8) : Nat :=
  byte.toNat % 0x40

/-- Whether `second` may follow the first byte of a character of three or four bytes: longer forms
than needed and values beyond `U+10FFFF` are excluded here. -/
def mayFollow (first second : UInt8) : Bool :=
  isTail second &&
    (first ≠ 0xE0 || 0xA0 ≤ second) && (first ≠ 0xF0 || 0x90 ≤ second) &&
    (first ≠ 0xF4 || second ≤ 0x8F)

/-- Whether two bytes open a surrogate.  They are wrong only together with the byte after them:
where the bytes end right behind them, they count as the beginning of a character. -/
def opensSurrogate (first second : UInt8) : Bool :=
  first = 0xED && 0xA0 ≤ second

/-- Reads bytes as characters up to the end or to the first byte that cannot stand. -/
def decode : List UInt8 → Decoded
  | [] => ⟨[], .whole⟩
  | first :: rest =>
      if first < 0x80 then (decode rest).cons first.toNat
      else if 0xC2 ≤ first && first ≤ 0xDF then
        match rest with
        | [] => ⟨[], .cut⟩
        | second :: rest =>
            if isTail second then
              (decode rest).cons (first.toNat % 0x20 * 0x40 + tailBits second)
            else ⟨[], .malformed⟩
      else if 0xE0 ≤ first && first ≤ 0xEF then
        match rest with
        | [] => ⟨[], .cut⟩
        | second :: rest =>
            if !mayFollow first second then ⟨[], .malformed⟩
            else
              match rest with
              | [] => ⟨[], .cut⟩
              | third :: rest =>
                  if isTail third && !opensSurrogate first second then
                    (decode rest).cons
                      ((first.toNat % 0x10 * 0x40 + tailBits second) * 0x40 + tailBits third)
                  else ⟨[], .malformed⟩
      else if 0xF0 ≤ first && first ≤ 0xF4 then
        match rest with
        | [] => ⟨[], .cut⟩
        | second :: rest =>
            if !mayFollow first second then ⟨[], .malformed⟩
            else
              match rest with
              | [] => ⟨[], .cut⟩
              | third :: rest =>
                  if !isTail third then ⟨[], .malformed⟩
                  else
                    match rest with
                    | [] => ⟨[], .cut⟩
                    | fourth :: rest =>
                        if isTail fourth then
                          (decode rest).cons
                            (((first.toNat % 0x08 * 0x40 + tailBits second) * 0x40
                              + tailBits third) * 0x40 + tailBits fourth)
                        else ⟨[], .malformed⟩
      else ⟨[], .malformed⟩

/-- The text of bytes that are wholly well formed. -/
def decode? (bytes : List UInt8) : Option (List Char) :=
  let decoded := decode bytes
  if decoded.ending = .whole then some decoded.text else none

/-- The continuing byte that carries six bits. -/
def tailByte (bits : Nat) : UInt8 :=
  UInt8.ofNat (0x80 + bits % 0x40)

/-- The bytes of one character. -/
def encodeChar (c : Char) : List UInt8 :=
  let code := c.toNat
  if code < 0x80 then [UInt8.ofNat code]
  else if code < 0x800 then [UInt8.ofNat (0xC0 + code / 0x40), tailByte code]
  else if code < 0x10000 then
    [UInt8.ofNat (0xE0 + code / 0x1000), tailByte (code / 0x40), tailByte code]
  else
    [UInt8.ofNat (0xF0 + code / 0x40000), tailByte (code / 0x1000), tailByte (code / 0x40),
      tailByte code]

/-- The bytes of a text. -/
def encode (text : List Char) : List UInt8 :=
  text.flatMap encodeChar

end LineCompiler.Text
