/-!
# UTF-8

Encoding of texts as bytes, and the two ways of reading bytes back: the strict one, which refuses
anything that is not UTF-8, and the lenient one, which puts the replacement character in the place
of every maximal ill-formed piece.
-/

namespace StateGen.Utf8

/-- The bytes of a text. -/
def encode (s : String) : List UInt8 := s.toList.flatMap String.utf8EncodeChar

/-- The first byte of a character. -/
def firstByte (c : Char) : UInt8 := (String.utf8EncodeChar c).headD 0

/-- A byte that continues a multi-byte character. -/
def isContinuation (b : UInt8) : Bool := 0x80 ≤ b && b ≤ 0xbf

/-- The range of the second byte after a lead byte, and how many bytes follow the lead byte.
Overlong forms, surrogates and values past the last code point are excluded by the range. -/
def leadByte (b : UInt8) : Option (Nat × UInt8 × UInt8) :=
  if 0xc2 ≤ b && b ≤ 0xdf then some (1, 0x80, 0xbf)
  else if b == 0xe0 then some (2, 0xa0, 0xbf)
  else if b == 0xed then some (2, 0x80, 0x9f)
  else if 0xe1 ≤ b && b ≤ 0xef then some (2, 0x80, 0xbf)
  else if b == 0xf0 then some (3, 0x90, 0xbf)
  else if b == 0xf4 then some (3, 0x80, 0x8f)
  else if 0xf1 ≤ b && b ≤ 0xf3 then some (3, 0x80, 0xbf)
  else none

/-- The six low bits of a continuation byte. -/
def payload (b : UInt8) : Nat := b.toNat % 64

/-- The first character of a byte sequence: the character and its length in bytes, or, where no
character can be read, the length of the maximal ill-formed piece. -/
def firstChar (b : UInt8) (rest : List UInt8) : Except Nat (Char × Nat) :=
  if b < 0x80 then .ok (Char.ofNat b.toNat, 1)
  else
    match leadByte b with
    | none => .error 1
    | some (count, low, high) =>
      match rest with
      | [] => .error 1
      | c :: rest =>
        if !(low ≤ c && c ≤ high) then .error 1
        else if count = 1 then .ok (Char.ofNat (b.toNat % 32 * 64 + payload c), 2)
        else
          match rest with
          | [] => .error 2
          | d :: rest =>
            if !isContinuation d then .error 2
            else if count = 2 then
              .ok (Char.ofNat ((b.toNat % 16 * 64 + payload c) * 64 + payload d), 3)
            else
              match rest with
              | [] => .error 3
              | e :: _ =>
                if !isContinuation e then .error 3
                else
                  .ok (Char.ofNat
                    (((b.toNat % 8 * 64 + payload c) * 64 + payload d) * 64 + payload e), 4)

/-- Read bytes as a list of characters; `none` stands for an ill-formed piece. -/
def decodePieces : List UInt8 → List (Option Char)
  | [] => []
  | b :: rest =>
    match firstChar b rest with
    | .ok (c, n) => some c :: decodePieces (rest.drop (n - 1))
    | .error n => none :: decodePieces (rest.drop (n - 1))
termination_by bytes => bytes.length
decreasing_by all_goals simp only [List.length_drop, List.length_cons]; omega

/-- Read bytes that are UTF-8 throughout. -/
def decode? (bytes : List UInt8) : Option String :=
  ((decodePieces bytes).mapM id).map String.ofList

/-- Read any bytes, with U+FFFD in the place of every ill-formed piece. -/
def decodeLossy (bytes : List UInt8) : String :=
  String.ofList ((decodePieces bytes).map fun c ↦ c.getD '\ufffd')

end StateGen.Utf8
