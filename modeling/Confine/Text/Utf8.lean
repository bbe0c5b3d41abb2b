/-!
Bytes as text. A byte sequence is read as UTF-8 into glyphs; each longest piece that starts no
character becomes one broken glyph, so that a reader can pass over it where text does not matter
and refuse it where it does.
-/

namespace Confine.Text

/-- One position of a text that was read from bytes: a character, or a piece that is none. -/
inductive Glyph where
  | char (c : Char)
  | broken
  deriving DecidableEq, Repr, Inhabited

namespace Glyph

/-- The glyphs of a text. -/
def ofText (s : String) : List Glyph := s.toList.map .char

/-- A glyph as a character; a broken one shows as the replacement character. -/
def shown : Glyph → Char
  | char c => c
  | broken => '\uFFFD'

/-- A byte that continues a character. -/
def isContinuation (b : UInt8) : Bool := 0x80 ≤ b && b ≤ 0xBF

/-- The bytes that may follow `lead`, the first byte of a character of three or four bytes. -/
def secondOk (lead second : UInt8) : Bool :=
  if lead = 0xE0 then 0xA0 ≤ second && second ≤ 0xBF
  else if lead = 0xED then 0x80 ≤ second && second ≤ 0x9F
  else if lead = 0xF0 then 0x90 ≤ second && second ≤ 0xBF
  else if lead = 0xF4 then 0x80 ≤ second && second ≤ 0x8F
  else isContinuation second

/-- The six bits that a continuation byte carries. -/
def payload (b : UInt8) : Nat := b.toNat % 64

/-- The first glyph of the bytes `lead :: rest`, and how many bytes of `rest` it takes. -/
def next (lead : UInt8) (rest : List UInt8) : Glyph × Nat :=
  if lead < 0x80 then (char (Char.ofNat lead.toNat), 0)
  else if 0xC2 ≤ lead && lead ≤ 0xDF then
    match rest with
    | b :: _ =>
      if isContinuation b then (char (Char.ofNat (lead.toNat % 32 * 64 + payload b)), 1)
      else (broken, 0)
    | [] => (broken, 0)
  else if 0xE0 ≤ lead && lead ≤ 0xEF then
    match rest with
    | b :: c :: _ =>
      if !secondOk lead b then (broken, 0)
      else if !isContinuation c then (broken, 1)
      else (char (Char.ofNat (lead.toNat % 16 * 4096 + payload b * 64 + payload c)), 2)
    | [b] => (broken, if secondOk lead b then 1 else 0)
    | [] => (broken, 0)
  else if 0xF0 ≤ lead && lead ≤ 0xF4 then
    match rest with
    | b :: c :: d :: _ =>
      if !secondOk lead b then (broken, 0)
      else if !isContinuation c then (broken, 1)
      else if !isContinuation d then (broken, 2)
      else
        (char (Char.ofNat
          (lead.toNat % 8 * 262144 + payload b * 4096 + payload c * 64 + payload d)), 3)
    | [b, c] =>
      (broken, if secondOk lead b then (if isContinuation c then 2 else 1) else 0)
    | [b] => (broken, if secondOk lead b then 1 else 0)
    | [] => (broken, 0)
  else (broken, 0)

/-- The glyphs of bytes, after the glyphs `rev` (latest first). The number bounds the bytes that
are read. -/
def ofBytesFrom (rev : List Glyph) : Nat → List UInt8 → List Glyph
  | n + 1, b :: rest =>
    let g := next b rest
    ofBytesFrom (g.1 :: rev) n (rest.drop g.2)
  | _, _ => rev.reverse

/-- The glyphs of bytes. -/
def ofBytes (bytes : ByteArray) : List Glyph :=
  match String.fromUTF8? bytes with
  | some s => ofText s
  | none => ofBytesFrom [] bytes.size bytes.toList

/-- The text of glyphs, with broken ones replaced. -/
def toText (gs : List Glyph) : String := String.ofList (gs.map shown)

end Glyph

end Confine.Text
