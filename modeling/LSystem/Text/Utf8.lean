/-!
# Bytes as text

Bytes read as UTF-8, one glyph at a time: a character, or the longest run of bytes that starts like
a character and breaks off.  Nothing is lost, so the same glyphs serve a reader that refuses broken
text and one that shows a replacement for it.
-/

namespace LSystem.Text

/-- A character, or `size` bytes that are no character. -/
inductive Glyph where
  | char (c : Char)
  | broken (size : Nat)
  deriving DecidableEq, Repr, Inhabited

namespace Glyph

/-- The character, unless the bytes are none. -/
def char? : Glyph → Option Char
  | .char c => some c
  | .broken _ => none

def size : Glyph → Nat
  | .char c => c.utf8Size
  | .broken size => size

/-- A character begun: its bits so far, how many bytes it has and still needs, and the range its next
byte must be in. -/
structure Pending where
  bits : Nat
  size : Nat
  missing : Nat
  low : UInt8
  high : UInt8

/-- What a first byte starts.  The ranges leave out overlong forms, surrogates and what lies past the
last code point. -/
def start (b : UInt8) : Glyph ⊕ Pending :=
  if b < 0x80 then .inl (.char (Char.ofNat b.toNat))
  else if b < 0xc2 then .inl (.broken 1)
  else if b < 0xe0 then .inr ⟨b.toNat - 0xc0, 1, 1, 0x80, 0xbf⟩
  else if b < 0xf0 then
    .inr ⟨b.toNat - 0xe0, 1, 2, if b = 0xe0 then 0xa0 else 0x80, if b = 0xed then 0x9f else 0xbf⟩
  else if b < 0xf5 then
    .inr ⟨b.toNat - 0xf0, 1, 3, if b = 0xf0 then 0x90 else 0x80, if b = 0xf4 then 0x8f else 0xbf⟩
  else .inl (.broken 1)

/-- What is known after some bytes: the glyphs that are complete, the last one first, and a character
begun. -/
structure Decoder where
  done : List Glyph := []
  pending : Option Pending := none

/-- Goes on with a byte that starts something. -/
def Decoder.begin (done : List Glyph) (b : UInt8) : Decoder :=
  match start b with
  | .inl g => { done := g :: done }
  | .inr p => { done, pending := some p }

/-- Takes one more byte.  One that does not continue the character begun breaks it off. -/
def Decoder.feed : Decoder → UInt8 → Decoder
  | ⟨done, none⟩, b => begin done b
  | ⟨done, some p⟩, b =>
    if p.low ≤ b ∧ b ≤ p.high then
      let bits := p.bits * 64 + (b.toNat - 0x80)
      if p.missing ≤ 1 then { done := .char (Char.ofNat bits) :: done }
      else { done, pending := some ⟨bits, p.size + 1, p.missing - 1, 0x80, 0xbf⟩ }
    else
      begin (.broken p.size :: done) b

def Decoder.glyphs : Decoder → List Glyph
  | ⟨done, none⟩ => done.reverse
  | ⟨done, some p⟩ => (.broken p.size :: done).reverse

def decode (bytes : ByteArray) : List Glyph :=
  (bytes.foldl Decoder.feed {}).glyphs

def ofString (s : String) : List Glyph :=
  s.toList.map fun c => .char c

def text? (glyphs : List Glyph) : Option String :=
  (glyphs.mapM char?).map String.ofList

/-- The text, with a replacement character for all that is broken. -/
def lossyText (glyphs : List Glyph) : String :=
  String.ofList (glyphs.map fun g => g.char?.getD '\ufffd')

end Glyph

end LSystem.Text
