import Columnar.Text.Plain

/-!
# Ligatures

The letters that are drawn together with the letter before or behind them and then take no columns
of their own, and the characters that do not part them.

What is covered are the pairs that a display of fixed width draws as one letter: lam and alef, the
Hebrew alef and lamed with a joiner, subscript letters of Khmer, the Buginese, Tifinagh and Old
Turkic pairs, and the two kinds of Lisu tone letters. A line is read from its end, so what is kept
is the letter at which a ligature may end (`LigatureEnd`) and what may come before it. Other letters
that a font joins keep their own columns and need no word here.

The tables are only used to align the cells of a grid, and no law of the library rests on them.
-/

namespace Columnar.Text

/-- The joiner, which asks for its neighbours to be drawn as one. -/
def joiner : Char := '\u200d'

/-- Marks that are not shown. They part no letters. -/
def invisibleMarks : CodeRanges := #[
  (0x34f, 0x34f), (0x17b4, 0x17b5), (0x180b, 0x180d), (0x180f, 0x180f), (0xfe00, 0xfe0f),
  (0xe0100, 0xe01ef)
]

/-- The Arabic letters lam. -/
def lamRanges : CodeRanges := #[
  (0x644, 0x644), (0x6b5, 0x6b8), (0x76a, 0x76a), (0x8a6, 0x8a6), (0x8c7, 0x8c7)
]

/-- The Arabic letters alef, which a lam takes in. -/
def alefRanges : CodeRanges := #[
  (0x622, 0x623), (0x625, 0x625), (0x627, 0x627), (0x671, 0x673), (0x675, 0x675), (0x773, 0x774),
  (0x870, 0x882)
]

/-- The characters without width that part a lam from the alef behind it. -/
def partingRanges : CodeRanges := #[
  (0x605, 0x605), (0x890, 0x891), (0x8e2, 0x8e2), (0x9be, 0x9be), (0x9d7, 0x9d7), (0xb3e, 0xb3e),
  (0xb57, 0xb57), (0xbbe, 0xbbe), (0xbd7, 0xbd7), (0xcc0, 0xcc0), (0xcc2, 0xcc2), (0xcc7, 0xcc8),
  (0xcca, 0xccb), (0xcd5, 0xcd6), (0xd3e, 0xd3e), (0xd4e, 0xd4e), (0xd57, 0xd57), (0xdcf, 0xdcf),
  (0xddf, 0xddf), (0x1160, 0x11ff), (0x180e, 0x180e), (0x1b35, 0x1b35), (0x1b3b, 0x1b3b),
  (0x1b3d, 0x1b3d), (0x1b43, 0x1b43), (0x200c, 0x200d), (0x2065, 0x2069), (0x302e, 0x302f),
  (0x3164, 0x3164), (0xa8fa, 0xa8fa), (0xd7b0, 0xd7c6), (0xd7cb, 0xd7fb), (0xff9e, 0xffa0),
  (0xfff0, 0xfff8), (0x111c2, 0x111c3), (0x1133e, 0x1133e), (0x11357, 0x11357),
  (0x114b0, 0x114b0), (0x114bd, 0x114bd), (0x115af, 0x115af), (0x11930, 0x11930),
  (0x1193f, 0x1193f), (0x11941, 0x11941), (0x11a3a, 0x11a3a), (0x11a84, 0x11a89),
  (0x11d46, 0x11d46), (0x11f02, 0x11f02), (0x1d165, 0x1d165), (0x1d16e, 0x1d172),
  (0xe0000, 0xe0000), (0xe0002, 0xe001f), (0xe0080, 0xe00ff), (0xe01f0, 0xe0fff)
]

/-- The Khmer letters that can be written below the one before them. -/
def subscriptRanges : CodeRanges := #[
  (0x1780, 0x1782), (0x1784, 0x1787), (0x1789, 0x178c), (0x178e, 0x1793), (0x1795, 0x1798),
  (0x179b, 0x179d), (0x17a0, 0x17a0), (0x17a2, 0x17a2), (0x17a7, 0x17a7), (0x17ab, 0x17ac),
  (0x17af, 0x17af)
]

/-- The Tifinagh consonants. -/
def tifinaghRanges : CodeRanges := #[(0x2d31, 0x2d65), (0x2d6f, 0x2d6f)]

/-- The Lisu tone letters that take in one of the second kind. -/
def firstToneRanges : CodeRanges := #[(0xa4f8, 0xa4fb)]

/-- The Lisu tone letters that are taken in by one of the first kind. -/
def secondToneRanges : CodeRanges := #[(0xa4fc, 0xa4fd)]

/-- A letter at which a ligature may end, and what of the ligature is behind it. -/
inductive LigatureEnd
  /-- An Arabic alef. -/
  | alef
  /-- A Hebrew lamed, and whether a joiner stands before it. -/
  | lamed (joined : Bool)
  /-- A Buginese ya, and whether a joiner stands before it. -/
  | ya (joined : Bool)
  /-- A Buginese vowel sign and a joined ya. -/
  | vowelYa
  /-- A Tifinagh consonant, and whether a joiner stands before it. -/
  | tifinagh (joined : Bool)
  /-- The joiner of Tifinagh consonants and a consonant. -/
  | joinedTifinagh
  /-- A Lisu tone letter. -/
  | tone
  /-- An Old Turkic letter i, and whether a joiner stands before it. -/
  | orkhonI (joined : Bool)
  /-- A Khmer letter that can be written below another one. -/
  | subscript
  deriving DecidableEq, Repr

namespace LigatureEnd

/-- The letter at which a ligature may end. -/
def ofChar? (c : Char) : Option LigatureEnd :=
  if alefRanges.has c then some alef
  else if c = '\u05dc' then some (lamed false)
  else if c = '\u1a10' then some (ya false)
  else if tifinaghRanges.has c then some (tifinagh false)
  else if secondToneRanges.has c then some tone
  else if c = Char.ofNat 0x10c03 then some (orkhonI false)
  else if subscriptRanges.has c then some subscript
  else none

/-- The same with a joiner before it. -/
def withJoiner : LigatureEnd → LigatureEnd
  | lamed _ => lamed true
  | ya _ => ya true
  | tifinagh _ => tifinagh true
  | orkhonI _ => orkhonI true
  | other => other

/-- What a character adds to the width if it is part of the ligature, and where the ligature goes on
before it, if it does. -/
def join? (e : LigatureEnd) (c : Char) : Option (Int × Option LigatureEnd) :=
  match e with
  | alef => if lamRanges.has c then some (0, none) else none
  | lamed true => if c = '\u05d0' then some (0, none) else none
  | ya true => if c = '\u1a17' then some (0, some vowelYa) else none
  | vowelYa => if c = '\u1a15' then some (0, none) else none
  | tifinagh joined =>
    if c = '\u2d7f' then some (1, some joinedTifinagh)
    else if joined && tifinaghRanges.has c then some (0, none)
    else none
  | joinedTifinagh => if tifinaghRanges.has c then some (-1, none) else none
  | tone => if firstToneRanges.has c then some (0, none) else none
  | orkhonI true => if c = Char.ofNat 0x10c32 then some (0, none) else none
  | subscript => if c = '\u17d2' then some (-1, none) else none
  | lamed false | ya false | orkhonI false => none

end LigatureEnd

end Columnar.Text
