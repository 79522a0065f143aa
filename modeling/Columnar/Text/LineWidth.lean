import Columnar.Text.CharWidth
import Columnar.Text.Emoji
import Columnar.Text.Ligature

/-!
# Widths of lines

How many columns of a fixed-width display a line takes. This is the sum of what its characters add
to it, from the last one to the first; what a character adds depends on how the text behind it
begins. A flag, an emoji with its modifier and emoji that are joined to one take two columns, a
selector behind a character makes it an emoji or a text, and letters that are drawn as one count as
one.

## An automaton, read from the end

`Opening` is the state: all that a character needs to know of the text behind it. Reading from the
end means that **no character is looked at twice** and that a sequence that turns out to be broken
has not been counted as one. A character may add a negative width, where a flag becomes part of a
sequence that is counted already.

## What this covers

Any line of any characters, by the tables of the three modules on characters. The width is used to
align the cells of a grid and for nothing else. It is a convention about displays and not a fact
about texts, which is why it is given as a computation and no law is stated of it.
-/

namespace Columnar.Text

/-- The selector behind a character that asks for text. -/
def textSelector : Char := '\ufe0e'

/-- The selector behind a character that asks for an emoji. -/
def emojiSelector : Char := '\ufe0f'

/-- The keycap that encloses the character before it. -/
def keycap : Char := '\u20e3'

/-- The black flag, which tag letters behind it turn into the flag of a region. -/
def blackFlag : Char := Char.ofNat 0x1f3f4

/-- The tag that ends a sequence of tags. -/
def cancelTag : Char := Char.ofNat 0xe007f

/-- The tags for digits. -/
def tagDigits : CodeRanges := #[(0xe0030, 0xe0039)]

/-- The tags for letters. -/
def tagLetters : CodeRanges := #[(0xe0061, 0xe007a)]

/-- How an emoji is drawn. -/
inductive Presentation
  | text
  | emoji
  deriving DecidableEq, Repr

/-- How a text begins, as far as characters before it can join it. -/
inductive Opening
  /-- With nothing that characters join. -/
  | plain
  /-- With an emoji. -/
  | emoji
  /-- With an emoji modifier. -/
  | modifier
  /-- With one regional indicator. -/
  | indicator
  /-- With several regional indicators. -/
  | indicators
  /-- With a joiner before an emoji. -/
  | joinedEmoji
  /-- With a keycap and a joiner before an emoji. -/
  | joinedKeycap
  /-- With one regional indicator and a joiner before an emoji. -/
  | joinedIndicator
  /-- With several regional indicators and a joiner before an emoji. -/
  | joinedIndicators (even : Bool)
  /-- With some letter tags, the last tag and a joiner before an emoji. -/
  | joinedLetters (count : Nat)
  /-- With some digit tags before further tags and a joiner before an emoji. -/
  | joinedDigits (count : Nat)
  /-- With a letter at which a ligature may end. -/
  | ligature (letter : LigatureEnd)
  deriving DecidableEq, Repr

namespace Opening

/-- The opening of a text of one character, behind which nothing is joined. -/
def ofChar (c : Char) : Opening :=
  match LigatureEnd.ofChar? c with
  | some letter => ligature letter
  | none =>
    if indicatorRanges.has c then indicator
    else if modifierRanges.has c then modifier
    else if emojiRanges.has c then emoji
    else plain

/-- What is left of an opening behind a selector that its character does not heed. -/
def behindSelector : Opening → Opening
  | ligature letter => ligature letter
  | _ => plain

/-- What an emoji joins across a selector that asks for it. -/
def behindEmojiSelector : Opening → Opening
  | joinedEmoji => joinedEmoji
  | joinedKeycap => joinedKeycap
  | opening => opening.behindSelector

/-- What an emoji adds before a selector that asks for it. One that is joined adds nothing. -/
def selectedWidth : Opening → Nat
  | joinedEmoji | joinedKeycap => 0
  | _ => 2

/-- What a character adds to the width if it joins an opening, and the opening it makes. -/
def join? (opening : Opening) (c : Char) : Option (Int × Opening) :=
  match opening with
  | plain => none
  | emoji => if c = joiner then some (0, joinedEmoji) else none
  | modifier =>
    if modifiableRanges.has c then some (0, emoji)
    else if c = joiner then some (0, joinedEmoji)
    else none
  | indicator => if indicatorRanges.has c then some (1, indicators) else none
  | indicators =>
    if indicatorRanges.has c then some (1, indicators)
    else if c = joiner then some (0, joinedEmoji)
    else none
  | joinedEmoji =>
    if c = keycap then some (0, joinedKeycap)
    else if indicatorRanges.has c then some (1, joinedIndicator)
    else if modifierRanges.has c then some (0, modifier)
    else if c = cancelTag then some (0, joinedLetters 0)
    else if emojiRanges.has c then some (0, emoji)
    else none
  | joinedKeycap => none
  | joinedIndicator => if indicatorRanges.has c then some (-1, joinedIndicators true) else none
  | joinedIndicators even =>
    if indicatorRanges.has c then some (if even then 3 else -1, joinedIndicators !even)
    else if c = joiner then some (0, joinedEmoji)
    else none
  | joinedLetters count =>
    if tagLetters.has c && count < 6 then some (0, joinedLetters (count + 1))
    else if tagDigits.has c && count < 5 then some (0, joinedDigits 1)
    else if c = blackFlag && 3 ≤ count then some (0, emoji)
    else none
  | joinedDigits count =>
    if tagDigits.has c && count < 3 then some (0, joinedDigits (count + 1))
    else if c = blackFlag && count = 3 then some (0, emoji)
    else none
  | ligature .alef =>
    match LigatureEnd.alef.join? c with
    | some (width, rest) => some (width, rest.elim plain ligature)
    | none =>
      if charWidth c = 0 && !partingRanges.has c then some (0, ligature .alef) else none
  | ligature letter =>
    if c = joiner then some (0, ligature letter.withJoiner)
    else if invisibleMarks.has c then some (0, ligature letter)
    else (letter.join? c).map fun (width, rest) ↦ (width, rest.elim plain ligature)

end Opening

/-- The text behind a character: how it begins, and the selector before that. -/
structure Following where
  opening : Opening
  selector : Option Presentation
  deriving DecidableEq, Repr

namespace Following

/-- The end of a line. -/
def nothing : Following := ⟨.plain, none⟩

/-- What a character adds to the width, and the text that it begins. Controls take one column. -/
def before (f : Following) (c : Char) : Int × Following :=
  let asEmoji := f.selector = some .emoji
  if asEmoji && selectableRanges.has c then (f.opening.selectedWidth, ⟨.emoji, none⟩)
  else
    let opening := if asEmoji then f.opening.behindSelector else f.opening
    if c ≤ '\u00a0' then (1, ⟨.plain, none⟩)
    else if c = emojiSelector then (0, ⟨opening.behindEmojiSelector, some .emoji⟩)
    else if c = textSelector then (0, ⟨opening.behindSelector, some .text⟩)
    else if f.selector = some .text && isNarrowAsText c then (1, ⟨.plain, none⟩)
    else
      let (width, opening) := (opening.join? c).getD (charWidth c, .ofChar c)
      (width, ⟨opening, none⟩)

end Following

/-- The columns that a line takes. -/
def lineWidth (line : List Char) : Nat :=
  let (width, _) := line.foldr (fun c (width, following) ↦
    let (added, following) := following.before c
    (width + added, following)) ((0 : Int), Following.nothing)
  width.toNat

end Columnar.Text
