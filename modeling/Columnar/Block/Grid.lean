import Columnar.Block.Basic
import Columnar.Text.LineWidth

/-!
# Grids

Records of texts drawn as a grid of lines: every cell on the left of its column with a blank on
either side, a line between any two records. A text with several lines makes its record as high as
the highest text in it.

## What this covers

The grid is the text in which a block is shown to a person. What is covered is all that drawing a
block needs: one style of borders, columns as wide as their widest line, and no wrapping. How wide a
line is on a display of fixed width is decided in the modules on widths, for any text.

Drawing is a function of the published rows and nothing reads what is drawn. So **no law of the
library rests on this module or on the tables of widths**: they take part in what a block looks like
and in nothing else.

A block without columns is drawn as nothing, and so is one without rows unless the types are asked
for.
-/

namespace Columnar

namespace Grid

/-- The lines of a text. There is always at least one. -/
def lines : List Char → List (List Char)
  | [] => [[]]
  | c :: rest =>
    if c = '\n' then [] :: lines rest
    else match lines rest with
      | [] => [[c]]
      | first :: others => (c :: first) :: others

/-- The widths of the columns: those of the widest lines. -/
def widths (records : List (List (List (List Char)))) : List Nat :=
  match records with
  | [] => []
  | record :: rest =>
    let here := record.map fun cell ↦ (cell.map Text.lineWidth).foldl max 0
    let below := widths rest
    (List.range (max here.length below.length)).map fun i ↦ max (here.getD i 0) (below.getD i 0)

/-- A line of a cell, filled up to the width of its column. -/
def pad (width : Nat) (line : List Char) : List Char :=
  ' ' :: line ++ List.replicate (width - Text.lineWidth line) ' ' ++ [' ']

/-- Pieces joined by a separator and enclosed by two ends. -/
def frame (first separator last : List Char) (pieces : List (List Char)) : List Char :=
  first ++ separator.intercalate pieces ++ last

/-- A horizontal line. -/
def rule (first crossing last : Char) (widths : List Nat) : List Char :=
  frame [first] [crossing] [last] (widths.map fun width ↦ List.replicate (width + 2) '─')

/-- The lines of a record. -/
def drawRecord (widths : List Nat) (record : List (List (List Char))) : List (List Char) :=
  let height := (record.map List.length).foldl max 1
  (List.range height).map fun i ↦
    frame ['│'] ['│'] ['│'] (widths.zipIdx.map fun (width, column) ↦
      pad width ((record.getD column []).getD i []))

/-- Records drawn as a grid, one line after the other. Nothing is drawn without columns. -/
def draw (records : List (List String)) : String :=
  let records := records.map fun record ↦ record.map fun text ↦ lines text.toList
  let widths := widths records
  if widths.isEmpty then "" else
    let bodies := records.map (drawRecord widths)
    let body := [rule '├' '┼' '┤' widths].intercalate bodies
    String.ofList <| ['\n'].intercalate <|
      rule '┌' '┬' '┐' widths :: body ++ [rule '└' '┴' '┘' widths]

end Grid

namespace Block

/-- The published rows as records of texts, under the types of the columns if these are asked
for. -/
def records (b : Block) (withTypes : Bool) : Checked (List (List String)) := do
  let rows ← (List.range b.length).mapM fun row ↦
    b.columns.mapM fun column ↦ do
      return match ← column.get row with
        | none => "Null"
        | some value => value.write
  return (if withTypes then [b.types.map DataType.name] else []) ++ rows

/-- The published rows drawn as a grid. -/
def draw (b : Block) (withTypes : Bool) : Checked String := do
  return Grid.draw (← b.records withTypes)

end Block

end Columnar
