import LayerLint.Style.Catalogue

/-!
# The table of styles

A title, a head and one row for every style, in a frame whose lines around the head are heavy.
-/

namespace LayerLint.Command

def styleTitle : String := "Architecture Styles"

def styleHead : List String := ["Id", "Name", "Layers", "Stacks"]

def styleRow (d : Style.Definition) : List String :=
  [d.style.id, d.name, ", ".intercalate d.layerNames, ", ".intercalate d.profiles]

def styleRows (definitions : List Style.Definition) : List (List String) :=
  styleHead :: definitions.map styleRow

/-- The width of every column: that of its widest cell. -/
def columnWidths (rows : List (List String)) : List Nat :=
  (List.range styleHead.length).map fun i =>
    (rows.map fun row => (row.getD i "").length).foldl max 0

def blanks (n : Nat) : String := String.ofList (List.replicate n ' ')

/-- A text between as many blanks as fill a line; the odd one stands behind it. -/
def centred (width : Nat) (text : String) : String :=
  let free := width - text.length
  blanks (free / 2) ++ text ++ blanks (free - free / 2)

def rowLine (bar : String) (widths : List Nat) (row : List String) : String :=
  bar ++ String.join ((widths.zip row).map fun (width, cell) =>
    " " ++ cell ++ blanks (width - cell.length) ++ " " ++ bar)

/-- A line of the frame: its start, its stroke, where columns meet, and its end. -/
def frameLine (start stroke joint finish : String) (widths : List Nat) : String :=
  start
    ++ joint.intercalate (widths.map fun width => String.join (List.replicate (width + 2) stroke))
    ++ finish

/-- The table as text, every line ended. -/
def styleTable (definitions : List Style.Definition) : String :=
  let widths := columnWidths (styleRows definitions)
  let whole := (frameLine "" " " " " "" widths).length + 2
  let lines :=
    [centred whole styleTitle, frameLine "┏" "━" "┳" "┓" widths, rowLine "┃" widths styleHead,
      frameLine "┡" "━" "╇" "┩" widths]
    ++ definitions.map (fun d => rowLine "│" widths (styleRow d))
    ++ [frameLine "└" "─" "┴" "┘" widths]
  String.join (lines.map (· ++ "\n"))

end LayerLint.Command
