import ByteSignature.Palette
import ByteSignature.Table.Basic

/-!
# Tables as listings

A listing is meant for reading.  Every state with entries has a heading, below which
stands one line for each entry; an entry that accepts says so at its end.
-/

namespace ByteSignature.Table

/-- The heading of a state. -/
def renderHeading (palette : Palette) (state : UInt16) : String :=
  palette.state ++ toString state.toNat ++ palette.reset ++ palette.dim ++ ":" ++
    palette.reset ++ "\n"

/-- The line of an entry. -/
def renderRow (palette : Palette) (entry : Entry) : String :=
  let accept :=
    if entry.accept = 0 then ""
    else "  " ++ palette.accept ++ "accept " ++ toString entry.accept.toNat ++ palette.reset
  "  " ++ palette.symbol ++ Symbol.format entry.symbol ++ palette.reset ++ " " ++
    palette.dim ++ "->" ++ palette.reset ++ " " ++ palette.state ++
    toString entry.next.toNat ++ palette.reset ++ accept ++ "\n"

/-- The lines of some entries.  `current` is the state of the heading above. -/
def renderRows (palette : Palette) : (current : Option UInt16) → List Entry → List String
  | _, [] => []
  | current, entry :: entries =>
      let heading :=
        if current = some entry.state then [] else [renderHeading palette entry.state]
      heading ++ renderRow palette entry :: renderRows palette (some entry.state) entries

/-- The listing of a table. -/
def renderListing (palette : Palette) (table : Table) : String :=
  String.join (renderRows palette none table.entries)

end ByteSignature.Table
