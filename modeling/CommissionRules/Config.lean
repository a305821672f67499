import CommissionRules.Json.Decode
import CommissionRules.Number.Rounding

/-!
# Configuration

The limits on one evaluation and the places of new nodes on the canvas, with their defaults.
-/

namespace CommissionRules

/-- Limits on one evaluation: the depth of nodes, the number of steps, and milliseconds. -/
structure Budget where
  maxDepth : Nat
  maxSteps : Nat
  timeout : Nat
deriving DecidableEq, Repr

namespace Budget

def standard : Budget := ⟨64, 1000000, 1000⟩

end Budget

/-- Where nodes are placed.  A root node lies at the base, moved once for each node of its type
made before; the other places are relative to the group around a node. -/
structure Layout where
  baseX : Number
  baseY : Number
  dx : Number
  dy : Number
  nestedX : Number
  nestedY : Number
  operatorY : Number
  nameX : Number
  nameY : Number
deriving DecidableEq

namespace Layout

def coordinates (layout : Layout) : List Number :=
  [layout.baseX, layout.baseY, layout.dx, layout.dy, layout.nestedX, layout.nestedY,
    layout.operatorY, layout.nameX, layout.nameY]

/-- The places of the nodes of a canvas that nothing is known of. -/
def standard : Layout :=
  ⟨.ofNat 100, .ofNat 100, .ofNat 50, .ofNat 50, .ofNat 20, .ofNat 60, .ofNat 140, .ofNat 10,
    .ofNat 10⟩

end Layout

structure Config where
  budget : Budget
  layout : Layout
deriving DecidableEq

namespace Config

def standard : Config := ⟨.standard, .standard⟩

end Config

/-! ## Reading -/

open Json (Raw)

/-- Reads a budget; what is missing stays as it is by default. -/
def Budget.ofRaw? (raw : Raw) : Option Budget := do
  match ← raw.structure? ["maxDepth", "maxSteps", "timeoutMs"] with
  | [depth, steps, timeout] =>
      return { maxDepth := ← Raw.withDefault Budget.standard.maxDepth Raw.natural? depth
               maxSteps := ← Raw.withDefault Budget.standard.maxSteps Raw.natural? steps
               timeout := ← Raw.withDefault Budget.standard.timeout Raw.natural? timeout }
  | _ => none

def Layout.names : List String :=
  ["baseX", "baseY", "dx", "dy", "nestedX", "nestedY", "operatorY", "nameX", "nameY"]

/-- Reads a layout; what is missing stays as it is by default. -/
def Layout.ofRaw? (raw : Raw) : Option Layout := do
  let parts ← raw.structure? Layout.names
  let coordinates ← (Layout.standard.coordinates.zip parts).mapM fun (default, part) =>
    Raw.withDefault default Raw.number? part
  match coordinates with
  | [baseX, baseY, dx, dy, nestedX, nestedY, operatorY, nameX, nameY] =>
      return ⟨baseX, baseY, dx, dy, nestedX, nestedY, operatorY, nameX, nameY⟩
  | _ => none

namespace Config

def ofRaw? (raw : Raw) : Option Config := do
  match ← raw.structure? ["budget", "layout"] with
  | [budget, layout] =>
      return { budget := ← Raw.withDefault Budget.standard Budget.ofRaw? budget
               layout := ← Raw.withDefault Layout.standard Layout.ofRaw? layout }
  | _ => none

def read? (text : String) : Option Config := (Raw.read? text).bind ofRaw?

end Config

end CommissionRules
