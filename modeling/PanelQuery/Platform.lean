import PanelQuery.Number.Overflow
import PanelQuery.Time.NewYork

/-! # Platforms

What the engine is built and run with, and does not decide itself.

* **`Platform`** — the clocks of New York, and what becomes of sums of 64 bits. -/

namespace PanelQuery

/-- What the engine is built and run with. -/
structure Platform where
  /-- How far the clocks of New York are behind UTC. -/
  zone : Zone := newYork
  /-- What a sum in an index comes to that has no 64 bits. -/
  overflow : Overflow := .wraps

end PanelQuery
