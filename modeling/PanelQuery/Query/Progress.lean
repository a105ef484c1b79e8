import PanelQuery.Number.Scalar

/-! # Progress

How far a request is, as its last message told.

* **`Progress`** — a message and the part that is done;
* **`ProgressBoard`** — the last message of each request. -/

namespace PanelQuery

/-- A message on how far a request is. -/
structure Progress where
  message : String
  /-- The part that is done. -/
  fraction : Float

/-- The messages of requests, the last one first. -/
abbrev ProgressBoard := List (String × Progress)

namespace ProgressBoard

/-- `report board request p`: the board with one more message, whose part is held between nothing
and all. -/
def report (board : ProgressBoard) (request : String) (p : Progress) : ProgressBoard :=
  (request, { p with fraction := Scalar.clamp 0 1 p.fraction }) :: board

/-- `reportAll board request ps`: the board with more messages of one request, one after the
other. -/
def reportAll (board : ProgressBoard) (request : String) (ps : List Progress) : ProgressBoard :=
  ps.foldl (fun board p => board.report request p) board

/-- `latest? board request`: the last message of a request. -/
def latest? (board : ProgressBoard) (request : String) : Option Progress := board.lookup request

end ProgressBoard

end PanelQuery
