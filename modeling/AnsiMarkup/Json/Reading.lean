import AnsiMarkup.Json.Token

namespace AnsiMarkup

namespace Json

/-- A list or record whose end has not been met; list items are kept newest first. -/
inductive Container
  | list (items : List Value)
  | record (entries : Record Value) (key : Text)
  deriving Repr

/-- What may come next, inside the containers that are open, innermost first. -/
inductive Expectation
  | value (outer : List Container)
  | firstItem (outer : List Container)
  | firstKey (outer : List Container)
  | nextKey (entries : Record Value) (outer : List Container)
  | colon (entries : Record Value) (key : Text) (outer : List Container)
  | afterItem (items : List Value) (outer : List Container)
  | afterMember (entries : Record Value) (outer : List Container)
  | done (value : Value)
  deriving Repr

namespace Expectation

def complete (value : Value) : List Container → Expectation
  | [] => .done value
  | .list items :: outer => .afterItem (value :: items) outer
  | .record entries key :: outer => .afterMember (Record.put key value entries) outer

def startValue (outer : List Container) : Token → Option Expectation
  | .openList => some (.firstItem outer)
  | .openRecord => some (.firstKey outer)
  | .text t => some (complete (.text t) outer)
  | .scalar v => some (complete v outer)
  | _ => none

def step : Expectation → Token → Option Expectation
  | .value outer, token => startValue outer token
  | .firstItem outer, .closeList => some (complete (.list []) outer)
  | .firstItem outer, token => startValue (.list [] :: outer) token
  | .firstKey outer, .closeRecord => some (complete (.record []) outer)
  | .firstKey outer, .text key => some (.colon [] key outer)
  | .nextKey entries outer, .text key => some (.colon entries key outer)
  | .colon entries key outer, .colon => some (.value (.record entries key :: outer))
  | .afterItem items outer, .comma => some (.value (.list items :: outer))
  | .afterItem items outer, .closeList => some (complete (.list items.reverse) outer)
  | .afterMember entries outer, .comma => some (.nextKey entries outer)
  | .afterMember entries outer, .closeRecord => some (complete (.record entries) outer)
  | _, _ => none

end Expectation

def read? (text : Text) : Option Value := do
  let tokens ← tokens? text
  match ← tokens.foldlM Expectation.step (.value []) with
  | .done value => some value
  | _ => none

end Json

end AnsiMarkup
