import RootCx.Lib.JsonValue

/-! # Items and expressions

A node's output is stored as a list of ports, each a list of items.  Parameters of
a node may hold `\x7b\x7b expression \x7d\x7d` blocks, which are evaluated as JavaScript
over the node's input and the outputs of other nodes.  The JavaScript engine is a
parameter; one context serves all the blocks of a parameter tree, in turn.
-/

namespace RootCx.Workflow

/-- One data item that flows between nodes. -/
structure Item where
  json : Json

namespace Items

/-- Node output (items per port) in the stored format. -/
def encode (output : List (List Item)) : Json :=
  .arr (output.map fun port => .arr (port.map fun item => .obj [("json", item.json)]))

/-- The items of one port.  Anything but a list of ports is a single item. -/
def decodePort (output : Json) (port : UInt8) : List Item :=
  match output with
  | .arr ports =>
    match ports[port.toNat]? with
    | some (.arr items) => items.map fun v => ⟨(v.get "json").getD v⟩
    | _ => []
  | .null => []
  | value => [⟨value⟩]

/-- Which output ports carry at least one item. -/
def activePorts (output : Json) : List UInt8 :=
  match output with
  | .arr ports =>
    (ports.zipIdx.filter fun port => match port.1 with
      | .arr items => !items.isEmpty
      | _ => false).map fun port => UInt8.ofNat port.2
  | _ => []

def nodeItemJson (output : Json) (port : UInt8) (index : Nat) : Json :=
  ((((output.asArray.bind (·[port.toNat]?)).bind Json.asArray).bind (·[index]?)).bind
    (Json.get "json")).getD .null

end Items

namespace Expr

/-- The JavaScript engine: a context with `$json` and `$input` (one value) and `$node`
    registered, and the evaluation of one expression in it.  What fails is `null`. -/
structure Engine where
  Context : Type
  context : Json → (Text → Option Json) → Context
  eval : Context → Text → Json × Context

/-- The text in front of the first occurrence of a pattern, and the text behind it. -/
def cut (pattern : Text) : Text → Option (Text × Text)
  | [] => if pattern = [] then some ([], []) else none
  | c :: rest =>
    if pattern.isPrefixOf (c :: rest) then some ([], (c :: rest).drop pattern.length)
    else (cut pattern rest).map fun found => (c :: found.1, found.2)

def opening : Text := ['\x7b', '\x7b']

def closing : Text := ['\x7d', '\x7d']

variable (engine : Engine)

def evalJs (expr : Text) (ctx : engine.Context) : Json × engine.Context :=
  if expr = [] then (.null, ctx) else engine.eval ctx expr

def rendered : Json → Text
  | .str text => text
  | .null => "null"
  | value => value.compact

/-- Literal text and evaluated blocks in turn.  Every round passes an opening, so
    the length of the text bounds the rounds. -/
def interpolate : Nat → Text → engine.Context → Text × engine.Context
  | 0, rest, ctx => (rest, ctx)
  | fuel + 1, rest, ctx =>
    match cut opening rest with
    | none => (rest, ctx)
    | some (literal, after) =>
      match cut closing after with
      | some (expr, rest) =>
        let (value, ctx) := evalJs engine (Text.trim expr) ctx
        let (tail, ctx) := interpolate fuel rest ctx
        (literal ++ rendered value ++ tail, ctx)
      | none =>
        let (tail, ctx) := interpolate fuel after ctx
        (literal ++ opening ++ tail, ctx)

def resolveString (s : Text) (ctx : engine.Context) : Json × engine.Context :=
  let trimmed := Text.trim s
  match (if opening.isPrefixOf trimmed then (trimmed.drop 2).dropSuffix? closing else none) with
  | some expr => evalJs engine (Text.trim expr) ctx
  | none =>
    if (cut opening trimmed).isSome && (cut closing trimmed).isSome then
      let (result, ctx) := interpolate engine s.length s ctx
      (.str result, ctx)
    else (.str s, ctx)

mutual

def resolveTree : Json → engine.Context → Json × engine.Context
  | .str s, ctx => resolveString engine s ctx
  | .obj entries, ctx => let (entries, ctx) := resolveEntries entries ctx; (.obj entries, ctx)
  | .arr items, ctx => let (items, ctx) := resolveItems items ctx; (.arr items, ctx)
  | value, ctx => (value, ctx)

def resolveItems : List Json → engine.Context → List Json × engine.Context
  | [], ctx => ([], ctx)
  | item :: rest, ctx =>
    let (item, ctx) := resolveTree item ctx
    let (rest, ctx) := resolveItems rest ctx
    (item :: rest, ctx)

def resolveEntries : List (Text × Json) → engine.Context → List (Text × Json) × engine.Context
  | [], ctx => ([], ctx)
  | (key, value) :: rest, ctx =>
    let (value, ctx) := resolveTree value ctx
    let (rest, ctx) := resolveEntries rest ctx
    ((key, value) :: rest, ctx)

end

/-- A node's entry in `$node`: its first item on port 0, or the stored value itself
    where that is not in the format of ports. -/
def nodeJson (stored : Json) : Json :=
  let first := Items.nodeItemJson stored 0 0
  let ported := ((stored.asArray.bind List.head?).bind Json.asArray).isSome
  .obj [("json", if first.isNull && !ported then stored else first)]

/-- Resolve the expression bindings of a parameter tree. -/
def resolve (value input : Json) (outputs : Text → Option Json) : Json :=
  (resolveTree engine value (engine.context input fun id => (outputs id).map nodeJson)).1

end Expr

end RootCx.Workflow
