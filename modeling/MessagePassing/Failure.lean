/-
  Message passing — how an operation can fail.

  An operation either refuses its input for a cause of the domain (`Error`,
  worded by `Error.message`) or meets a fault: a count that leaves the 64-bit
  range, or a row read past the end of the storage.  Faults carry no text,
  because nothing that an operation promises covers them.
-/
import MessagePassing.Graph.Widths

namespace MessagePassing

/-! ## Causes -/

/-- Row, column or width counts that do not line up. -/
inductive ShapeError where
  /-- The number of values of a `rows` by `cols` buffer is not a 64-bit count. -/
  | tooLarge (rows cols : Nat)
  /-- A flat sequence does not hold `rows` times `cols` values. -/
  | valueCount (rows cols given : Nat)
  /-- Row `row` of a list of rows has another width than the buffer. -/
  | rowWidth (row given cols : Nat)
  /-- The row to overwrite lies past the last one. -/
  | noSuchRow (row rows : Nat)
  /-- The values for row `row` are too few or too many. -/
  | rowValues (row given cols : Nat)
  /-- Two buffers to be put side by side have different row counts. -/
  | rowCounts (first other : Nat)
  /-- A column range that is reversed or ends past the last column. -/
  | columnRange (start stop cols : Nat)
  /-- The destinations of an aggregation are not one per source row. -/
  | destinationCount (entries rows : Nat)
  /-- Layer `layer` of a perceptron feeds a layer of another input width. -/
  | layerWidths (layer output input : Nat)
  /-- An adjacency with different numbers of senders and receivers. -/
  | endpointCounts (senders receivers : Nat)
  /-- The edge buffer does not have one row per edge of the adjacency. -/
  | edgeRows (rows edges : Nat)
  /-- The global buffer does not have exactly one row. -/
  | globalRows (rows : Nat)
  /-- Two graphs to be joined differ in the row count of one kind of entity. -/
  | graphRows (entity : String) (first other : Nat)
  /-- An update function without any input block. -/
  | noInputBlock
  /-- A description with a feature width of zero. -/
  | zeroWidth (widths : Widths)
  /-- An update function without layers. -/
  | noLayer (module : String)
  /-- An update function one of whose layers has no output. -/
  | emptyLayer (layer : Nat) (module : String)
  /-- A state whose widths are not those a model expects. -/
  | stateWidths (expected given : Widths)
  /-- A model that cannot follow the last model of a stack. -/
  | stackWidths (last : String) (output : Widths) (next : String) (input : Widths)
  /-- A part of a pipeline that is fed other widths than it expects. -/
  | pipelineWidths (part : String) (expected given : Widths)
  deriving DecidableEq, Repr

/-- Trained tensors that are absent or do not fit the declared layers. -/
inductive ParameterError where
  /-- No tensor has the name. -/
  | missing (name : String)
  /-- The tensor holds another number of values than the layer needs. -/
  | length (name : String) (given expected : Nat)
  /-- The tensor holds an infinity or a NaN. -/
  | notFinite (name : String) (position : Nat)
  /-- A weight sequence that does not fill an `input` by `output` matrix. -/
  | weightLength (given input output : Nat)
  /-- A bias sequence that is not one value per output. -/
  | biasLength (given output : Nat)
  /-- A perceptron without layers. -/
  | noLayers
  deriving DecidableEq, Repr

/-- A tag that names no known function. -/
inductive UnsupportedError where
  | activation (tag : String)
  | aggregator (tag : String)
  | updateFunction (tag : String)
  deriving DecidableEq, Repr

/-- An index that refers to no row, or adjacencies that differ. -/
inductive AdjacencyError where
  /-- Edge `edge` ends at a node that does not exist; `role` tells which end. -/
  | endpoint (edge : Nat) (role : String) (node nodes : Nat)
  /-- An aggregation destination past the last one. -/
  | destination (index segments : Nat)
  /-- Two graphs to be joined have different edges. -/
  | different
  deriving DecidableEq, Repr

/-- Why an operation refuses its input. -/
inductive Error where
  | shape (cause : ShapeError)
  | parameter (cause : ParameterError)
  | unsupported (cause : UnsupportedError)
  | adjacency (cause : AdjacencyError)
  deriving DecidableEq, Repr

/-! ## Wording -/

/-- The text of a shape error. -/
def ShapeError.message : ShapeError → String
  | tooLarge rows cols => s!"A {rows}x{cols} buffer does not fit in memory"
  | valueCount rows cols given =>
    s!"Could not construct TensorBuffer, expected data length to be {rows * cols} " ++
      s!"({rows}x{cols}), supplied data had length: {given}"
  | rowWidth row given cols => s!"Row {row} has {given} features, expected {cols}"
  | noSuchRow row rows => s!"Cannot set row {row}, buffer only has {rows} rows"
  | rowValues row given cols =>
    s!"Cannot set row {row}: got {given} values, buffer has {cols} columns"
  | rowCounts first other => s!"Cannot concatenate buffers with {first} and {other} rows"
  | columnRange start stop cols =>
    s!"Column range {start}..{stop} is outside of a buffer with {cols} columns"
  | destinationCount entries rows =>
    s!"aggregation index has {entries} entries for {rows} source rows"
  | layerWidths layer output input =>
    s!"MLP layer {layer} outputs {output} features but layer {layer + 1} expects {input}"
  | endpointCounts senders receivers => s!"{senders} senders but {receivers} receivers"
  | edgeRows rows edges =>
    s!"Edge buffer has {rows} rows but the adjacency lists {edges} edges"
  | globalRows rows => s!"Global buffer must have exactly one row, found {rows}"
  | graphRows entity first other =>
    s!"Cannot concatenate graphs with {first} and {other} {entity} rows"
  | noInputBlock => "every update function needs at least one input block"
  | zeroWidth widths => s!"feature widths must be positive, got {widths.describe}"
  | noLayer module => s!"update function '{module}' declares no layer"
  | emptyLayer layer module => s!"layer {layer} of update function '{module}' has zero width"
  | stateWidths expected given =>
    s!"model expects feature widths {expected.describe}, got {given.describe}"
  | stackWidths last output next input =>
    s!"model '{last}' outputs {output.describe} but '{next}' expects {input.describe}"
  | pipelineWidths part expected given =>
    s!"{part} expects {expected.describe} but is fed {given.describe}"

/-- The text of a parameter error. -/
def ParameterError.message : ParameterError → String
  | missing name => s!"tensor '{name}' is missing"
  | length name given expected => s!"tensor '{name}' has {given} values, expected {expected}"
  | notFinite name position => s!"tensor '{name}' holds a non finite value at position {position}"
  | weightLength given input output =>
    s!"Dense weight has {given} values, expected {input}x{output}"
  | biasLength given output => s!"Dense bias has {given} values, expected {output}"
  | noLayers => "an MLP needs at least one layer"

/-- The text of an unsupported tag. -/
def UnsupportedError.message : UnsupportedError → String
  | activation tag => s!"activation '{tag}' is not supported"
  | aggregator tag => s!"aggregator '{tag}' is not supported"
  | updateFunction tag => s!"update function '{tag}' is not supported"

/-- The text of an adjacency error. -/
def AdjacencyError.message : AdjacencyError → String
  | endpoint edge role node nodes =>
    s!"Edge {edge} has {role} {node}, but the graph only has {nodes} nodes"
  | destination index segments =>
    s!"aggregation index {index} is outside of {segments} destinations"
  | different => "Cannot concatenate graphs with different adjacency"

/-- The text of an error: its kind, then its cause. -/
def Error.message : Error → String
  | shape cause => "Shape mismatch: " ++ cause.message
  | parameter cause => "Parameter mismatch: " ++ cause.message
  | unsupported cause => "Unsupported function: " ++ cause.message
  | adjacency cause => "Invalid adjacency: " ++ cause.message

/-! ## Outcomes -/

/-- A breach of what the caller promised, or a count out of range.  That memory has an end is
    left out: a storage of so many values can be had as soon as their number is a count, also
    where its bytes would not fit into the address space. -/
inductive Fault where
  /-- A sum or product of counts left the 64-bit range. -/
  | countOverflow
  /-- A read past the end of the storage. -/
  | outOfRange
  deriving DecidableEq, Repr

/-- How an operation ends when it gives no result. -/
inductive Failure where
  | refused (error : Error)
  | fault (fault : Fault)
  deriving DecidableEq, Repr

/-- A result, or how the operation failed. -/
abbrev Outcome := Except Failure

/-- Refuse an input for its shape. -/
def refuseShape {α : Type} (cause : ShapeError) : Outcome α :=
  .error (.refused (.shape cause))

/-- Refuse a set of parameters. -/
def refuseParameter {α : Type} (cause : ParameterError) : Outcome α :=
  .error (.refused (.parameter cause))

/-- Refuse an adjacency. -/
def refuseAdjacency {α : Type} (cause : AdjacencyError) : Outcome α :=
  .error (.refused (.adjacency cause))

/-- Refuse a tag. -/
def refuseTag {α : Type} (cause : UnsupportedError) : Outcome α :=
  .error (.refused (.unsupported cause))

end MessagePassing
