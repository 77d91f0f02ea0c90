/-
  Message passing — encode, process, decode.

  A pipeline encodes a graph once.  Every step feeds the encoded graph side by side
  with the latest latent graph to the core, whose result is the next latent graph;
  each of these is decoded, and transformed if there is a transform.
-/
import MessagePassing.Stack
import MessagePassing.Text.Quoted

namespace MessagePassing

/-- An encoder, a core that runs once per step, a decoder and perhaps a transform of
    what is decoded. -/
structure Pipeline where
  encoder : Component
  core : Component
  decoder : Component
  transform : Option Component

/-- A part of a pipeline is fed what it expects. -/
def checkFed (part : String) (expected given : Widths) : Outcome Unit :=
  if expected = given then .ok () else refuseShape (.pipelineWidths part expected given)

namespace Pipeline

/-- A pipeline without transform.  The core reads two encoded graphs side by side and
    gives one; the decoder reads what the core gives. -/
def ofParts (encoder core decoder : Component) : Outcome Pipeline := do
  let latent := encoder.outputWidths
  checkFed "core" core.inputWidths (← latent.add latent)
  checkFed "core output" latent core.outputWidths
  checkFed "decoder" decoder.inputWidths core.outputWidths
  pure ⟨encoder, core, decoder, none⟩

/-- The pipeline with a transform of what the decoder gives. -/
def withTransform (p : Pipeline) (transform : Component) : Outcome Pipeline := do
  checkFed "output transform" transform.inputWidths p.decoder.outputWidths
  pure { p with transform := some transform }

/-- The features of the states that the pipeline reads. -/
def inputWidths (p : Pipeline) : Widths := p.encoder.inputWidths

/-- The features of the states that the pipeline gives. -/
def outputWidths (p : Pipeline) : Widths := (p.transform.getD p.decoder).outputWidths

/-- The next latent graph. -/
def process (p : Pipeline) (encoded latent : State) : Outcome State := do
  p.core.infer (← encoded.concatenate latent)

/-- What a latent graph is decoded to. -/
def decode (p : Pipeline) (latent : State) : Outcome State := do
  let decoded ← p.decoder.infer latent
  match p.transform with
  | none => pure decoded
  | some transform => transform.infer decoded

/-- The decoded graphs of the steps after a latent graph. -/
def steps (p : Pipeline) (encoded : State) : Nat → State → Outcome (List State)
  | 0, _ => pure []
  | n + 1, latent => do
    let next ← p.process encoded latent
    let decoded ← p.decode next
    pure (decoded :: (← p.steps encoded n next))

/-- One decoded graph per step. -/
def run (p : Pipeline) (input : State) (count : Nat) : Outcome (List State) := do
  let encoded ← p.encoder.tryInfer input
  p.steps encoded count encoded

/-! ## Description -/

/-- The parts of the pipeline. -/
def describe (p : Pipeline) : String :=
  let encoder := Text.quote p.encoder.describe
  let core := Text.quote p.core.describe
  let decoder := Text.quote p.decoder.describe
  let transform := match p.transform with
    | none => "None"
    | some t => s!"Some({Text.quote t.describe})"
  s!"EncodeProcessDecode \x7b encoder: {encoder}, core: {core}, decoder: {decoder}, " ++
    s!"output_transform: {transform} \x7d"

end Pipeline

end MessagePassing
