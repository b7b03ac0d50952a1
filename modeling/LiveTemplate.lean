import LiveTemplate.Client.Apply
import LiveTemplate.Eval.Builtin
import LiveTemplate.Key.Position
import LiveTemplate.Page.Basic
import LiveTemplate.Proofs.Action.Escapes
import LiveTemplate.Proofs.Action.PipelineReader
import LiveTemplate.Proofs.Action.TokenReader
import LiveTemplate.Proofs.Client.Confined
import LiveTemplate.Proofs.Client.Root
import LiveTemplate.Proofs.Eval.Format
import LiveTemplate.Proofs.Eval.ShortCircuit
import LiveTemplate.Proofs.Key.Order
import LiveTemplate.Proofs.Page.Fleet
import LiveTemplate.Proofs.Page.Session
import LiveTemplate.Proofs.Render.Conform
import LiveTemplate.Proofs.Render.Flattened
import LiveTemplate.Proofs.Render.Frames
import LiveTemplate.Proofs.Render.Names
import LiveTemplate.Proofs.Render.Reordered
import LiveTemplate.Proofs.Render.Validation
import LiveTemplate.Proofs.Template.Addressable
import LiveTemplate.Proofs.Template.Delimiters
import LiveTemplate.Proofs.Text.Escape
import LiveTemplate.Proofs.Update.Candidates
import LiveTemplate.Proofs.Update.Cost
import LiveTemplate.Proofs.Update.Levels
import LiveTemplate.Proofs.Update.ListEconomy
import LiveTemplate.Proofs.Update.Measure
import LiveTemplate.Proofs.Update.Order
import LiveTemplate.Proofs.Update.Places
import LiveTemplate.Proofs.Update.Positions
import LiveTemplate.Proofs.Update.Shapes
import LiveTemplate.Render.Text
