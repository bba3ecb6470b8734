import Scene.Proofs.Editing.Model
import Scene.Proofs.Editing.World
import Scene.Proofs.Frames.Alike
import Scene.Proofs.Loaded
import Scene.Proofs.Markup.Reproduced
import Scene.Proofs.Number.Bits
import Scene.Proofs.Number.Text
import Scene.Proofs.Tolerated
import Scene.Proofs.Writing.Document
import Scene.Reading.Document
import Scene.Writing.Document
import Scene.Proofs.Frames.Change
import Scene.Proofs.Editing.Document
import Scene.Proofs.Reading.Names
import Scene.Proofs.Reading.Grows
import Scene.Proofs.Reading.Locality
import Scene.Proofs.Editing.Built
import Scene.Proofs.Frames.CanonicalBody
import Scene.Proofs.Frames.Extension
import Scene.Proofs.Frames.Order
import Scene.Proofs.Frames.Standing
import Scene.Proofs.Editing.Link
import Scene.Proofs.Frames.Default
import Scene.Proofs.Frames.Cycle
import Scene.Proofs.Frames.Fresh
import Scene.Proofs.Editing.Owner
import Scene.Proofs.Writing.Unknown
import Scene.Proofs.Editing.Worlds
import Scene.Proofs.Frames.Axis
import Scene.Proofs.Writing.Script
import Scene.Proofs.Frames.Arena
import Scene.Proofs.Editing.Element
