import TypeStream.Catalog.Graph
import TypeStream.Catalog.Session
import TypeStream.Encoding
import TypeStream.FileTree
import TypeStream.Main
import TypeStream.Proofs.AlignedCursors
import TypeStream.Proofs.AsciiBytes
import TypeStream.Proofs.BackwardReferences
import TypeStream.Proofs.CharsetChoice
import TypeStream.Proofs.CharsetRoundTrip
import TypeStream.Proofs.CoarserAlignment
import TypeStream.Proofs.Concatenation
import TypeStream.Proofs.CursorWindows
import TypeStream.Proofs.DumpLines
import TypeStream.Proofs.EdgeLines
import TypeStream.Proofs.FailingWalks
import TypeStream.Proofs.FrameFaults
import TypeStream.Proofs.FrameIsolation
import TypeStream.Proofs.Framing
import TypeStream.Proofs.IndexNumerals
import TypeStream.Proofs.LenientStream
import TypeStream.Proofs.LosslessTables
import TypeStream.Proofs.NameSplit
import TypeStream.Proofs.OwnIndices
import TypeStream.Proofs.Padding
import TypeStream.Proofs.Placeholders
import TypeStream.Proofs.PrintedOutput
import TypeStream.Proofs.Reads
import TypeStream.Proofs.RecordRoundTrip
import TypeStream.Proofs.RegisteredDecoders
import TypeStream.Proofs.Rendering
import TypeStream.Proofs.RenderingContexts
import TypeStream.Proofs.RenderingSessions
import TypeStream.Proofs.RequiredNames
import TypeStream.Proofs.RewrittenNames
import TypeStream.Proofs.Runs
import TypeStream.Proofs.ShapeLayout
import TypeStream.Proofs.SingleLines
import TypeStream.Proofs.StoredNames
import TypeStream.Proofs.StreamOutcome
import TypeStream.Proofs.StreamRoundTrip
import TypeStream.Proofs.StrictDump
import TypeStream.Proofs.StrictStream
import TypeStream.Proofs.TableLayout
import TypeStream.Proofs.TrailHistory
import TypeStream.Proofs.UndecodedFrames
import TypeStream.Proofs.Utf8
import TypeStream.Proofs.Utf8Pieces
