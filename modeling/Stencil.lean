import Stencil.Main
import Stencil.Proofs.Scanning
import Stencil.Proofs.Matching
import Stencil.Proofs.StackPass
import Stencil.Proofs.ElseBlocks
import Stencil.Proofs.Regions
import Stencil.Proofs.BetweenTags
import Stencil.Proofs.OneParse
import Stencil.Proofs.Markup
import Stencil.Proofs.MarkupLinks
import Stencil.Proofs.MarkupMeaning
import Stencil.Proofs.FaultPlaces
import Stencil.Proofs.SimilarScopes
import Stencil.Proofs.DistinctNames
import Stencil.Proofs.ScopeMaps
import Stencil.Proofs.ScopeHistories
import Stencil.Proofs.OpenPasses
import Stencil.Proofs.DepthLimit
import Stencil.Proofs.PassBounds
import Stencil.Proofs.Copies
import Stencil.Proofs.CopiedReadings
import Stencil.Proofs.ScannedStretches
import Stencil.Proofs.JoinedSources
import Stencil.Proofs.ClosedTags
import Stencil.Proofs.PastedFiles
import Stencil.Proofs.LossyText
import Stencil.Proofs.Respelling
import Stencil.Proofs.CanonicalSource
import Stencil.Proofs.ChainLists
import Stencil.Proofs.LaterSources
import Stencil.Proofs.WrittenFiles
import Stencil.Proofs.AllOrNothing
import Stencil.Proofs.DecodedLines
import Stencil.Proofs.DiagnosticLines
import Stencil.Proofs.ArgumentReading
import Stencil.Proofs.LeftOutName
import Stencil.Proofs.SortedCatalogues
import Stencil.Proofs.GreenRuns
import Stencil.Proofs.WellFormedText
import Stencil.Proofs.ChainOctets
import Stencil.Proofs.ExactFixtures
import Stencil.Proofs.FixtureParts
import Stencil.Proofs.LoopShapes
import Stencil.Proofs.PathOrder
import Stencil.Proofs.FoundFixtures
