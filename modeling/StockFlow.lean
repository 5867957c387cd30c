import StockFlow.Dependency.Graph
import StockFlow.Dependency.Influence
import StockFlow.Dependency.Order
import StockFlow.Draft
import StockFlow.Execution.Run
import StockFlow.Execution.Summary
import StockFlow.Proofs.Execution.Runs
import StockFlow.Proofs.Validation.Exactness
import StockFlow.Proofs.World.Calls
import StockFlow.Proofs.World.Noninterference
import StockFlow.Proofs.World.Rounds
import StockFlow.Raised
import StockFlow.Service.Request
import StockFlow.Validation.Report
import StockFlow.Value.Json
import StockFlow.World.Numbering
import StockFlow.World.Wiring
import StockFlow.Proofs.World.Lifecycle
import StockFlow.Proofs.World.References
import StockFlow.Proofs.World.Isolation
import StockFlow.Proofs.World.Locality
import StockFlow.Proofs.Execution.NonFiniteLevels
import StockFlow.Proofs.World.AcceptedTexts
import StockFlow.Proofs.Service.Failures
import StockFlow.Proofs.World.Refusals
import StockFlow.Proofs.World.FlowLaws
import StockFlow.Proofs.World.Removals
import StockFlow.Proofs.World.TextSymbols
import StockFlow.Proofs.Dependency.Evaluation
import StockFlow.Proofs.Dependency.GraphEdges
import StockFlow.Proofs.Dependency.LeastReach
import StockFlow.Proofs.World.Mirrors
import StockFlow.Proofs.Formula.Renaming
import StockFlow.Proofs.Service.Elements
import StockFlow.Proofs.Service.Reordering
import StockFlow.Proofs.Service.ElementOrder
import StockFlow.Proofs.Service.Faithfulness
import StockFlow.Proofs.World.TextSentences
import StockFlow.Proofs.World.MinimalBrackets
