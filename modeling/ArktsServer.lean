import ArktsServer.Client.SessionSafety
import ArktsServer.Core.BindingChain.Soundness
import ArktsServer.Semantic.RestartBudget
import ArktsServer.Sidecar.Completeness
import ArktsServer.Semantic.FreshnessSafety
import ArktsServer.Semantic.WorkerAnswers
import ArktsServer.Workspace.ContextFreshness
import ArktsServer.Store.ReferenceNames
import ArktsServer.Store.ExportSearch
import ArktsServer.Workspace.SymbolSearch
import ArktsServer.Lsp.DiagnosticsSafety
import ArktsServer.Store.ParsedBatches
import ArktsServer.Store.CacheHistory
import ArktsServer.Core.SourceResolutions
import ArktsServer.Sidecar.RelativeSources
import ArktsServer.Store.AutomaticCollection
import ArktsServer.Store.LastWord
import ArktsServer.Semantic.ContextResidency
import ArktsServer.Semantic.MutationAdmission
import ArktsServer.Core.BlockComments
import ArktsServer.Core.CompletionRanking
import ArktsServer.Semantic.BoundedOvertaking
import ArktsServer.Semantic.WorkConservation
import ArktsServer.Semantic.ReferenceTermination
import ArktsServer.Semantic.ReferenceTwins
import ArktsServer.Lsp.CoalescerSafety
import ArktsServer.Lsp.FileChangesReported
import ArktsServer.Core.VersionedSnapshot
import ArktsServer.Core.ResourceQueries
import ArktsServer.Lsp.ResolutionQueueSafety
import ArktsServer.Core.RenameEdits
import ArktsServer.Core.CheckedSlices
import ArktsServer.Workspace.CatalogScheduling
import ArktsServer.Sidecar.StreamProducer
