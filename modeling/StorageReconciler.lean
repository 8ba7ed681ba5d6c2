import StorageReconciler.EmbeddedJson
import StorageReconciler.PartialFailure
import StorageReconciler.ReferencedObjects
import StorageReconciler.FileReferences
import StorageReconciler.ReconciliationRun
import StorageReconciler.Resumption
import StorageReconciler.KeptProgress
import StorageReconciler.Staleness
import StorageReconciler.CopyObjects
import StorageReconciler.CopyReport
import StorageReconciler.CopiedContents
import StorageReconciler.ArchivedContents
import StorageReconciler.AccountedObjects
import StorageReconciler.NamedBuckets
import StorageReconciler.MissingObjects
import StorageReconciler.DeletableReport
import StorageReconciler.UrlUpdateRuns
import StorageReconciler.UrlUpdateResumption
import StorageReconciler.RepeatedMigration
import StorageReconciler.RestoreFromArchive
import StorageReconciler.ArchiveLinks
import StorageReconciler.ArchiveJobs
import StorageReconciler.SingleArchiveRun
import StorageReconciler.JobStream
import StorageReconciler.LinkCheckProgress
import StorageReconciler.LinkCheckHosts
import StorageReconciler.ReportFiles
import StorageReconciler.ArchiveTallies
import StorageReconciler.MigrationReport
import StorageReconciler.MatchedReport
import StorageReconciler.MigratedRows
import StorageReconciler.PagedScans
import StorageReconciler.Foundations.FirstOccurrences
import StorageReconciler.CheckpointSaves
import StorageReconciler.KeptDestinations
import StorageReconciler.DeleteObjects
import StorageReconciler.LinkCheckFailures
import StorageReconciler.ExcludedRows
import StorageReconciler.SummaryReports
import StorageReconciler.DumpCleaning
import StorageReconciler.AclFallback
import StorageReconciler.ItemSnapshots
import StorageReconciler.SseStream
import StorageReconciler.ArchivePage
import StorageReconciler.RestoredContents
import StorageReconciler.CheckpointFiles
import StorageReconciler.ResumedCopy
import StorageReconciler.CopyHistory
import StorageReconciler.CleanupRuns
