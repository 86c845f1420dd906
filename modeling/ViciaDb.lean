import ViciaDb.Db.Acknowledged
import ViciaDb.Db.AsOfViews
import ViciaDb.Db.AttributeIsolation
import ViciaDb.Db.ConcurrentReads
import ViciaDb.Db.RetriedReads
import ViciaDb.Graph.OverlayAtomic
import ViciaDb.Graph.Reducers
import ViciaDb.Query.AsOfStable
import ViciaDb.Query.ExprPanics
import ViciaDb.Query.Fixpoint
import ViciaDb.Query.PreparedProofs
import ViciaDb.Query.Stratification
import ViciaDb.Query.ValueLaws
import ViciaDb.Query.WhereMeaning
import ViciaDb.Query.WindowRank
import ViciaDb.Session.Answers
import ViciaDb.Storage.BaseCatalog
import ViciaDb.Storage.DeltaFormat
import ViciaDb.Storage.EntityLookup
import ViciaDb.Storage.FileLock
import ViciaDb.Storage.HeaderRoundTrip
import ViciaDb.Storage.PackedRoundTrip
import ViciaDb.Storage.PageCache
import ViciaDb.Storage.PendingOrder
import ViciaDb.Storage.SavedFacts
import ViciaDb.Storage.TornCheckpoint
import ViciaDb.Wal.TornTail
