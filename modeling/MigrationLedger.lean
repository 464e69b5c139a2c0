import MigrationLedger.Main
import MigrationLedger.Proofs.AcceptedTable
import MigrationLedger.Proofs.AllOrNothing
import MigrationLedger.Proofs.AnyStore
import MigrationLedger.Proofs.Backends
import MigrationLedger.Proofs.CompleteLog
import MigrationLedger.Proofs.CreationRace
import MigrationLedger.Proofs.GivingUp
import MigrationLedger.Proofs.GrantedLease
import MigrationLedger.Proofs.JsonRounding
import MigrationLedger.Proofs.JsonText
import MigrationLedger.Proofs.KeptLease
import MigrationLedger.Proofs.KeyLayout
import MigrationLedger.Proofs.LeaseLength
import MigrationLedger.Proofs.LoneProvision
import MigrationLedger.Proofs.PointReads
import MigrationLedger.Proofs.Readiness
import MigrationLedger.Proofs.RecordReading
import MigrationLedger.Proofs.Recreation
import MigrationLedger.Proofs.RedisKeys
import MigrationLedger.Proofs.RefreshTiming
import MigrationLedger.Proofs.ReleaseRace
import MigrationLedger.Proofs.RevisionReadings
import MigrationLedger.Proofs.Revival
import MigrationLedger.Proofs.SaveOrder
import MigrationLedger.Proofs.SaveRounds
import MigrationLedger.Proofs.ScriptRun
import MigrationLedger.Proofs.ServerCalls
import MigrationLedger.Proofs.ShortenedLease
import MigrationLedger.Proofs.ShownOrder
import MigrationLedger.Proofs.Solitude
import MigrationLedger.Proofs.TimeArithmetic
import MigrationLedger.Proofs.WaitingForLease
import MigrationLedger.Scenario.Timeline
