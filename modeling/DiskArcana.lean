import DiskArcana.Core.RenameLaws
import DiskArcana.System.ServerDelete
import DiskArcana.System.Recreate
import DiskArcana.System.DeletionSticks
import DiskArcana.System.NoLostUpdate
import DiskArcana.Client.Confinement
import DiskArcana.Client.Resolve
import DiskArcana.System.Simulation
import DiskArcana.System.LocalEdits
import DiskArcana.System.Excluded
import DiskArcana.System.FailedScan
import DiskArcana.System.Ancestor
import DiskArcana.System.ForkReports
import DiskArcana.System.Clocks
import DiskArcana.Hosting.Agreement
import DiskArcana.Hosting.Tenants
import DiskArcana.Publisher.Counter
import DiskArcana.Hosting.PublisherGate
import DiskArcana.Enrollment.Tokens
import DiskArcana.ShareIndex.Flat
import DiskArcana.Accounts.Identity
import DiskArcana.Vault.AgentLock
import DiskArcana.Vault.Nonces
import DiskArcana.Vault.SnapshotLaw
import DiskArcana.Storage.TaskLaw
import DiskArcana.Tenancy.OneRow
import DiskArcana.Compliance.Erasure
import DiskArcana.Sharing.InviteLaw
import DiskArcana.Personal.JournalLaw
import DiskArcana.System.LanContent
import DiskArcana.Client.ManualSync
import DiskArcana.Client.Reload
import DiskArcana.Nodes.Quota
import DiskArcana.Nodes.Registration
import DiskArcana.Publisher.Rejected
import DiskArcana.Hosting.Hidden
import DiskArcana.System.RescanLaw
import DiskArcana.Client.ForkWrite
import DiskArcana.Client.Watcher
import DiskArcana.Core.Archive
import DiskArcana.Delta.Reconcile
import DiskArcana.Scanner.Rename
import DiskArcana.Server.BombGuard
import DiskArcana.Server.PathKeys
import DiskArcana.Server.VClock
import DiskArcana.Acl.Fingerprint
import DiskArcana.Core.Calendar
import DiskArcana.Personal.Receipts
import DiskArcana.Nodes.RateLimit
import DiskArcana.Storage.PrefixList
import DiskArcana.Core.Freshness
import DiskArcana.Provider.Retry
import DiskArcana.Webhooks.Delivery
import DiskArcana.Webhooks.Stripe
import DiskArcana.Tenancy.Retention
import DiskArcana.Keys.EscrowLaw
