import SentinelPass.Audit.Tamper
import SentinelPass.Crypto.Passwords
import SentinelPass.Custody.Delivery
import SentinelPass.Daemon.AllowlistRuns
import SentinelPass.Daemon.AuditKeys
import SentinelPass.Daemon.AutoLock
import SentinelPass.Daemon.Logins
import SentinelPass.Daemon.Scopes
import SentinelPass.Ipc.Approvals
import SentinelPass.Ipc.Enrollment
import SentinelPass.Ipc.Exchange
import SentinelPass.Relay.Replay
import SentinelPass.Relay.Retry
import SentinelPass.Relay.Revoked
import SentinelPass.Relay.Throttle
import SentinelPass.SecureIo.Publication
import SentinelPass.Sync.Cursor
import SentinelPass.Sync.Padding
import SentinelPass.Sync.PageOrder
import SentinelPass.Sync.StaleEpoch
import SentinelPass.System.Rebaseline
import SentinelPass.Vault.Documents
import SentinelPass.Vault.Lockout
import SentinelPass.Vault.MigrationRuns
import SentinelPass.Vault.Reads
import SentinelPass.Vault.ReceiptJournal
import SentinelPass.Vault.Registry
import SentinelPass.Vault.RegistryTamper
import SentinelPass.Vault.Rotation
