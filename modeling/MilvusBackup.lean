import MilvusBackup.GoStrings
import MilvusBackup.Proto
import MilvusBackup.Meta
import MilvusBackup.World
import MilvusBackup.Fill
import MilvusBackup.CopySegment
import MilvusBackup.Prepare
import MilvusBackup.Execute
import MilvusBackup.Retry
import MilvusBackup.Create
import MilvusBackup.Pools
import MilvusBackup.Sizes
import MilvusBackup.Completeness
import MilvusBackup.Sharing
import MilvusBackup.Read
import MilvusBackup.Lifecycle
import MilvusBackup.Guarantees
import MilvusBackup.Commands
