import HeapScan.ClassFile.Rewriting
import HeapScan.ClassFile.TrackerEntries
import HeapScan.ClassFile.Methods
import HeapScan.ClassFile.Classes
import HeapScan.ClassFile.Scopes
import HeapScan.ClassFile.Transparency
import HeapScan.MessageStore.Interrupted
import HeapScan.MessageStore.Limits
import HeapScan.MessageStore.Lines
import HeapScan.MessageStore.Merging
import HeapScan.MessageStore.Overflow
import HeapScan.Options
import HeapScan.Socket.Commands
import HeapScan.Socket.Lifecycle
import HeapScan.Socket.Stream
import HeapScan.Synchronizer.Order
import HeapScan.Synchronizer.Retention
import HeapScan.Synchronizer.Switching
import HeapScan.Synchronizer.Wakeup
import HeapScan.Tagging.Callback
import HeapScan.Tagging.ClassPass
import HeapScan.Tagging.Encoding
import HeapScan.Tagging.Grouping
import HeapScan.Tagging.Racing
import HeapScan.Tagging.Referential
import HeapScan.Tagging.Release
import HeapScan.Tagging.Wrapping
