import Compukter.Verify.Paths
import Compukter.Task.ChannelRun
import Compukter.Checkpoint.RoundTrip
import Compukter.Checkpoint.HeapRestore
import Compukter.Image.Activations
import Compukter.Filesystem.Denied
import Compukter.Filesystem.Rename
import Compukter.Ffi.HandleRun
import Compukter.Terminal.Replicas
import Compukter.Image.Arena
import Compukter.Heap.ArrayCopy
import Compukter.Machine.Allocation
import Compukter.Filesystem.RomTree
import Compukter.Image.ObjectLayout
import Compukter.Machine.Initialization
import Compukter.Computer.Requests
import Compukter.Verify.Nesting
import Compukter.Filesystem.Revisions
