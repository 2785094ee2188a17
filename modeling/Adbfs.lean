import Adbfs.Answers
import Adbfs.CacheTrace
import Adbfs.ChildPaths
import Adbfs.Coherence
import Adbfs.Concurrent.Assign
import Adbfs.Concurrent.Copies
import Adbfs.Concurrent.Progress
import Adbfs.Concurrent.Push
import Adbfs.Concurrent.Stale
import Adbfs.DeviceNumbers
import Adbfs.FailedListings
import Adbfs.HandleTable
import Adbfs.InStep
import Adbfs.InodeSteps
import Adbfs.LsFormat
import Adbfs.Missing
import Adbfs.Mutations
import Adbfs.NameSlices
import Adbfs.OptionTexts
import Adbfs.Paging
import Adbfs.Panics
import Adbfs.Presentation
import Adbfs.Reference
import Adbfs.RenameFlags
import Adbfs.RoundTrip
import Adbfs.Sizes
import Adbfs.Symlinks
import Adbfs.TouchTimes
import Adbfs.Transport
import Adbfs.Truncates
import Adbfs.Unlinked
import Adbfs.Unpushed
