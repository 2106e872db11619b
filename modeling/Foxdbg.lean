import Foxdbg.Handover
import Foxdbg.Capacity
import Foxdbg.Exceptions
import Foxdbg.Routing
import Foxdbg.Snapshot
import Foxdbg.Isolation
import Foxdbg.Messages
import Foxdbg.Ids
import Foxdbg.Store
import Foxdbg.Pixels
import Foxdbg.Rate
import Foxdbg.Documents
import Foxdbg.Torn
import Foxdbg.Chunks
import Foxdbg.Starvation
import Foxdbg.Images
import Foxdbg.Frames
import Foxdbg.Schemas
import Foxdbg.Records
import Foxdbg.Decoding
import Foxdbg.Atomicity
import Foxdbg.Linearizable
import Foxdbg.Lifecycle
import Foxdbg.NonBlocking
import Foxdbg.ImageFrames
import Foxdbg.Allocation
