import Src32.Kernel.Promptness
import Src32.Kernel.Urgency
import Src32.Kernel.Timeouts
import Src32.Kernel.Growth
import Src32.Backend.ContextSwitch
import Src32.Codecs.RleRoundTrip
import Src32.Crypt.Poly1305Rfc
import Src32.Libfnd.HeapRuns
import Src32.Fs.ListingRuns
import Src32.Codecs.CodeConvert
import Src32.Wax.Alignment
import Src32.Kernel.BlkRuns
import Src32.Asm.Assembled
import Src32.Disk.Transparency
import Src32.Kernel.ClientGone
import Src32.Services.PipeStream
import Src32.Services.ConsoleInput
import Src32.Devices.IdcIntegrity
import Src32.Cow.Recovery
import Src32.Fs.Coherence
import Src32.Wax.Launches
import Src32.Startup.RoundTrip
import Src32.Kernel.Spawning
import Src32.Sol.ControlFlow
import Src32.Devices.BmcAccess
import Src32.Devices.PecExact
import Src32.Wax.PackRoundTrip
import Src32.Sol.StackSound
import Src32.Services.ScreenTexts
import Src32.Fs.DsfsRuns
import Src32.Sol.StackCacheOps
import Src32.Kernel.CopyDma
