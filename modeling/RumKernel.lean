import RumKernel.Fs.Buffers
import RumKernel.Fat16.Histories
import RumKernel.Fat16.Failures
import RumKernel.Mm.Discovery
import RumKernel.Mm.HeapContents
import RumKernel.Process.Ownership
import RumKernel.Process.Wakeups
import RumKernel.Process.Adoption
import RumKernel.Process.Elf
import RumKernel.Process.Completions
import RumKernel.Process.Authority
import RumKernel.Fat16.Audit
import RumKernel.Fat16.LongNames
import RumKernel.Fat16.Words
import RumKernel.Fat16.Footprint
import RumKernel.Fat16.Iteration
import RumKernel.Recovery.Snake
import RumKernel.Core.Supervisor
import RumKernel.Drivers.Keyboard
import RumKernel.Drivers.Terminal
import RumKernel.Process.Arguments
import RumKernel.Drivers.Ata
import RumKernel.Process.UserStrings
