import Trtp.Packet.Capacity
import Trtp.Packet.Format
import Trtp.Receiver.Closing
import Trtp.Receiver.Corruption
import Trtp.Receiver.Memory
import Trtp.Sender.Flow
import Trtp.Sender.Lifetime
import Trtp.Stack.Free
import Trtp.Stack.Sorted
import Trtp.System.Files
import Trtp.System.Prompt
