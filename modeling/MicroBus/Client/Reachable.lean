import MicroBus.Client.Script

/-!
# Reachable clients

The states that a client can be in: after connecting, after any action, and after anything that
the daemon sends or does to its side of the connection in between.
-/

namespace MicroBus

/-- A client that some session leads to. -/
inductive Client.Reachable : Client → Prop where
  /-- A client that has just been greeted. -/
  | connected {s : Settings} {endpoint : Endpoint} {link : Link} {c : Client}
    (h : Client.connect s endpoint link = (.ok (), c)) : Reachable c
  /-- A client after an action. -/
  | acted {c d : Client} {a : Action} {r : Except Failure Answer} (h : Reachable c)
    (run : c.act a = (r, d)) : Reachable d
  /-- A client after the daemon has sent something, or has come to an end. -/
  | fed {c : Client} (b : Bytes) (ending : Ending) (h : Reachable c) :
    Reachable { c with link := (c.link.feed b).finish ending }

end MicroBus
