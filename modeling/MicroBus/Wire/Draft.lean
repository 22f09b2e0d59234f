import MicroBus.Fault
import MicroBus.Bytes

/-!
# Octets being written

Writing can stop half way, and what was written until then stays written. A draft holds both:
the octets, and the fault that stopped the writing if one did.
-/

namespace MicroBus

/-- Octets written so far, and the fault that stopped the writing. -/
structure Draft where
  /-- The octets written. -/
  bytes : Bytes
  /-- Why writing stopped, if it did. -/
  fault : Option Fault

namespace Draft

/-- A finished piece of writing. -/
def done (b : Bytes) : Draft := ⟨b, none⟩

/-- A piece of writing stopped by a fault. -/
def stopped (b : Bytes) (f : Fault) : Draft := ⟨b, some f⟩

/-- Goes on with `e` after `d`, unless `d` was stopped. -/
def andThen (d e : Draft) : Draft :=
  match d.fault with
  | some _ => d
  | none => ⟨d.bytes ++ e.bytes, e.fault⟩

/-- Drafts one after another, up to the first that was stopped. -/
def inTurn (ds : List Draft) : Draft := ds.foldr andThen (done [])

/-- The octets of a finished draft, or the fault. -/
def toExcept (d : Draft) : Except Fault Bytes :=
  match d.fault with
  | none => .ok d.bytes
  | some f => .error f

end Draft

end MicroBus
