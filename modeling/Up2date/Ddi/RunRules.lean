import Up2date.Ddi.RunParts

/-!
# Relations that a run respects

A relation between states holds across a whole run as soon as it holds across what a run is made
of: marks in the trace, the calls of `AuthRestoreHandler` and of other threads, changes that
concern neither the trace nor the settings, and the sending of a request by a client that was
made from the settings in force.
-/

namespace Up2date.Ddi

open Cxx Uri Httpclient

/-- What a relation must hold across for a run to respect it. -/
structure RunRules (env : Environment) (R : World → World → Prop) : Prop extends MarkRules R where
  sent : ∀ x a (w : World) (request : Request), request.keyPair = w.client.keyPair →
    request.headers = w.client.defaultHeaders → request.verify = w.client.verify →
    R w (w.log (.sent x a request (env.server w.trace request).wire))
  signal : ∀ s w, R w (w.signal s)
  same : ∀ w w' : World, w'.trace = w.trace → w'.client.settings = w.client.settings → R w w'

namespace RunRules

variable {env : Environment} {R : World → World → Prop} [Std.Refl R] [IsTrans World R]

omit [Std.Refl R] [IsTrans World R] in
/-- The rules of a run contain those of a request. -/
theorem sendRules (h : RunRules env R) : SendRules env R where
  sent := h.sent
  ended x a o w := h.log (.ended x a o) w trivial
  signal := h.signal
  same := h.same

/-- The rules of a run contain those of a callback. -/
theorem callbackRules (h : RunRules env R) : CallbackRules env R where
  toCallRules := h.sendRules.callRules (h.toMarkRules.retryRules env) h.restore
    fun uri d w => h.log (.download uri d) w trivial
  called c w := h.log (.called c) w trivial
  returned c a w := h.log (.returned c a) w trivial

/-- A run respects the relation. -/
theorem parts (h : RunRules env R) : PartRules env R where
  toSendRules := h.sendRules
  toRetryRules := h.toMarkRules.retryRules env
  toEventRules := h.callbackRules.eventRules

end RunRules

end Up2date.Ddi
