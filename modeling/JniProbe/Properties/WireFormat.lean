import JniProbe.Loader.Wire

/-!
The two declarations of an event describe the same bytes: what the probe wrote
into the ring is what the loader sees, field by field.
-/

namespace JniProbe

open GoText CLayout

/-- Explicit padding words leave the compiler nothing to pad. -/
theorem tight_evt : Tight 0 evtFields := by decide

theorem readEvt_rawSample (pad : Nat → UInt8) (e : Evt) : readEvt (rawSample pad e) = some e := by
  -- Both declarations list fields of the same types in the same order.
  have hread : binaryRead reconFields (rawSample pad e) = some e.toRecord :=
    binaryRead_layout tight_evt pad e.toRecord
  exact congrArg (Option.map Evt.ofRecord) hread

/-- A submitted event is decoded to itself, with every field and sign, and the
loader does with its bytes what it does with the event. -/
theorem wire_round_trip (pad : Nat → UInt8) (e : Evt) :
    (rawSample pad e).length = sizeof evtFields ∧
      readEvt (rawSample pad e) = some e ∧
      ∀ (S : Session) (env : Env) (ld : Loader),
        ld.receive S env (rawSample pad e) = ld.step S env e := by
  refine ⟨length_layout pad evtFields e.toRecord, readEvt_rawSample pad e, ?_⟩
  intro S env ld
  rw [Loader.receive, readEvt_rawSample]

example : sizeof evtFields = 400 := by decide

/-- A run over the raw samples is the run over the events. -/
theorem receive_foldl (S : Session) (env : Env) (pad : Nat → UInt8) (es : List Evt) (ld : Loader) :
    (es.map (rawSample pad)).foldl (Loader.receive S env) ld = es.foldl (Loader.step S env) ld := by
  rw [List.foldl_map]
  congr 1
  funext ld e
  rw [Loader.receive, readEvt_rawSample]

end JniProbe
