import BlockLang.Trace.Event

/-!
# Trace sinks

A run tells the entries of its trace to a sink, one at a time. The sink makes of them what it likes,
and the run learns nothing from it. One kind of sink records the entries.

## Main definitions

* `TraceSink σ`: a sink is in a state of type `σ`, which every entry changes
* `tellAll sink events`: the sink after some entries

## Main results

* `tellAll_array`: a recording sink keeps the entries in order
-/

namespace BlockLang

/-- A sink takes the entries of a trace: it is in a state, which every entry changes. -/
class TraceSink (σ : Type) where
  /-- The sink before the first entry. -/
  start : σ
  /-- The sink after one more entry. -/
  tell : σ → Event → σ

/-- The sink after some more entries. -/
def tellAll {σ : Type} [TraceSink σ] (sink : σ) (events : List Event) : σ :=
  events.foldl TraceSink.tell sink

/-- The recording sink keeps every entry. It is the one that is used unless another is asked for. -/
@[default_instance] instance : TraceSink (Array Event) where
  start := #[]
  tell := Array.push

@[simp] theorem start_array : (TraceSink.start : Array Event) = #[] := rfl

@[simp] theorem tell_array (recorded : Array Event) (e : Event) :
    TraceSink.tell recorded e = recorded.push e := rfl

/-- A recording sink keeps the entries in order. -/
@[simp] theorem tellAll_array (recorded : Array Event) (events : List Event) :
    tellAll recorded events = recorded ++ events := by
  induction events generalizing recorded with
  | nil => simp [tellAll]
  | cons e rest ih =>
    rw [tellAll, List.foldl_cons]
    exact (ih _).trans (by simp)

@[simp] theorem tellAll_nil {σ : Type} [TraceSink σ] (sink : σ) : tellAll sink [] = sink := rfl

@[simp] theorem tellAll_cons {σ : Type} [TraceSink σ] (sink : σ) (e : Event)
    (events : List Event) : tellAll sink (e :: events) = tellAll (TraceSink.tell sink e) events :=
  rfl

theorem tellAll_append {σ : Type} [TraceSink σ] (sink : σ) (es fs : List Event) :
    tellAll sink (es ++ fs) = tellAll (tellAll sink es) fs := List.foldl_append

end BlockLang
