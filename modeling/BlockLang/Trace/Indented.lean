import BlockLang.Trace.Sink

/-!
# Indented traces

A trace is written with one line for each entry, indented by a tab for each production that is open
around it. The line of an end stands as far in as the line of its begin.

## Main definitions

* `Event.body e`: the tag and text of an entry
* `levelBefore`, `levelAfter`: the indentation of an entry, and of what follows it
* `writeEvent marker level e`: the line of an entry
* `eventLines marker level events`: the lines of a trace
* `writeEvents marker level events`: the text of a trace
* `finalLevel level events`: the indentation after a trace
* `IndentedSink marker`: a sink that writes a trace while it is told

## Main results

* `tellAll_indented`: an indented sink writes the text of what it is told
-/

namespace BlockLang

namespace Event

/-- The text of an accepted token in a trace: literals show their text. -/
def tokenText (t : Token) : String :=
  t.describe ++ " on line " ++ toString t.position.line

/-- The tag and the text of an entry. -/
def body : Event → String × String
  | begin production => ("BEGIN", production)
  | finish production => ("END", production)
  | terminal token => ("TOKEN", tokenText token)
  | add v => ("DECL", v.text)
  | remove v => ("REMOVE", v.text)
  | error token fault =>
    ("ERROR", fault.head.message ++ " on line " ++ toString token.position.line)

end Event

/-- The indentation of an entry: an end steps back before it is written. -/
def levelBefore (level : Int) : Event → Int
  | .finish _ => level - 1
  | _ => level

/-- The indentation of what follows an entry. -/
def levelAfter (level : Int) : Event → Int
  | .begin _ => level + 1
  | .finish _ => level - 1
  | _ => level

/-- The line of an entry; an indentation below zero counts as none. -/
def writeEvent (marker : String) (level : Int) (e : Event) : String :=
  String.ofList (List.replicate (levelBefore level e).toNat '\t') ++ marker ++ e.body.1 ++ " " ++
    e.body.2 ++ "\n"

/-- The indentation after a trace. -/
def finalLevel (level : Int) (events : List Event) : Int := events.foldl levelAfter level

/-- The lines of a trace that begins at an indentation, one for each entry. -/
def eventLines (marker : String) : Int → List Event → List String
  | _, [] => []
  | level, e :: rest => writeEvent marker level e :: eventLines marker (levelAfter level e) rest

/-- The text of a trace that begins at an indentation. -/
def writeEvents (marker : String) (level : Int) (events : List Event) : String :=
  String.join (eventLines marker level events)

/-- A sink that writes the line of every entry, with what it has written so far and the indentation
that it has come to. -/
structure IndentedSink (marker : String) where
  level : Int
  text : String
  deriving DecidableEq, Repr

instance {marker : String} : TraceSink (IndentedSink marker) where
  start := ⟨0, ""⟩
  tell sink e := ⟨levelAfter sink.level e, sink.text ++ writeEvent marker sink.level e⟩

/-- An indented sink writes the text of what it is told. -/
theorem tellAll_indented {marker : String} (sink : IndentedSink marker) (events : List Event) :
    tellAll sink events =
      ⟨finalLevel sink.level events, sink.text ++ writeEvents marker sink.level events⟩ := by
  induction events generalizing sink with
  | nil => simp [finalLevel, writeEvents, eventLines]
  | cons e rest ih =>
    rw [tellAll_cons, ih]
    simp [TraceSink.tell, finalLevel, writeEvents, eventLines, String.append_assoc]

end BlockLang
