/-
Where printed text goes: a store of bytes with an optional capacity. What does
not fit is cut off at the capacity, inside a character if need be, and the write
fails; bytes once held stay.
-/

namespace ExprLang

/-- The UTF-8 bytes of a text. -/
def utf8 (s : String) : List UInt8 := s.toList.flatMap String.utf8EncodeChar

/-- How a full sink meets a write: it refuses, or it takes no bytes and says so. -/
inductive WhenFull where
  | refuse
  | takeNothing
deriving DecidableEq, Inhabited

/-- Why a sink failed. -/
inductive SinkFault where
  | full
  | nothingTaken
  | closed
deriving DecidableEq, Inhabited

def SinkFault.message : SinkFault → String
  | .full => "sink full"
  | .nothingTaken => "failed to write whole buffer"
  | .closed => "sink closed"

/-- How a sink behaves. Without a capacity it takes everything. -/
structure SinkSettings where
  capacity : Option Nat := none
  whenFull : WhenFull := .refuse
  flushFails : Bool := false
deriving DecidableEq, Inhabited

/-- A sink: its behaviour, the bytes it holds, and how often it was flushed. -/
structure Sink where
  settings : SinkSettings := {}
  held : List UInt8 := []
  flushes : Nat := 0
deriving DecidableEq, Inhabited

namespace Sink

/-- How many more bytes fit; no answer if there is no bound. -/
def room? (sink : Sink) : Option Nat := sink.settings.capacity.map (· - sink.held.length)

/-- How much of these bytes fits. -/
def fitting (sink : Sink) (bytes : List UInt8) : List UInt8 :=
  match sink.room? with
  | none => bytes
  | some room => bytes.take room

def fullFault (sink : Sink) : SinkFault :=
  match sink.settings.whenFull with
  | .refuse => .full
  | .takeNothing => .nothingTaken

/-- Takes what fits of these bytes, and fails unless that is all of them. -/
def write (sink : Sink) (bytes : List UInt8) : Sink × Option SinkFault :=
  let taken := sink.fitting bytes
  ({ sink with held := sink.held ++ taken },
    if taken.length = bytes.length then none else some sink.fullFault)

/-- Flushes; an attempt that fails counts too. -/
def flush (sink : Sink) : Sink × Option SinkFault :=
  ({ sink with flushes := sink.flushes + 1 },
    if sink.settings.flushFails then some .closed else none)

/-- Changes the behaviour from here on; what is held is kept. -/
def configure (sink : Sink) (settings : SinkSettings) : Sink := { sink with settings }

end Sink
end ExprLang
