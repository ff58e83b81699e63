import LuauFusion.Base
/-!
# The process transport

`transport/concurrentlyexec.rs`: both ends of the pair of channels between the
host and the child process. What the `concurrentlyexec` channels report when
they fail is theirs to say; the code only prefixes it.
-/
open LuauFusion.Lib

namespace LuauFusion

/-- The error both ends raise for a receiver that is in use. -/
def rxLocked : Error := "Lua bridge binary receiver is already locked"

namespace ConcurrentlyExecuteServer

def sendToForeign (tx : Chan ServerMessage Error) (fault : Option Error) (msg : ServerMessage) :
    Except Error (Chan ServerMessage Error) :=
  (tx.send fault msg).mapError ("Failed to send message to target language: " ++ ·)

/-- The prefix is the source's, which says "send" here too. -/
def received : Except Error ClientMessage → Except Error ClientMessage :=
  Except.mapError ("Failed to send message to target language: " ++ ·)

def receiveFromForeign : Async ClientMessage Error (Except Error ClientMessage) :=
  guarded (.error rxLocked) received

end ConcurrentlyExecuteServer

namespace ConcurrentlyExecuteClient

def sendToHost (tx : Chan ClientMessage Error) (fault : Option Error) (msg : ClientMessage) :
    Except Error (Chan ClientMessage Error) :=
  (tx.send fault msg).mapError ("Failed to send message to host language: " ++ ·)

def received : Except Error ServerMessage → Except Error ServerMessage :=
  Except.mapError ("Failed to receive message from host language: " ++ ·)

def receiveFromHost : Async ServerMessage Error (Except Error ServerMessage) :=
  guarded (.error rxLocked) received

end ConcurrentlyExecuteClient

end LuauFusion
