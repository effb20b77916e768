import Ebotula.Library.Interleave
import Ebotula.Log
import Ebotula.Network
import Ebotula.Timing

/-!
# What the threads run

The main thread, the workers, the timing thread and the thread that joins the channels, each by
what it does between two looks at its queue or its clock. A task is a program like any other, so
an interleaving of tasks, as many of each as there are, is an interleaving of the bot.
-/

set_option autoImplicit false

namespace Ebotula

open Library

/-- One turn of the loop of a thread, or all of a thread that has no loop. -/
inductive Task
  /-- The main thread with a line that it has cut out. -/
  | receiveLine (pCurrLine : CStr)
  /-- A worker with an entry of the queue. -/
  | executeCommand (pMsg : MsgBuf)
  | timingTurn (sSetup : ConfigSetup) (st : TimingState)
  | joinAllChannels

namespace Task

def program : Task → Bot Unit
  | receiveLine pCurrLine => do
    let _ ← Ebotula.receiveLine pCurrLine
  | executeCommand pMsg => Ebotula.executeCommand pMsg
  | timingTurn sSetup st => do
    let _ ← Ebotula.timingTurn sSetup st
  | joinAllChannels => Ebotula.joinAllChannels

end Task

/-- A task, with what the machine answers to its thread meanwhile. -/
structure Work where
  env : Env
  task : Task

/-- Threads that each have one task. What a thread does in its next turn is a task of its own. -/
abbrev BotThreads (ι G : Type) := Threads (quietSig.sum writeSig) ι (World G)

namespace BotThreads

variable {ι G : Type} [DecidableEq ι] [DbLib G]

def start (works : ι → Work) (w : World G) : BotThreads ι G :=
  ⟨fun i => (works i).task.program, w⟩

/-- One request of one thread. -/
def step (works : ι → Work) : BotThreads ι G → ι → Option (BotThreads ι G) :=
  Threads.step fun i => perform (works i).env

end BotThreads

end Ebotula
