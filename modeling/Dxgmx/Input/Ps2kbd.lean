import Dxgmx.Library.Runs
import Mathlib.Data.BitVec
import Mathlib.Data.List.Range
import Mathlib.Logic.Function.Basic

open Library

namespace Dxgmx

/-- A time since the start of the machine. -/
structure Timespec where
  tvSec : Nat
  tvNsec : Nat
  normal : tvNsec < 1000000000
  deriving DecidableEq

/-- What `TIMESPEC_IS_FIRST_BIGGER` compares: milliseconds. -/
def Timespec.ms (time : Timespec) : Nat := time.tvSec * 1000 + time.tvNsec / 1000000

def Timespec.IsFirstBigger (first second : Timespec) : Prop := second.ms < first.ms

instance timespecIsFirstBiggerDecidable (first second : Timespec) :
    Decidable (first.IsFirstBigger second) :=
  inferInstanceAs (Decidable (second.ms < first.ms))

def Timespec.NotAfter (first second : Timespec) : Prop :=
  first.tvSec < second.tvSec ∨ first.tvSec = second.tvSec ∧ first.tvNsec ≤ second.tvNsec

instance timespecNotAfterDecidable (first second : Timespec) : Decidable (first.NotAfter second) :=
  inferInstanceAs (Decidable (_ ∨ _))

structure InputEvent where
  time : Timespec
  action : BitVec 8
  value : BitVec 32
  deriving DecidableEq

def sizeofInputEvent : Nat := 20

def cachedEventCount : Nat := 64

structure Ps2kbd where
  cachedEvents : Nat → InputEvent
  cachedEventIdx : Nat

def ps2kbdCacheEvent (ev : InputEvent) (kbd : Ps2kbd) : Ps2kbd :=
  let idx := if cachedEventCount ≤ kbd.cachedEventIdx then 0 else kbd.cachedEventIdx
  ⟨Function.update kbd.cachedEvents idx ev, idx + 1⟩

/-- The index of the event that is found. -/
def ps2kbdEarliestEvent (ts : Timespec) (idx : Nat) (kbd : Ps2kbd) : Option Nat :=
  let bigger := fun i => decide ((kbd.cachedEvents i).time.IsFirstBigger ts)
  ((List.range' idx (cachedEventCount - idx)).find? bigger).or ((List.range idx).find? bigger)

structure LastReadInfo where
  idx : Nat
  time : Timespec

def ps2kbdVnodeOpen (uptime : Timespec) : LastReadInfo := ⟨0, uptime⟩

/-- A call of `ps2kbd_vnode_read` on its way. `buf` is the buffer of the caller by its slots, those
    that were stored to. `before` is a ghost: how many events the reader had before this call. -/
structure KbdRead where
  entries : Nat
  read : Nat
  buf : Nat → Option InputEvent
  before : Nat

/-- One round of the loop of `ps2kbd_vnode_read`. Without an event it yields. -/
def ps2kbdReadRound (kbd : Ps2kbd) (info : LastReadInfo) (call : KbdRead) :
    Option (InputEvent × LastReadInfo × KbdRead) :=
  match ps2kbdEarliestEvent info.time info.idx kbd with
  | none => none
  | some tmpidx =>
    let ev := kbd.cachedEvents tmpidx
    -- Every event is copied to the start of the buffer.
    some (ev, ⟨tmpidx, ev.time⟩, { call with
      buf := Function.update call.buf 0 (some ev)
      read := call.read + 1 })

/-- The reader. `arrived` and `received` are ghosts: the events cached since it opened the keyboard
    and those copied to it. -/
structure KbdReader where
  info : LastReadInfo
  call : Option KbdRead
  arrived : List InputEvent
  received : List InputEvent

/-- `clock` is a ghost: the latest time that was asked for. -/
structure KbdSystem where
  kbd : Ps2kbd
  reader : Option KbdReader
  clock : Timespec

inductive KbdAction
  | cache (ev : InputEvent)
  | openVnode (uptime : Timespec)
  | read (n : Nat)
  | round
  | done

/-- The reader never falls 64 or more events behind. -/
def KbdReader.KeepsUp (reader : KbdReader) : Prop :=
  reader.arrived.length < reader.received.length + cachedEventCount

instance kbdReaderKeepsUpDecidable (reader : KbdReader) : Decidable reader.KeepsUp :=
  inferInstanceAs (Decidable (_ < _))

def KbdReader.arrive (ev : InputEvent) (reader : KbdReader) : KbdReader :=
  { reader with arrived := reader.arrived ++ [ev] }

def KbdReader.startRead (n : Nat) (reader : KbdReader) : KbdReader :=
  if n % sizeofInputEvent ≠ 0 then reader
  else { reader with
    call := some ⟨n / sizeofInputEvent, 0, fun _ => none, reader.received.length⟩ }

def KbdReader.round (kbd : Ps2kbd) (call : KbdRead) (reader : KbdReader) : KbdReader :=
  match ps2kbdReadRound kbd reader.info call with
  | none => reader
  | some (ev, info, call) =>
    { reader with
      info := info
      call := some call
      received := reader.received ++ [ev] }

/-- The steps of the interrupt handler and of the one reader, in any order. -/
inductive KbdStep : KbdSystem → KbdAction → KbdSystem → Prop
  | cache {s : KbdSystem} (ev : InputEvent) (later : s.clock.NotAfter ev.time)
      (keepsUp : ∀ reader, s.reader = some reader → (reader.arrive ev).KeepsUp) :
      KbdStep s (.cache ev)
        ⟨ps2kbdCacheEvent ev s.kbd, s.reader.map (KbdReader.arrive ev), ev.time⟩
  | openVnode {s : KbdSystem} (uptime : Timespec) (later : s.clock.NotAfter uptime)
      (closed : s.reader = none) :
      KbdStep s (.openVnode uptime)
        ⟨s.kbd, some ⟨ps2kbdVnodeOpen uptime, none, [], []⟩, uptime⟩
  | read {s : KbdSystem} {reader : KbdReader} (n : Nat) (opened : s.reader = some reader)
      (idle : reader.call = none) :
      KbdStep s (.read n) { s with reader := some (reader.startRead n) }
  | round {s : KbdSystem} {reader : KbdReader} {call : KbdRead} (opened : s.reader = some reader)
      (running : reader.call = some call) (wants : call.read < call.entries) :
      KbdStep s .round { s with reader := some (reader.round s.kbd call) }
  | done {s : KbdSystem} {reader : KbdReader} {call : KbdRead} (opened : s.reader = some reader)
      (running : reader.call = some call) (full : call.entries ≤ call.read) :
      KbdStep s .done { s with reader := some { reader with call := none } }

/-- The keyboard at the start of the machine. -/
def bootKbd : KbdSystem :=
  ⟨⟨fun _ => ⟨⟨0, 0, by decide⟩, 0, 0⟩, 0⟩, none, ⟨0, 0, by decide⟩⟩

end Dxgmx
