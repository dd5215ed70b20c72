import Dxgmx.Kstdlib.Stdio
import Dxgmx.Library.Numerals

open Library

namespace Dxgmx

inductive KOutputType
  | terminal
  | raw
  deriving DecidableEq, Repr

abbrev KOutputColor := BitVec 32

/-- A call of `output_char` or of `newline`. -/
inductive SinkCall
  | char (c : Byte)
  | newline
  deriving DecidableEq, Repr

/-- A registered sink has one of the two types. `received` is a ghost: the calls of the sink so far. -/
structure KOutputSink where
  type : KOutputType
  fgcolor : KOutputColor
  bgcolor : KOutputColor
  received : List SinkCall

def KOutputSink.call (call : SinkCall) (sink : KOutputSink) : KOutputSink :=
  { sink with received := sink.received ++ [call] }

def KOutputSink.setColors (fg bg : KOutputColor) (sink : KOutputSink) : KOutputSink :=
  { sink with fgcolor := fg, bgcolor := bg }

/-- `FOR_EACH_SINK_OF_TYPE` over `g_sinks`, which holds addresses of sinks. -/
def forEachSinkOfType (type : KOutputType) (f : KOutputSink → KOutputSink) (registered : List Nat)
    (sinks : Nat → KOutputSink) : Nat → KOutputSink :=
  registered.foldl
    (fun sinks addr =>
      if (sinks addr).type = type then Function.update sinks addr (f (sinks addr)) else sinks) sinks

def kstdioWriteRaw (registered : List Nat) (buf : List Byte) (sinks : Nat → KOutputSink) :
    Nat × (Nat → KOutputSink) :=
  (buf.length, buf.foldl
    (fun sinks c => forEachSinkOfType .raw (KOutputSink.call (.char c)) registered sinks) sinks)

/-- The loop of `kstdio_parse_ansi_sequence`, with the bytes from index `i` on. It returns the bytes
    to skip and the foreground. The background stays as it is. -/
def parseAnsiLoop : List Byte → (i : Nat) → (nextMode nextFg : Bool) → (nn : BitVec 32) →
    KOutputColor → Nat × KOutputColor
  | [], _, _, _, _, fg => (0, fg)
  | c :: str, i, nextMode, nextFg, nn, fg =>
    if c = chr '[' then parseAnsiLoop str (i + 1) true nextFg nn fg
    else if c = chr ';' then
      if nextMode then parseAnsiLoop str (i + 1) false true 0 fg
      else if nextFg then
        let fg := if nn = 31 then 1 else if nn = 33 then 3 else if nn = 39 then 7
          else if nn = 36 then 6 else fg
        parseAnsiLoop str (i + 1) nextMode false 0 fg
      else parseAnsiLoop str (i + 1) nextMode nextFg nn fg
    else if c = chr 'm' then (i, fg)
    else parseAnsiLoop str (i + 1) nextMode nextFg (nn * 10 + (c.signExtend 32 - 48)) fg

def kstdioParseAnsiSequence (str : List Byte) (fg : KOutputColor) : Nat × KOutputColor :=
  parseAnsiLoop str.tail 1 false false 0 fg

/-- The loop of `kstdio_write`. Of `buf` are left the bytes from index `i` on, of which the next `skip`
    are stepped over. `junk` is what the two uninitialised colours hold at an escape character. -/
def kstdioWriteLoop (junk : Nat → KOutputColor × KOutputColor) (registered : List Nat) :
    List Byte → (i skip : Nat) → (Nat → KOutputSink) → Nat → KOutputSink
  | [], _, _, sinks => sinks
  | _ :: buf, i, skip + 1, sinks => kstdioWriteLoop junk registered buf (i + 1) skip sinks
  | c :: buf, i, 0, sinks =>
    if c = 0x1B then
      let (skip, fg) := kstdioParseAnsiSequence (c :: buf) (junk i).1
      let sinks := forEachSinkOfType .terminal (KOutputSink.setColors fg (junk i).2) registered sinks
      kstdioWriteLoop junk registered buf (i + 1) skip sinks
    else if c = chr '\n' then
      kstdioWriteLoop junk registered buf (i + 1) 0
        (forEachSinkOfType .terminal (KOutputSink.call .newline) registered sinks)
    else if c = chr '\t' then
      kstdioWriteLoop junk registered buf (i + 1) 0 ((List.range 4).foldl (fun sinks _ =>
        forEachSinkOfType .terminal (KOutputSink.call (.char (chr ' '))) registered sinks) sinks)
    else
      kstdioWriteLoop junk registered buf (i + 1) 0
        (forEachSinkOfType .terminal (KOutputSink.call (.char c)) registered sinks)

def kstdioWrite (junk : Nat → KOutputColor × KOutputColor) (registered : List Nat) (buf : List Byte)
    (sinks : Nat → KOutputSink) : Nat × (Nat → KOutputSink) :=
  (buf.length, kstdioWriteLoop junk registered buf 0 0 (kstdioWriteRaw registered buf sinks).2)

/-- The parameters of a sequence up to its `m`. -/
def ansiParams : List Byte → Option (List Byte)
  | [] => none
  | c :: text =>
    if c = chr 'm' then some []
    else if isdigit c ∨ c = chr ';' then (ansiParams text).map (c :: ·)
    else none

/-- The parameters of the complete sequence that stands behind an escape character. -/
def ansiSequence : List Byte → Option (List Byte)
  | [] => none
  | c :: text => if c = chr '[' then ansiParams text else none

/-- What a terminal makes of a byte that is no escape character. -/
def charCalls (c : Byte) : List SinkCall :=
  if c = chr '\n' then [.newline]
  else if c = chr '\t' then List.replicate 4 (.char (chr ' '))
  else [.char c]

/-- What a terminal has to receive: the text without its complete sequences. -/
def terminalCalls : List Byte → (skip : Nat) → List SinkCall
  | [], _ => []
  | _ :: buf, skip + 1 => terminalCalls buf skip
  | c :: buf, 0 =>
    if c = 0x1B then
      match ansiSequence buf with
      | none => .char c :: terminalCalls buf 0
      | some params => terminalCalls buf (params.length + 2)
    else charCalls c ++ terminalCalls buf 0

/-- The numbers of a sequence. -/
def sgrNumbers (params : List Byte) : List Nat :=
  (params.splitOn (chr ';')).map fun number => runValue 10 (number.map fun c => c.toNat - 48)

/-- A sequence of the text has the number. -/
def NamesNumber (buf : List Byte) (number : Nat) : Prop :=
  ∃ before text params, buf = before ++ 0x1B :: text ∧ ansiSequence text = some params ∧
    number ∈ sgrNumbers params

/-- The eight colours are 30 to 37 in the foreground and 40 to 47 in the background, the default
    colours 39 and 49. -/
def NamesColor (first dflt : Nat) (buf : List Byte) (color : KOutputColor) : Prop :=
  ∃ number, NamesNumber buf number ∧
    (number = first + 9 ∧ color.toNat = dflt ∨ color.toNat < 8 ∧ number = first + color.toNat)

structure WritesText (registered : List Nat) (buf : List Byte) (sinks sinks' : Nat → KOutputSink) :
    Prop where
  raw : ∀ addr ∈ registered, (sinks addr).type = .raw →
    (sinks' addr).received = (sinks addr).received ++ buf.map .char
  terminal : ∀ addr ∈ registered, (sinks addr).type = .terminal →
    (sinks' addr).received = (sinks addr).received ++ terminalCalls buf 0
  fgcolor : ∀ addr ∈ registered, (sinks' addr).fgcolor = (sinks addr).fgcolor ∨
    NamesColor 30 7 buf (sinks' addr).fgcolor
  bgcolor : ∀ addr ∈ registered, (sinks' addr).bgcolor = (sinks addr).bgcolor ∨
    NamesColor 40 0 buf (sinks' addr).bgcolor

section ForEach

variable {type : KOutputType} {f : KOutputSink → KOutputSink} {sinks : Nat → KOutputSink}

/-- Every entry of the list calls its sink once. -/
theorem forEachSinkOfType_apply (keeps : ∀ sink, (f sink).type = sink.type) (registered : List Nat)
    (addr : Nat) :
    forEachSinkOfType type f registered sinks addr =
      if (sinks addr).type = type then f^[registered.count addr] (sinks addr) else sinks addr := by
  induction registered generalizing sinks with
  | nil => simp [forEachSinkOfType]
  | cons other rest ih =>
    have step : forEachSinkOfType type f (other :: rest) sinks =
        forEachSinkOfType type f rest (if (sinks other).type = type then
          Function.update sinks other (f (sinks other)) else sinks) := rfl
    rw [step, ih, List.count_cons]
    by_cases here : other = addr
    · subst here
      by_cases typed : (sinks other).type = type
      · rw [if_pos typed, Function.update_self, keeps, if_pos typed, if_pos typed,
          if_pos (beq_self_eq_true other), Function.iterate_succ_apply]
      · rw [if_neg typed, if_neg typed, if_neg typed]
    · have apart : (if (sinks other).type = type then Function.update sinks other (f (sinks other))
          else sinks) addr = sinks addr := by
        split
        · exact Function.update_of_ne (Ne.symm here) _ _
        · rfl
      have other_ : ¬ (other == addr) = true := by simpa using here
      rw [apart, if_neg other_, Nat.add_zero]

theorem call_iterate (call : SinkCall) (count : Nat) (sink : KOutputSink) :
    (KOutputSink.call call)^[count] sink =
      { sink with received := sink.received ++ List.replicate count call } := by
  induction count generalizing sink with
  | zero => simp
  | succ count ih =>
    rw [Function.iterate_succ_apply, ih, KOutputSink.call, List.append_assoc, List.replicate_succ]
    rfl

end ForEach

def repeated (count : Nat) (calls : List SinkCall) : List SinkCall :=
  calls.flatMap (List.replicate count)

theorem repeated_length (count : Nat) (calls : List SinkCall) :
    (repeated count calls).length = count * calls.length := by
  induction calls with
  | nil => simp [repeated]
  | cons call calls ih =>
    unfold repeated at ih ⊢
    rw [List.flatMap_cons, List.length_append, ih, List.length_replicate, List.length_cons,
      Nat.mul_succ, Nat.add_comm]

theorem repeated_one (calls : List SinkCall) : repeated 1 calls = calls := by
  unfold repeated
  induction calls with
  | nil => rfl
  | cons call calls ih => rw [List.flatMap_cons, ih]; rfl

section Write

variable {registered : List Nat} {junk : Nat → KOutputColor × KOutputColor}
variable {sinks : Nat → KOutputSink}

/-- The sink at `addr` after some calls to every sink of its type. -/
def afterCalls (registered : List Nat) (type : KOutputType) (calls : List SinkCall) (addr : Nat)
    (sink : KOutputSink) : KOutputSink :=
  if sink.type = type then
    { sink with received := sink.received ++ repeated (registered.count addr) calls }
  else sink

theorem afterCalls_append (type : KOutputType) (calls more : List SinkCall) (addr : Nat)
    (sink : KOutputSink) :
    afterCalls registered type more addr (afterCalls registered type calls addr sink) =
      afterCalls registered type (calls ++ more) addr sink := by
  unfold afterCalls
  by_cases typed : sink.type = type
  · rw [if_pos typed, if_pos typed, if_pos typed, repeated, repeated, repeated, List.flatMap_append,
      List.append_assoc]
  · rw [if_neg typed, if_neg typed, if_neg typed]

theorem forEachSinkOfType_call_eq (type : KOutputType) (call : SinkCall) :
    forEachSinkOfType type (KOutputSink.call call) registered sinks =
      fun addr => afterCalls registered type [call] addr (sinks addr) := by
  funext addr
  have keeps : ∀ sink : KOutputSink, (sink.call call).type = sink.type := fun _ => rfl
  rw [forEachSinkOfType_apply keeps, call_iterate]
  simp [afterCalls, repeated]

theorem kstdioWriteRaw_eq (buf : List Byte) :
    (kstdioWriteRaw registered buf sinks).2 =
      fun addr => afterCalls registered .raw (buf.map .char) addr (sinks addr) := by
  unfold kstdioWriteRaw
  induction buf generalizing sinks with
  | nil =>
    funext addr
    simp [afterCalls, repeated]
  | cons c buf ih =>
    dsimp only at ih ⊢
    rw [List.foldl_cons, ih, forEachSinkOfType_call_eq]
    funext addr
    exact afterCalls_append .raw [.char c] (buf.map .char) addr (sinks addr)

theorem blanks_eq :
    (List.range 4).foldl (fun sinks _ =>
        forEachSinkOfType .terminal (KOutputSink.call (.char (chr ' '))) registered sinks) sinks =
      fun addr => afterCalls registered .terminal (List.replicate 4 (.char (chr ' '))) addr
        (sinks addr) := by
  have blank : ∀ sinks : Nat → KOutputSink,
      forEachSinkOfType .terminal (KOutputSink.call (.char (chr ' '))) registered sinks =
        fun addr => afterCalls registered .terminal [.char (chr ' ')] addr (sinks addr) :=
    fun sinks => forEachSinkOfType_call_eq .terminal _
  simp only [blank]
  funext addr
  exact (congrArg _ ((congrArg _ (afterCalls_append .terminal _ _ addr (sinks addr))).trans
    (afterCalls_append .terminal _ _ addr (sinks addr)))).trans
    (afterCalls_append .terminal _ _ addr (sinks addr))

/-- Without an escape character the loop calls every terminal for every byte. -/
theorem kstdioWriteLoop_plain {buf : List Byte} (plain : 0x1B ∉ buf) (i : Nat) :
    kstdioWriteLoop junk registered buf i 0 sinks =
      fun addr => afterCalls registered .terminal (buf.flatMap charCalls) addr (sinks addr) := by
  induction buf generalizing i sinks with
  | nil =>
    funext addr
    simp [kstdioWriteLoop, afterCalls, repeated]
  | cons c buf ih =>
    have tail : 0x1B ∉ buf := fun member => plain (List.mem_cons_of_mem c member)
    have escape : ¬ c = 0x1B := fun same => plain (same ▸ List.mem_cons_self)
    unfold kstdioWriteLoop
    rw [if_neg escape, List.flatMap_cons, charCalls]
    by_cases line : c = chr '\n'
    · rw [if_pos line, if_pos line, ih tail, forEachSinkOfType_call_eq]
      funext addr
      exact afterCalls_append .terminal _ _ addr (sinks addr)
    by_cases tab : c = chr '\t'
    · rw [if_neg line, if_pos tab, if_neg line, if_pos tab, ih tail, blanks_eq]
      funext addr
      exact afterCalls_append .terminal _ _ addr (sinks addr)
    · rw [if_neg line, if_neg tab, if_neg line, if_neg tab, ih tail, forEachSinkOfType_call_eq]
      funext addr
      exact afterCalls_append .terminal _ _ addr (sinks addr)

theorem terminalCalls_plain {buf : List Byte} (plain : 0x1B ∉ buf) :
    terminalCalls buf 0 = buf.flatMap charCalls := by
  induction buf with
  | nil => rfl
  | cons c buf ih =>
    have tail : 0x1B ∉ buf := fun member => plain (List.mem_cons_of_mem c member)
    have escape : ¬ c = 0x1B := fun same => plain (same ▸ List.mem_cons_self)
    rw [terminalCalls, if_neg escape, ih tail, List.flatMap_cons]

@[simp]
theorem afterCalls_type (type : KOutputType) (calls : List SinkCall) (addr : Nat)
    (sink : KOutputSink) : (afterCalls registered type calls addr sink).type = sink.type := by
  unfold afterCalls
  split <;> rfl

@[simp]
theorem afterCalls_fgcolor (type : KOutputType) (calls : List SinkCall) (addr : Nat)
    (sink : KOutputSink) : (afterCalls registered type calls addr sink).fgcolor = sink.fgcolor := by
  unfold afterCalls
  split <;> rfl

@[simp]
theorem afterCalls_bgcolor (type : KOutputType) (calls : List SinkCall) (addr : Nat)
    (sink : KOutputSink) : (afterCalls registered type calls addr sink).bgcolor = sink.bgcolor := by
  unfold afterCalls
  split <;> rfl

theorem afterCalls_other {type : KOutputType} {sink : KOutputSink} (other : sink.type ≠ type)
    (calls : List SinkCall) (addr : Nat) : afterCalls registered type calls addr sink = sink :=
  if_neg other

theorem afterCalls_received {type : KOutputType} {sink : KOutputSink} (typed : sink.type = type)
    (calls : List SinkCall) (addr : Nat) :
    (afterCalls registered type calls addr sink).received =
      sink.received ++ repeated (registered.count addr) calls := by
  unfold afterCalls
  rw [if_pos typed]

theorem setColors_other {fg bg : KOutputColor} {addr : Nat} (other : (sinks addr).type ≠ .terminal) :
    forEachSinkOfType .terminal (KOutputSink.setColors fg bg) registered sinks addr = sinks addr := by
  have keeps : ∀ sink : KOutputSink, (sink.setColors fg bg).type = sink.type := fun _ => rfl
  rw [forEachSinkOfType_apply keeps, if_neg other]

theorem kstdioWriteLoop_other {addr : Nat} (other : (sinks addr).type ≠ .terminal) (buf : List Byte)
    (i skip : Nat) : kstdioWriteLoop junk registered buf i skip sinks addr = sinks addr := by
  induction buf generalizing i skip sinks with
  | nil => rfl
  | cons c buf ih =>
    cases skip with
    | succ skip => exact ih other _ _
    | zero =>
      unfold kstdioWriteLoop
      rw [forEachSinkOfType_call_eq, forEachSinkOfType_call_eq, blanks_eq]
      split
      · dsimp only
        rw [ih (by rwa [setColors_other other]), setColors_other other]
      split
      · rw [ih (by simpa using other), afterCalls_other other]
      split
      · rw [ih (by simpa using other), afterCalls_other other]
      · rw [ih (by simpa using other), afterCalls_other other]

theorem setColors_bgcolor {fg bg : KOutputColor} {addr : Nat} (member : addr ∈ registered)
    (typed : (sinks addr).type = .terminal) :
    (forEachSinkOfType .terminal (KOutputSink.setColors fg bg) registered sinks addr).type = .terminal ∧
    (forEachSinkOfType .terminal (KOutputSink.setColors fg bg) registered sinks addr).bgcolor = bg := by
  obtain ⟨count, times⟩ := Nat.exists_eq_succ_of_ne_zero
    (Nat.pos_iff_ne_zero.mp (List.count_pos_iff.mpr member))
  have keeps : ∀ sink : KOutputSink, (sink.setColors fg bg).type = sink.type := fun _ => rfl
  have kept : ∀ count (sink : KOutputSink),
      ((KOutputSink.setColors fg bg)^[count] sink).type = sink.type := by
    intro count
    induction count with
    | zero => exact fun _ => rfl
    | succ count ih => exact fun sink => ih _
  rw [forEachSinkOfType_apply keeps, if_pos typed, times]
  refine ⟨(kept _ _).trans typed, ?_⟩
  rw [Nat.succ_eq_add_one, Function.iterate_succ_apply', KOutputSink.setColors]

/-- From the first escape character on, the background is what the uninitialised variable held. -/
theorem kstdioWriteLoop_junk {color : KOutputColor} {addr : Nat} (member : addr ∈ registered)
    (typed : (sinks addr).type = .terminal) (buf : List Byte) (i skip : Nat)
    (reached : (sinks addr).bgcolor = color ∨ skip = 0 ∧ 0x1B ∈ buf) :
    (kstdioWriteLoop (fun _ => (color, color)) registered buf i skip sinks addr).bgcolor = color := by
  induction buf generalizing i skip sinks with
  | nil =>
    rcases reached with same | ⟨-, escape⟩
    · exact same
    · exact absurd escape List.not_mem_nil
  | cons c buf ih =>
    cases skip with
    | succ skip =>
      rcases reached with same | ⟨zero, -⟩
      · exact ih typed _ _ (.inl same)
      · cases zero
    | zero =>
      unfold kstdioWriteLoop
      by_cases escape : c = 0x1B
      · rw [if_pos escape]
        dsimp only
        obtain ⟨typed', set_⟩ := @setColors_bgcolor registered sinks
          (kstdioParseAnsiSequence (c :: buf) color).2 color addr member typed
        exact ih typed' _ _ (.inl set_)
      have reached' : ∀ calls, (afterCalls registered .terminal calls addr (sinks addr)).bgcolor = color ∨
          0 = 0 ∧ 0x1B ∈ buf := by
        intro calls
        rw [afterCalls_bgcolor]
        rcases reached with same | ⟨-, inside⟩
        · exact .inl same
        · exact .inr ⟨rfl, (List.mem_cons.mp inside).resolve_left (Ne.symm escape)⟩
      rw [if_neg escape, forEachSinkOfType_call_eq, forEachSinkOfType_call_eq, blanks_eq]
      split
      · exact ih (by simpa using typed) _ _ (reached' _)
      split
      · exact ih (by simpa using typed) _ _ (reached' _)
      · exact ih (by simpa using typed) _ _ (reached' _)

theorem charCalls_ne_nil (c : Byte) : charCalls c ≠ [] := by
  unfold charCalls
  split
  · exact List.cons_ne_nil _ _
  · split <;> exact List.cons_ne_nil _ _

end Write

/-- Some colour is no colour of a sequence and not the one that a sink has. -/
theorem unnamed_color (old : KOutputColor) :
    ∃ color : KOutputColor, color ≠ old ∧ ∀ buf, ¬ NamesColor 40 0 buf color := by
  have large : ∀ color : KOutputColor, 8 ≤ color.toNat → ∀ buf, ¬ NamesColor 40 0 buf color := by
    rintro color large buf ⟨number, -, ⟨-, dflt⟩ | ⟨small, -⟩⟩ <;> omega
  by_cases eight : old = 8
  · exact ⟨9, by rw [eight]; decide, large 9 (by decide)⟩
  · exact ⟨8, Ne.symm eight, large 8 (by decide)⟩

section Right

variable {registered : List Nat} {buf : List Byte} {sinks : Nat → KOutputSink}

theorem kstdioWrite_no_terminal
    (right : ∀ junk, WritesText registered buf sinks (kstdioWrite junk registered buf sinks).2)
    (escape : 0x1B ∈ buf) : ∀ addr ∈ registered, (sinks addr).type ≠ .terminal := by
  intro addr member typed
  obtain ⟨color, new, unnamed⟩ := unnamed_color (sinks addr).bgcolor
  have typed' : ((kstdioWriteRaw registered buf sinks).2 addr).type = .terminal := by
    rw [kstdioWriteRaw_eq, afterCalls_type, typed]
  have junk := @kstdioWriteLoop_junk registered _ color addr member typed' buf 0 0 (.inr ⟨rfl, escape⟩)
  have changed := (right fun _ => (color, color)).bgcolor addr member
  unfold kstdioWrite at changed
  rw [junk] at changed
  exact changed.elim new (unnamed buf)

theorem count_eq_one_of_received {count : Nat} {old calls : List SinkCall} (some_ : calls ≠ [])
    (received : old ++ repeated count calls = old ++ calls) : count = 1 := by
  have length := congrArg List.length (List.append_cancel_left received)
  have positive := List.length_pos_iff.mpr some_
  rw [repeated_length] at length
  exact Nat.eq_of_mul_eq_mul_right positive (length.trans (Nat.one_mul _).symm)

theorem kstdioWrite_nodup
    (right : ∀ junk, WritesText registered buf sinks (kstdioWrite junk registered buf sinks).2)
    (some_ : buf ≠ []) : registered.Nodup := by
  have write : WritesText registered buf sinks (kstdioWriteLoop (fun _ => (0, 0)) registered buf 0 0
      (kstdioWriteRaw registered buf sinks).2) := right fun _ => (0, 0)
  have once : ∀ addr ∈ registered, registered.count addr = 1 := by
    intro addr member
    cases typed : (sinks addr).type with
    | raw =>
      have other : ((kstdioWriteRaw registered buf sinks).2 addr).type ≠ .terminal := by
        rw [kstdioWriteRaw_eq, afterCalls_type, typed]
        decide
      have received := write.raw addr member typed
      rw [kstdioWriteLoop_other other, kstdioWriteRaw_eq, afterCalls_received typed] at received
      exact count_eq_one_of_received (by simpa using some_) received
    | terminal =>
      have plain : 0x1B ∉ buf := fun escape =>
        kstdioWrite_no_terminal right escape addr member typed
      have received := write.terminal addr member typed
      have other : (sinks addr).type ≠ .raw := by rw [typed]; decide
      rw [kstdioWriteLoop_plain plain, kstdioWriteRaw_eq, terminalCalls_plain plain] at received
      dsimp only at received
      rw [afterCalls_other other, afterCalls_received typed] at received
      refine count_eq_one_of_received ?_ received
      cases buf with
      | nil => exact absurd rfl some_
      | cons c buf => simp [charCalls_ne_nil]
  rw [List.nodup_iff_count_le_one]
  intro addr
  by_cases member : addr ∈ registered
  · exact Nat.le_of_eq (once addr member)
  · rw [List.count_eq_zero_of_not_mem member]
    exact Nat.zero_le 1

theorem writesText_of_kept {sinks' : Nat → KOutputSink}
    (raw : ∀ addr ∈ registered, (sinks addr).type = .raw →
      (sinks' addr).received = (sinks addr).received ++ buf.map .char)
    (terminal : ∀ addr ∈ registered, (sinks addr).type = .terminal →
      (sinks' addr).received = (sinks addr).received ++ terminalCalls buf 0)
    (colors : ∀ addr ∈ registered, (sinks' addr).fgcolor = (sinks addr).fgcolor ∧
      (sinks' addr).bgcolor = (sinks addr).bgcolor) : WritesText registered buf sinks sinks' :=
  ⟨raw, terminal, fun addr member => .inl (colors addr member).1,
    fun addr member => .inl (colors addr member).2⟩

end Right

/-- With an escape character before a terminal the colours are whatever the uninitialised variables
    held. A sink that is registered twice receives everything twice. -/
theorem kstdioWrite_right_iff (registered : List Nat) (buf : List Byte) (sinks : Nat → KOutputSink) :
    (∀ junk, WritesText registered buf sinks (kstdioWrite junk registered buf sinks).2) ↔
      buf = [] ∨
        registered.Nodup ∧ (0x1B ∉ buf ∨ ∀ addr ∈ registered, (sinks addr).type ≠ .terminal) := by
  constructor
  · intro right
    by_cases none_ : buf = []
    · exact .inl none_
    · refine .inr ⟨kstdioWrite_nodup right none_, ?_⟩
      by_cases escape : 0x1B ∈ buf
      · exact .inr (kstdioWrite_no_terminal right escape)
      · exact .inl escape
  · rintro (rfl | ⟨once, plain | noTerminal⟩) junk
    · refine writesText_of_kept ?_ ?_ fun _ _ => ⟨rfl, rfl⟩
      · exact fun _ _ _ => (List.append_nil _).symm
      · exact fun _ _ _ => (List.append_nil _).symm
    · unfold kstdioWrite
      rw [kstdioWriteLoop_plain plain, kstdioWriteRaw_eq]
      refine writesText_of_kept ?_ ?_ fun addr _ => by simp
      · intro addr member typed
        dsimp only
        rw [afterCalls_other (by rw [afterCalls_type, typed]; decide), afterCalls_received typed,
          List.count_eq_one_of_mem once member, repeated_one]
      · intro addr member typed
        dsimp only
        rw [afterCalls_received (by rw [afterCalls_type, typed]), afterCalls_other
          (by rw [typed]; decide), List.count_eq_one_of_mem once member, repeated_one,
          terminalCalls_plain plain]
    · unfold kstdioWrite
      rw [kstdioWriteRaw_eq]
      have kept : ∀ addr ∈ registered, kstdioWriteLoop junk registered buf 0 0
          (fun addr => afterCalls registered .raw (buf.map .char) addr (sinks addr)) addr =
            afterCalls registered .raw (buf.map .char) addr (sinks addr) := fun addr member =>
        kstdioWriteLoop_other (by rw [afterCalls_type]; exact noTerminal addr member) buf 0 0
      refine writesText_of_kept ?_ ?_ fun addr member => ?_
      · intro addr member typed
        dsimp only
        rw [kept addr member, afterCalls_received typed, List.count_eq_one_of_mem once member,
          repeated_one]
      · exact fun addr member typed => absurd typed (noTerminal addr member)
      · dsimp only
        rw [kept addr member]
        simp

/-- `"\x1b[31mhi"` for a terminal: the sequence names no background. -/
theorem not_kstdioWrite_right :
    ¬ ∀ (registered : List Nat) (buf : List Byte) (sinks : Nat → KOutputSink)
      (junk : Nat → KOutputColor × KOutputColor),
      WritesText registered buf sinks (kstdioWrite junk registered buf sinks).2 := by
  intro claim
  exact kstdioWrite_no_terminal
    (claim [1] [0x1B, 0x5B, 0x33, 0x31, 0x6D, 0x68, 0x69] fun _ => ⟨.terminal, 7, 0, []⟩)
    (by decide) 1 (by decide) rfl

end Dxgmx
