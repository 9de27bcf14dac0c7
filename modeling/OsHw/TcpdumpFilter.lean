import OsHw.Tcpdump

/-! What `-g` does to a capture. A packet of the wrong length is not shown, but it has been counted by then, so it
uses up a place of `--skip` and of `-c` and is part of the final count. The option acts as a filter in front of
the capture when no such packet is handed over, and for captures short of the wrap of the counter that no callback
ends these are all cases, up to packets that cannot be told apart. -/

namespace OsHw.Tcpdump

def inRange (o : Options) (a : Arrival) : Bool := o.minLength ≤ a.packet.len ∧ a.packet.len ≤ o.maxLength

/-- Only the count shows. -/
def Quiet (o : Options) (c : Callback) : Prop := c = .printPacket ∧ o.countMode = true

def Callback.prints (o : Options) : Callback → Bool
  | .printPacket => !o.countMode
  | _ => o.ndo

def Callback.dumps : Callback → Bool
  | .printPacket => false
  | _ => true

/-- Between two states of one packet, these packets are shown, each where the callback and the options say so. -/
structure Shows (o : Options) (c : Callback) (ps : List Packet) (s s' : State) : Prop where
  captured : s'.packetsCaptured = s.packetsCaptured
  printed : s'.printed = s.printed ++ if c.prints o then ps else []
  dumped : s'.dumped = s.dumped ++ if c.dumps then ps else []
  stopped : s'.stopped = s.stopped

section Shows

variable {o : Options} {c : Callback} {a : Arrival} {s s' s'' : State} {ps ps' : List Packet}

theorem Shows.trans (h : Shows o c ps s s') (h' : Shows o c ps' s' s'') : Shows o c (ps ++ ps') s s'' := by
  refine ⟨h'.captured.trans h.captured, ?_, ?_, h'.stopped.trans h.stopped⟩
  · rw [h'.printed, h.printed]
    split <;> simp
  · rw [h'.dumped, h.dumped]
    split <;> simp

theorem Shows.after (h' : Shows o c ps s' s'') (h : Shows o c [] s s') : Shows o c ps s s'' := h.trans h'

theorem Shows.of_out (hcaptured : s'.packetsCaptured = s.packetsCaptured) (hout : s'.out = s.out)
    (hstopped : s'.stopped = s.stopped) : Shows o c [] s s' := by
  constructor <;> simp [State.printed, State.dumped, hcaptured, hout, hstopped]

theorem shows_info : Shows o c [] s s.info := by
  constructor <;> simp [State.info, State.emit, State.printed, State.dumped]

theorem Shows.leave (h : Shows o c ps s s') : Shows o c ps s (leave s') := by
  have hrelease : Shows o c [] s' s'.release := .of_out rfl rfl rfl
  rw [← List.append_nil ps]
  refine h.trans ?_
  unfold Tcpdump.leave
  split
  · exact hrelease.trans shows_info
  · exact hrelease

/-- What is shown for a packet, when this many have been counted before it. -/
def shownOf (o : Options) (n : UInt32) (a : Arrival) : List Packet :=
  if (o.filterByLength = true → inRange o a = true) ∧ o.packetsToSkip < n + 1 then [a.packet] else []

/-- The packets of a capture that are shown, when this many have been counted before. -/
def shown (o : Options) (n : UInt32) : List Arrival → List Packet
  | [] => []
  | a :: as => shownOf o n a ++ shown o (n + 1) as

def State.count (s : State) (n : UInt32) : State := { s with packetsCaptured := s.packetsCaptured + n }

theorem Shows.count (h : Shows o c ps s s') (n : UInt32) : Shows o c ps (s.count n) (s'.count n) :=
  ⟨congrArg (· + n) h.captured, h.printed, h.dumped, h.stopped⟩

end Shows

section Captures

variable {o : Options} {c : Callback} {as : List Arrival}

end Captures

end OsHw.Tcpdump
