import OsHw.TcpdumpFilter
import OsHw.Volumes
import Mathlib.Data.Int.Order.Lemmas

/-! The files of a capture with `-C`. A file that has grown past the limit is closed and the next one opened before the
packet is written; with `-W` the names come round, and a file that is opened again is emptied. The packets are a log
and the files its volumes: without `-W` none is lost, and with it the files hold the end of the log. -/

namespace OsHw.Tcpdump

section Names

/-- `%0*d` of a number that is not negative. -/
def padded (width n : Nat) : List Char :=
  List.replicate (width - (Nat.toDigits 10 n).length) '0' ++ Nat.toDigits 10 n

/-- The name `MakeFilename` makes, from the argument of `-w` or what `strftime` makes of it. -/
def FileName.text (orig : List Char) (strftime : Int → List Char) (maxChars : Int) (f : FileName) : List Char :=
  let filename :=
    match f.stamp with
    | none => orig
    | some t => strftime t
  match f.number with
  | none => filename
  | some cnt => filename ++ padded maxChars.toNat cnt.toNat

end Names

section Files

/-- The files that have been closed, and what is in the one that is open. -/
structure Written where
  closed : List (Volume FileName Packet)
  current : List Packet

def Written.add (w : Written) : Event → Written
  | .dump _ p => { w with current := w.current ++ [p] }
  | .close f => ⟨w.closed ++ [⟨f, w.current⟩], []⟩
  | _ => w

def written (out : List Event) : Written := out.foldl Written.add ⟨[], []⟩

/-- What a rotation by size works on. -/
structure Files where
  closed : List (Volume FileName Packet)
  file : FileName
  current : List Packet
  size : Int
  count : Int

def State.files (s : State) : Files where
  closed := (written s.out).closed
  file := s.file
  current := (written s.out).current
  size := s.size
  count := s.cflagCount

namespace Files

/-- All files, in the order in which they were opened. -/
def volumes (f : Files) : List (Volume FileName Packet) := f.closed ++ [⟨f.file, f.current⟩]

def write (f : Files) (p : Packet) : Files :=
  { f with current := f.current ++ [p], size := f.size + packetHeader + p.caplen.toNat }

def rotate (o : Options) (f : Files) : Files :=
  let count := if o.wflag > 0 ∧ f.count + 1 ≥ o.wflag then 0 else f.count + 1
  ⟨f.closed ++ [⟨f.file, f.current⟩], makeFilename o 0 count o.wflagChars, [], fileHeader, count⟩

/-- A packet is written, after a rotation when the file is too large. -/
def put (o : Options) (f : Files) (p : Packet) : Files := ((if f.size > o.cflag then f.rotate o else f).write p)

end Files

variable {o : Options} {s s' : State} {a : Arrival}

/-- The files and what has been dumped to them stay the same. -/
structure Idle (s s' : State) : Prop where
  files : s'.files = s.files
  dumped : s'.dumped = s.dumped

theorem Idle.trans {s'' : State} (h : Idle s s') (h' : Idle s' s'') : Idle s s'' :=
  ⟨h'.files.trans h.files, h'.dumped.trans h.dumped⟩

theorem Idle.of_out (hout : s'.out = s.out) (hfile : s'.file = s.file) (hsize : s'.size = s.size)
    (hcount : s'.cflagCount = s.cflagCount) : Idle s s' := by
  refine ⟨?_, ?_⟩
  · rw [State.files, State.files, hout, hfile, hsize, hcount]
  · rw [State.dumped, State.dumped, hout]

/-- A packet is dumped by the rotation by size, or nothing is done to the files. -/
def Puts (o : Options) (s s' : State) : Prop :=
  Idle s s' ∨ ∃ p, s'.files = s.files.put o p ∧ s'.dumped = s.dumped ++ [p]

theorem Puts.before {t : State} (h : Idle s t) (h' : Puts o t s') : Puts o s s' := by
  obtain h' | ⟨p, hfiles, hdumped⟩ := h'
  · exact Or.inl (h.trans h')
  · refine Or.inr ⟨p, ?_, ?_⟩
    · rw [hfiles, h.files]
    · rw [hdumped, h.dumped]

end Files

section Kept

variable {o : Options} {f : Files} {p : Packet} {ps : List Packet}

/-- The number of the i-th file. -/
def slot (o : Options) (i : Nat) : Int := if o.wflag > 0 then i % o.wflag else i

def slotName (o : Options) (i : Nat) : FileName := makeFilename o 0 (slot o i) o.wflagChars

/-- The bytes of a file. -/
def fileSize (ps : List Packet) : Int := fileHeader + (ps.map fun p => packetHeader + (p.caplen.toNat : Int)).sum

/-- What holds of the files after these packets. -/
structure Kept (o : Options) (ps : List Packet) (f : Files) : Prop where
  log : Volume.log f.volumes = ps
  names : f.volumes.map Volume.name = (List.range f.volumes.length).map (slotName o)
  count : f.count = slot o f.closed.length
  size : f.size = fileSize f.current
  full : ∀ v ∈ f.closed, o.cflag < fileSize v.entries
  bounded : ∀ v ∈ f.volumes, fileSize v.entries.dropLast ≤ max fileHeader o.cflag

end Kept

section Stored

variable {o : Options}

/-- What is stored under these names after a capture: the end of what was dumped, and all of it unless `-W` was given
and that many files are there. A file is closed when it is larger than the limit of `-C`, which only its last packet
can bring about, and no other file is touched. -/
structure Stored (o : Options) (orig : List Char) (d d' : List Char → Option (List Packet)) (dumped : List Packet)
    (names : List (List Char)) : Prop where
  nodup : names.Nodup
  recent : ∃ older recent, dumped = older ++ recent ∧ Volume.readAll d' names = some recent ∧
    (older ≠ [] → 0 < o.wflag ∧ names.length = o.wflag)
  limit : 0 < o.wflag →
    names.length ≤ o.wflag ∧ ∀ name ∈ names, (name.length : Int) = orig.length + o.wflagChars
  full : ∀ name ∈ names.dropLast, ∃ ps, d' name = some ps ∧ o.cflag < fileSize ps
  bounded : ∀ name ∈ names, ∃ ps, d' name = some ps ∧ fileSize ps.dropLast ≤ max fileHeader o.cflag
  frame : ∀ path ∉ names, d' path = d path

variable {f : Files} {ps : List Packet} {text : FileName → List Char} {us ws : List (Volume FileName Packet)}

/-- The last files are stored when their names are different. -/
theorem Kept.stored (h : Kept o ps f) (orig : List Char) (d : List Char → Option (List Packet))
    (hsplit : f.volumes = us ++ ws) (hsome : ws ≠ [])
    (hnodup : ((ws.map (Volume.rename text)).map Volume.name).Nodup)
    (hall : us ≠ [] → 0 < o.wflag ∧ ws.length = o.wflag)
    (hlimit : 0 < o.wflag → ws.length ≤ o.wflag ∧ ∀ v ∈ ws, ((text v.name).length : Int) = orig.length + o.wflagChars)
    (hframe : ∀ path ∉ (ws.map (Volume.rename text)).map Volume.name,
      Volume.disk d (f.volumes.map (Volume.rename text)) path = d path) :
    Stored o orig d (Volume.disk d (f.volumes.map (Volume.rename text))) ps
      ((ws.map (Volume.rename text)).map Volume.name) := by
  have hdisk : Volume.disk d (f.volumes.map (Volume.rename text)) =
      Volume.disk (Volume.disk d (us.map (Volume.rename text))) (ws.map (Volume.rename text)) := by
    rw [hsplit, List.map_append, Volume.disk_append]
  have hthere : ∀ v ∈ ws, Volume.disk d (f.volumes.map (Volume.rename text)) (text v.name) = some v.entries := by
    intro v hv
    rw [hdisk]
    exact Volume.disk_of_mem hnodup (List.mem_map_of_mem hv)
  have hlast : f.closed = us ++ ws.dropLast := by
    calc f.closed = f.volumes.dropLast := (List.dropLast_concat).symm
      _ = us ++ ws.dropLast := by rw [hsplit, List.dropLast_append_of_ne_nil hsome]
  refine ⟨hnodup, ?_, ?_, ?_, ?_, hframe⟩
  · refine ⟨Volume.log us, Volume.log ws, ?_, ?_, fun holder => ?_⟩
    · rw [← Volume.log_append, ← hsplit, h.log]
    · rw [hsplit, List.map_append, Volume.readAll_disk hnodup, Volume.log_rename]
    · have hus : us ≠ [] := by
        rintro rfl
        exact holder rfl
      rw [List.length_map, List.length_map]
      exact hall hus
  · intro hw
    obtain ⟨hlength, htext⟩ := hlimit hw
    rw [List.length_map, List.length_map]
    refine ⟨hlength, fun name hname => ?_⟩
    rw [Volume.names_rename, List.map_map] at hname
    obtain ⟨v, hv, rfl⟩ := List.mem_map.mp hname
    exact htext v hv
  · intro name hname
    rw [← List.map_dropLast, ← List.map_dropLast, Volume.names_rename, List.map_map] at hname
    obtain ⟨v, hv, rfl⟩ := List.mem_map.mp hname
    refine ⟨v.entries, hthere v (List.dropLast_subset ws hv), h.full v ?_⟩
    rw [hlast]
    exact List.mem_append_right us hv
  · intro name hname
    rw [Volume.names_rename, List.map_map] at hname
    obtain ⟨v, hv, rfl⟩ := List.mem_map.mp hname
    refine ⟨v.entries, hthere v hv, h.bounded v ?_⟩
    rw [hsplit]
    exact List.mem_append_right us hv

end Stored

end OsHw.Tcpdump
