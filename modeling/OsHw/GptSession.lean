import Mathlib.Logic.Function.Basic
import OsHw.Run

/-! One session of `gptfs.py`: an object with an input, an output and an error, the `write` calls that are under
way on it and the worker threads that were started for it. A writer replaces or extends the input under the lock
and then asks for an answer in three separate accesses to `gpt_thread`; a worker reads the input without the
lock, and stores its answer under it. Only the blocks under the lock are one step. -/

namespace OsHw.Gpt

/-- `bytes.decode('utf-8')` meets a byte that does not go on. -/
def isContinuation (b : UInt8) : Bool := 0x80 ≤ b ∧ b < 0xC0

/-- The first place at which the decoder fails: where it starts, where it ends, and why. -/
def utf8Error (pos : Nat) : List UInt8 → Option (Nat × Nat × String)
  | [] => none
  | c :: s =>
      if c < 0x80 then utf8Error (pos + 1) s
      else if c < 0xC2 ∨ 0xF5 ≤ c then some (pos, pos + 1, "invalid start byte")
      else
        match s with
        | [] => some (pos, pos + 1, "unexpected end of data")
        | c₂ :: s =>
            -- no overlong forms, no surrogates, nothing above U+10FFFF
            if !isContinuation c₂ ∨ c = 0xE0 ∧ c₂ < 0xA0 ∨ c = 0xED ∧ 0xA0 ≤ c₂ ∨ c = 0xF0 ∧ c₂ < 0x90 ∨
                c = 0xF4 ∧ 0x90 ≤ c₂ then
              some (pos, pos + 1, "invalid continuation byte")
            else if c < 0xE0 then utf8Error (pos + 2) s
            else
              match s with
              | [] => some (pos, pos + 2, "unexpected end of data")
              | c₃ :: s =>
                  if !isContinuation c₃ then some (pos, pos + 2, "invalid continuation byte")
                  else if c < 0xF0 then utf8Error (pos + 3) s
                  else
                    match s with
                    | [] => some (pos, pos + 3, "unexpected end of data")
                    | c₄ :: s =>
                        if !isContinuation c₄ then some (pos, pos + 3, "invalid continuation byte")
                        else utf8Error (pos + 4) s

/-- A byte as two hexadecimal digits. -/
def hexByte (b : UInt8) : String := String.ofList [Nat.digitChar (b.toNat / 16), Nat.digitChar (b.toNat % 16)]

/-- What the text of a `UnicodeDecodeError` says about the place and the reason. -/
def decodeErrorPlace (b : ByteArray) : String :=
  let (start, stop, reason) := (utf8Error 0 b.toList).getD (0, 0, "")
  (if stop = start + 1 then " 0x" ++ hexByte (b.toList.getD start 0) ++ " in position " ++ toString start
    else "s in position " ++ toString start ++ "-" ++ toString (stop - 1)) ++ ": " ++ reason

/-- `str` of a `UnicodeDecodeError`. -/
def decodeErrorText (b : ByteArray) : String := "'utf-8' codec can't decode byte" ++ decodeErrorPlace b

/-- `bytes.decode('utf-8')`. -/
def decode (b : ByteArray) : Except String String :=
  if h : b.IsValidUTF8 then .ok (String.ofByteArray b h) else .error (decodeErrorText b)

/-- The reply that `run_gpt` makes up. -/
def reply (prompt : String) : String := "[模拟GPT回复] 你说的是: " ++ prompt

/-- The output and the error that `run_gpt` stores for an input. -/
def answer (input : ByteArray) : ByteArray × ByteArray :=
  match decode input with
  | .ok prompt => ((reply prompt).toUTF8, .empty)
  | .error e => (.empty, e.toUTF8)

theorem answer_toUTF8 (text : String) : answer text.toUTF8 = ((reply text).toUTF8, .empty) := by
  have hdecode : decode text.toUTF8 = .ok text := dif_pos text.isValidUTF8
  rw [answer, hdecode]

abbrev WriterId := Nat

abbrev WorkerId := Nat

/-- Where a call of `write` on the session stands, with the number it returns. -/
inductive Writer where
  | idle
  /-- Before the block under the lock. -/
  | storing (data : ByteArray) (offset : Nat)
  /-- Before the test of `gpt_thread` in `trigger_gpt`. -/
  | testing (length : Nat)
  /-- Before the assignment of a new thread. -/
  | assigning (length : Nat)
  /-- Before `gpt_thread.start()`. -/
  | starting (length : Nat)

/-- Where a worker thread stands. -/
inductive Worker where
  | created
  | started
  /-- It has read the input and decoded it. -/
  | answering (input : ByteArray)
  /-- It has stored the answer and has not terminated yet. -/
  | stored
  | dead

/-- `Thread.is_alive`: a thread that has not been started is not alive. -/
def Worker.isAlive : Worker → Bool
  | .started | .answering _ | .stored => true
  | .created | .dead => false

structure Session where
  input : ByteArray
  output : ByteArray
  error : ByteArray
  gptThread : Option WorkerId
  writers : WriterId → Writer
  workers : WorkerId → Worker
  /-- The workers created so far. -/
  count : Nat

/-- `GPTSession()`. -/
def Session.new : Session := ⟨.empty, .empty, .empty, none, fun _ => .idle, fun _ => .created, 0⟩

inductive Label where
  /-- A call of `write` has found the session. -/
  | write (w : WriterId) (data : ByteArray) (offset : Nat)
  | store (w : WriterId)
  | test (w : WriterId)
  | assign (w : WriterId)
  | start (w : WriterId)
  | truncate (length : Nat)
  | sample (k : WorkerId)
  | save (k : WorkerId)
  | terminate (k : WorkerId)

/-- `RuntimeError: threads can only be started once`. -/
inductive PyError where
  | startedTwice
  deriving DecidableEq, Repr

inductive Event where
  | quiet
  /-- A write has changed the input. -/
  | accepted
  | returned (w : WriterId) (result : Except PyError Nat)

namespace Session

def setWriter (s : Session) (w : WriterId) (pc : Writer) : Session :=
  { s with writers := Function.update s.writers w pc }

def setWorker (s : Session) (k : WorkerId) (pc : Worker) : Session :=
  { s with workers := Function.update s.workers k pc }

/-- `gpt_thread and gpt_thread.is_alive()`. -/
def workerAlive (s : Session) : Bool := (s.gptThread.map fun k => (s.workers k).isAlive).getD false

/-- The block of `write` under the lock. -/
def replaceOrAppend (s : Session) (data : ByteArray) (offset : Nat) : Session :=
  if offset = 0 then { s with input := data, output := .empty, error := .empty }
  else { s with input := s.input ++ data }

/-- The block of `truncate` under the lock. -/
def truncate (s : Session) (length : Nat) : Session := { s with input := s.input.extract 0 length }

def step (s : Session) : Label → Option (Session × Event)
  | .write w data offset =>
      match s.writers w with
      | .idle => some (s.setWriter w (.storing data offset), .quiet)
      | _ => none
  | .store w =>
      match s.writers w with
      | .storing data offset => some ((s.replaceOrAppend data offset).setWriter w (.testing data.size), .accepted)
      | _ => none
  | .test w =>
      match s.writers w with
      | .testing n =>
          if s.workerAlive then some (s.setWriter w .idle, .returned w (.ok n))
          else some (s.setWriter w (.assigning n), .quiet)
      | _ => none
  | .assign w =>
      match s.writers w with
      | .assigning n =>
          some ({ s.setWriter w (.starting n) with gptThread := some s.count, count := s.count + 1 }, .quiet)
      | _ => none
  -- `gpt_thread` is read again, another writer may have replaced or started it
  | .start w =>
      match s.writers w, s.gptThread with
      | .starting n, some k =>
          match s.workers k with
          | .created => some ((s.setWorker k .started).setWriter w .idle, .returned w (.ok n))
          | _ => some (s.setWriter w .idle, .returned w (.error .startedTwice))
      | _, _ => none
  | .truncate length => some (s.truncate length, .quiet)
  | .sample k =>
      match s.workers k with
      | .started => some (s.setWorker k (.answering s.input), .quiet)
      | _ => none
  | .save k =>
      match s.workers k with
      | .answering input =>
          some ({ s.setWorker k .stored with output := (answer input).1, error := (answer input).2 }, .quiet)
      | _ => none
  | .terminate k =>
      match s.workers k with
      | .stored => some (s.setWorker k .dead, .quiet)
      | _ => none

/-- What a step does, case by case. -/
inductive Step (s : Session) : Label → Session → Event → Prop
  | write {w : WriterId} {data : ByteArray} {offset : Nat} (hpc : s.writers w = .idle) :
      Step s (.write w data offset) (s.setWriter w (.storing data offset)) .quiet
  | store {w : WriterId} {data : ByteArray} {offset : Nat} (hpc : s.writers w = .storing data offset) :
      Step s (.store w) ((s.replaceOrAppend data offset).setWriter w (.testing data.size)) .accepted
  /-- The request is left to a live worker. -/
  | leave {w : WriterId} {n : Nat} (hpc : s.writers w = .testing n) (halive : s.workerAlive = true) :
      Step s (.test w) (s.setWriter w .idle) (.returned w (.ok n))
  | request {w : WriterId} {n : Nat} (hpc : s.writers w = .testing n) (hdead : s.workerAlive = false) :
      Step s (.test w) (s.setWriter w (.assigning n)) .quiet
  | assign {w : WriterId} {n : Nat} (hpc : s.writers w = .assigning n) :
      Step s (.assign w) { s.setWriter w (.starting n) with gptThread := some s.count, count := s.count + 1 } .quiet
  | start {w : WriterId} {n : Nat} {k : WorkerId} (hpc : s.writers w = .starting n) (hk : s.gptThread = some k)
      (hcreated : s.workers k = .created) :
      Step s (.start w) ((s.setWorker k .started).setWriter w .idle) (.returned w (.ok n))
  | startTwice {w : WriterId} {n : Nat} {k : WorkerId} (hpc : s.writers w = .starting n) (hk : s.gptThread = some k)
      (hstarted : s.workers k ≠ .created) :
      Step s (.start w) (s.setWriter w .idle) (.returned w (.error .startedTwice))
  | truncate {length : Nat} : Step s (.truncate length) (s.truncate length) .quiet
  | sample {k : WorkerId} (hpc : s.workers k = .started) :
      Step s (.sample k) (s.setWorker k (.answering s.input)) .quiet
  | save {k : WorkerId} {input : ByteArray} (hpc : s.workers k = .answering input) :
      Step s (.save k) { s.setWorker k .stored with output := (answer input).1, error := (answer input).2 } .quiet
  | terminate {k : WorkerId} (hpc : s.workers k = .stored) : Step s (.terminate k) (s.setWorker k .dead) .quiet

theorem Step.of_step {s s' : Session} {l : Label} {e : Event} (h : s.step l = some (s', e)) : Step s l s' e := by
  cases l with
  | write w data offset =>
      simp only [step] at h
      split at h
      · cases h
        exact .write ‹_›
      · cases h
  | store w =>
      simp only [step] at h
      split at h
      · cases h
        exact .store ‹_›
      · cases h
  | test w =>
      simp only [step] at h
      split at h
      · split at h
        · cases h
          exact .leave ‹_› ‹_›
        · rename_i hdead
          cases h
          exact .request ‹_› (Bool.eq_false_iff.mpr hdead)
      · cases h
  | assign w =>
      simp only [step] at h
      split at h
      · cases h
        exact .assign ‹_›
      · cases h
  | start w =>
      simp only [step] at h
      split at h
      · rename_i n k hpc hk
        split at h
        · rename_i hcreated
          cases h
          exact .start hpc hk hcreated
        · rename_i hstarted
          cases h
          exact .startTwice hpc hk hstarted
      · cases h
  | truncate length =>
      cases h
      exact .truncate
  | sample k =>
      simp only [step] at h
      split at h
      · cases h
        exact .sample ‹_›
      · cases h
  | save k =>
      simp only [step] at h
      split at h
      · cases h
        exact .save ‹_›
      · cases h
  | terminate k =>
      simp only [step] at h
      split at h
      · cases h
        exact .terminate ‹_›
      · cases h

section Accesses

variable {s s' : Session} {l : Label} {e : Event} {w v : WriterId} {k j : WorkerId}

@[simp] theorem writers_setWriter (s : Session) (w : WriterId) (pc : Writer) : (s.setWriter w pc).writers w = pc :=
  Function.update_self _ _ _

theorem writers_setWriter_of_ne (h : v ≠ w) (pc : Writer) : (s.setWriter w pc).writers v = s.writers v :=
  Function.update_of_ne h _ _

@[simp] theorem workers_setWorker (s : Session) (k : WorkerId) (pc : Worker) : (s.setWorker k pc).workers k = pc :=
  Function.update_self _ _ _

theorem workers_setWorker_of_ne (h : j ≠ k) (pc : Worker) : (s.setWorker k pc).workers j = s.workers j :=
  Function.update_of_ne h _ _

theorem replaceOrAppend_rest (s : Session) (data : ByteArray) (offset : Nat) :
    (s.replaceOrAppend data offset).workers = s.workers ∧ (s.replaceOrAppend data offset).count = s.count ∧
      (s.replaceOrAppend data offset).gptThread = s.gptThread := by
  rw [replaceOrAppend]
  split <;> exact ⟨rfl, rfl, rfl⟩

/-- Workers are numbered in order and begin as they are created. -/
structure Fresh (s : Session) : Prop where
  created : ∀ k, s.count ≤ k → s.workers k = .created
  known : ∀ k, s.gptThread = some k → k < s.count

theorem fresh_new : Fresh .new := ⟨fun _ _ => rfl, fun _ => nofun⟩

theorem Fresh.keep (h : Fresh s) (hworkers : s'.workers = s.workers) (hcount : s'.count = s.count)
    (hthread : s'.gptThread = s.gptThread) : Fresh s' := by
  constructor
  · rw [hworkers, hcount]
    exact h.created
  · rw [hthread, hcount]
    exact h.known

theorem Fresh.setWorker (h : Fresh s) (hk : k < s.count) (pc : Worker) : Fresh (s.setWorker k pc) := by
  refine ⟨fun j hj => ?_, h.known⟩
  have hjk : j ≠ k := by
    rintro rfl
    exact absurd hk (Nat.not_lt.mpr hj)
  exact (workers_setWorker_of_ne hjk pc).trans (h.created j hj)

/-- A worker that has been started has a number that is in use. -/
theorem Fresh.lt_count (h : Fresh s) (hk : s.workers k ≠ .created) : k < s.count := by
  by_contra hge
  exact hk (h.created k (Nat.not_lt.mp hge))

theorem Fresh.step (h : Fresh s) (hstep : s.step l = some (s', e)) : Fresh s' := by
  cases Step.of_step hstep with
  | write _ => exact h.keep rfl rfl rfl
  | @store _ data offset _ =>
      obtain ⟨hworkers, hcount, hthread⟩ := replaceOrAppend_rest s data offset
      exact h.keep hworkers hcount hthread
  | leave _ _ => exact h.keep rfl rfl rfl
  | request _ _ => exact h.keep rfl rfl rfl
  | assign _ =>
      refine ⟨fun k hk => h.created k (Nat.le_of_succ_le hk), ?_⟩
      rintro k ⟨⟩
      exact Nat.lt_succ_self _
  | start _ hk _ => exact (h.setWorker (h.known _ hk) .started).keep rfl rfl rfl
  | startTwice _ _ _ => exact h.keep rfl rfl rfl
  | truncate => exact h.keep rfl rfl rfl
  | sample hpc => exact h.setWorker (h.lt_count (by simp [hpc])) _
  | save hpc => exact (h.setWorker (h.lt_count (by simp [hpc])) .stored).keep rfl rfl rfl
  | terminate hpc => exact h.setWorker (h.lt_count (by simp [hpc])) _

end Accesses

end Session

end OsHw.Gpt
