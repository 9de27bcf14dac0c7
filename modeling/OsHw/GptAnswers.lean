import OsHw.GptSession

/-! Whether the answer belongs to the input. A writer that finds a live worker leaves its request to it, and a worker
that has read an older input stores its answer all the same. When nothing is under way any more, the answer is
the one to the current input in every run in which a request is left only to a worker that still serves it, and
an old answer is stored only while the current one is still to come. -/

namespace OsHw.Gpt.Session

variable {s s' : Session} {l : Label} {e : Event} {es : List Event}

/-- No write is under way and no worker is alive. -/
def Quiescent (s : Session) : Prop := (∀ w, s.writers w = .idle) ∧ ∀ k, (s.workers k).isAlive = false

/-- The answer belongs to the input. -/
def Answered (s : Session) : Prop :=
  (∀ h : s.input.IsValidUTF8, s.output = (reply (String.ofByteArray s.input h)).toUTF8 ∧ s.error = .empty) ∧
    (¬s.input.IsValidUTF8 → s.output = .empty ∧ s.error ≠ .empty)

theorem decodeErrorText_toUTF8_ne {b : ByteArray} (h : (decodeErrorText b).toUTF8 = .empty) : False := by
  have hempty : decodeErrorText b = "" := String.toByteArray_inj.mp h
  have hhead := (String.append_eq_empty_iff.mp hempty).1
  simp at hhead

theorem answered_of_answer (h : (s.output, s.error) = answer s.input) : s.Answered := by
  rw [Prod.mk.injEq, answer] at h
  by_cases hvalid : s.input.IsValidUTF8
  · rw [decode, dif_pos hvalid] at h
    exact ⟨fun _ => h, fun hnot => absurd hvalid hnot⟩
  · rw [decode, dif_neg hvalid] at h
    refine ⟨fun hv => absurd hv hvalid, fun _ => ⟨h.1, ?_⟩⟩
    rw [h.2]
    exact decodeErrorText_toUTF8_ne

/-- An answer to the current input is still to come: a writer has stored and not yet started a worker, or a worker
has not read the input yet or has read the current one and not answered. -/
def Coming (s : Session) : Prop :=
  (∃ w n, s.writers w = .testing n ∨ s.writers w = .assigning n) ∨
    (∃ w n k, s.writers w = .starting n ∧ s.gptThread = some k ∧ s.workers k = .created) ∨
    ∃ k, s.workers k = .started ∨ s.workers k = .answering s.input

/-- The condition on one step. A writer leaves its request to a live worker that has not read the input yet or has
read the current one, or needs no answer any more; and a worker stores the answer to an input that is no longer
the current one only while the answer to the current one is still to come. -/
def Orderly (s : Session) : Label → Prop
  | .test _ => ∀ k, s.gptThread = some k → (s.workers k).isAlive = true →
      s.workers k = .started ∨ s.workers k = .answering s.input ∨ (s.output, s.error) = answer s.input
  | .save k => ∀ input, s.workers k = .answering input → input ≠ s.input → s.Coming
  | _ => True

/-- Once a write has been accepted, the current input is answered or an answer is to come; worker numbers are used
in order. -/
structure Inv (es : List Event) (s : Session) : Prop where
  covered : .accepted ∈ es → s.Coming ∨ (s.output, s.error) = answer s.input
  fresh : ∀ k, s.count ≤ k → s.workers k = .created
  known : ∀ k, s.gptThread = some k → k < s.count

theorem Coming.not_quiescent (h : s.Coming) : ¬s.Quiescent := by
  rintro ⟨hw, hk⟩
  rcases h with ⟨w, n, h | h⟩ | ⟨w, n, k, h, -⟩ | ⟨k, h | h⟩
  · rw [hw w] at h
    cases h
  · rw [hw w] at h
    cases h
  · rw [hw w] at h
    cases h
  · have hdead := hk k
    rw [h] at hdead
    cases hdead
  · have hdead := hk k
    rw [h] at hdead
    cases hdead

theorem workerAlive_iff : s.workerAlive = true ↔ ∃ k, s.gptThread = some k ∧ (s.workers k).isAlive = true := by
  rw [workerAlive]
  cases s.gptThread <;> simp

/-- A step of a writer that keeps the answer and the workers keeps what is to come, but for the writer itself. -/
theorem Coming.setWriter {w : WriterId} {pc : Writer} (h : s.Coming)
    (hidle : ∀ n, s.writers w ≠ .testing n ∧ s.writers w ≠ .assigning n ∧
      (s.writers w = .starting n → ∀ k, s.gptThread = some k → s.workers k ≠ .created)) :
    (s.setWriter w pc).Coming := by
  rcases h with ⟨v, n, hv⟩ | ⟨v, n, k, hv, hk, hcreated⟩ | hk
  · have hvw : v ≠ w := by
      rintro rfl
      rcases hv with hv | hv
      · exact (hidle n).1 hv
      · exact (hidle n).2.1 hv
    refine .inl ⟨v, n, ?_⟩
    rwa [writers_setWriter_of_ne hvw]
  · have hvw : v ≠ w := by
      rintro rfl
      exact (hidle n).2.2 hv k hk hcreated
    refine .inr (.inl ⟨v, n, k, ?_, hk, hcreated⟩)
    rwa [writers_setWriter_of_ne hvw]
  · exact .inr (.inr hk)

theorem Inv.toFresh (h : Inv es s) : Fresh s := ⟨h.fresh, h.known⟩

theorem Inv.quiet (h : Inv es s) (hstep : s.step l = some (s', e)) (he : e ≠ .accepted)
    (hcov : s.Coming ∨ (s.output, s.error) = answer s.input →
      s'.Coming ∨ (s'.output, s'.error) = answer s'.input) : Inv (es ++ [e]) s' := by
  have hfresh := h.toFresh.step hstep
  refine ⟨fun hmem => hcov (h.covered ?_), hfresh.created, hfresh.known⟩
  rcases List.mem_append.mp hmem with hmem | hmem
  · exact hmem
  · exact absurd (List.mem_singleton.mp hmem).symm he

theorem inv_write {w : WriterId} {data : ByteArray} {offset : Nat} (hs : Inv es s)
    (h : s.step (.write w data offset) = some (s', e)) : Inv (es ++ [e]) s' := by
  cases Step.of_step h with
  | write hidle =>
      refine hs.quiet h nofun (Or.imp_left fun hc => hc.setWriter fun n => ?_)
      simp [hidle]

theorem inv_store {w : WriterId} (hs : Inv es s) (h : s.step (.store w) = some (s', e)) : Inv (es ++ [e]) s' := by
  have hfresh := hs.toFresh.step h
  cases Step.of_step h with
  | @store _ data offset _ =>
      refine ⟨fun _ => .inl (.inl ⟨w, data.size, .inl ?_⟩), hfresh.created, hfresh.known⟩
      rw [writers_setWriter]

theorem inv_test {w : WriterId} (hs : Inv es s) (hl : s.Orderly (.test w)) (h : s.step (.test w) = some (s', e)) :
    Inv (es ++ [e]) s' := by
  cases Step.of_step h with
  | leave _ halive =>
      obtain ⟨k, hk, hka⟩ := workerAlive_iff.mp halive
      refine hs.quiet h nofun fun _ => ?_
      rcases hl k hk hka with hw | hw | hw
      · exact .inl (.inr (.inr ⟨k, .inl hw⟩))
      · exact .inl (.inr (.inr ⟨k, .inr hw⟩))
      · exact .inr hw
  | @request _ n _ _ =>
      refine hs.quiet h nofun fun _ => .inl (.inl ⟨w, n, .inr ?_⟩)
      rw [writers_setWriter]

theorem inv_assign {w : WriterId} (hs : Inv es s) (h : s.step (.assign w) = some (s', e)) : Inv (es ++ [e]) s' := by
  cases Step.of_step h with
  | @assign _ n _ =>
      refine hs.quiet h nofun fun _ => .inl (.inr (.inl ⟨w, n, s.count, ?_, rfl, hs.fresh _ (Nat.le_refl _)⟩))
      exact writers_setWriter s w _

theorem inv_start {w : WriterId} (hs : Inv es s) (h : s.step (.start w) = some (s', e)) : Inv (es ++ [e]) s' := by
  cases Step.of_step h with
  | @start _ n k _ hk _ =>
      refine hs.quiet h nofun fun _ => .inl (.inr (.inr ⟨k, .inl ?_⟩))
      exact workers_setWorker s k _
  | startTwice hpc hk hstarted =>
      -- another writer has started the thread, the request is with that one
      refine hs.quiet h nofun (Or.imp_left fun hc => hc.setWriter fun m => ?_)
      refine ⟨by simp [hpc], by simp [hpc], fun _ j hj => ?_⟩
      cases hk.symm.trans hj
      exact hstarted

/-- A worker that has nothing to do with the answer to come moves on. -/
theorem Coming.setWorker {k : WorkerId} {pc : Worker} (h : s.Coming)
    (hk : s.workers k ≠ .created ∧ s.workers k ≠ .started ∧ s.workers k ≠ .answering s.input) :
    (s.setWorker k pc).Coming := by
  rcases h with hw | ⟨w, n, j, hw, hj, hcreated⟩ | ⟨j, hj⟩
  · exact .inl hw
  · have hjk : j ≠ k := by
      rintro rfl
      exact hk.1 hcreated
    exact .inr (.inl ⟨w, n, j, hw, hj, (workers_setWorker_of_ne hjk pc).trans hcreated⟩)
  · have hjk : j ≠ k := by
      rintro rfl
      exact hj.elim hk.2.1 hk.2.2
    refine .inr (.inr ⟨j, ?_⟩)
    rwa [workers_setWorker_of_ne hjk]

theorem inv_sample {k : WorkerId} (hs : Inv es s) (h : s.step (.sample k) = some (s', e)) : Inv (es ++ [e]) s' := by
  cases Step.of_step h with
  | sample _ =>
      refine hs.quiet h nofun fun _ => .inl (.inr (.inr ⟨k, .inr ?_⟩))
      exact workers_setWorker s k _

theorem inv_save {k : WorkerId} (hs : Inv es s) (hl : s.Orderly (.save k)) (h : s.step (.save k) = some (s', e)) :
    Inv (es ++ [e]) s' := by
  cases Step.of_step h with
  | @save _ input hpc =>
      refine hs.quiet h nofun fun _ => ?_
      by_cases hinput : input = s.input
      · subst hinput
        exact .inr rfl
      · have hcoming : (s.setWorker k .stored).Coming := (hl input hpc hinput).setWorker (by simp [hpc, hinput])
        exact .inl hcoming

theorem inv_terminate {k : WorkerId} (hs : Inv es s) (h : s.step (.terminate k) = some (s', e)) :
    Inv (es ++ [e]) s' := by
  cases Step.of_step h with
  | terminate hpc =>
      refine hs.quiet h nofun (Or.imp_left fun hc => hc.setWorker ?_)
      simp [hpc]

theorem inv_step (hs : Inv es s) (hl : s.Orderly l) (hwrite : ∀ n, l ≠ .truncate n) (h : s.step l = some (s', e)) :
    Inv (es ++ [e]) s' := by
  cases l with
  | write w data offset => exact inv_write hs h
  | store w => exact inv_store hs h
  | test w => exact inv_test hs hl h
  | assign w => exact inv_assign hs h
  | start w => exact inv_start hs h
  | truncate n => exact absurd rfl (hwrite n)
  | sample k => exact inv_sample hs h
  | save k => exact inv_save hs hl h
  | terminate k => exact inv_terminate hs h

/-- **Answers.** In a run of writes whose steps are orderly, whenever nothing is under way the answer belongs to the
current input. -/
theorem quiescent_answered (ls : List Label) (hwrites : ∀ l ∈ ls, ∀ n, l ≠ .truncate n)
    (hls : Along step Orderly .new ls) :
    Throughout step (fun es s => .accepted ∈ es → s.Quiescent → s.Answered) .new ls := by
  have hlabels : Along step (fun _ l => ∀ n, l ≠ .truncate n) .new ls := Along.of_forall _ _ fun l hl _ => hwrites l hl
  refine throughout_of_along Inv ?_ ?_ ⟨nofun, fun _ _ => rfl, nofun⟩ (hls.and hlabels)
  · rintro es s l s' e hs ⟨hl, hwrite⟩ h
    exact inv_step hs hl hwrite h
  · intro es s hs haccepted hquiet
    rcases hs.covered haccepted with hc | hans
    · exact absurd hquiet hc.not_quiescent
    · exact answered_of_answer hans

/-- A write and its worker, one after the other. -/
def oneWrite : List Label :=
  [.write 0 "a".toUTF8 0, .store 0, .test 0, .assign 0, .start 0, .sample 0, .save 0, .terminate 0]

theorem oneWrite_answered :
    ∃ s es, run step .new oneWrite = some (s, es) ∧ .accepted ∈ es ∧ s.Quiescent ∧ s.Answered := by
  have hend : ∃ s es, run step .new oneWrite = some (s, es) ∧ .accepted ∈ es ∧ s.Quiescent := by
    refine ⟨_, _, rfl, by simp, fun w => ?_, fun k => ?_⟩
    · cases w <;> rfl
    · cases k <;> rfl
  have horderly : Along step Orderly .new oneWrite := by
    refine Along.cons rfl trivial (Along.cons rfl trivial (Along.cons rfl nofun (Along.cons rfl trivial
      (Along.cons rfl trivial (Along.cons rfl trivial (Along.cons rfl ?_ (Along.cons rfl trivial trivial)))))))
    intro input hread hne
    cases hread
    exact absurd rfl hne
  obtain ⟨s, es, hrun, haccepted, hquiet⟩ := hend
  exact ⟨s, es, hrun, haccepted, hquiet, quiescent_answered oneWrite (by simp [oneWrite]) horderly _
    (List.prefix_refl _) s es hrun haccepted hquiet⟩

/-- A second write comes while the worker of the first has read the input and not answered yet. -/
def overtaken : List Label :=
  [.write 0 "a".toUTF8 0, .store 0, .test 0, .assign 0, .start 0, .sample 0,
    .write 1 "b".toUTF8 0, .store 1, .test 1, .save 0, .terminate 0]

theorem overtaken_not_answered :
    ¬Throughout step (fun es s => .accepted ∈ es → s.Quiescent → s.Answered) .new overtaken ∧
      ∃ s es, run step .new overtaken = some (s, es) ∧ .accepted ∈ es ∧ s.Quiescent ∧ s.input = "b".toUTF8 ∧
        s.output = (reply "a").toUTF8 := by
  have hend : ∃ s es, run step .new overtaken = some (s, es) ∧ .accepted ∈ es ∧ s.Quiescent ∧ s.input = "b".toUTF8 ∧
      s.output = (reply "a").toUTF8 := by
    refine ⟨_, _, rfl, by simp, ⟨fun w => ?_, fun k => ?_⟩, rfl, congrArg Prod.fst (answer_toUTF8 "a")⟩
    · rcases w with _ | _ | w <;> rfl
    · cases k <;> rfl
  refine ⟨fun h => ?_, hend⟩
  obtain ⟨s, es, hrun, haccepted, hquiet, hinput, hout⟩ := hend
  have hans := h overtaken (List.prefix_refl _) s es hrun haccepted hquiet
  have hvalid : s.input.IsValidUTF8 := hinput ▸ "b".isValidUTF8
  have hsame := hout.symm.trans (hans.1 hvalid).1
  simp only [hinput] at hsame
  have htext := (String.append_right_inj _).mp (String.toByteArray_inj.mp hsame)
  have hne : "a" ≠ "b" := by decide
  exact hne htext

end OsHw.Gpt.Session
