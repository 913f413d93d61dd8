import StagedQuery.Proofs.Wire.Refusal

/-!
# One marker, last

A writer of frames may be asked anything in any order, and may be used on after it has failed. What
became of its calls is their `History`: each call with its answer. The history alone says what the
transport holds (`FrameWriter.marker_last`): the frames of the messages whose calls have succeeded,
each as a whole and in this order, and behind them the marker if the stream was ended before it was
given up. Once it was ended or given up, nothing is written any more.

The writer has a single flag for both ends of a stream. It is set exactly if some call has ended
the stream or has given it up; this, and what the transport holds, is what every call keeps up
(`FrameWriter.Tells.step`).
-/

namespace StagedQuery

/-- No frame looks like the marker. -/
theorem not_endMarker_prefix {m : Bytes} (h : frameOf m = .ok (frameBytes m)) :
    ¬ endMarker <+: frameBytes m := by
  rintro ⟨rest, hrest⟩
  by_cases hempty : m = []
  · subst hempty
    cases hrest
  · obtain ⟨-, hlt, hframe⟩ := frameOf_eq_ok hempty h
    rw [hframe] at hrest
    have hheader := (List.append_inj hrest rfl).1
    have hlength := FrameReader.headerLength_le32 hlt
    rw [← hheader] at hlength
    have hmarker : FrameReader.headerLength endMarker = -0x80000000 := rfl
    omega

namespace FrameWriter

variable {w w' : FrameWriter}

/-! ### Calls -/

/-- What a writer of frames may be asked. -/
inductive Call
  | message (message : Bytes)
  | json (json : Json)
  | finish
  | flush
  | close
  | abort

namespace Call

/-- The call as an action. -/
def run : Call → Action FrameWriter Unit
  | message m => writeMessage m
  | json j => writeJson j
  | finish => FrameWriter.finish
  | flush => FrameWriter.flush
  | close => FrameWriter.close
  | abort => FrameWriter.abort

/-- The message that a call is to write. -/
def message? : Call → Option Bytes
  | message m => some m
  | json j => some j.bytes
  | _ => none

/-- The call is to end the stream. -/
def ends : Call → Bool
  | finish | close => true
  | _ => false

/-- After the call nothing is to be written: it ends the stream, or gives it up. -/
def seals : Call → Bool
  | finish | close | abort => true
  | _ => false

theorem seals_of_ends {c : Call} (h : c.ends = true) : c.seals = true := by
  cases c <;> first | rfl | cases h

theorem ends_or_abort {c : Call} (h : c.seals = true) : c.ends = true ∨ c = abort := by
  cases c <;> first | exact .inl rfl | exact .inr rfl | cases h

theorem not_seals_of_message {c : Call} {m : Bytes} (h : c.message? = some m) :
    c.seals = false := by
  cases c <;> first | rfl | cases h

end Call

/-- Some calls, each with its answer. -/
abbrev History := List (Call × Except Error Unit)

/-- Make some calls, where one that fails does not keep the next one from being made: their
history, and the writer after them. -/
def runAll : List Call → FrameWriter → History × FrameWriter
  | [], w => ([], w)
  | c :: calls, w =>
    let (answer, w) := c.run w
    let (history, w) := runAll calls w
    ((c, answer) :: history, w)

namespace History

/-- The messages whose calls have succeeded. -/
def written (h : History) : List Bytes :=
  h.filterMap fun (c, answer) =>
    match answer with
    | .ok () => c.message?
    | .error _ => none

/-- Some call has ended the stream, and the stream had not been given up before. -/
def Ended (h : History) : Prop :=
  ∃ before c after, h = before ++ (c, .ok ()) :: after ∧ c.ends = true ∧
    ∀ x ∈ before, x.1 ≠ .abort

/-- Some call has ended the stream, or has given it up. -/
def Sealed (h : History) : Prop := ∃ c, (c, .ok ()) ∈ h ∧ c.seals = true

variable {h : History} {c : Call} {answer : Except Error Unit}

theorem written_concat_ok (h : History) (c : Call) :
    written (h ++ [(c, .ok ())]) = h.written ++ c.message?.toList := by
  rw [written, List.filterMap_append, ← written]
  cases hm : c.message? <;> simp [hm]

theorem written_concat_error (h : History) (c : Call) (e : Error) :
    written (h ++ [(c, .error e)]) = h.written := by
  simp [written, List.filterMap_append]

theorem written_concat_silent (h : History) (hm : c.message? = none) :
    written (h ++ [(c, .ok ())]) = h.written := by
  rw [written_concat_ok, hm]
  exact List.append_nil _

/-- The last call counts only if nothing was given up before it. -/
theorem ended_concat : Ended (h ++ [(c, answer)]) ↔
    h.Ended ∨ c.ends = true ∧ answer = .ok () ∧ ∀ x ∈ h, x.1 ≠ .abort := by
  constructor
  · rintro ⟨before, c', after, heq, hends, hbefore⟩
    rcases List.eq_nil_or_concat after with rfl | ⟨after, last, rfl⟩
    · obtain ⟨rfl, hlast⟩ := List.append_inj' heq rfl
      cases hlast
      exact .inr ⟨hends, rfl, hbefore⟩
    · rw [List.concat_eq_append, ← List.cons_append, ← List.append_assoc] at heq
      exact .inl ⟨before, c', after, (List.append_inj' heq rfl).1, hends, hbefore⟩
  · rintro (⟨before, c', after, rfl, hends, hbefore⟩ | ⟨hends, rfl, hall⟩)
    · exact ⟨before, c', after ++ [(c, answer)], by simp, hends, hbefore⟩
    · exact ⟨h, c, [], rfl, hends, hall⟩

theorem sealed_concat : Sealed (h ++ [(c, answer)]) ↔
    h.Sealed ∨ c.seals = true ∧ answer = .ok () := by
  constructor
  · rintro ⟨c', hmem, hseals⟩
    rcases List.mem_append.mp hmem with hmem | hmem
    · exact .inl ⟨c', hmem, hseals⟩
    · cases List.mem_singleton.mp hmem
      exact .inr ⟨hseals, rfl⟩
  · rintro (⟨c', hmem, hseals⟩ | ⟨hseals, rfl⟩)
    · exact ⟨c', List.mem_append_left _ hmem, hseals⟩
    · exact ⟨c, List.mem_append_right _ List.mem_cons_self, hseals⟩

theorem Ended.sealed (h' : h.Ended) : h.Sealed := by
  obtain ⟨before, c, after, rfl, hends, -⟩ := h'
  exact ⟨c, List.mem_append_right _ List.mem_cons_self, Call.seals_of_ends hends⟩

/-- A stream that was sealed, but not given up, was ended. -/
theorem Sealed.ended (h' : h.Sealed) (hall : ∀ x ∈ h, x.1 ≠ .abort) : h.Ended := by
  obtain ⟨c, hmem, hseals⟩ := h'
  rcases Call.ends_or_abort hseals with hends | rfl
  · obtain ⟨before, after, rfl⟩ := List.append_of_mem hmem
    exact ⟨before, c, after, rfl, hends, fun x hx => hall x (List.mem_append_left _ hx)⟩
  · exact absurd rfl (hall _ hmem)

end History

/-! ### What a call can do -/

/-- What a call can do: its answer, and the writer afterwards. -/
inductive Does (w : FrameWriter) : Call → Except Error Unit × FrameWriter → Prop
  /-- A message is written as its frame. -/
  | written {c : Call} {m : Bytes} (hm : c.message? = some m) (hopen : w.finished = false)
    (hframe : frameOf m = .ok (frameBytes m)) :
    Does w c (.ok (), { w with sink := w.sink.took (frameBytes m) })
  /-- Nothing is written. -/
  | refused {c : Call} {e : Error} {offered : Nat} (hc : c ≠ .abort) :
    Does w c (.error e, { w with sink := { w.sink with offered } })
  /-- There is nothing to write. -/
  | idle {c : Call} {shutdowns : Nat} (hm : c.message? = none) (hc : c ≠ .abort)
    (hends : c.ends = true → w.finished = true) :
    Does w c (.ok (), { w with sink := { w.sink with shutdowns } })
  /-- The stream is ended. -/
  | marked {c : Call} {shutdowns : Nat} (hends : c.ends = true) (hopen : w.finished = false) :
    Does w c (.ok (), { sink := { w.sink.took endMarker with shutdowns }, finished := true })
  /-- The stream is given up. -/
  | abandoned {shutdowns : Nat} :
    Does w .abort (.ok (), { sink := { w.sink with shutdowns }, finished := true })

/-- A message is written only to an open stream. -/
theorem finished_of_writeMessage {m : Bytes} (h : writeMessage m w = (.ok (), w')) :
    w.finished = false := by
  cases hf : w.finished with
  | false => rfl
  | true =>
    rw [writeMessage, Action.bind_ok (Action.get_apply w), hf, if_pos rfl] at h
    cases h

theorem does_message {c : Call} {m : Bytes} (hm : c.message? = some m)
    (hrun : c.run = writeMessage m) : Does w c (c.run w) := by
  rw [hrun]
  obtain ⟨hframe, hwrite⟩ | ⟨e, offered, hwrite⟩ := writeMessage_cases m w
  · rw [hwrite]
    exact .written hm (finished_of_writeMessage hwrite) hframe
  · have hc : c ≠ .abort := by
      rintro rfl
      cases hm
    rw [hwrite]
    exact .refused hc

/-- Ending a stream writes the marker, unless there is nothing to do or the transport refuses. -/
theorem finish_cases (w : FrameWriter) :
    (w.finished = true ∧ finish w = (.ok (), w)) ∨
      w.finished = false ∧
        (finish w = (.ok (), { sink := w.sink.took endMarker, finished := true }) ∨
          ∃ e offered, finish w = (.error e, { w with sink := { w.sink with offered } })) := by
  rw [finish, Action.bind_ok (Action.get_apply w)]
  by_cases hf : w.finished = true
  · rw [if_pos hf]
    exact .inl ⟨hf, rfl⟩
  · rw [if_neg hf]
    refine .inr ⟨by simpa using hf, ?_⟩
    obtain htaken | ⟨e, hrefused⟩ := Sink.write_cases endMarker w.sink
    · exact .inl (Action.bind_ok (onSink_eq htaken))
    · have herror : onSink (Sink.write endMarker) w = _ := Action.zoom_apply hrefused
      exact .inr ⟨e, _, Action.bind_error herror⟩

theorem Call.does (c : Call) (w : FrameWriter) : Does w c (c.run w) := by
  cases c with
  | message m => exact does_message rfl rfl
  | json j => exact does_message rfl rfl
  | flush => exact .idle rfl nofun nofun
  | abort => exact .abandoned
  | finish =>
    rw [run]
    obtain ⟨hf, h⟩ | ⟨hf, h | ⟨e, offered, h⟩⟩ := finish_cases w
    · rw [h]
      exact .idle rfl nofun fun _ => hf
    · rw [h]
      exact .marked rfl hf
    · rw [h]
      exact .refused nofun
  | close =>
    have hc : Call.close ≠ .abort := nofun
    rw [run, FrameWriter.close]
    obtain ⟨hf, h⟩ | ⟨hf, h | ⟨e, offered, h⟩⟩ := finish_cases w
    · rw [Action.bind_ok h]
      exact .idle rfl hc fun _ => hf
    · rw [Action.bind_ok h]
      exact .marked rfl hf
    · rw [Action.bind_error h]
      exact .refused hc

/-! ### What a history tells -/

/-- What a history tells about the writer that it has led to, whose transport held the pieces
`start` in the beginning. -/
structure Tells (start : List Bytes) (h : History) (w : FrameWriter) : Prop where
  finished_iff : w.finished = true ↔ h.Sealed
  abort_ok : ∀ x ∈ h, x.1 = .abort → x.2 = .ok ()
  framed : ∀ m ∈ h.written, frameOf m = .ok (frameBytes m)
  pieces_eq : ∃ marker, w.sink.pieces = start ++ (h.written.map frameBytes ++ marker) ∧
    (h.Ended ∧ marker = [endMarker] ∨ ¬ h.Ended ∧ marker = [])

namespace Tells

variable {start : List Bytes} {h : History} {c : Call}

theorem not_sealed (ht : Tells start h w) (hopen : w.finished = false) : ¬ h.Sealed := by
  intro hsealed
  rw [ht.finished_iff.mpr hsealed] at hopen
  cases hopen

/-- An open stream was not given up. -/
theorem not_abandoned (ht : Tells start h w) (hopen : w.finished = false) :
    ∀ x ∈ h, x.1 ≠ .abort := by
  rintro ⟨c, answer⟩ hx rfl
  obtain rfl : answer = .ok () := ht.abort_ok _ hx rfl
  exact ht.not_sealed hopen ⟨.abort, hx, rfl⟩

/-- What an open stream holds. -/
theorem pieces_of_open (ht : Tells start h w) (hopen : w.finished = false) :
    w.sink.pieces = start ++ h.written.map frameBytes := by
  obtain ⟨marker, hpieces, ⟨hended, -⟩ | ⟨-, rfl⟩⟩ := ht.pieces_eq
  · exact absurd hended.sealed (ht.not_sealed hopen)
  · simpa using hpieces

theorem abort_ok_concat (ht : Tells start h w) {answer : Except Error Unit}
    (hc : c = .abort → answer = .ok ()) :
    ∀ x ∈ h ++ [(c, answer)], x.1 = .abort → x.2 = .ok () := by
  intro x hx hxc
  rcases List.mem_append.mp hx with hx | hx
  · exact ht.abort_ok x hx hxc
  · cases List.mem_singleton.mp hx
    exact hc hxc

theorem written (ht : Tells start h w) {m : Bytes} (hm : c.message? = some m)
    (hopen : w.finished = false) (hframe : frameOf m = .ok (frameBytes m)) :
    Tells start (h ++ [(c, .ok ())]) { w with sink := w.sink.took (frameBytes m) } := by
  have hseals := Call.not_seals_of_message hm
  have hends : c.ends = false := by
    cases hends : c.ends with
    | false => rfl
    | true => exact absurd (Call.seals_of_ends hends) (by simp [hseals])
  refine ⟨?_, ht.abort_ok_concat fun _ => rfl, ?_, [], ?_, .inr ⟨?_, rfl⟩⟩
  · simp [History.sealed_concat, hseals, ht.finished_iff]
  · rw [History.written_concat_ok, hm]
    exact List.forall_mem_append.mpr ⟨ht.framed, List.forall_mem_singleton.mpr hframe⟩
  · rw [History.written_concat_ok, hm]
    simp [Sink.took, ht.pieces_of_open hopen]
  · rw [History.ended_concat, hends]
    rintro (hended | ⟨hfalse, -⟩)
    · exact ht.not_sealed hopen hended.sealed
    · cases hfalse

theorem refused (ht : Tells start h w) (hc : c ≠ .abort) (e : Error) (offered : Nat) :
    Tells start (h ++ [(c, .error e)]) { w with sink := { w.sink with offered } } := by
  obtain ⟨marker, hpieces, hmarker⟩ := ht.pieces_eq
  refine ⟨?_, ht.abort_ok_concat fun h => absurd h hc, ?_, marker, ?_, ?_⟩
  · simp [History.sealed_concat, ht.finished_iff]
  · rw [History.written_concat_error]
    exact ht.framed
  · rw [History.written_concat_error]
    exact hpieces
  · simpa [History.ended_concat] using hmarker

/-- A call that is to end a stream and finds it finished makes no difference: either the stream has
been ended, or it was given up, and then it has not. -/
theorem idle (ht : Tells start h w) (hm : c.message? = none) (hc : c ≠ .abort)
    (hends : c.ends = true → w.finished = true) (shutdowns : Nat) :
    Tells start (h ++ [(c, .ok ())]) { w with sink := { w.sink with shutdowns } } := by
  have hsealed : History.Sealed (h ++ [(c, .ok ())]) ↔ h.Sealed := by
    rw [History.sealed_concat]
    refine ⟨?_, .inl⟩
    rintro (hsealed | ⟨hseals, -⟩)
    · exact hsealed
    · rcases Call.ends_or_abort hseals with hends' | habort
      · exact ht.finished_iff.mp (hends hends')
      · exact absurd habort hc
  have hended : History.Ended (h ++ [(c, .ok ())]) ↔ h.Ended := by
    rw [History.ended_concat]
    refine ⟨?_, .inl⟩
    rintro (hended | ⟨hends', -, hall⟩)
    · exact hended
    · exact (ht.finished_iff.mp (hends hends')).ended hall
  have hwritten := History.written_concat_silent h hm
  obtain ⟨marker, hpieces, hmarker⟩ := ht.pieces_eq
  refine ⟨?_, ht.abort_ok_concat fun _ => rfl, ?_, marker, ?_, ?_⟩
  · rw [hsealed]
    exact ht.finished_iff
  · rw [hwritten]
    exact ht.framed
  · rw [hwritten]
    exact hpieces
  · rwa [hended]

theorem marked (ht : Tells start h w) (hends : c.ends = true) (hopen : w.finished = false)
    (shutdowns : Nat) :
    Tells start (h ++ [(c, .ok ())])
      { sink := { w.sink.took endMarker with shutdowns }, finished := true } := by
  have hm : c.message? = none := by
    cases c <;> first | rfl | cases hends
  have hwritten := History.written_concat_silent h hm
  refine ⟨?_, ht.abort_ok_concat fun _ => rfl, ?_, [endMarker], ?_, .inl ⟨?_, rfl⟩⟩
  · simp [History.sealed_concat, Call.seals_of_ends hends]
  · rw [hwritten]
    exact ht.framed
  · rw [hwritten]
    simp [Sink.took, ht.pieces_of_open hopen]
  · exact History.ended_concat.mpr (.inr ⟨hends, rfl, ht.not_abandoned hopen⟩)

theorem abandoned (ht : Tells start h w) (shutdowns : Nat) :
    Tells start (h ++ [(.abort, .ok ())])
      { sink := { w.sink with shutdowns }, finished := true } := by
  have hwritten := History.written_concat_silent h (c := .abort) rfl
  obtain ⟨marker, hpieces, hmarker⟩ := ht.pieces_eq
  refine ⟨?_, ht.abort_ok_concat fun _ => rfl, ?_, marker, ?_, ?_⟩
  · simp [History.sealed_concat, Call.seals]
  · rw [hwritten]
    exact ht.framed
  · rw [hwritten]
    exact hpieces
  · simpa [History.ended_concat, Call.ends] using hmarker

/-- A call keeps up what the history tells. -/
theorem step (ht : Tells start h w) (c : Call) :
    Tells start (h ++ [(c, (c.run w).1)]) (c.run w).2 := by
  have hdoes := c.does w
  generalize c.run w = outcome at hdoes
  cases hdoes with
  | written hm hopen hframe => exact ht.written hm hopen hframe
  | refused hc => exact ht.refused hc _ _
  | idle hm hc hends => exact ht.idle hm hc hends _
  | marked hends hopen => exact ht.marked hends hopen _
  | abandoned => exact ht.abandoned _

/-- So do many calls. -/
theorem run (ht : Tells start h w) (calls : List Call) :
    Tells start (h ++ (runAll calls w).1) (runAll calls w).2 := by
  induction calls generalizing h w with
  | nil => simpa [runAll] using ht
  | cons c calls ih =>
    have hrest := ih (ht.step c)
    rwa [List.append_assoc] at hrest

end Tells

theorem map_fst_runAll (calls : List Call) (w : FrameWriter) :
    (runAll calls w).1.map (·.1) = calls := by
  induction calls generalizing w with
  | nil => rfl
  | cons c calls ih => exact congrArg (c :: ·) (ih (c.run w).2)

/-- Whatever a writer was asked, and whichever pieces the transport has refused: the transport holds
the frames of exactly the messages whose calls have succeeded, in their order, and then the marker,
once, if some call has ended the stream before it was given up; no frame could be taken for the
marker. As soon as a call has ended the stream or given it up, no message is written any more. -/
theorem marker_last (sink : Sink) (calls : List Call) :
    ∃ (history : History) (w : FrameWriter), runAll calls { sink } = (history, w) ∧
      history.map (·.1) = calls ∧
      (∀ m ∈ history.written,
        frameOf m = .ok (frameBytes m) ∧ ¬ endMarker <+: frameBytes m) ∧
      (∃ marker, w.sink.pieces = sink.pieces ++ (history.written.map frameBytes ++ marker) ∧
        (history.Ended ∧ marker = [endMarker] ∨ ¬ history.Ended ∧ marker = [])) ∧
      (history.Sealed → ∀ c m, Call.message? c = some m →
        c.run w = (.error .streamFinished, w)) := by
  have hstart : Tells sink.pieces [] { sink } := by
    refine ⟨⟨nofun, ?_⟩, by simp, by simp [History.written], [], by simp [History.written],
      .inr ⟨?_, rfl⟩⟩
    · rintro ⟨c, hc, -⟩
      cases hc
    · intro hended
      obtain ⟨c, hc, -⟩ := hended.sealed
      cases hc
  have ht := hstart.run calls
  rw [List.nil_append] at ht
  refine ⟨_, _, rfl, map_fst_runAll calls _, fun m hm => ?_, ht.pieces_eq, fun hsealed c m hm => ?_⟩
  · exact ⟨ht.framed m hm, not_endMarker_prefix (ht.framed m hm)⟩
  · have hfinished := ht.finished_iff.mpr hsealed
    generalize (runAll calls { sink }).2 = w at hfinished
    have hwrite (m : Bytes) : writeMessage m w = (.error .streamFinished, w) := by
      rw [writeMessage, Action.bind_ok (Action.get_apply w), hfinished, if_pos rfl]
      rfl
    cases c <;> first | exact hwrite _ | cases hm

end FrameWriter

end StagedQuery
