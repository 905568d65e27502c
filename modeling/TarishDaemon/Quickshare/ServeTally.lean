import TarishDaemon.Quickshare.ServeComplete

/-!
# How much has arrived

The loop strikes a file off `expected` when its last chunk is written and flushed, and
tells the sharing machine when the list is empty.  `Tally` is what this comes to: as long
as the machine has not been told, something of what the person accepted is missing, and
from then on everything is there.

Texts do not count as missing to the loop.  They are announced with the files and never
kept, so an offer with a text in it has never arrived whole (`AllThere`).
-/

namespace Quickshare

open Rust Protocol Protocol.Sharing Protocol.Fsm Sharingd

def Act.agreed : Act → Option Introduction
  | .asked i true => some i
  | _ => none

/-- The introductions the person said yes to. -/
def agreed (log : List Act) : List Introduction :=
  log.filterMap Act.agreed

/-- Everything that was offered is there: every file of the introduction was delivered up
to its last chunk and is expected no more.  A text never is. -/
def AllThere (log : List Act) (expected : HashMap Int FileMetadata) : Prop :=
  ∃ i ∈ agreed log, i.texts = [] ∧
    ∀ f ∈ i.files, .delivered f.payloadId ∈ log ∧ f.payloadId ∉ expected

instance (log : List Act) (expected : HashMap Int FileMetadata) :
    Decidable (AllThere log expected) :=
  inferInstanceAs (Decidable (∃ i ∈ agreed log, i.texts = [] ∧
    ∀ f ∈ i.files, .delivered f.payloadId ∈ log ∧ f.payloadId ∉ expected))

abbrev Serve.Arrived (w : Serve) : Prop :=
  AllThere w.log w.expected

variable {w w' : Serve} {e : Env} {log acts : List Act} {m m' : Inbound}
  {queue es : List Effect} {expected : HashMap Int FileMetadata} {sinks : HashMap Int Text}
  {written : List Text}

theorem mem_agreed {i : Introduction} : i ∈ agreed log ↔ .asked i true ∈ log := by
  constructor
  · intro h
    obtain ⟨a, ha, hi⟩ := List.mem_filterMap.mp h
    unfold Act.agreed at hi
    split at hi
    · cases hi
      exact ha
    · cases hi
  · exact fun h => List.mem_filterMap.mpr ⟨_, h, rfl⟩

theorem agreed_note (noOffer : offers acts = []) : agreed (log ++ acts) = agreed log := by
  have none : agreed acts = [] := by
    rw [List.eq_nil_iff_forall_not_mem]
    intro i hi
    have hmem : i ∈ offers acts := List.mem_filterMap.mpr ⟨_, mem_agreed.mp hi, rfl⟩
    rw [noOffer] at hmem
    cases hmem
  unfold agreed at none ⊢
  rw [List.filterMap_append, none, List.append_nil]

/-- Where nobody was asked, nobody said yes. -/
theorem agreed_nil (h : offers log = []) : agreed log = [] := by
  have hnote : agreed ([] ++ log) = agreed [] := agreed_note h
  exact hnote

/-! ## What the books say -/

/-- The files of what was accepted are expected or delivered. -/
def Begun (log : List Act) (expected : HashMap Int FileMetadata) : Prop :=
  agreed log ≠ [] ∧ ∀ i ∈ agreed log, ∀ f ∈ i.files,
    f.payloadId ∈ expected ∨ .delivered f.payloadId ∈ log

/-- Nothing is expected yet and no file was touched. -/
def Unbegun (log : List Act) (expected : HashMap Int FileMetadata) : Prop :=
  expected = ∅ ∧ ∀ a ∈ log, a.isFile = false

/-- As long as the loop is not done, something delivered means something expected. -/
def Outstanding (log : List Act) (expected : HashMap Int FileMetadata) : Prop :=
  expected = ∅ → ∀ id, .delivered id ∉ log

/-- The loop is done: the person said no, or everything is there. -/
def Finishing (queue : List Effect) (log : List Act) (expected : HashMap Int FileMetadata)
    (written : List Text) : Prop :=
  agreed log = [] ∨ (queue = [.done] ∧ expected = ∅ ∧ written ≠ [] ∧ Begun log expected)

structure Tally (m : Inbound) (queue : List Effect) (log : List Act)
    (expected : HashMap Int FileMetadata) (written : List Text) : Prop where
  introduced : ∀ i, m.introduction = some i → i.files ≠ [] ∨ i.texts ≠ []
  announced : ∀ i ∈ agreed log, i.files ≠ [] ∨ i.texts ≠ []
  accounted : Begun log expected ∨ Unbegun log expected
  outstanding : .done ∉ queue → Outstanding log expected
  finishing : .done ∈ queue → Finishing queue log expected written
  done : .done ∈ queue → m.state = .done
  asking : ∀ i, .askUser i ∈ queue → m.state ≠ .done

/-- The tally of a state of the loop. -/
abbrev Serve.Tallied (w : Serve) : Prop :=
  Tally w.fsm w.queue w.log w.expected w.written

/-- **Not yet.**  While something is expected, or nothing was delivered, not everything
has arrived. -/
theorem not_allThere (once : (offers log).length ≤ 1)
    (announced : ∀ i ∈ agreed log, i.files ≠ [] ∨ i.texts ≠ [])
    (listed : ∀ id f, expected.lookup id = some f → Listed log id f)
    (outstanding : Outstanding log expected) : ¬ AllThere log expected := by
  intro harrived
  obtain ⟨i, hi, htexts, hfiles⟩ := harrived
  by_cases hempty : expected = ∅
  · have hsome : i.files ≠ [] := (announced i hi).resolve_right (not_not_intro htexts)
    obtain ⟨f, hf⟩ := List.exists_mem_of_ne_nil _ hsome
    exact outstanding hempty _ (hfiles f hf).1
  · obtain ⟨id, hid⟩ : ∃ id, id ∈ expected := by
      by_contra none
      apply hempty
      apply AList.ext
      rw [AList.empty_entries, List.eq_nil_iff_forall_not_mem]
      exact fun entry hentry => none ⟨entry.1, List.mem_map_of_mem hentry⟩
    obtain ⟨f, hf⟩ := Option.isSome_iff_exists.mp (AList.lookup_isSome.mpr hid)
    obtain ⟨j, hj, hmem, rfl⟩ := listed id f hf
    obtain rfl : j = i := asked_unique once hj (mem_agreed.mp hi)
    exact (hfiles f hmem).2 hid

/-- Acts that deliver nothing and ask nothing. -/
theorem allThere_note (noOffer : offers acts = []) (noLast : ∀ id, .delivered id ∉ acts) :
    AllThere (log ++ acts) expected ↔ AllThere log expected := by
  have same : ∀ id, .delivered id ∈ log ++ acts ↔ .delivered id ∈ log := by
    intro id
    rw [List.mem_append, or_iff_left (noLast id)]
  unfold AllThere
  rw [agreed_note noOffer]
  simp only [same]

theorem Begun.note (begun : Begun log expected) (noOffer : offers acts = []) :
    Begun (log ++ acts) expected := by
  have same : agreed (log ++ acts) = agreed log := agreed_note noOffer
  refine ⟨by rw [same]; exact begun.1, ?_⟩
  intro i hi f hf
  rw [same] at hi
  exact (begun.2 i hi f hf).imp_right (List.mem_append_left _)

/-- Acts that are not about files and ask nothing. -/
theorem Tally.note (tally : Tally m queue log expected written)
    (noFile : ∀ a ∈ acts, a.isFile = false) (noOffer : offers acts = []) :
    Tally m queue (log ++ acts) expected written := by
  have same : agreed (log ++ acts) = agreed log := agreed_note noOffer
  refine { tally with announced := ?_, accounted := ?_, outstanding := ?_, finishing := ?_ }
  · rw [same]
    exact tally.announced
  · rcases tally.accounted with h | ⟨hempty, hlog⟩
    · exact .inl (h.note noOffer)
    · refine .inr ⟨hempty, ?_⟩
      intro a ha
      rcases List.mem_append.mp ha with h | h
      · exact hlog a h
      · exact noFile a h
  · intro h hempty id hid
    rcases List.mem_append.mp hid with hid | hid
    · exact tally.outstanding h hempty id hid
    · cases noFile _ hid
  · intro h
    rcases tally.finishing h with hnone | ⟨hqueue, hempty, hwritten, hbegun⟩
    · exact .inl (same.trans hnone)
    · exact .inr ⟨hqueue, hempty, hwritten, hbegun.note noOffer⟩

theorem Tally.quiet (tally : Tally m queue log expected written)
    (quiet : ∀ a ∈ acts, a.isQuiet = true) : Tally m queue (log ++ acts) expected written :=
  tally.note (fun a ha => isFile_of_isQuiet (quiet a ha)) (offers_quiet quiet)

/-- Acts about a file that is expected. -/
theorem Tally.touch (tally : Tally m queue log expected written) (some_left : expected ≠ ∅)
    (notDone : .done ∉ queue) (noOffer : offers acts = []) (written' : List Text) :
    Tally m queue (log ++ acts) expected written' := by
  have same : agreed (log ++ acts) = agreed log := agreed_note noOffer
  refine { tally with announced := ?_, accounted := ?_, outstanding := ?_, finishing := ?_ }
  · rw [same]
    exact tally.announced
  · rcases tally.accounted with h | ⟨hempty, -⟩
    · exact .inl (h.note noOffer)
    · exact absurd hempty some_left
  · exact fun _ hempty => absurd hempty some_left
  · exact fun h => absurd h notDone

/-- An effect other than the end leaves the queue. -/
theorem Tally.pop {effect : Effect} (tally : Tally m (effect :: queue) log expected written)
    (notDone : effect ≠ .done) : Tally m queue log expected written := by
  refine { tally with outstanding := ?_, finishing := ?_, done := ?_, asking := ?_ }
  · intro h
    apply tally.outstanding
    rw [List.mem_cons, not_or]
    exact ⟨notDone.symm, h⟩
  · intro h
    rcases tally.finishing (List.mem_cons_of_mem _ h) with hnone | ⟨hqueue, -⟩
    · exact .inl hnone
    · exact absurd (List.cons.inj hqueue).1 notDone
  · exact fun h => tally.done (List.mem_cons_of_mem _ h)
  · exact fun i h => tally.asking i (List.mem_cons_of_mem _ h)

/-- Whatever the machine is told, short of the end of the transfer.  A no needs nobody to
have said yes. -/
theorem Tally.reply (tally : Tally m queue log expected written) {event : Event}
    (h : Reply m event m' es) (notComplete : event ≠ .transferComplete)
    (rejected : event = .userRejected → agreed log = [] ∧ ∀ i, .askUser i ∉ queue)
    (live : m.state ≠ .done) : Tally m' (queue ++ es) log expected written := by
  have notDone : .done ∉ queue := fun h => live (tally.done h)
  -- all but a no leave the queue as much done as it was
  have plain : Effect.done ∉ es → m'.state ≠ .done →
      (∀ i, m'.introduction = some i → i.files ≠ [] ∨ i.texts ≠ []) →
      Tally m' (queue ++ es) log expected written := by
    intro hes hstate hintro
    have still : .done ∉ queue ++ es := by
      rw [List.mem_append, not_or]
      exact ⟨notDone, hes⟩
    exact { tally with
      introduced := hintro
      outstanding := fun _ => tally.outstanding notDone
      finishing := fun h => absurd h still
      done := fun h => absurd h still
      asking := fun _ _ => hstate }
  cases h with
  | silent => exact plain (by simp) live tally.introduced
  | fail why => exact plain (by simp) (by simp) tally.introduced
  | cancelledHere => exact plain (by simp) (by simp) tally.introduced
  | cancelledThere => exact plain (by simp) (by simp) tally.introduced
  | accept here => exact plain (by simp) (by simp) tally.introduced
  | claim here => exact plain (by simp) live tally.introduced
  | verdict here => exact plain (by simp) (by simp) tally.introduced
  | complete here => exact absurd rfl notComplete
  | reject here =>
      obtain ⟨hnone, hasks⟩ := rejected rfl
      refine { tally with outstanding := ?_, finishing := ?_, done := ?_, asking := ?_ }
      · exact fun h => absurd (by simp) h
      · exact fun _ => .inl hnone
      · exact fun _ => rfl
      · intro i hi
        rcases List.mem_append.mp hi with h | h
        · exact absurd h (hasks i)
        · simp at h
  | offer here nonempty =>
      refine plain (by simp) (by simp) ?_
      intro i hi
      cases hi
      exact nonempty

theorem Tally.on (tally : Tally m queue log expected written) {event : Event}
    (notComplete : event ≠ .transferComplete)
    (rejected : event = .userRejected → agreed log = [] ∧ ∀ i, .askUser i ∉ queue) :
    Tally (m.on event).1 (queue ++ (m.on event).2) log expected written := by
  by_cases ended : m.state.isOver = true
  · have same : m.on event = (m, []) := by
      unfold Inbound.on
      exact if_pos ended
    rw [same, List.append_nil]
    exact tally
  · refine tally.reply (reply_on m event) notComplete rejected ?_
    intro hdone
    rw [hdone] at ended
    exact ended rfl

/-- The last file is there, and the machine is told so. -/
theorem Tally.completed (introduced : ∀ i, m.introduction = some i → i.files ≠ [] ∨ i.texts ≠ [])
    (announced : ∀ i ∈ agreed log, i.files ≠ [] ∨ i.texts ≠ [])
    (begun : Begun log ∅) (hwritten : written ≠ []) (here : m.state = .transferring) :
    Tally (m.on .transferComplete).1 (m.on .transferComplete).2 log ∅ written := by
  have told : m.on .transferComplete = ({ m with state := .done }, [.done]) := by
    simp [Inbound.on, here, State.isOver]
  rw [told]
  exact {
    introduced := introduced
    announced := announced
    accounted := .inl begun
    outstanding := fun h => absurd (List.mem_singleton.mpr rfl) h
    finishing := fun _ => .inr ⟨rfl, rfl, hwritten, begun⟩
    done := fun _ => rfl
    asking := fun i h => by simp at h }

/-- The question is put to the person and goes on record. -/
theorem Tally.ask {i : Introduction} (tally : Tally m (.askUser i :: queue) log expected written)
    (talk : Talk m (.askUser i :: queue) log) (yes : Bool) :
    agreed log = [] ∧ (∀ j, .askUser j ∉ queue) ∧
      Tally m queue (log ++ [.asked i yes]) expected written := by
  have hle := talk.asked_le
  have count : (Effect.askUser i :: queue).filterMap Effect.asked =
      i :: queue.filterMap Effect.asked := rfl
  rw [count, List.length_append, List.length_cons] at hle
  have noOffer : offers log = [] := List.eq_nil_of_length_eq_zero (by omega)
  have noAsk : queue.filterMap Effect.asked = [] := List.eq_nil_of_length_eq_zero (by omega)
  have hnone := agreed_nil noOffer
  have nonempty : i.files ≠ [] ∨ i.texts ≠ [] :=
    tally.introduced i (talk.asking i (by rw [count]; exact List.mem_cons_self ..))
  have notDone : .done ∉ queue :=
    fun h => tally.asking i (List.mem_cons_self ..) (tally.done (List.mem_cons_of_mem _ h))
  have untouched : Unbegun log expected := by
    rcases tally.accounted with h | h
    · exact absurd hnone h.1
    · exact h
  have untouched' : Unbegun (log ++ [.asked i yes]) expected := by
    refine ⟨untouched.1, ?_⟩
    intro a ha
    rcases List.mem_append.mp ha with h | h
    · exact untouched.2 a h
    · rw [List.mem_singleton.mp h]
      rfl
  refine ⟨hnone, ?_, ?_⟩
  · intro j hj
    have hmem : j ∈ queue.filterMap Effect.asked := List.mem_filterMap.mpr ⟨_, hj, rfl⟩
    rw [noAsk] at hmem
    cases hmem
  · refine ⟨tally.introduced, ?_, .inr untouched', ?_, fun h => absurd h notDone,
      fun h => absurd h notDone, ?_⟩
    · intro j hj
      rcases List.mem_append.mp (mem_agreed.mp hj) with h | h
      · have hmem := mem_agreed.mpr h
        rw [hnone] at hmem
        cases hmem
      · cases List.mem_singleton.mp h
        exact nonempty
    · intro _ _ id hid
      cases untouched'.2 _ hid
    · exact fun j h => tally.asking j (List.mem_cons_of_mem _ h)

/-- Receiving begins: the files of the accepted introduction are expected. -/
theorem Tally.begin {i : Introduction}
    (tally : Tally m (.beginReceiving i :: queue) log expected written)
    (talk : Talk m (.beginReceiving i :: queue) log)
    (books : Books m (.beginReceiving i :: queue) log expected sinks) :
    Tally m queue log (i.files.foldl (fun e f => e.insert f.payloadId f) expected) written := by
  have begun : i ∈ (Effect.beginReceiving i :: queue).filterMap Effect.began :=
    List.mem_cons_self ..
  have hyes := talk.begins i begun
  have once : (offers log).length ≤ 1 := by
    have hle := talk.asked_le
    rw [List.length_append] at hle
    omega
  obtain ⟨-, -, hlog⟩ := books.untouched (.inr (List.ne_nil_of_mem begun))
  have notDone : .done ∉ queue := by
    intro h
    rcases tally.finishing (List.mem_cons_of_mem _ h) with hnone | ⟨hqueue, -⟩
    · have hmem := mem_agreed.mpr hyes
      rw [hnone] at hmem
      cases hmem
    · cases (List.cons.inj hqueue).1
  refine ⟨tally.introduced, tally.announced, .inl ⟨?_, ?_⟩, ?_, fun h => absurd h notDone,
    fun h => absurd h notDone, fun j h => tally.asking j (List.mem_cons_of_mem _ h)⟩
  · exact List.ne_nil_of_mem (mem_agreed.mpr hyes)
  · intro j hj f hf
    obtain rfl : j = i := asked_unique once (mem_agreed.mp hj) hyes
    exact .inl ((mem_expect _ _ _).mpr (.inl (List.mem_map_of_mem hf)))
  · intro _ _ id hid
    cases hlog _ hid

end Quickshare
