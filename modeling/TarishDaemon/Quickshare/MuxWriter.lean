import TarishDaemon.Quickshare.MuxStream

/-!
# The writing half

`MuxWriter` counts what it sends, its own pump what the peer confirms.  `write` waits
before each packet until the two are within the window, and `drain` at the end until
they are equal.  Both waits are over too when the channel has closed.

`Writer` takes the calls apart where other threads can come in between: a packet is let
go by `wait_for_room` and written later, and the pump may count or close at any point.
`log` records each packet with the two counts right after it, and each call that
returned `Ok`.  Where no call fails, these steps are those of a link's writing side, which
lets go and writes at once (`run_link`).

The wait looks at the bytes that are out, not at the packet it lets go, so a packet may
end past the window (`window_kept_iff`), by no more than its own size (`overrun_le`); a
wait that looked at both would keep it (`within_of_checked`).  And `Ok` from a closed
channel is no more than that (`honest_iff`).
-/

namespace Quickshare

open Rust Lts Protocol Protocol.Protobuf

namespace Mux

/-- The size that a packet confirms, if it is an acknowledgement. -/
def confirms (packet : Bytes) : Nat :=
  if packet.length < serviceIdHashLen then 0
  else if packet.take serviceIdHashLen = controlPrefix ∧
      controlKind (packet.drop serviceIdHashLen) = some controlTypePacketAcknowledgement then
    (confirmed (packet.drop serviceIdHashLen)).getD 0
  else 0

/-- The pump adds up what is confirmed, as far as its counter goes. -/
theorem Pump.packet_acked (p : Pump) (packet : Bytes) (hless : p.shared.acked < 2 ^ 64) :
    (p.packet packet).shared.acked = min (2 ^ 64 - 1) (p.shared.acked + confirms packet) := by
  have hnone : p.shared.acked = min (2 ^ 64 - 1) (p.shared.acked + 0) := by omega
  by_cases hshort : packet.length < serviceIdHashLen
  · rw [Pump.packet, confirms, if_pos hshort, if_pos hshort]
    exact hnone
  · rw [Pump.packet, confirms, if_neg hshort, if_neg hshort]
    by_cases hack : packet.take serviceIdHashLen = controlPrefix ∧
        controlKind (packet.drop serviceIdHashLen) = some controlTypePacketAcknowledgement
    · rw [if_pos hack, if_pos hack.1, if_pos hack.2]
      cases confirmed (packet.drop serviceIdHashLen) with
      | none => exact hnone
      | some size => rfl
    · rw [if_neg hack]
      refine Eq.trans ?_ hnone
      dsimp only
      split
      next hcontrol =>
        rw [if_neg fun h => hack ⟨hcontrol, h⟩]
        split
        · rfl
        · rfl
      next =>
        split
        · rfl
        · rfl

/-- What had room has room: what is confirmed only grows, and what is closed stays so. -/
theorem hasRoom_mono {sent : Nat} {st st' : Shared} (hacked : st.acked ≤ st'.acked)
    (hclosed : st.closed = true → st'.closed = true) (h : hasRoom sent st = true) :
    hasRoom sent st' = true := by
  simp only [hasRoom, Bool.or_eq_true, decide_eq_true_eq] at h ⊢
  rcases h with h | h
  · exact .inl (hclosed h)
  · exact .inr (by omega)

/-- What the writing half is busy with. -/
inductive Call
  | idle
  /-- The next piece, those after it, and whether it has been let go. -/
  | write (piece : Bytes) (pieces : List Bytes) (go : Bool)
  | drain
  deriving DecidableEq, Repr

inductive Entry
  /-- A data packet, with what has then been sent and confirmed. -/
  | packet (sent told : Nat) (closed : Bool)
  /-- `write` returned `Ok`: for each packet, whether the channel was closed. -/
  | wrote (late : List Bool)
  /-- `drain` returned `Ok`. -/
  | drained (sent told : Nat)
  deriving DecidableEq, Repr

/-- A packet that goes out while the channel is open is at most this far ahead. -/
def Entry.Within (ahead : Nat) : Entry → Prop
  | .packet sent told false => sent ≤ told + ahead
  | _ => True

/-- `Ok` says that the bytes went out on an open channel, or that all have arrived. -/
def Entry.Honest : Entry → Prop
  | .packet _ _ _ => True
  | .wrote late => true ∉ late
  | .drained sent told => sent ≤ told

structure Writer where
  shared : Shared := {}
  sent : Nat := 0
  call : Call := .idle
  /-- The packets of the call of `write` so far. -/
  late : List Bool := []
  /-- What the peer's acknowledgements come to. -/
  told : Nat := 0
  log : List Entry := []
  deriving DecidableEq, Repr

namespace Writer

inductive Act
  | write (data : Bytes)
  /-- `wait_for_room` returns `Ok`. -/
  | room
  /-- `write_frame` writes the packet, or fails. -/
  | frame (goes : Bool)
  | drain
  /-- `drain` returns `Ok`. -/
  | drained
  /-- A wait has taken too long. -/
  | timeout
  /-- The pump takes a packet. -/
  | packet (packet : Bytes)
  /-- The pump's read fails, or finds the end. -/
  | ends
  deriving DecidableEq, Repr

/-- The packet of a piece is out; after the last one `write` returns. -/
def framed (w : Writer) (piece : Bytes) (pieces : List Bytes) : Writer :=
  let sent := w.sent + piece.length
  let late := w.late ++ [w.shared.closed]
  match pieces with
  | [] =>
      { w with
        sent, late
        call := .idle
        log := w.log ++ [.packet sent w.told w.shared.closed, .wrote late] }
  | piece :: pieces =>
      { w with
        sent, late
        call := .write piece pieces false
        log := w.log ++ [.packet sent w.told w.shared.closed] }

def step (w : Writer) : Act → Option Writer
  | .write data =>
      if w.call ≠ .idle then none
      else
        match chunks data with
        | [] => some { w with log := w.log ++ [.wrote []] }
        | piece :: pieces => some { w with call := .write piece pieces false, late := [] }
  | .room =>
      match w.call with
      | .write piece pieces false =>
          if hasRoom w.sent w.shared then some { w with call := .write piece pieces true } else none
      | _ => none
  | .frame goes =>
      match w.call with
      | .write piece pieces true =>
          if goes then some (w.framed piece pieces) else some { w with call := .idle }
      | _ => none
  | .drain => if w.call = .idle then some { w with call := .drain } else none
  | .drained =>
      if w.call = .drain ∧ (w.shared.closed ∨ w.sent ≤ w.shared.acked) then
        some { w with call := .idle, log := w.log ++ [.drained w.sent w.told] }
      else none
  | .timeout =>
      match w.call with
      | .write _ _ false | .drain => some { w with call := .idle }
      | _ => none
  | .packet packet =>
      if w.shared.closed then none
      else
        some { w with
          shared := (Pump.packet { shared := w.shared } packet).shared
          told := w.told + confirms packet }
  | .ends =>
      if w.shared.closed then none else some { w with shared := { w.shared with closed := true } }

/-! ## What one step can do -/

inductive Steps (w : Writer) : Act → Writer → Prop
  | empty {data : Bytes} (hidle : w.call = .idle) (hnone : chunks data = []) :
      Steps w (.write data) { w with log := w.log ++ [.wrote []] }
  | begins {data piece : Bytes} {pieces : List Bytes} (hidle : w.call = .idle)
      (hpieces : chunks data = piece :: pieces) :
      Steps w (.write data) { w with call := .write piece pieces false, late := [] }
  | room {piece : Bytes} {pieces : List Bytes} (hcall : w.call = .write piece pieces false)
      (hroom : hasRoom w.sent w.shared = true) :
      Steps w .room { w with call := .write piece pieces true }
  | last {piece : Bytes} (hcall : w.call = .write piece [] true) :
      Steps w (.frame true) (w.framed piece [])
  | more {piece next : Bytes} {pieces : List Bytes}
      (hcall : w.call = .write piece (next :: pieces) true) :
      Steps w (.frame true) (w.framed piece (next :: pieces))
  | broke : Steps w (.frame false) { w with call := .idle }
  | drain (hidle : w.call = .idle) : Steps w .drain { w with call := .drain }
  | drained (hdrain : w.call = .drain) (hover : w.shared.closed = true ∨ w.sent ≤ w.shared.acked) :
      Steps w .drained { w with call := .idle, log := w.log ++ [.drained w.sent w.told] }
  | timeout : Steps w .timeout { w with call := .idle }
  | packet {packet : Bytes} (hopen : w.shared.closed = false) :
      Steps w (.packet packet) { w with
        shared := (Pump.packet { shared := w.shared } packet).shared
        told := w.told + confirms packet }
  | ends : Steps w .ends { w with shared := { w.shared with closed := true } }

variable {w w' : Writer} {a : Act}

/-- **Inversion.** -/
theorem steps_of_step (h : w.step a = some w') : Steps w a w' := by
  cases a with
  | write data =>
      simp only [step] at h
      split at h
      next => cases h
      next hcall =>
        have hidle : w.call = .idle := not_not.mp hcall
        split at h
        next hnone =>
          cases h
          exact .empty hidle hnone
        next hpieces =>
          cases h
          exact .begins hidle hpieces
  | room =>
      simp only [step] at h
      split at h
      next hcall =>
        split at h
        next hroom =>
          cases h
          exact .room hcall hroom
        next => cases h
      next => cases h
  | frame goes =>
      simp only [step] at h
      split at h
      next piece pieces hcall =>
        cases goes with
        | false =>
            cases h
            exact .broke
        | true =>
            cases h
            cases pieces with
            | nil => exact .last hcall
            | cons next pieces => exact .more hcall
      next => cases h
  | drain =>
      simp only [step] at h
      split at h
      next hidle =>
        cases h
        exact .drain hidle
      next => cases h
  | drained =>
      simp only [step] at h
      split at h
      next hover =>
        cases h
        exact .drained hover.1 hover.2
      next => cases h
  | timeout =>
      simp only [step] at h
      split at h
      next =>
        cases h
        exact .timeout
      next =>
        cases h
        exact .timeout
      next => cases h
  | packet packet =>
      simp only [step] at h
      split at h
      next => cases h
      next hopen =>
        cases h
        exact .packet (by simpa using hopen)
  | ends =>
      simp only [step] at h
      split at h
      next => cases h
      next =>
        cases h
        exact .ends

/-- What holds between the steps. -/
structure Sound (w : Writer) : Prop where
  acked : w.shared.acked = min (2 ^ 64 - 1) w.told
  /-- While the channel is open, no packet has gone out on a closed one. -/
  onTime : w.shared.closed = false → true ∉ w.late
  /-- What has been let go has room. -/
  room : ∀ piece pieces, w.call = .write piece pieces true → hasRoom w.sent w.shared = true
  /-- Pieces fit in a packet. -/
  fits : ∀ piece pieces go, w.call = .write piece pieces go →
    ∀ p ∈ piece :: pieces, p.length ≤ maxPacketPayload

theorem sound_start : Sound {} where
  acked := rfl
  onTime := fun _ => List.not_mem_nil
  room := fun _ _ h => Call.noConfusion h
  fits := fun _ _ _ h => Call.noConfusion h

/-- A packet that has been let go is within the window but for its own bytes. -/
theorem Sound.within (sound : w.Sound) {piece : Bytes} {pieces : List Bytes}
    (hcall : w.call = .write piece pieces true) (hopen : w.shared.closed = false) :
    w.sent ≤ w.told + maxBytesInFlight := by
  have hroom := sound.room piece pieces hcall
  have hacked := sound.acked
  simp only [hasRoom, hopen, Bool.false_or, decide_eq_true_eq] at hroom
  omega

/-- With the packet's own bytes, it ends at most a packet past the window. -/
theorem Sound.fits_room (sound : w.Sound) {piece : Bytes} {pieces : List Bytes}
    (hcall : w.call = .write piece pieces true) (hopen : w.shared.closed = false) :
    w.sent + piece.length ≤ w.told + (maxBytesInFlight + maxPacketPayload) := by
  have hwithin := sound.within hcall hopen
  have hpiece := sound.fits piece pieces true hcall piece List.mem_cons_self
  omega

/-- A step that only ends or begins a call of another kind. -/
theorem Sound.calls (sound : w.Sound) {call : Call} (hcall : ∀ p ps go, call ≠ .write p ps go)
    (log : List Entry) : Sound { w with call := call, log := log } where
  acked := sound.acked
  onTime := sound.onTime
  room := fun p ps h => absurd h (hcall p ps true)
  fits := fun p ps go h => absurd h (hcall p ps go)

theorem Sound.step (sound : w.Sound) (h : Steps w a w') : w'.Sound := by
  cases h with
  | empty _ _ =>
      exact { acked := sound.acked, onTime := sound.onTime, room := sound.room
              fits := sound.fits }
  | begins _ hpieces =>
      refine ⟨sound.acked, fun _ => List.not_mem_nil, ?_, ?_⟩
      · intro p ps h
        cases h
      · intro p ps go h q hq
        cases h
        rw [← hpieces] at hq
        exact chunksLoop_length hq
  | room hcall hroom =>
      refine ⟨sound.acked, sound.onTime, fun _ _ _ => hroom, ?_⟩
      intro p ps go h
      cases h
      exact sound.fits _ _ _ hcall
  | last hcall =>
      refine ⟨sound.acked, ?_, fun _ _ h => Call.noConfusion h, fun _ _ _ h => Call.noConfusion h⟩
      intro hopen
      change w.shared.closed = false at hopen
      simp [framed, hopen, sound.onTime hopen]
  | more hcall =>
      refine ⟨sound.acked, ?_, ?_, ?_⟩
      · intro hopen
        change w.shared.closed = false at hopen
        simp [framed, hopen, sound.onTime hopen]
      · intro _ _ h
        cases h
      · intro p ps go h q hq
        cases h
        exact sound.fits _ _ _ hcall q (List.mem_cons_of_mem _ hq)
  | broke => exact sound.calls (fun _ _ _ => Call.noConfusion) _
  | drain _ => exact sound.calls (fun _ _ _ => Call.noConfusion) _
  | drained _ _ => exact sound.calls (fun _ _ _ => Call.noConfusion) _
  | timeout => exact sound.calls (fun _ _ _ => Call.noConfusion) _
  | packet hopen =>
      rename_i packet
      have hacked := sound.acked
      have hcounted := Pump.packet_acked { shared := w.shared } packet (by dsimp only; omega)
      dsimp only at hcounted
      refine ⟨?_, fun _ => sound.onTime hopen, ?_, sound.fits⟩
      · dsimp only
        omega
      · intro p ps h
        refine hasRoom_mono ?_ ?_ (sound.room p ps h)
        · dsimp only
          omega
        · intro hclosed
          rw [hopen] at hclosed
          cases hclosed
  | ends =>
      refine ⟨sound.acked, fun hopen => Bool.noConfusion hopen, ?_, sound.fits⟩
      intro p ps h
      exact hasRoom_mono (Nat.le_refl w.shared.acked) (fun _ => rfl) (sound.room p ps h)

theorem sound_run {acts : List Act} (run : Run (ofPartial Writer.step) {} acts w) : w.Sound :=
  run.invariant Sound sound_start fun _ _ _ sound h => sound.step (steps_of_step h)

/-! ## The writing side of a link -/

/-- What is left of the call of `write`. -/
def todo (w : Writer) : List Bytes :=
  match w.call with
  | .write piece pieces _ => piece :: pieces
  | _ => []

/-- The link is where the writing half is. -/
structure Shows (w : Writer) (l : Link) : Prop where
  todo : l.todo = w.todo
  sent : l.sent = w.sent
  own : l.own = w.shared
  failed : l.failed = false

/-- What the link takes for one step, if anything. -/
def shown : Act → List Action
  | .write data => [.write data]
  | .frame _ => [.piece]
  | .packet packet => [.back packet]
  | .ends => [.backEnds]
  | _ => []

/-- No call returns an error. -/
def Fine (_ : Writer) (a : Act) : Prop :=
  a ≠ .frame false ∧ a ≠ .timeout

/-- A packet that was let go still has room on the link. -/
theorem Shows.framed {l : Link} (shows : w.Shows l) (sound : w.Sound) {piece : Bytes}
    {pieces : List Bytes} (hcall : w.call = .write piece pieces true) :
    ∃ l', l.step .piece = some l' ∧ (w.framed piece pieces).Shows l' := by
  have htodo : l.todo = piece :: pieces := by rw [shows.todo, Writer.todo, hcall]
  have hroom : hasRoom l.sent l.own = true := by
    rw [shows.sent, shows.own]
    exact sound.room piece pieces hcall
  have hsent : l.sent + piece.length = w.sent + piece.length := by rw [shows.sent]
  simp only [Link.step, htodo, hroom, if_true]
  refine ⟨_, rfl, ?_⟩
  cases pieces with
  | nil => exact ⟨rfl, hsent, shows.own, shows.failed⟩
  | cons next pieces => exact ⟨rfl, hsent, shows.own, shows.failed⟩

/-- **A step of the writing half is one of the link**, or none that the link sees. -/
theorem Shows.step {l : Link} (shows : w.Shows l) (sound : w.Sound) (fine : w.Fine a)
    (h : Steps w a w') : ∃ l', Run (ofPartial Link.step) l (shown a) l' ∧ w'.Shows l' := by
  -- the call has changed, and what is left of it has not
  have unseen : ∀ {call : Call} {log : List Entry},
      (Writer.todo { w with call := call, log := log }) = w.todo →
      ∃ l', Run (ofPartial Link.step) l [] l' ∧ Shows { w with call := call, log := log } l' :=
    fun htodo => ⟨l, Run.nil, shows.todo.trans htodo.symm, shows.sent, shows.own, shows.failed⟩
  cases h with
  | empty hidle hnone =>
      rename_i data
      have htodo : l.todo = [] := by rw [shows.todo, Writer.todo, hidle]
      have hstep : l.step (.write data) =
          some { l with todo := [], handed := l.handed ++ data } := by
        simp [Link.step, shows.failed, htodo, hnone]
      refine ⟨_, Run.nil.snoc hstep, ?_, shows.sent, shows.own, shows.failed⟩
      simp [Writer.todo, hidle]
  | begins hidle hpieces =>
      rename_i data piece pieces
      have htodo : l.todo = [] := by rw [shows.todo, Writer.todo, hidle]
      have hstep : l.step (.write data) =
          some { l with todo := piece :: pieces, handed := l.handed ++ data } := by
        simp [Link.step, shows.failed, htodo, hpieces]
      exact ⟨_, Run.nil.snoc hstep, rfl, shows.sent, shows.own, shows.failed⟩
  | room hcall _ => exact unseen (by simp [Writer.todo, hcall])
  | last hcall =>
      obtain ⟨l', hstep, shows'⟩ := shows.framed sound hcall
      exact ⟨l', Run.nil.snoc hstep, shows'⟩
  | more hcall =>
      obtain ⟨l', hstep, shows'⟩ := shows.framed sound hcall
      exact ⟨l', Run.nil.snoc hstep, shows'⟩
  | broke => exact absurd rfl fine.1
  | drain hidle => exact unseen (by simp [Writer.todo, hidle])
  | drained hdrain _ => exact unseen (by simp [Writer.todo, hdrain])
  | timeout => exact absurd rfl fine.2
  | packet hopen =>
      rename_i packet
      have hstep : l.step (.back packet) = some _ := rfl
      refine ⟨_, Run.nil.snoc hstep, shows.todo, shows.sent, ?_, shows.failed⟩
      dsimp only
      rw [shows.own]
  | ends =>
      have hstep : l.step .backEnds = some _ := rfl
      refine ⟨_, Run.nil.snoc hstep, shows.todo, shows.sent, ?_, shows.failed⟩
      dsimp only
      rw [shows.own]

/-- **What the writing half does without an error is what the writing side of a link
does.** -/
theorem run_link {acts : List Act} (run : Run (Restrict (ofPartial Writer.step) Fine) {} acts w) :
    ∃ l, Run (ofPartial Link.step) {} (acts.flatMap shown) l ∧ w.Shows l := by
  induction run with
  | nil => exact ⟨{}, Run.nil, rfl, rfl, rfl, rfl⟩
  | snoc run last ih =>
      obtain ⟨l, link, shows⟩ := ih
      obtain ⟨l', more, shows'⟩ :=
        shows.step (sound_run run.of_restrict) last.2 (steps_of_step last.1)
      refine ⟨l', ?_, shows'⟩
      rw [List.flatMap_append, List.flatMap_singleton]
      exact link.append more

/-! ## The window -/

/-- No packet has gone out further ahead of what is confirmed. -/
def Within (ahead : Nat) (w : Writer) : Prop :=
  ∀ e ∈ w.log, e.Within ahead

/-- A packet that goes out is within the window with its own bytes, and not only what is
out before it. -/
def Fits (ahead : Nat) (w : Writer) : Act → Prop
  | .frame true => ∀ piece pieces, w.call = .write piece pieces true →
      w.shared.closed = false → w.sent + piece.length ≤ w.told + ahead
  | _ => True

theorem framed_within {ahead : Nat} (good : w.Within ahead) (piece : Bytes) (pieces : List Bytes) :
    (w.framed piece pieces).Within ahead ↔
      (w.shared.closed = false → w.sent + piece.length ≤ w.told + ahead) := by
  have hentry : Entry.Within ahead (.packet (w.sent + piece.length) w.told w.shared.closed) ↔
      (w.shared.closed = false → w.sent + piece.length ≤ w.told + ahead) := by
    cases w.shared.closed with
    | false => exact ⟨fun h _ => h, fun h => h rfl⟩
    | true => exact ⟨fun _ h => Bool.noConfusion h, fun _ => trivial⟩
  rw [← hentry]
  cases pieces with
  | nil =>
      refine List.forall_mem_append.trans ((and_iff_right good).trans ?_)
      simp [Entry.Within]
  | cons next pieces =>
      refine List.forall_mem_append.trans ((and_iff_right good).trans ?_)
      simp

/-- Only a packet that goes out has to do with the window. -/
theorem Steps.within_iff {ahead : Nat} (h : Steps w a w') (good : w.Within ahead) :
    w'.Within ahead ↔ w.Fits ahead a := by
  have hframe : ∀ {piece : Bytes} {pieces : List Bytes}, w.call = .write piece pieces true →
      ((w.framed piece pieces).Within ahead ↔ w.Fits ahead (.frame true)) := by
    intro piece pieces hcall
    rw [framed_within good]
    constructor
    · intro hless p ps hp
      rw [hcall] at hp
      cases hp
      exact hless
    · intro hfits
      exact hfits piece pieces hcall
  cases h with
  | last hcall => exact hframe hcall
  | more hcall => exact hframe hcall
  | empty _ _ =>
      refine iff_of_true ?_ trivial
      exact List.forall_mem_append.mpr ⟨good, by simp [Entry.Within]⟩
  | drained _ _ =>
      refine iff_of_true ?_ trivial
      exact List.forall_mem_append.mpr ⟨good, by simp [Entry.Within]⟩
  | begins _ _ => exact iff_of_true good trivial
  | room _ _ => exact iff_of_true good trivial
  | broke => exact iff_of_true good trivial
  | drain _ => exact iff_of_true good trivial
  | timeout => exact iff_of_true good trivial
  | packet _ => exact iff_of_true good trivial
  | ends => exact iff_of_true good trivial

/-- **How far past the window a packet may end.** -/
theorem overrun_le {acts : List Act} (run : Run (ofPartial Writer.step) {} acts w) :
    w.Within (maxBytesInFlight + maxPacketPayload) := by
  refine (run.invariant (fun w => w.Sound ∧ w.Within (maxBytesInFlight + maxPacketPayload))
    ⟨sound_start, fun _ h => absurd h List.not_mem_nil⟩ ?_).2
  intro w a w' hw h
  have step := steps_of_step h
  refine ⟨hw.1.step step, (step.within_iff hw.2).mpr ?_⟩
  cases step with
  | last _ => exact fun _ _ hcall hopen => hw.1.fits_room hcall hopen
  | more _ => exact fun _ _ hcall hopen => hw.1.fits_room hcall hopen
  | _ => exact trivial

/-- The wait looks at the packet as well as at what is out. -/
def Checked (w : Writer) : Act → Prop
  | .room => ∀ piece pieces, w.call = .write piece pieces false →
      w.shared.closed = false → w.sent + piece.length ≤ w.shared.acked + maxBytesInFlight
  | _ => True

/-- What was let go by such a wait still fits when it is written. -/
theorem Steps.checked (h : Steps w a w') (sound : w.Sound)
    (fits : w.Fits maxBytesInFlight (.frame true)) (ok : w.Checked a) :
    w'.Fits maxBytesInFlight (.frame true) := by
  have other : ∀ {u : Writer}, (∀ piece pieces, u.call ≠ .write piece pieces true) →
      u.Fits maxBytesInFlight (.frame true) :=
    fun hcall piece pieces h => absurd h (hcall piece pieces)
  cases h with
  | empty _ _ => exact fits
  | begins _ _ => exact other fun _ _ h => by cases h
  | @room piece pieces hcall _ =>
      intro _ _ hlet hopen
      cases hlet
      have hroom := ok piece pieces hcall hopen
      have hacked := sound.acked
      change w.sent + piece.length ≤ w.told + maxBytesInFlight
      omega
  | last _ => exact other fun _ _ => Call.noConfusion
  | more _ => exact other fun _ _ h => by cases h
  | broke => exact other fun _ _ => Call.noConfusion
  | drain _ => exact other fun _ _ => Call.noConfusion
  | drained _ _ => exact other fun _ _ => Call.noConfusion
  | timeout => exact other fun _ _ => Call.noConfusion
  | packet hopen =>
      intro piece pieces hcall _
      have hroom := fits piece pieces hcall hopen
      dsimp only
      omega
  | ends =>
      intro _ _ _ hopen
      cases hopen

/-- **With the packet's bytes in the wait the window would hold.** -/
theorem within_of_checked {acts : List Act}
    (run : Run (Restrict (ofPartial Writer.step) Checked) {} acts w) :
    w.Within maxBytesInFlight := by
  refine (run.invariant (fun w => w.Sound ∧ w.Fits maxBytesInFlight (.frame true) ∧
    w.Within maxBytesInFlight) ⟨sound_start, ?_, ?_⟩ ?_).2.2
  · intro _ _ h
    cases h
  · intro _ h
    cases h
  · rintro w a w' ⟨sound, fits, good⟩ ⟨h, ok⟩
    have step := steps_of_step h
    refine ⟨sound.step step, step.checked sound fits ok, (step.within_iff good).mpr ?_⟩
    cases step with
    | last _ => exact fits
    | more _ => exact fits
    | _ => exact trivial

theorem chunks_one {data : Bytes} (hdata : data ≠ []) (hfits : data.length ≤ maxPacketPayload) :
    chunks data = [data] := by
  cases data with
  | nil => exact absurd rfl hdata
  | cons b data =>
      rw [chunks, List.length_cons, chunksLoop, List.take_of_length_le hfits,
        List.drop_of_length_le hfits]
      · cases data.length <;> rfl
      · exact List.cons_ne_nil b data

/-- The three steps of a call that needs one packet. -/
def calls (data : Bytes) : List Act :=
  [.write data, .room, .frame true]

/-- One packet goes out on an open channel that has room. -/
theorem run_calls {data : Bytes} (hidle : w.call = .idle) (hopen : w.shared.closed = false)
    (hroom : hasRoom w.sent w.shared = true) (hdata : data ≠ [])
    (hfits : data.length ≤ maxPacketPayload) :
    Run (ofPartial Writer.step) w (calls data)
      { w with
        sent := w.sent + data.length
        call := .idle
        late := [false]
        log := w.log ++ [.packet (w.sent + data.length) w.told false, .wrote [false]] } := by
  have hpieces := chunks_one hdata hfits
  have hwrite : w.step (.write data) = some { w with call := .write data [] false, late := [] } := by
    simp [step, hidle, hpieces]
  have hgo : Writer.step { w with call := .write data [] false, late := [] } .room =
      some { w with call := .write data [] true, late := [] } := by
    simp [step, hroom]
  refine ((Run.nil.snoc hwrite).snoc hgo).snoc ?_
  simp [ofPartial, step, framed, hopen]

/-- As long as they fit, full packets go out with nothing confirmed. -/
theorem run_unconfirmed {data : Bytes} (hdata : data.length = maxPacketPayload) {k : Nat}
    (hk : k * maxPacketPayload ≤ maxBytesInFlight) :
    ∃ s, Run (ofPartial Writer.step) {} (List.replicate k (calls data)).flatten s ∧
      s.call = .idle ∧ s.shared = {} ∧ s.told = 0 ∧ s.sent = k * maxPacketPayload := by
  induction k with
  | zero => exact ⟨{}, Run.nil, rfl, rfl, rfl, by simp⟩
  | succ k ih =>
      have hk' : k * maxPacketPayload ≤ maxBytesInFlight :=
        Nat.le_trans (Nat.mul_le_mul_right _ (Nat.le_succ k)) hk
      obtain ⟨s, run, hidle, hshared, htold, hsent⟩ := ih hk'
      have hopen : s.shared.closed = false := by rw [hshared]
      have hroom : hasRoom s.sent s.shared = true := by
        simp [hasRoom, hshared, hsent, hk']
      have hne : data ≠ [] := by
        rintro rfl
        cases hdata
      have more := run_calls hidle hopen hroom hne (Nat.le_of_eq hdata)
      rw [List.replicate_succ', List.flatten_concat]
      refine ⟨_, run.append more, rfl, hshared, htold, ?_⟩
      rw [hsent, hdata, Nat.succ_mul]

def Honest (w : Writer) : Prop :=
  ∀ e ∈ w.log, e.Honest

/-- The channel is open when the last packet goes out, and when `drain` returns it is open
or everything is confirmed. -/
def OnOpen (w : Writer) : Act → Prop
  | .frame true => ∀ piece, w.call = .write piece [] true → w.shared.closed = false
  | .drained => w.shared.closed = true → w.sent ≤ w.told
  | _ => True

/-- `Ok` comes from the last packet of a call of `write`, and from `drain`. -/
theorem Steps.honest_step_iff (h : Steps w a w') (sound : w.Sound) (good : w.Honest) :
    w'.Honest ↔ w.OnOpen a := by
  cases h with
  | last hcall =>
      rename_i piece
      refine List.forall_mem_append.trans ((and_iff_right good).trans ?_)
      have hlast : w.OnOpen (.frame true) ↔ w.shared.closed = false := by
        constructor
        · intro hopen
          exact hopen piece hcall
        · intro hopen _ _
          exact hopen
      rw [hlast]
      constructor
      · intro hhonest
        have hlate := hhonest (.wrote (w.late ++ [w.shared.closed])) (by simp)
        simp only [Entry.Honest, List.mem_append, List.mem_singleton, not_or] at hlate
        exact Bool.eq_false_iff.mpr (Ne.symm hlate.2)
      · intro hopen
        simp [Entry.Honest, hopen, sound.onTime hopen]
  | more hcall =>
      refine List.forall_mem_append.trans ((and_iff_right good).trans ?_)
      refine iff_of_true (by simp [Entry.Honest]) ?_
      intro _ hlast
      rw [hcall] at hlast
      cases hlast
  | empty _ _ =>
      refine iff_of_true ?_ trivial
      exact List.forall_mem_append.mpr ⟨good, by simp [Entry.Honest]⟩
  | drained _ hover =>
      refine List.forall_mem_append.trans ((and_iff_right good).trans ?_)
      rw [List.forall_mem_singleton]
      constructor
      · intro hall _
        exact hall
      · intro hclosed
        rcases hover with hover | hover
        · exact hclosed hover
        · have hacked := sound.acked
          change w.sent ≤ w.told
          omega
  | begins _ _ => exact iff_of_true good trivial
  | room _ _ => exact iff_of_true good trivial
  | broke => exact iff_of_true good trivial
  | drain _ => exact iff_of_true good trivial
  | timeout => exact iff_of_true good trivial
  | packet _ => exact iff_of_true good trivial
  | ends => exact iff_of_true good trivial

/-- **`Ok` means what it says exactly where it comes on an open channel**, or from `drain`
with everything confirmed. -/
theorem honest_iff {acts : List Act} {s : Writer} (run : Run (ofPartial Writer.step) {} acts s) :
    (∀ pre m, pre <+: acts → Run (ofPartial Writer.step) {} pre m → m.Honest) ↔
      Run (Restrict (ofPartial Writer.step) OnOpen) {} acts s :=
  run.restrict_iff Sound Honest sound_start (fun _ h => absurd h List.not_mem_nil)
    (fun _ _ _ sound h => sound.step (steps_of_step h))
    fun _ _ _ sound good h => (steps_of_step h).honest_step_iff sound good

/-- A byte goes out and is confirmed, and then everything is. -/
def confirmedByte : List Act :=
  [.write [7], .room, .frame true, .drain, .packet (packetAcknowledgement 1), .drained, .ends]

theorem honest_iff_confirmedByte : ∃ s, Run (ofPartial Writer.step) {} confirmedByte s ∧
    ∀ pre m, pre <+: confirmedByte → Run (ofPartial Writer.step) {} pre m → m.Honest := by
  have run : Run (ofPartial Writer.step) {} confirmedByte _ := run_foldlM Writer.step rfl
  have hopen : Meets Writer.step OnOpen {} confirmedByte := by
    refine ⟨trivial, trivial, fun _ _ => rfl, trivial, trivial, ?_, trivial, trivial⟩
    intro hclosed
    cases hclosed
  exact ⟨_, run, (honest_iff run).mpr (run_meets Writer.step rfl hopen)⟩

/-- The peer disconnects after the first byte, and the second one is written and all is
"drained" with nothing confirmed. -/
theorem not_honest_afterClose : ∃ s, Run (ofPartial Writer.step) {}
      [.write [7], .room, .frame true, .ends, .write [8], .room, .frame true, .drain, .drained] s ∧
    s.log = [.packet 1 0 false, .wrote [false], .packet 2 0 true, .wrote [true], .drained 2 0] ∧
    ¬ s.Honest := by
  refine ⟨_, run_foldlM Writer.step rfl, rfl, ?_⟩
  intro good
  exact good (.wrote [true]) (by decide) List.mem_cons_self

end Writer

end Mux

end Quickshare
