import TarishDaemon.Lib.Run
import TarishDaemon.Quickshare.Parting

/-!
# A loop on its sockets

The receiving and the sending loop use the connection in the same way: a pass with
nothing left to do takes a frame, from the queue or else off the socket, some passes
call a handover, and everything written goes to the socket the loop is on.  `Loop` is a
main loop as far as that goes, with what is to be shown of it once.

`Wired` puts the loop on its sockets.  `left` are the wires on the socket it is on that
are not read yet, `later` those on the sockets it moves to after that, and `opened`
counts the sockets that handovers have brought up.

Two things hold of every run.  A socket the loop has said LAST_WRITE on carries a
SAFE_TO_CLOSE after it at most, where every handover that fails past its LAST_WRITE ends
the connection (`Parted`).  And every wire is taken off once and in order, and its frame
goes to the loop unless a handover is over it (`Accounted`).
-/

namespace Quickshare

open Rust Protocol Fallible
open Protocol.Upgrade (Channel)

/-- What the loop is told of a handover. -/
def Moving.report {α : Type} (ended : Option α × Moving) (result : Option Bool) : Handover :=
  { wrote := ended.2.wrote.map Prod.snd, queued := ended.2.deferred, result := result }

/-- A program's queue is as it was, and what went on its record since is not `last`. -/
structure Untouched {W A : Type} (queue : W → List Bytes) (record : W → List A) (last : A)
    (w w' : W) : Prop where
  queued : queue w' = queue w
  recorded : ∃ acts, record w' = record w ++ acts ∧ last ∉ acts

namespace Untouched

variable {W A : Type} {queue : W → List Bytes} {record : W → List A} {last : A} {w w' w'' : W}

theorem refl (w : W) : Untouched queue record last w w :=
  ⟨rfl, [], (List.append_nil _).symm, List.not_mem_nil⟩

/-- Acts went on record. -/
theorem adds (h : Untouched queue record last w w') {acts : List A}
    (hqueue : queue w'' = queue w') (hrecord : record w'' = record w' ++ acts)
    (hacts : last ∉ acts) : Untouched queue record last w w'' := by
  obtain ⟨hqueued, before, hrecorded, hbefore⟩ := h
  refine ⟨hqueue.trans hqueued, before ++ acts, ?_, ?_⟩
  · rw [hrecord, hrecorded, List.append_assoc]
  · rw [List.mem_append, not_or]
    exact ⟨hbefore, hacts⟩

/-- Other fields have changed. -/
theorem set (h : Untouched queue record last w w') (hqueue : queue w'' = queue w')
    (hrecord : record w'' = record w') : Untouched queue record last w w'' :=
  h.adds hqueue (hrecord.trans (List.append_nil _).symm) List.not_mem_nil

theorem trans (h : Untouched queue record last w w')
    (h' : Untouched queue record last w' w'') : Untouched queue record last w w'' := by
  obtain ⟨hqueued, acts, hrecorded, hacts⟩ := h'
  exact h.adds hqueued hrecorded hacts

theorem of_eq (hqueue : queue w' = queue w) (hrecord : record w' = record w) :
    Untouched queue record last w w' :=
  (refl w).set hqueue hrecord

/-- Other fields had changed before. -/
theorem since (h : Untouched queue record last w' w'') (hqueue : queue w' = queue w)
    (hrecord : record w' = record w) : Untouched queue record last w w'' :=
  (of_eq hqueue hrecord).trans h

/-- Seen as frames: none of them is the one that `last` is. -/
theorem frames {frame : A → Option Bytes} {f : Bytes} (h : Untouched queue record last w w')
    (hlast : ∀ act, frame act = some f → act = last) :
    ∃ fs, (record w').filterMap frame = (record w).filterMap frame ++ fs ∧ f ∉ fs := by
  obtain ⟨acts, hrecord, hacts⟩ := h.recorded
  refine ⟨acts.filterMap frame, ?_, ?_⟩
  · rw [hrecord, List.filterMap_append]
  · intro hmem
    obtain ⟨act, hact, hframe⟩ := List.mem_filterMap.mp hmem
    rw [hlast act hframe] at hact
    exact hacts hact

end Untouched

theorem noLast_frame {frame : Bytes} (h : frame ≠ Upgrade.lastWriteToPrior) :
    Upgrade.lastWriteToPrior ∉ [frame] :=
  fun hmem => h (List.mem_singleton.mp hmem).symm

/-- A main loop and its use of the connection.  `E` is what it meets in a step. -/
structure Loop (c : Crypto) (W E : Type) where
  step : W → E → Option W
  /-- It has returned. -/
  ended : W → Bool
  /-- What handovers have queued for it. -/
  deferred : W → List Bytes
  /-- The frames it has written, oldest first. -/
  sent : W → List Bytes
  /-- Whether the step takes a frame. -/
  takes : W → E → Bool
  /-- The step with the frame it takes; `none` where there is none. -/
  receive : E → Option Bytes → E
  /-- The handover that the step calls. -/
  calls : W → E → Option (Fallible Moving Bool)
  /-- The step with what came of its handover. -/
  settle : E → Handover → E
  /-- What a handover has to meet to leave the old socket as it should. -/
  Calm : W → E → Moving → Prop
  /-- What may become of a wire. -/
  Fated : Fate → Prop
  takes_receive : ∀ {w e read}, takes w (receive e read) = takes w e
  step_ended : ∀ {w e w'}, step w e = some w' → ended w = false
  deferred_plain : ∀ {w e w'}, calls w e = none → step w e = some w' →
    deferred w' = if takes w e then (deferred w).tail else deferred w
  sent_plain : ∀ {w e w'}, calls w e = none → step w e = some w' →
    ∃ frames, sent w' = sent w ++ frames ∧ Upgrade.lastWriteToPrior ∉ frames
  deferred_call : ∀ {w e call h w'}, calls w e = some call → step w (settle e h) = some w' →
    deferred w' = (if takes w e then (deferred w).tail else deferred w) ++ h.queued
  sent_call : ∀ {w e call h w'}, calls w e = some call → step w (settle e h) = some w' →
    sent w' = sent w ++ h.wrote
  fated_kept : ∀ {plain}, Fated (.kept plain)
  fated_garbled : Fated .garbled
  hears : ∀ {w e call}, calls w e = some call → Keeps (Hears c Fated) call
  parts : ∀ {w e call m w'}, calls w e = some call → m.moved = false → Calm w e m →
    step w (settle e (Moving.report (call m) (call m).1)) = some w' →
    Parts (ended w' = false) m (call m).2

/-- A main loop on its sockets. -/
structure Wired (W : Type) where
  loop : W
  channel : SecureChannel
  left : List Bytes
  later : List (List Bytes) := []
  socket : Nat := 0
  opened : Nat := 0
  /-- The socket each frame went to. -/
  wrote : List (Nat × Bytes) := []
  /-- The wires taken off the sockets. -/
  seen : List (Bytes × Fate) := []
  /-- The frames the loop took. -/
  processed : List Bytes := []

namespace Wired

variable {c : Crypto} {W E : Type} (L : Loop c W E)

/-- One frame off the socket, if one arrives. -/
def hear (c : Crypto) (v : Wired W) (arrives : Bool) : Option Bytes × Wired W :=
  match arrives, v.left with
  | true, wire :: left =>
      match v.channel.decrypt c wire with
      | (.error _, channel) =>
          (none, { v with channel := channel, left := left, seen := v.seen ++ [(wire, .garbled)] })
      | (.ok plain, channel) =>
          (some plain,
            { v with channel := channel, left := left, seen := v.seen ++ [(wire, .kept plain)] })
  | _, _ => (none, v)

/-- The frame a step takes: what a handover queued comes first. -/
def take (v : Wired W) (e : E) (arrives : Bool) : Option Bytes × Wired W :=
  if L.takes v.loop e then
    match L.deferred v.loop with
    | plain :: _ => (some plain, { v with processed := v.processed ++ [plain] })
    | [] =>
        let (read, v) := v.hear c arrives
        (read, { v with processed := v.processed ++ read.toList })
  else (none, v)

/-- Where a handover begins. -/
def moving (v : Wired W) : Moving :=
  { channel := v.channel, left := v.left }

def label (v : Wired W) : Channel → Nat
  | .old => v.socket
  | .new => v.opened + 1

/-- The loop after a step without a handover. -/
def goOn (v : Wired W) (w : W) : Wired W :=
  { v with
    loop := w
    wrote := v.wrote ++ ((L.sent w).drop (L.sent v.loop).length).map (v.socket, ·) }

/-- The loop after a handover. -/
def moveOn (v : Wired W) (w : W) (m : Moving) : Wired W :=
  { v with
    loop := w
    channel := m.channel
    left := if m.moved then v.later.headD [] else m.left
    later := if m.moved then v.later.tail else v.later
    socket := if m.moved then v.opened + 1 else v.socket
    opened := v.opened + 1
    wrote := v.wrote ++ m.wrote.map fun (on, frame) => (v.label on, frame)
    seen := v.seen ++ m.seen }

/-- One step of the loop, with whether a frame arrives where it waits for one. -/
def step (v : Wired W) (m : E × Bool) : Option (Wired W) :=
  let (read, v) := v.take L m.1 m.2
  let e := L.receive m.1 read
  match L.calls v.loop e with
  | none => (L.step v.loop e).map (v.goOn L)
  | some call =>
      let ended := call v.moving
      (L.step v.loop (L.settle e (Moving.report ended ended.1))).map fun w => v.moveOn w ended.2

variable {L} {v v' : Wired W} {m : E × Bool}

/-- What a step is made of. -/
theorem step_cases (h : v.step L m = some v') :
    ∃ read u, v.take L m.1 m.2 = (read, u) ∧
      ((∃ w, L.calls u.loop (L.receive m.1 read) = none ∧
          L.step u.loop (L.receive m.1 read) = some w ∧ v' = u.goOn L w) ∨
        ∃ call w, L.calls u.loop (L.receive m.1 read) = some call ∧
          L.step u.loop (L.settle (L.receive m.1 read)
            (Moving.report (call u.moving) (call u.moving).1)) = some w ∧
          v' = u.moveOn w (call u.moving).2) := by
  refine ⟨_, _, rfl, ?_⟩
  unfold step at h
  dsimp only at h
  split at h
  next hcalls =>
    obtain ⟨w, hw, rfl⟩ := Option.map_eq_some_iff.mp h
    exact .inl ⟨w, hcalls, hw, rfl⟩
  next call hcalls =>
    obtain ⟨w, hw, rfl⟩ := Option.map_eq_some_iff.mp h
    exact .inr ⟨call, w, hcalls, hw, rfl⟩

/-! ## What the sockets carry -/

/-- The frames written to one socket. -/
def onSocket (k : Nat) (wrote : List (Nat × Bytes)) : List Bytes :=
  (wrote.filter fun w => decide (w.1 = k)).map Prod.snd

/-- Frames without a LAST_WRITE, and behind them a LAST_WRITE and a SAFE_TO_CLOSE as far
as they went out. -/
def Closes (frames : List Bytes) : Prop :=
  ∃ before after, frames = before ++ after ∧ Upgrade.lastWriteToPrior ∉ before ∧
    (after = [] ∨ after = [Upgrade.lastWriteToPrior] ∨
      after = [Upgrade.lastWriteToPrior,
        Upgrade.safeToClosePrior Upgrade.staFrequencyNotSet])

@[simp]
theorem onSocket_append (k : Nat) (a b : List (Nat × Bytes)) :
    onSocket k (a ++ b) = onSocket k a ++ onSocket k b := by
  simp [onSocket]

theorem onSocket_same (k : Nat) (frames : List Bytes) :
    onSocket k (frames.map (k, ·)) = frames := by
  induction frames with
  | nil => rfl
  | cons f frames ih => simpa [onSocket] using ih

theorem onSocket_other {k l : Nat} (hne : l ≠ k) (frames : List Bytes) :
    onSocket k (frames.map (l, ·)) = [] := by
  induction frames with
  | nil => rfl
  | cons f frames ih => simp [onSocket, hne]

/-- Where the loop stands with its sockets. -/
structure Parted (L : Loop c W E) (v : Wired W) : Prop where
  closes : ∀ k, Closes (onSocket k v.wrote)
  /-- While it goes on, it has not said LAST_WRITE on the socket it is on. -/
  speaking : L.ended v.loop = false → Upgrade.lastWriteToPrior ∉ onSocket v.socket v.wrote
  fresh : ∀ k, v.opened < k → onSocket k v.wrote = []
  within : v.socket ≤ v.opened

theorem closes_of_notMem {frames : List Bytes} (h : Upgrade.lastWriteToPrior ∉ frames) :
    Closes frames :=
  ⟨frames, [], (List.append_nil frames).symm, h, .inl rfl⟩

/-- Nothing is written yet. -/
theorem parted_start (hwrote : v.wrote = []) (hsocket : v.socket = 0) : Parted L v := by
  have hnone : ∀ k, onSocket k v.wrote = [] := fun k => by rw [hwrote]; rfl
  refine ⟨?_, ?_, fun k _ => hnone k, by omega⟩
  · intro k
    apply closes_of_notMem
    rw [hnone]
    exact List.not_mem_nil
  · intro _
    rw [hnone]
    exact List.not_mem_nil

/-- Taking a frame writes nothing. -/
theorem take_wrote (e : E) (arrives : Bool) :
    (v.take L e arrives).2.loop = v.loop ∧ (v.take L e arrives).2.socket = v.socket ∧
      (v.take L e arrives).2.opened = v.opened ∧ (v.take L e arrives).2.wrote = v.wrote := by
  unfold take hear
  split
  · split
    · exact ⟨rfl, rfl, rfl, rfl⟩
    · dsimp only
      split
      · split <;> exact ⟨rfl, rfl, rfl, rfl⟩
      · exact ⟨rfl, rfl, rfl, rfl⟩
  · exact ⟨rfl, rfl, rfl, rfl⟩

theorem Parted.take (parted : Parted L v) (e : E) (arrives : Bool) :
    Parted L (v.take L e arrives).2 := by
  obtain ⟨hloop, hsocket, hopened, hwrote⟩ := take_wrote (L := L) (v := v) e arrives
  refine ⟨?_, ?_, ?_, ?_⟩
  · rw [hwrote]
    exact parted.closes
  · rw [hloop, hsocket, hwrote]
    exact parted.speaking
  · rw [hopened, hwrote]
    exact parted.fresh
  · rw [hsocket, hopened]
    exact parted.within

/-- A step without a handover. -/
theorem Parted.goOn (parted : Parted L v) {e : E} {w : W} (hcalls : L.calls v.loop e = none)
    (h : L.step v.loop e = some w) : Parted L (v.goOn L w) := by
  obtain ⟨frames, hsent, hlast⟩ := L.sent_plain hcalls h
  have hnew : (L.sent w).drop (L.sent v.loop).length = frames := by
    rw [hsent, List.drop_left]
  have hspoken : Upgrade.lastWriteToPrior ∉ onSocket v.socket (v.goOn L w).wrote := by
    rw [Wired.goOn, hnew, onSocket_append, onSocket_same, List.mem_append, not_or]
    exact ⟨parted.speaking (L.step_ended h), hlast⟩
  have hothers : ∀ k, v.socket ≠ k →
      onSocket k (v.goOn L w).wrote = onSocket k v.wrote := by
    intro k hk
    rw [Wired.goOn, onSocket_append, onSocket_other hk, List.append_nil]
  refine ⟨?_, fun _ => hspoken, ?_, parted.within⟩
  · intro k
    by_cases hk : v.socket = k
    · exact hk ▸ closes_of_notMem hspoken
    · rw [hothers k hk]
      exact parted.closes k
  · intro k hk
    have hlt : v.opened < k := hk
    rw [hothers k (fun heq => absurd parted.within (by omega))]
    exact parted.fresh k hlt

/-- What a handover wrote, socket by socket. -/
theorem onSocket_label {k : Nat} (ws : List (Channel × Bytes)) (hsocket : v.socket ≠ k)
    (hopened : v.opened + 1 ≠ k) :
    onSocket k (ws.map fun (on, frame) => (v.label on, frame)) = [] := by
  have hlabel : ∀ on, v.label on ≠ k := by
    intro on
    cases on with
    | old => exact hsocket
    | new => exact hopened
  rw [onSocket, List.filter_eq_nil_iff.mpr, List.map_nil]
  intro w hw
  obtain ⟨⟨on, frame⟩, -, rfl⟩ := List.mem_map.mp hw
  simpa using hlabel on

theorem notMem_onSocket_label {ws : List (Channel × Bytes)} (hws : NoLast ws) (k : Nat) :
    Upgrade.lastWriteToPrior ∉
      onSocket k (ws.map fun (on, frame) => (v.label on, frame)) := by
  intro hmem
  obtain ⟨⟨l, frame⟩, hfilter, rfl⟩ := List.mem_map.mp hmem
  obtain ⟨⟨on, f⟩, hf, heq⟩ := List.mem_map.mp (List.mem_filter.mp hfilter).1
  cases heq
  exact hws _ hf rfl

/-- The closing frames are on the old socket. -/
theorem onSocket_closing {tail : List (Channel × Bytes)} (htail : Closing tail) (k : Nat) :
    onSocket k (tail.map fun (on, frame) => (v.label on, frame)) =
      if v.socket = k then tail.map Prod.snd else [] := by
  cases htail <;> by_cases hk : v.socket = k <;>
    simp [onSocket, lastWrite, safeToClose, label, hk]

/-- A step with a handover. -/
theorem Parted.moveOn (parted : Parted L v) {e : E} {call : Fallible Moving Bool} {w : W}
    (hcalls : L.calls v.loop e = some call) (calm : L.Calm v.loop e v.moving)
    (h : L.step v.loop
      (L.settle e (Moving.report (call v.moving) (call v.moving).1)) = some w) :
    Parted L (v.moveOn w (call v.moving).2) := by
  obtain ⟨ws, tail, hws, htail, hwrote, hstay⟩ := L.parts hcalls rfl calm h
  generalize (call v.moving).2 = m at hwrote hstay
  have hm : m.wrote = ws ++ tail := hwrote
  have hlast := parted.speaking (L.step_ended h)
  have hsplit : ∀ k, onSocket k (v.moveOn w m).wrote =
      (onSocket k v.wrote ++ onSocket k (ws.map fun (on, frame) => (v.label on, frame))) ++
        if v.socket = k then tail.map Prod.snd else [] := by
    intro k
    rw [Wired.moveOn, onSocket_append, hm, List.map_append, onSocket_append,
      onSocket_closing htail, List.append_assoc]
  have hafter : tail.map Prod.snd = [] ∨ tail.map Prod.snd = [Upgrade.lastWriteToPrior] ∨
      tail.map Prod.snd = [Upgrade.lastWriteToPrior,
        Upgrade.safeToClosePrior Upgrade.staFrequencyNotSet] := by
    cases htail with
    | unsaid => exact .inl rfl
    | last => exact .inr (.inl rfl)
    | safe => exact .inr (.inr rfl)
  have hwithin := parted.within
  -- what went to the new socket is all there is on it
  have hnew : onSocket (v.opened + 1) v.wrote = [] := parted.fresh _ (by omega)
  refine ⟨?_, ?_, ?_, ?_⟩
  · intro k
    rw [hsplit k]
    by_cases hold : v.socket = k
    · subst hold
      rw [if_pos rfl]
      refine ⟨_, _, rfl, ?_, hafter⟩
      rw [List.mem_append, not_or]
      exact ⟨hlast, notMem_onSocket_label hws _⟩
    · rw [if_neg hold, List.append_nil]
      by_cases hopen : v.opened + 1 = k
      · subst hopen
        rw [hnew, List.nil_append]
        exact closes_of_notMem (notMem_onSocket_label hws _)
      · rw [onSocket_label ws hold hopen, List.append_nil]
        exact parted.closes k
  · intro hgoes
    have hstays := hstay hgoes
    by_cases hmoved : m.moved = true
    · have hsocket : (v.moveOn w m).socket = v.opened + 1 := if_pos hmoved
      rw [hsocket, hsplit, hnew, if_neg (by omega), List.append_nil, List.nil_append]
      exact notMem_onSocket_label hws _
    · have hsocket : (v.moveOn w m).socket = v.socket := if_neg hmoved
      rw [hsocket, hsplit, hstays (by simpa using hmoved), if_pos rfl, List.map_nil,
        List.append_nil, List.mem_append, not_or]
      exact ⟨hlast, notMem_onSocket_label hws _⟩
  · intro k hk
    have hlt : v.opened + 1 < k := hk
    rw [hsplit k, if_neg (by omega), onSocket_label ws (by omega) (by omega),
      parted.fresh k (by omega)]
    rfl
  · simp only [Wired.moveOn]
    split <;> omega

/-- The handover that a step calls, if it calls one, is calm. -/
def Calm (L : Loop c W E) (v : Wired W) (m : E × Bool) : Prop :=
  let (read, u) := v.take L m.1 m.2
  (L.calls u.loop (L.receive m.1 read)).isSome →
    L.Calm u.loop (L.receive m.1 read) u.moving

/-- **One step.** -/
theorem Parted.step (parted : Parted L v) (calm : Calm L v m) (h : v.step L m = some v') :
    Parted L v' := by
  obtain ⟨read, u, htake, hstep⟩ := step_cases h
  have taken : Parted L u := by
    have := parted.take m.1 m.2
    rw [htake] at this
    exact this
  simp only [Calm, htake] at calm
  rcases hstep with ⟨w, hcalls, hw, rfl⟩ | ⟨call, w, hcalls, hw, rfl⟩
  · exact taken.goOn hcalls hw
  · exact taken.moveOn hcalls (calm (by rw [hcalls]; rfl)) hw

/-- Behind a LAST_WRITE stands one SAFE_TO_CLOSE at most. -/
def SaysNoMore (wrote : List (Nat × Bytes)) : Prop :=
  ∀ k before after, onSocket k wrote = before ++ Upgrade.lastWriteToPrior :: after →
    after = [] ∨ after = [Upgrade.safeToClosePrior Upgrade.staFrequencyNotSet]

theorem Closes.after {frames before after : List Bytes} (closes : Closes frames)
    (hsplit : frames = before ++ Upgrade.lastWriteToPrior :: after) :
    after = [] ∨ after = [Upgrade.safeToClosePrior Upgrade.staFrequencyNotSet] := by
  obtain ⟨front, tail, rfl, hfront, htail⟩ := closes
  -- the LAST_WRITE is in the tail, since none is in front of it
  have hthere : ∃ pre, tail = pre ++ Upgrade.lastWriteToPrior :: after := by
    rcases List.append_eq_append_iff.mp hsplit with ⟨pre, -, htail⟩ | ⟨pre, hpre, hmid⟩
    · exact ⟨pre, htail⟩
    · cases pre with
      | nil => exact ⟨[], by simpa using hmid.symm⟩
      | cons x pre =>
          obtain ⟨rfl, -⟩ := List.cons.inj hmid
          exact absurd (by simp [hpre]) hfront
  obtain ⟨pre, hpre⟩ := hthere
  have hlength := congrArg List.length hpre
  rw [List.length_append, List.length_cons] at hlength
  rcases htail with rfl | rfl | rfl
  · simp at hlength
  · exact .inl (List.length_eq_zero_iff.mp (by simp at hlength; omega))
  · cases pre with
    | nil =>
        obtain ⟨-, hafter⟩ := List.cons.inj hpre
        exact .inr hafter.symm
    | cons x pre => exact .inl (List.length_eq_zero_iff.mp (by simp at hlength; omega))

/-- **A run.** -/
theorem says_no_more {acts : List (E × Bool)} (hwrote : v.wrote = []) (hsocket : v.socket = 0)
    (run : Lts.Run (Lts.Restrict (Lts.ofPartial (step L)) (Calm L)) v acts v') :
    SaysNoMore v'.wrote := by
  have parted : Parted L v' :=
    run.invariant (Parted L) (parted_start hwrote hsocket) fun _ _ _ parted last =>
      parted.step last.2 last.1
  exact fun k before after hsplit => (parted.closes k).after hsplit

/-! ## What the loop takes -/

/-- What the wires and the frames come to, from `channel` and the wires of the peer. -/
structure Accounted (L : Loop c W E) (channel : SecureChannel) (peer : List Bytes)
    (v : Wired W) : Prop where
  /-- The frames the loop took and those queued for it are those that are the loop's. -/
  taken : v.processed ++ L.deferred v.loop = forLoop v.seen
  /-- The wires were taken off in order, and none was left behind. -/
  wires : v.seen.map Prod.fst ++ (v.left ++ v.later.flatten) = peer
  /-- Each was decrypted once. -/
  decrypted : Decrypted c channel v.seen v.channel
  fates : ∀ e ∈ v.seen, L.Fated e.2

/-- The same while a step has taken its frame and not gone on yet. -/
structure Taken (L : Loop c W E) (channel : SecureChannel) (peer : List Bytes) (e : E)
    (v : Wired W) : Prop where
  taken : v.processed ++
      (if L.takes v.loop e then (L.deferred v.loop).tail else L.deferred v.loop) =
    forLoop v.seen
  wires : v.seen.map Prod.fst ++ (v.left ++ v.later.flatten) = peer
  decrypted : Decrypted c channel v.seen v.channel
  fates : ∀ e ∈ v.seen, L.Fated e.2

variable {channel : SecureChannel} {peer : List Bytes}

/-- One wire more. -/
theorem decrypted_concat {channel' : SecureChannel} {log : List (Bytes × Fate)} {wire : Bytes}
    {fate : Fate} (h : Decrypted c channel log channel')
    (hplain : fate.plain = (channel'.decrypt c wire).1.toOption) :
    Decrypted c channel (log ++ [(wire, fate)]) (channel'.decrypt c wire).2 :=
  h.append ⟨hplain, rfl⟩

/-- What one wait on the socket comes to. -/
theorem hear_cases (arrives : Bool) :
    v.hear c arrives = (none, v) ∨
      ∃ wire left fate, v.left = wire :: left ∧
        fate.plain = (v.channel.decrypt c wire).1.toOption ∧ fate.forLoop = fate.plain ∧
        L.Fated fate ∧
        v.hear c arrives =
          (fate.plain,
            { v with
              channel := (v.channel.decrypt c wire).2
              left := left
              seen := v.seen ++ [(wire, fate)] }) := by
  unfold hear
  cases arrives with
  | false => exact .inl rfl
  | true =>
      cases hleft : v.left with
      | nil => exact .inl rfl
      | cons wire left =>
          dsimp only
          right
          cases hopen : v.channel.decrypt c wire with
          | mk opened channel =>
              cases opened with
              | error err =>
                  refine ⟨wire, left, .garbled, rfl, ?_, rfl, L.fated_garbled, ?_⟩ <;>
                    rw [hopen] <;> rfl
              | ok plain =>
                  refine ⟨wire, left, .kept plain, rfl, ?_, rfl, L.fated_kept, ?_⟩ <;>
                    rw [hopen] <;> rfl

theorem Accounted.take (accounted : Accounted L channel peer v) (e : E) (arrives : Bool) :
    Taken L channel peer e (v.take L e arrives).2 := by
  obtain ⟨htaken, hwires, hdecrypted, hfates⟩ := accounted
  unfold Wired.take
  by_cases htakes : L.takes v.loop e = true
  · rw [if_pos htakes]
    cases hdeferred : L.deferred v.loop with
    | cons plain rest =>
        refine ⟨?_, hwires, hdecrypted, hfates⟩
        dsimp only
        rw [if_pos htakes, hdeferred, List.tail_cons, List.append_assoc, List.singleton_append,
          ← hdeferred]
        exact htaken
    | nil =>
        rw [hdeferred, List.append_nil] at htaken
        rcases hear_cases (L := L) (v := v) arrives with
          hnone | ⟨wire, left, fate, hleft, hplain, hloop, hfate, hsome⟩
        · rw [hnone]
          refine ⟨?_, hwires, hdecrypted, hfates⟩
          simp [htakes, hdeferred, htaken]
        · rw [hsome]
          refine ⟨?_, ?_, decrypted_concat hdecrypted hplain, ?_⟩
          · simp [htakes, hdeferred, htaken, hloop]
          · rw [hleft] at hwires
            simpa using hwires
          · intro x hx
            rcases List.mem_append.mp hx with hx | hx
            · exact hfates x hx
            · rw [List.mem_singleton.mp hx]
              exact hfate
  · rw [if_neg htakes]
    refine ⟨?_, hwires, hdecrypted, hfates⟩
    rw [if_neg htakes]
    exact htaken

theorem Taken.goOn {e : E} {w : W} (accounted : Taken L channel peer e v)
    (hcalls : L.calls v.loop e = none) (h : L.step v.loop e = some w) :
    Accounted L channel peer (v.goOn L w) := by
  obtain ⟨htaken, hwires, hdecrypted, hfates⟩ := accounted
  refine ⟨?_, hwires, hdecrypted, hfates⟩
  rw [← L.deferred_plain hcalls h] at htaken
  exact htaken

/-- A SAFE_TO_CLOSE of the peer. -/
def isSafe (plain : Bytes) : Bool :=
  match Upgrade.read plain with
  | some (.safeToClosePrior _) => true
  | _ => false

/-- The peer writes nothing on the socket after its SAFE_TO_CLOSE. -/
def silentAfterSafe (c : Crypto) : SecureChannel → List Bytes → Bool
  | _, [] => true
  | channel, wire :: left =>
      match channel.decrypt c wire with
      | (.ok plain, channel) =>
          if isSafe plain then left.isEmpty else silentAfterSafe c channel left
      | (.error _, channel) => silentAfterSafe c channel left

/-- The peer's SAFE_TO_CLOSE, in a release exchange. -/
def toldSafe : Fate → Bool
  | .released plain => isSafe plain
  | .kept _ | .met _ | .garbled => false

theorem plain_of_toldSafe {fate : Fate} (h : toldSafe fate = true) :
    ∃ plain, fate.plain = some plain ∧ isSafe plain = true := by
  cases fate with
  | released plain => exact ⟨plain, rfl, h⟩
  | kept plain => cases h
  | met plain => cases h
  | garbled => cases h

/-- Behind a SAFE_TO_CLOSE nothing was left to take. -/
theorem left_of_safe {log : List (Bytes × Fate)} {left rest : List Bytes}
    {channel' : SecureChannel} (silent : silentAfterSafe c channel left = true)
    (hleft : left = log.map Prod.fst ++ rest) (h : Decrypted c channel log channel')
    (hsafe : ∃ e ∈ log, ∃ plain, e.2.plain = some plain ∧ isSafe plain = true) : rest = [] := by
  induction log generalizing channel left with
  | nil =>
      obtain ⟨e, he, -⟩ := hsafe
      cases he
  | cons entry log ih =>
      obtain ⟨wire, fate⟩ := entry
      rw [hleft, List.map_cons, List.cons_append, silentAfterSafe] at silent
      obtain ⟨hplain, hrest⟩ := h
      cases hopen : channel.decrypt c wire with
      | mk opened next =>
          rw [hopen] at silent hplain hrest
          have later : (∃ e ∈ log, ∃ plain, e.2.plain = some plain ∧ isSafe plain = true) →
              silentAfterSafe c next (log.map Prod.fst ++ rest) = true → rest = [] :=
            fun hsafe silent => ih silent rfl hrest hsafe
          obtain ⟨e, he, plain, hread, hsafe⟩ := hsafe
          cases opened with
          | error err =>
              apply later ⟨e, ?_, plain, hread, hsafe⟩ silent
              rcases List.mem_cons.mp he with rfl | he
              · rw [hplain] at hread
                cases hread
              · exact he
          | ok here =>
              dsimp only at silent
              split at silent
              next hhere => exact (List.append_eq_nil_iff.mp (List.isEmpty_iff.mp silent)).2
              next hhere =>
                apply later ⟨e, ?_, plain, hread, hsafe⟩ silent
                rcases List.mem_cons.mp he with rfl | he
                · rw [hplain] at hread
                  cases hread
                  exact absurd hsafe hhere
                · exact he

/-- Where a handover moves the loop to its new socket, the peer is silent on the old one
after its SAFE_TO_CLOSE, and the handover has had that. -/
def released (L : Loop c W E) (v : Wired W) (m : E × Bool) : Bool :=
  let (read, u) := v.take L m.1 m.2
  (L.calls u.loop (L.receive m.1 read)).all fun call =>
    let (_, n) := call u.moving
    !n.moved || (silentAfterSafe c u.channel u.left && n.seen.any fun e => toldSafe e.2)

theorem headD_append_tail (l : List (List Bytes)) : l.headD [] ++ l.tail.flatten = l.flatten := by
  cases l <;> simp

theorem Taken.moveOn {e : E} {call : Fallible Moving Bool} {w : W}
    (accounted : Taken L channel peer e v) (hcalls : L.calls v.loop e = some call)
    (released : (call v.moving).2.moved = true →
      silentAfterSafe c v.channel v.left = true ∧
        (call v.moving).2.seen.any (fun e => toldSafe e.2) = true)
    (h : L.step v.loop
      (L.settle e (Moving.report (call v.moving) (call v.moving).1)) = some w) :
    Accounted L channel peer (v.moveOn w (call v.moving).2) := by
  obtain ⟨htaken, hwires, hdecrypted, hfates⟩ := accounted
  obtain ⟨log, hseen, hleft, hdeferred, hopened, hlog⟩ := L.hears hcalls v.moving
  have hqueue := L.deferred_call hcalls h
  simp only [Moving.report] at hqueue
  generalize (call v.moving).2 = m at *
  obtain rfl : m.seen = log := hseen
  have hkept : m.deferred = forLoop m.seen := hdeferred
  refine ⟨?_, ?_, hdecrypted.append hopened, ?_⟩
  · have hloop : L.deferred (v.moveOn w m).loop = L.deferred w := rfl
    rw [hloop, hqueue, hkept, ← List.append_assoc]
    have hseen' : (v.moveOn w m).seen = v.seen ++ m.seen := rfl
    have hprocessed : (v.moveOn w m).processed = v.processed := rfl
    rw [hseen', hprocessed, forLoop_append, htaken]
  · have hold : v.left = m.seen.map Prod.fst ++ m.left := hleft
    have hrest : (v.moveOn w m).left ++ (v.moveOn w m).later.flatten =
        m.left ++ v.later.flatten := by
      by_cases hmoved : m.moved = true
      · obtain ⟨silent, hsafe⟩ := released hmoved
        obtain ⟨x, hx, hfate⟩ := List.any_eq_true.mp hsafe
        have hnone : m.left = [] :=
          left_of_safe silent hold hopened ⟨x, hx, plain_of_toldSafe hfate⟩
        simp only [Wired.moveOn, hmoved, if_true, hnone, List.nil_append]
        exact headD_append_tail v.later
      · have hstayed : m.moved = false := by simpa using hmoved
        simp only [Wired.moveOn, hstayed, Bool.false_eq_true, if_false]
    have hseen' : (v.moveOn w m).seen = v.seen ++ m.seen := rfl
    rw [hrest, hseen', List.map_append, List.append_assoc, ← List.append_assoc _ m.left, ← hold]
    exact hwires
  · intro x hx
    exact (List.mem_append.mp hx).elim (hfates x) (hlog x)

/-- **One step.** -/
theorem Accounted.step (accounted : Accounted L channel peer v)
    (hreleased : released L v m = true)
    (h : v.step L m = some v') : Accounted L channel peer v' := by
  obtain ⟨read, u, htake, hstep⟩ := step_cases h
  have taken : Taken L channel peer m.1 u := by
    have := accounted.take m.1 m.2
    rw [htake] at this
    exact this
  have received : Taken L channel peer (L.receive m.1 read) u :=
    ⟨by rw [L.takes_receive]; exact taken.taken, taken.wires, taken.decrypted, taken.fates⟩
  simp only [released, htake] at hreleased
  rcases hstep with ⟨w, hcalls, hw, rfl⟩ | ⟨call, w, hcalls, hw, rfl⟩
  · exact received.goOn hcalls hw
  · refine received.moveOn hcalls (fun hmoved => ?_) hw
    rw [hcalls, Option.all_some] at hreleased
    simpa [hmoved] using hreleased

/-- **A run.** -/
theorem accounted_run {acts : List (E × Bool)} (hdeferred : L.deferred v.loop = [])
    (hseen : v.seen = []) (hprocessed : v.processed = [])
    (run : Lts.Run (Lts.Restrict (Lts.ofPartial (step L)) fun v m => released L v m = true)
      v acts v') :
    Accounted L v.channel (v.left ++ v.later.flatten) v' := by
  refine run.invariant (Accounted L v.channel (v.left ++ v.later.flatten)) ?_
    fun _ _ _ accounted last => accounted.step last.2 last.1
  refine ⟨?_, ?_, ?_, ?_⟩
  · rw [hdeferred, hseen, hprocessed]
    rfl
  · rw [hseen]
    rfl
  · rw [hseen]
    rfl
  · rw [hseen]
    exact fun e he => absurd he List.not_mem_nil

end Wired

end Quickshare
