import TarishDaemon.Quickshare.Moving

/-!
# What a handover reads and what it writes

Whatever the handover is waiting for, it reads the old socket in one way: a wire is
taken off, decrypted once, and goes to the main loop's queue unless the handover is
over it (`Hears`).

What it writes falls in two (`Says`): frames that are no LAST_WRITE, and then, where it
came that far, the LAST_WRITE and the SAFE_TO_CLOSE on the old socket.
-/

namespace Quickshare

open Rust Protocol Fallible
open Protocol.Upgrade (Channel UpgradePath)

variable {c : Crypto} {m m' m'' : Moving} {p : Poll}

/-! ## Reading -/

/-- Wires decrypted one after the other, each once. -/
def Decrypted (c : Crypto) : SecureChannel → List (Bytes × Fate) → SecureChannel → Prop
  | channel, [], channel' => channel' = channel
  | channel, (wire, fate) :: log, channel' =>
      fate.plain = (channel.decrypt c wire).1.toOption ∧
        Decrypted c (channel.decrypt c wire).2 log channel'

theorem Decrypted.append {channel channel' channel'' : SecureChannel}
    {log log' : List (Bytes × Fate)} (h : Decrypted c channel log channel')
    (h' : Decrypted c channel' log' channel'') : Decrypted c channel (log ++ log') channel'' := by
  induction log generalizing channel with
  | nil => exact (show channel' = channel from h) ▸ h'
  | cons e log ih => exact ⟨h.1, ih h.2⟩

/-- The frames that are the main loop's. -/
def forLoop (log : List (Bytes × Fate)) : List Bytes :=
  log.filterMap fun e => e.2.forLoop

@[simp]
theorem forLoop_append (log log' : List (Bytes × Fate)) :
    forLoop (log ++ log') = forLoop log ++ forLoop log' :=
  List.filterMap_append

@[simp]
theorem forLoop_single (wire : Bytes) (fate : Fate) :
    forLoop [(wire, fate)] = fate.forLoop.toList := by
  cases hfate : fate.forLoop <;> simp [forLoop, hfate]

/-- Wires were taken off the socket, and `P` holds of what became of each. -/
def Hears (c : Crypto) (P : Fate → Prop) (m m' : Moving) : Prop :=
  ∃ log : List (Bytes × Fate),
    m'.seen = m.seen ++ log ∧ m.left = log.map Prod.fst ++ m'.left ∧
      m'.deferred = m.deferred ++ forLoop log ∧ Decrypted c m.channel log m'.channel ∧
      ∀ e ∈ log, P e.2

variable {P : Fate → Prop}

/-- The socket is not touched. -/
theorem Hears.of_eq (hseen : m'.seen = m.seen) (hleft : m'.left = m.left)
    (hdeferred : m'.deferred = m.deferred) (hchannel : m'.channel = m.channel) :
    Hears c P m m' :=
  ⟨[], by simp [hseen], by simp [hleft], by simp [hdeferred, forLoop], hchannel, by simp⟩

theorem Hears.refl (m : Moving) : Hears c P m m :=
  .of_eq rfl rfl rfl rfl

theorem Hears.trans (h : Hears c P m m') (h' : Hears c P m' m'') : Hears c P m m'' := by
  obtain ⟨log, hseen, hleft, hdeferred, hdecrypted, hP⟩ := h
  obtain ⟨log', hseen', hleft', hdeferred', hdecrypted', hP'⟩ := h'
  refine ⟨log ++ log', ?_, ?_, ?_, hdecrypted.append hdecrypted', ?_⟩
  · rw [hseen', hseen, List.append_assoc]
  · rw [hleft, hleft', List.map_append, List.append_assoc]
  · rw [hdeferred', hdeferred, forLoop_append, List.append_assoc]
  · intro e he
    exact (List.mem_append.mp he).elim (hP e) (hP' e)

theorem Hears.take (fate : Fate) {wire : Bytes} {left : List Bytes}
    (hleft : m.left = wire :: left)
    (hplain : fate.plain = (m.channel.decrypt c wire).1.toOption) (hP : P fate) :
    Hears c P m (m.take (m.channel.decrypt c wire).2 left wire fate) := by
  refine ⟨[(wire, fate)], rfl, hleft, ?_, ⟨hplain, rfl⟩, by simpa using hP⟩
  cases fate <;> rfl

theorem hears_bind {α β : Type} {x : Fallible Moving α} {f : α → Fallible Moving β}
    (hx : Keeps (Hears c P) x) (hf : ∀ a, Keeps (Hears c P) (f a)) :
    Keeps (Hears c P) (x >>= f) :=
  hx.bind Hears.trans hf

theorem nextWithin_hears {judge : Bytes → Fate} (hgarbled : P .garbled)
    (hjudge : ∀ plain, (judge plain).plain = some plain ∧ P (judge plain)) :
    Keeps (Hears c P) (nextWithin c judge p) := by
  intro m
  unfold nextWithin
  split
  · exact .refl m
  · exact .refl m
  · exact .refl m
  next wire left hleft =>
    split
    next err channel heq =>
      have hopen := Hears.take (c := c) (P := P) .garbled hleft (by rw [heq]; rfl)
      rw [heq] at hopen
      exact hopen hgarbled
    next plain channel heq =>
      have hopen := Hears.take (c := c) (P := P) (judge plain) hleft
        (by rw [heq]; exact (hjudge plain).1)
      rw [heq] at hopen
      exact hopen (hjudge plain).2

theorem write_hears (goes : Bool) (on : Channel) (frame : Bytes) :
    Keeps (Hears c P) (write goes on frame) := by
  intro m
  unfold write
  split
  · exact .of_eq rfl rfl rfl rfl
  · exact .refl m

theorem moveOver_hears : Keeps (Hears c P) moveOver := by
  intro m
  exact .of_eq rfl rfl rfl rfl

/-- What becomes of a frame on the host's side, and in `adopt`. -/
def Fate.OfRelease : Fate → Prop
  | .kept _ | .garbled => True
  | .released plain =>
      Upgrade.read plain = some .lastWriteToPrior ∨
        ∃ sta, Upgrade.read plain = some (.safeToClosePrior sta)
  | .met _ => False

/-- What becomes of a frame on the joiner's side. -/
def Fate.OfUpgrade : Fate → Prop
  | .met plain => ∀ frame, Frames.parse plain = .ok frame → ∃ body, frame = .bandwidthUpgrade body
  | .kept plain => Fate.OfRelease (.kept plain)
  | .released plain => Fate.OfRelease (.released plain)
  | .garbled => Fate.OfRelease .garbled

theorem Fate.OfRelease.ofUpgrade {fate : Fate} (h : fate.OfRelease) : fate.OfUpgrade := by
  cases fate with
  | met plain => exact h.elim
  | kept plain => exact h
  | released plain => exact h
  | garbled => exact h

theorem releaseFate_spec (plain : Bytes) :
    (releaseFate plain).plain = some plain ∧ (releaseFate plain).OfRelease := by
  unfold releaseFate
  split
  next h => exact ⟨rfl, .inl h⟩
  next sta h => exact ⟨rfl, .inr ⟨sta, h⟩⟩
  next => exact ⟨rfl, trivial⟩

theorem waitFate_spec (plain : Bytes) :
    (waitFate plain).plain = some plain ∧ (waitFate plain).OfUpgrade := by
  unfold waitFate
  split
  next body h =>
    refine ⟨rfl, fun frame hframe => ⟨body, ?_⟩⟩
    rw [h] at hframe
    exact (Except.ok.inj hframe).symm
  next err h =>
    refine ⟨rfl, fun frame hframe => ?_⟩
    rw [h] at hframe
    cases hframe
  next => exact ⟨rfl, trivial⟩

theorem drainOld_hears (polls : List Poll) (spent : Bool) :
    Keeps (Hears c Fate.OfRelease) (drainOld c polls spent) := by
  induction polls generalizing spent with
  | nil => exact keeps_pure Hears.refl ()
  | cons p polls ih =>
      unfold drainOld
      refine hears_bind (keeps_get Hears.refl) fun m => ?_
      split
      · exact ih spent
      · refine hears_bind (nextWithin_hears trivial fun _ => ⟨rfl, trivial⟩) fun got => ?_
        cases got with
        | quiet => exact ih spent
        | broke => exact ih true
        | frame plain =>
            exact hears_bind (keeps_modify fun _ => .of_eq rfl rfl rfl rfl) fun _ => ih spent

theorem releaseHost_hears (polls : List Poll) :
    Keeps (Hears c Fate.OfRelease) (releaseHost c polls) := by
  induction polls with
  | nil => exact keeps_pure Hears.refl ()
  | cons p polls ih =>
      unfold releaseHost
      refine hears_bind (nextWithin_hears trivial releaseFate_spec) fun got => ?_
      cases got with
      | quiet => exact keeps_pure Hears.refl ()
      | broke => exact keeps_fail Hears.refl
      | frame plain =>
          dsimp only
          split
          · exact keeps_pure Hears.refl ()
          · exact ih

/-- What the writes and the drains keep is kept up to the LAST_WRITE. -/
theorem offerPath_keeps {R : Moving → Moving → Prop} (refl : ∀ m, R m m)
    (trans : ∀ {m m' m''}, R m m' → R m' m'' → R m m'')
    (hwrite : ∀ goes on frame, Keeps R (write goes on frame))
    (hdrain : ∀ polls, Keeps R (drainOld c polls false)) (e : Offering) :
    Keeps R (offerPath c e) := by
  have stays : Keeps R (do
      write e.failureGoes .old Upgrade.failure
      return false) :=
    (hwrite _ _ _).bind trans fun _ => keeps_pure refl _
  unfold offerPath
  split
  · exact stays
  · refine (hdrain _).bind trans fun _ => ?_
    split
    · refine (hwrite _ _ _).bind trans fun _ => (hdrain _).bind trans fun _ => ?_
      split
      · exact stays
      · split
        · exact keeps_fail refl
        · split
          · exact keeps_fail refl
          · exact stays
          · split
            · refine (hwrite _ _ _).bind trans fun _ => ?_
              exact (hwrite _ _ _).bind trans fun _ => keeps_pure refl _
            · exact stays
    · exact stays

theorem offerPath_hears (e : Offering) : Keeps (Hears c Fate.OfRelease) (offerPath c e) :=
  offerPath_keeps Hears.refl Hears.trans write_hears (fun polls => drainOld_hears polls false) e

theorem offerGroup_hears (e : Offering) : Keeps (Hears c Fate.OfRelease) (offerGroup c e) := by
  refine hears_bind (offerPath_hears e) fun there => ?_
  split
  · refine hears_bind (releaseHost_hears _) fun _ => hears_bind (write_hears _ _ _) fun _ => ?_
    exact hears_bind moveOver_hears fun _ => keeps_pure Hears.refl _
  · exact keeps_pure Hears.refl _

theorem releaseOld_hears (goes weReleased : Bool) :
    Keeps (Hears c P) (releaseOld goes weReleased) := by
  unfold releaseOld
  split
  · exact keeps_pure Hears.refl ()
  · exact write_hears _ _ _

theorem releaseJoiner_hears (safeGoes : Bool) (polls : List Poll) (weReleased : Bool) :
    Keeps (Hears c Fate.OfUpgrade) (releaseJoiner c safeGoes polls weReleased) := by
  induction polls generalizing weReleased with
  | nil => exact keeps_pure Hears.refl _
  | cons p polls ih =>
      unfold releaseJoiner
      have hjudge := fun plain => (releaseFate_spec plain).imp_right Fate.OfRelease.ofUpgrade
      refine hears_bind (nextWithin_hears trivial hjudge) fun got => ?_
      cases got with
      | quiet => exact keeps_pure Hears.refl _
      | broke => exact keeps_fail Hears.refl
      | frame plain =>
          dsimp only
          split
          · exact keeps_pure Hears.refl _
          · exact hears_bind (releaseOld_hears _ _) fun _ => ih true
          · exact ih weReleased

theorem awaitAck_hears (e : Adopting) (path : UpgradePath) :
    Keeps (Hears c P) (awaitAck e path) := by
  unfold awaitAck
  split
  · split
    · exact keeps_fail Hears.refl
    · exact keeps_fail Hears.refl
    · split
      · exact keeps_pure Hears.refl ()
      · exact keeps_fail Hears.refl
  · exact keeps_pure Hears.refl ()

theorem adoptPath_hears (e : Adopting) (path : UpgradePath) :
    Keeps (Hears c P) (adoptPath e path) := by
  unfold adoptPath
  split
  · exact keeps_fail Hears.refl
  · exact hears_bind (write_hears _ _ _) fun _ => keeps_pure Hears.refl _
  · split
    · exact keeps_fail Hears.refl
    · refine hears_bind (write_hears _ _ _) fun _ => hears_bind (awaitAck_hears e path) fun _ => ?_
      exact hears_bind (write_hears _ _ _) fun _ => keeps_pure Hears.refl _

theorem adopt_hears (e : Adopting) (path : UpgradePath) :
    Keeps (Hears c Fate.OfUpgrade) (adopt c e path) := by
  refine hears_bind (adoptPath_hears e path) fun there => ?_
  split
  · refine hears_bind (releaseJoiner_hears _ _ _) fun _ => ?_
    refine hears_bind (releaseOld_hears _ _) fun _ => ?_
    exact hears_bind moveOver_hears fun _ => keeps_pure Hears.refl _
  · exact keeps_pure Hears.refl _

theorem onUpgradeFrame_hears (e : Adopting) (body : Bytes) :
    Keeps (Hears c Fate.OfUpgrade) (onUpgradeFrame c e body) := by
  unfold onUpgradeFrame
  split
  · refine hears_bind (adopt_hears e _).attempt fun ended => ?_
    split
    · exact keeps_pure Hears.refl ()
    · exact write_hears _ _ _
  · exact keeps_pure Hears.refl ()
  · exact keeps_pure Hears.refl ()

theorem waitForUpgrade_hears (e : Adopting) (waits : List (Bool × Poll)) :
    Keeps (Hears c Fate.OfUpgrade) (waitForUpgrade c e waits) := by
  induction waits with
  | nil => exact keeps_pure Hears.refl ()
  | cons wait waits ih =>
      obtain ⟨cancelled, p⟩ := wait
      unfold waitForUpgrade
      split
      · exact keeps_pure Hears.refl ()
      · refine hears_bind (nextWithin_hears trivial waitFate_spec) fun got => ?_
        cases got with
        | quiet => exact ih
        | broke => exact keeps_fail Hears.refl
        | frame plain =>
            dsimp only
            split
            · exact keeps_fail Hears.refl
            · exact onUpgradeFrame_hears e _
            · exact ih

/-! ## Writing -/

/-- None of the frames is a LAST_WRITE. -/
def NoLast (ws : List (Channel × Bytes)) : Prop :=
  ∀ w ∈ ws, w.2 ≠ Upgrade.lastWriteToPrior

theorem NoLast.append {ws ws' : List (Channel × Bytes)} (h : NoLast ws) (h' : NoLast ws') :
    NoLast (ws ++ ws') := by
  intro w hw
  exact (List.mem_append.mp hw).elim (h w) (h' w)

theorem noLast_single {on : Channel} {frame : Bytes} (h : frame ≠ Upgrade.lastWriteToPrior) :
    NoLast [(on, frame)] := by
  simpa [NoLast] using h

/-- Nothing was written. -/
def Mute (m m' : Moving) : Prop :=
  m'.wrote = m.wrote ∧ m'.moved = m.moved

theorem Mute.refl (m : Moving) : Mute m m :=
  ⟨rfl, rfl⟩

theorem Mute.trans (h : Mute m m') (h' : Mute m' m'') : Mute m m'' :=
  ⟨h'.1.trans h.1, h'.2.trans h.2⟩

theorem nextWithin_mute (judge : Bytes → Fate) : Keeps Mute (nextWithin c judge p) := by
  intro m
  unfold nextWithin
  split
  · exact .refl m
  · exact .refl m
  · exact .refl m
  · split
    · exact ⟨rfl, rfl⟩
    · exact ⟨rfl, rfl⟩

theorem mute_bind {α β : Type} {x : Fallible Moving α} {f : α → Fallible Moving β}
    (hx : Keeps Mute x) (hf : ∀ a, Keeps Mute (f a)) : Keeps Mute (x >>= f) :=
  hx.bind Mute.trans hf

theorem drainOld_mute (polls : List Poll) (spent : Bool) :
    Keeps Mute (drainOld c polls spent) := by
  induction polls generalizing spent with
  | nil => exact keeps_pure Mute.refl ()
  | cons p polls ih =>
      unfold drainOld
      refine mute_bind (keeps_get Mute.refl) fun m => ?_
      split
      · exact ih spent
      · refine mute_bind (nextWithin_mute _) fun got => ?_
        cases got with
        | quiet => exact ih spent
        | broke => exact ih true
        | frame plain => exact mute_bind (keeps_modify fun _ => ⟨rfl, rfl⟩) fun _ => ih spent

/-- The frames written since, and the socket has not been replaced. -/
def Wrote (ws : List (Channel × Bytes)) (m m' : Moving) : Prop :=
  m'.wrote = m.wrote ++ ws ∧ m'.moved = m.moved

theorem Wrote.trans {ws ws' : List (Channel × Bytes)} (h : Wrote ws m m')
    (h' : Wrote ws' m' m'') : Wrote (ws ++ ws') m m'' :=
  ⟨by rw [h'.1, h.1, List.append_assoc], h'.2.trans h.2⟩

theorem Mute.wrote (h : Mute m m') : Wrote [] m m' :=
  ⟨by rw [h.1, List.append_nil], h.2⟩

theorem write_ends (goes : Bool) (on : Channel) (frame : Bytes) (m : Moving) :
    Ends (write goes on frame) m fun r m' =>
      (r = some () ∧ goes = true ∧ m' = { m with wrote := m.wrote ++ [(on, frame)] }) ∨
        (r = none ∧ goes = false ∧ m' = m) := by
  unfold write
  split
  next h => exact .inl ⟨rfl, h, rfl⟩
  next h => exact .inr ⟨rfl, by simpa using h, rfl⟩

/-- Frames that are no LAST_WRITE were written, and then those of `tail`. -/
def Says (tail : List (Channel × Bytes)) (m m' : Moving) : Prop :=
  ∃ ws, NoLast ws ∧ Wrote (ws ++ tail) m m'

variable {tail : List (Channel × Bytes)}

theorem Says.refl (m : Moving) : Says [] m m :=
  ⟨[], by simp [NoLast], (Mute.refl m).wrote⟩

theorem Says.trans (h : Says [] m m') (h' : Says tail m' m'') : Says tail m m'' := by
  obtain ⟨ws, hws, hwrote⟩ := h
  obtain ⟨ws', hws', hwrote'⟩ := h'
  refine ⟨ws ++ ws', hws.append hws', ?_⟩
  rw [List.append_nil] at hwrote
  rw [List.append_assoc]
  exact hwrote.trans hwrote'

theorem Says.more {ws : List (Channel × Bytes)} (h : Says tail m m') (h' : Wrote ws m' m'') :
    Says (tail ++ ws) m m'' := by
  obtain ⟨before, hbefore, hwrote⟩ := h
  refine ⟨before, hbefore, ?_⟩
  rw [← List.append_assoc]
  exact hwrote.trans h'

theorem Mute.adds (h : Mute m m') : Says [] m m' :=
  (Says.refl m).more h.wrote

theorem write_adds (goes : Bool) (on : Channel) {frame : Bytes}
    (h : frame ≠ Upgrade.lastWriteToPrior) : Keeps (Says []) (write goes on frame) := by
  intro m
  rcases write_ends goes on frame m with ⟨-, -, heq⟩ | ⟨-, -, heq⟩
  · rw [heq]
    exact ⟨[(on, frame)], noLast_single h, by rw [List.append_nil], rfl⟩
  · rw [heq]
    exact .refl m

theorem drainOld_adds (polls : List Poll) (spent : Bool) :
    Keeps (Says []) (drainOld c polls spent) :=
  fun m => (drainOld_mute polls spent m).adds

/-- A step before the LAST_WRITE. -/
theorem adds_bind {α β : Type} {x : Fallible Moving α} {f : α → Fallible Moving β} {n : Moving}
    {Q : Option β → Moving → Prop} (hx : Keeps (Says []) x) (before : Says [] m n)
    (hf : ∀ a t, Says [] m t → Ends (f a) t Q) (hfail : ∀ t, Says [] m t → Q none t) :
    Ends (x >>= f) n Q :=
  (hx.ends n).bind (fun a t h => hf a t (before.trans h)) fun t h => hfail t (before.trans h)

/-- Our LAST_WRITE, and our SAFE_TO_CLOSE. -/
def lastWrite : Channel × Bytes := (.old, Upgrade.lastWriteToPrior)

def safeToClose : Channel × Bytes :=
  (.old, Upgrade.safeToClosePrior Upgrade.staFrequencyNotSet)

/-- What has been written by a program that says whether it came to the LAST_WRITE. -/
def announced : Option Bool → List (Channel × Bytes)
  | some true => [lastWrite]
  | some false | none => []

theorem failure_ne : Upgrade.failure ≠ Upgrade.lastWriteToPrior := by
  decide

theorem clientIntroductionAck_ne : Upgrade.clientIntroductionAck ≠ Upgrade.lastWriteToPrior := by
  decide

theorem pathAvailable_ne (path : UpgradePath) :
    Upgrade.pathAvailable path ≠ Upgrade.lastWriteToPrior := by
  apply Upgrade.bandwidthUpgrade_ne_lastWriteToPrior
  intro h
  cases congrArg (·[1]?) h

theorem clientIntroduction_ne (id : Text) :
    Upgrade.clientIntroduction id ≠ Upgrade.lastWriteToPrior := by
  apply Upgrade.bandwidthUpgrade_ne_lastWriteToPrior
  intro h
  cases congrArg (·[1]?) h

theorem pathRequest_ne (mediums : List Upgrade.Medium) :
    Upgrade.pathRequest mediums ≠ Upgrade.lastWriteToPrior := by
  apply Upgrade.bandwidthUpgrade_ne_lastWriteToPrior
  intro h
  cases congrArg (·[1]?) h

theorem payloadData_ne (header : Frames.PayloadHeader) (chunk : Frames.PayloadChunk) :
    Frames.payloadData header chunk ≠ Upgrade.lastWriteToPrior :=
  Upgrade.offline_ne_lastWriteToPrior (by decide) (by decide) (by decide)

theorem keepAlive_ne (ack : Bool) (seqNum : Nat) :
    Frames.keepAlive ack seqNum ≠ Upgrade.lastWriteToPrior :=
  Upgrade.offline_ne_lastWriteToPrior (by decide) (by decide) (by decide)

theorem disconnection_ne (requestSafe ackSafe : Bool) :
    Frames.disconnection requestSafe ackSafe ≠ Upgrade.lastWriteToPrior :=
  Upgrade.offline_ne_lastWriteToPrior (by decide) (by decide) (by decide)

theorem wrapBytes_noLast (nextId : Int) (frame : Bytes) :
    Upgrade.lastWriteToPrior ∉ (wrapBytes nextId frame).2 := by
  simp only [wrapBytes, List.mem_cons, List.not_mem_nil, or_false, not_or]
  exact ⟨(payloadData_ne _ _).symm, (payloadData_ne _ _).symm⟩

/-- Frames of the handover up to the LAST_WRITE. -/
theorem announce_ends (goes : Bool) {n : Moving} (before : Says [] m n) :
    Ends (do
      write goes .old Upgrade.lastWriteToPrior
      return true) n fun r m' => Says (announced r) m m' := by
  apply (write_ends goes .old Upgrade.lastWriteToPrior n).bind
  · intro a t h
    rcases h with ⟨-, -, rfl⟩ | ⟨hfailed, -⟩
    · exact before.more ⟨rfl, rfl⟩
    · cases hfailed
  · intro t h
    rcases h with ⟨hfine, -⟩ | ⟨-, -, rfl⟩
    · cases hfine
    · exact before

theorem decline_ends (goes : Bool) {n : Moving} (before : Says [] m n) :
    Ends (do
      write goes .old Upgrade.failure
      return false) n fun r m' => Says (announced r) m m' :=
  adds_bind (write_adds _ _ failure_ne) before (fun _ _ h => h) fun _ h => h

theorem offerPath_ends (e : Offering) (m : Moving) :
    Ends (offerPath c e) m fun r m' => Says (announced r) m m' := by
  have start := Says.refl m
  unfold offerPath
  split
  · exact decline_ends _ start
  · refine adds_bind (drainOld_adds _ _) start (fun _ n hgroup => ?_) fun _ h => h
    split
    · refine adds_bind (write_adds _ _ (pathAvailable_ne _)) hgroup (fun _ n hpath => ?_)
        fun _ h => h
      refine adds_bind (drainOld_adds _ _) hpath (fun _ n hjoin => ?_) fun _ h => h
      split
      · exact decline_ends _ hjoin
      · split
        · exact hjoin
        · split
          · exact hjoin
          · exact decline_ends _ hjoin
          · split
            · refine adds_bind (write_adds _ _ clientIntroductionAck_ne) hjoin
                (fun _ n hack => ?_) fun _ h => h
              exact announce_ends _ hack
            · exact decline_ends _ hjoin
    · exact decline_ends _ hgroup

theorem awaitAck_mute (e : Adopting) (path : UpgradePath) : Keeps Mute (awaitAck e path) := by
  unfold awaitAck
  split
  · split
    · exact keeps_fail Mute.refl
    · exact keeps_fail Mute.refl
    · split
      · exact keeps_pure Mute.refl ()
      · exact keeps_fail Mute.refl
  · exact keeps_pure Mute.refl ()

theorem adoptPath_ends (e : Adopting) (path : UpgradePath) (m : Moving) :
    Ends (adoptPath e path) m fun r m' => Says (announced r) m m' := by
  have start := Says.refl m
  unfold adoptPath
  split
  · exact start
  · exact decline_ends _ start
  · split
    · exact start
    · refine adds_bind (write_adds _ _ (clientIntroduction_ne _)) start (fun _ n hintro => ?_)
        fun _ h => h
      refine adds_bind (fun n => (awaitAck_mute e path n).adds) hintro (fun _ n hack => ?_)
        fun _ h => h
      exact announce_ends _ hack

end Quickshare
