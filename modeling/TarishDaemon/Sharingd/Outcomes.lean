import TarishDaemon.Lib.Questions
import TarishDaemon.Quickshare.ServeStatus
import TarishDaemon.Sharingd.HttpdSlot

/-!
# What becomes of a prompt

An offer put to the person comes with a promise: `onTransferFinished` follows for its id,
once, with status 0 if everything arrived.  Two kinds of thread put offers.  The AirDrop
server does so in the `/Ask` handler, and the outcome is told by that handler, by the
upload that follows, or by nobody.  `receiveOnSocket` tells it after `serve` has returned.

`Prompting` is the server of `HttpdConsent` with these receives beside it and a record of
what the app is told: `notices` are the calls made to every registered client, in order.
A send reports on its own id, which was never offered, and is left out.

`Answered` says which turns keep the promise.  Those that do not: a prompt that runs out;
a connection that ends, or asks again, between an accepted offer and its upload; an upload
under an id that is not its to report on; an upload that stores what was offered, because
the status is the number of files; and a receive that returns with a status other than what
arrived (`Serve.honest`).  `prompts_resolved` is that in runs of other turns every prompt
is resolved by the time its thread has ended.
-/

namespace Sharingd

open Rust
open Protocol.Sharing (RandomFill)
open Questions (Notice Standing Board)
open Questions.Board (Told Stage LastWord Leaves)
open Quickshare (Serve Env statusOk statusFailed statusCancelled receiveStatus)

/-- What `receive_upload` fails with: the sender closed the connection, or anything else. -/
inductive UploadFailure
  | connectionAborted
  | other
  deriving DecidableEq, Repr

/-- `announce` reports the number of files, as an `i32`. -/
def announceStatus (names : List Text) : Int :=
  Int.bmod names.length (2 ^ 32)

/-- The status `/Upload` reports. -/
def uploadStatus : Except UploadFailure (List Text) → Int
  | .ok names => announceStatus names
  | .error .connectionAborted => statusCancelled
  | .error .other => statusFailed

/-- How the wait for an answer ends without one. -/
inductive Unanswered
  | timeout
  /-- The sender has hung up. -/
  | cancelled
  deriving DecidableEq, Repr

/-- The thread of `receiveOnSocket`. -/
inductive Receive
  | idle
  /-- The slot is claimed as `id` and the encrypted channel is not up yet. -/
  | connecting (id : Int)
  | serving (w : Serve)
  | over

inductive Thread
  | connection (c : Nat)
  | receive (q : Nat)
  deriving DecidableEq, Repr

structure Prompting where
  server : Server := {}
  receives : Nat → Receive := fun _ => .idle
  /-- The ids under which a thread has put an offer to the person. -/
  asked : Thread → List Int := fun _ => []
  notices : List (Notice Int Int) := []
  /-- The ids under which everything was received. -/
  arrived : List Int := []

inductive Turn
  | server (m : Move)
  | gaveUp (c : Nat) (how : Unanswered)
  /-- `complete` is whether the archive held what was offered: the server does not compare
  the two. -/
  | uploaded (c : Nat) (result : Except UploadFailure (List Text)) (complete : Bool)
  | receiveOnSocket (q : Nat)
  | channelUp (q : Nat) (fill : Option RandomFill) (inbox : HashMap Text Bytes)
  | handshakeFailed (q : Nat)
  | serve (q : Nat) (e : Env)

namespace Prompting

def say (t : Prompting) (n : Notice Int Int) : Prompting :=
  { t with notices := t.notices ++ [n] }

/-- `onTransferOffered`, so many times. -/
def offer (t : Prompting) (x : Thread) (id : Int) (times : Nat) : Prompting :=
  { t with
    asked := Function.update t.asked x (id :: t.asked x)
    notices := t.notices ++ List.replicate times (.offered id) }

/-- What the app is told with a move of the server. -/
def told (t : Prompting) : Move → Prompting
  | .decide c _ =>
      match t.server.conn c with
      | .begun id (some _) _ =>
          if t.server.autoAccept then t else t.offer (.connection c) id 1
      | _ => t
  | .poll c _ =>
      match t.server.conn c with
      | .asking id _ =>
          if (t.server.shared.awaitAnswer id).1 = some false then t.say (.declined id) else t
      | _ => t
  | _ => t

/-- The end of the thread of a receive. -/
def receiveEnds (t : Prompting) (q : Nat) (id : Int) (status : Int) (got : Bool) : Prompting :=
  { t with
    server := t.server.finish id
    receives := Function.update t.receives q .over
    notices := t.notices ++ [.finished id status]
    arrived := if got then id :: t.arrived else t.arrived }

/-- `serve` raises a prompt once, and `QsHost::ask` once more where it asks. -/
def prompts (asking : Quickshare.Asking) : Nat :=
  if asking.autoAccept || decide (asking.clients = 0) then 1 else 2

/-- The prompt of a receive. -/
def prompted (t : Prompting) (q : Nat) (w : Serve) (e : Env) : Prompting :=
  match w.batch with
  | .askUser _ :: _ => t.offer (.receive q) w.host.id (prompts e.asking)
  | _ => t

def step (t : Prompting) : Turn → Option Prompting
  -- how a wait or an upload ends is a turn of its own
  | .server (.giveUp _) | .server (.stored _) => none
  | .server m => (t.server.step m).map fun after => { t.told m with server := after }
  | .gaveUp c how =>
      match t.server.conn c with
      | .asking id _ =>
          (t.server.step (.giveUp c)).map fun after =>
            match how with
            | .cancelled => { t.say (.finished id statusCancelled) with server := after }
            | .timeout => { t with server := after }
      | _ => none
  | .uploaded c result complete =>
      match t.server.conn c with
      | .uploading id =>
          (t.server.step (.stored c)).map fun after =>
            { t.say (.finished id (uploadStatus result)) with
              server := after
              arrived := if result.isOk && complete then id :: t.arrived else t.arrived }
      | _ => none
  | .receiveOnSocket q =>
      match t.receives q with
      | .idle =>
          (t.server.step (.beginOther false)).map fun after =>
            match (t.server.shared.tryBegin t.server.now t.server.now false).1 with
            | some id =>
                { t with
                  server := after
                  receives := Function.update t.receives q (.connecting id) }
            | none => { t with server := after }
      | _ => none
  | .channelUp q fill inbox =>
      match t.receives q with
      | .connecting id =>
          some { t with
            receives := Function.update t.receives q (.serving (.init .bluetooth fill id inbox)) }
      | _ => none
  | .handshakeFailed q =>
      match t.receives q with
      | .connecting id => some (t.receiveEnds q id statusFailed false)
      | _ => none
  | .serve q e =>
      match t.receives q with
      | .serving w =>
          (w.step e).map fun w' =>
            match w'.outcome with
            | none =>
                { t.prompted q w e with
                  receives := Function.update t.receives q (.serving w') }
            | some r => t.receiveEnds q w.host.id (receiveStatus r) (decide w'.Arrived)
      | _ => none

/-! ## The board -/

/-- Where the thread of a connection stands. -/
def standing : Conn → Standing Int
  | .waiting | .admitted => .ready
  | .begun id _ _ => .holds id
  | .asking id _ => .awaits id
  | .uploading id => .brings id
  | .refusing _ | .closed => .over

end Prompting

def Receive.standing : Receive → Standing Int
  | .connecting id => .awaits id
  | .serving w => .awaits w.host.id
  | .idle | .over => .over

namespace Prompting

def stands (t : Prompting) : Thread → Standing Int
  | .connection c => standing (t.server.conn c)
  | .receive q => (t.receives q).standing

def board (t : Prompting) : Board Thread Int Int :=
  { stands := t.stands, asked := t.asked, notices := t.notices, arrived := t.arrived }

def Ended (t : Prompting) : Thread → Prop
  | .connection c => t.server.conn c = .closed
  | .receive q => t.receives q = .over

/-- **Every prompt is resolved.**  Under each id a thread that has ended put to the person,
the person declined, or was told one outcome, and that is 0 just where everything was
received. -/
def Resolved (t : Prompting) : Prop :=
  ∀ x, t.Ended x → ∀ id ∈ t.asked x, t.board.Resolved statusOk id

/-! ## Which turns keep the promise -/

/-- Every offer the thread has put was declined or has its outcome. -/
def OwesNothing (t : Prompting) (x : Thread) : Prop :=
  ∀ id ∈ t.asked x, ∃ n ∈ t.board.about id, n ≠ .offered id

/-- The id an upload is about to read is not a send's or a receive's, nobody is being asked
about it, and if somebody was then the outcome is still open and no other upload will
report it.  The connection itself has no other outcome to wait for. -/
structure MayUpload (t : Prompting) (c : Nat) : Prop where
  own : ∀ id, t.board.Owes (.connection c) id → id = t.server.shared.current
  other : t.server.shared.current ∉ t.server.others
  asking : ∀ d, Server.inAsk t.server.shared.current (t.server.conn d) = false
  owed : .offered t.server.shared.current ∈ t.notices →
    (∃ x, t.board.Owes x t.server.shared.current) ∧
      ∀ d, t.server.conn d ≠ .uploading t.server.shared.current

/-- A move of the server that leaves no prompt behind. -/
structure AnsweredMove (t : Prompting) (m : Move) : Prop where
  exit : ∀ c, Tracked.unreleasedExit t.server m = some c → t.OwesNothing (.connection c)
  ask : ∀ c offer keepAlive sent, m = .request c (.ask offer) keepAlive sent →
    t.OwesNothing (.connection c)
  load : ∀ c, m = .load c → t.MayUpload c

/-- A turn that leaves no prompt behind, and tells no outcome that is not so. -/
def Answered (t : Prompting) : Turn → Prop
  | .server m => t.AnsweredMove m
  | .gaveUp _ how => how = .cancelled
  | .uploaded c result complete =>
      ∀ id, t.server.conn c = .uploading id → .offered id ∈ t.notices →
        ∀ names, result = .ok names → (names.length % 2 ^ 32 = 0 ↔ complete = true)
  | .serve q e => ∀ w, t.receives q = .serving w → w.honest e = true
  | .receiveOnSocket _ | .channelUp _ _ _ | .handshakeFailed _ => True

/-! ## The invariant -/

/-- What the books of a receive say while it runs. -/
structure Running (w : Serve) : Prop where
  inv : Quickshare.Inv w.batch w
  outcome : w.outcome = none
  tallied : w.Tallied

/-- Nothing is known of `id` and nobody can speak about it. -/
structure Unheard (b : Board Thread Int Int) (id : Int) : Prop where
  about : b.about id = []
  missing : id ∉ b.arrived
  silent : ∀ x, (b.stands x).voice ≠ some id

structure Kept (t : Prompting) : Prop where
  told : Told statusOk t.board
  counter : 0 ≤ t.server.shared.next ∧ t.server.shared.current ≤ t.server.shared.next
  fresh : ∀ id, t.server.shared.next < id → Unheard t.board id
  claimed : ∀ q id, (t.receives q).standing.voice = some id → id ∈ t.server.others
  serving : ∀ q w, t.receives q = .serving w → Running w

variable {t t' : Prompting} {b : Board Thread Int Int}

theorem Unheard.of_leaves {b b' : Board Thread Int Int} {id : Int} (h : Unheard b id)
    (leaves : Leaves b b' id) : Unheard b' id := by
  refine ⟨leaves.about.trans h.about, fun hmem => h.missing (leaves.arrived.mp hmem), ?_⟩
  intro x hx
  apply h.silent x
  rw [← leaves.voice x hx]
  exact hx

/-- Who speaks about an id has drawn it. -/
theorem Kept.voice_le (kept : Kept t) {x : Thread} {id : Int}
    (h : (t.stands x).voice = some id) : id ≤ t.server.shared.next := by
  by_contra hlt
  exact (kept.fresh id (by omega)).silent x h

theorem board_eq (hstands : t.stands = b.stands) (hasked : t.asked = b.asked)
    (hnotices : t.notices = b.notices) (harrived : t.arrived = b.arrived) : t.board = b := by
  unfold board
  rw [hstands, hasked, hnotices, harrived]

theorem stands_setConn (t : Prompting) (c : Nat) (k : Conn) :
    stands { t with server := t.server.setConn c k } =
      Function.update t.stands (.connection c) (standing k) := by
  funext x
  cases x with
  | connection d =>
      by_cases hdc : d = c
      · subst hdc
        simp [stands, Server.setConn]
      · simp [stands, Server.setConn, Function.update, hdc]
  | receive q => simp [stands, Function.update]

theorem stands_receive (t : Prompting) (q : Nat) (r : Receive) :
    stands { t with receives := Function.update t.receives q r } =
      Function.update t.stands (.receive q) r.standing := by
  funext x
  cases x with
  | connection d => simp [stands, Function.update]
  | receive p =>
      by_cases hpq : p = q
      · subst hpq
        simp [stands]
      · simp [stands, Function.update, hpq]

/-- The server goes on and no connection moves. -/
theorem Kept.aside (kept : Kept t) {after : Server} (hconn : after.conn = t.server.conn)
    (hnext : t.server.shared.next ≤ after.shared.next)
    (hcur : after.shared.current ≤ after.shared.next)
    (hothers : ∀ id ∈ t.server.others, id ∈ after.others) : Kept { t with server := after } := by
  have same : board { t with server := after } = t.board := by
    refine board_eq ?_ rfl rfl rfl
    funext x
    cases x with
    | connection c => exact congrArg (fun conn => standing (conn c)) hconn
    | receive q => rfl
  refine ⟨?_, ⟨kept.counter.1.trans hnext, hcur⟩, ?_, ?_, kept.serving⟩
  · rw [same]
    exact kept.told
  · intro id hid
    rw [same]
    exact kept.fresh id (lt_of_le_of_lt hnext hid)
  · exact fun q id h => hothers id (kept.claimed q id h)

theorem Kept.note (kept : Kept t) (f : Fact) : Kept { t with server := t.server.note f } :=
  kept.aside rfl (Int.le_refl _) kept.counter.2 fun _ h => h

/-- The shared state changes, and the slot keeps its owner or loses it. -/
theorem Kept.shared (kept : Kept t) {x : TransferState}
    (hcur : x.current = t.server.shared.current ∨ x.current = 0)
    (hnext : x.next = t.server.shared.next) :
    Kept { t with server := { t.server with shared := x } } := by
  obtain ⟨hpos, hle⟩ := kept.counter
  refine kept.aside rfl (Int.le_of_eq hnext.symm) ?_ fun _ h => h
  change x.current ≤ x.next
  rcases hcur with h | h
  · omega
  · omega

theorem Kept.finish (kept : Kept t) (id : Int) :
    Kept { t with server := t.server.finish id } := by
  refine kept.shared ?_ rfl
  change casClear t.server.shared.current id = _ ∨ casClear t.server.shared.current id = 0
  unfold casClear
  split
  · exact .inr rfl
  · exact .inl rfl

/-- Somebody claims the slot with the next id. -/
theorem Kept.claim (kept : Kept t) {x : TransferState}
    (hcur : x.current = t.server.shared.next + 1) (hnext : x.next = t.server.shared.next + 1)
    {others : List Int} (hothers : ∀ id ∈ t.server.others, id ∈ others) :
    Kept { t with server := { t.server with shared := x, others := others } } := by
  refine kept.aside rfl ?_ ?_ hothers
  · change t.server.shared.next ≤ x.next
    omega
  · change x.current ≤ x.next
    omega

/-- A connection comes to stand elsewhere. -/
theorem Kept.move (kept : Kept t) {c : Nat} {k : Conn}
    (told : Told statusOk (t.board.move (.connection c) (standing k)))
    (bound : ∀ id, (standing k).voice = some id → id ≤ t.server.shared.next) :
    Kept { t with server := t.server.setConn c k } := by
  have same : board { t with server := t.server.setConn c k } =
      t.board.move (.connection c) (standing k) :=
    board_eq (stands_setConn t c k) rfl rfl rfl
  refine ⟨?_, kept.counter, ?_, kept.claimed, kept.serving⟩
  · rw [same]
    exact told
  · intro id hid
    rw [same]
    refine (kept.fresh id hid).of_leaves (Board.leaves_move ?_)
    intro h
    have hle := bound id h
    change t.server.shared.next < id at hid
    omega

/-- A connection that speaks about nothing any more. -/
theorem Kept.silent (kept : Kept t) {c : Nat} {k : Conn} (hk : (standing k).voice = none)
    (owed : ∀ id ∈ t.asked (.connection c),
      t.board.Resolved statusOk id ∨ (standing k).mayOwe id) :
    Kept { t with server := t.server.setConn c k } := by
  refine kept.move (kept.told.move_silent hk owed) ?_
  intro id h
  rw [hk] at h
  cases h

/-- What a connection may still owe. -/
theorem Kept.owed (kept : Kept t) {c : Nat} {k : Conn} (here : t.server.conn c = k) :
    ∀ id ∈ t.asked (.connection c),
      t.board.Resolved statusOk id ∨ (standing k).mayOwe id := by
  subst here
  exact kept.told.owed (.connection c)

theorem Kept.resolved (kept : Kept t) {x : Thread} (h : t.OwesNothing x) :
    ∀ id ∈ t.asked x, t.board.Resolved statusOk id := by
  intro id hid
  refine kept.told.resolved_of_not_owes (x := x) hid ?_
  intro owes
  obtain ⟨n, hn, hne⟩ := h id hid
  exact hne (owes.2 n hn)

/-- A connection that owes nothing closes. -/
theorem Kept.shut (kept : Kept t) {c : Nat} (h : t.OwesNothing (.connection c)) :
    Kept { t with server := t.server.setConn c .closed } :=
  kept.silent rfl fun id hid => .inl (kept.resolved h id hid)

/-- A reply is sent, and may be the last. -/
theorem Kept.reply (kept : Kept t) {c : Nat} {keepAlive sent : Bool}
    (last : Tracked.lastReply keepAlive sent c = some c → t.OwesNothing (.connection c)) :
    Kept { t with server := t.server.setConn c (afterReply keepAlive sent) } := by
  unfold afterReply
  unfold Tracked.lastReply at last
  split
  · exact kept.silent rfl fun _ _ => .inr trivial
  next hlast => exact kept.shut (last (by simp [hlast]))

theorem Kept.request (kept : Kept t) {c : Nat} {r : Request} {keepAlive sent : Bool}
    (ok : t.AnsweredMove (.request c r keepAlive sent)) :
    Kept { t with server := t.server.request c keepAlive sent r } := by
  have exit := ok.exit c
  cases r with
  | tooLarge => exact kept.shut (exit rfl)
  | head | discover =>
      simp only [Server.request]
      simp only [Tracked.unreleasedExit] at exit
      split
      next hvisible =>
        refine kept.reply fun hlast => exit ?_
        rw [if_pos hvisible]
        exact hlast
      next hhidden => exact kept.shut (exit (if_neg hhidden))
  | ask offer =>
      simp only [Tracked.unreleasedExit] at exit
      rcases Tracked.request_ask t.server c keepAlive sent offer with
        ⟨hno, hreq⟩ | ⟨-, x, hcur, hnext, hreq⟩
      · rw [hreq]
        exact kept.shut (exit (if_neg hno))
      · rw [hreq]
        have claimed := (kept.claim hcur hnext fun _ h => h).note (.asked x.current)
        have nothing := ok.ask c offer keepAlive sent rfl
        have unheard := kept.fresh x.current (by omega)
        refine Kept.move claimed (Told.move claimed.told ?_ ?_) ?_
        · intro id hid
          cases hid
          exact .unanswered ((Board.open_of_unheard unheard.about unheard.missing
            unheard.silent).taken unheard.silent _)
        · exact fun id hid => .inl (kept.resolved nothing id hid)
        · intro id hid
          cases hid
          change x.current ≤ x.next
          omega
  | upload =>
      simp only [Server.request]
      simp only [Tracked.unreleasedExit] at exit
      split
      next hidle => exact kept.shut (exit (if_pos hidle))
      · exact kept.silent rfl fun _ _ => .inr trivial
  | other => exact kept.reply exit

/-- An offer is put to the person. -/
theorem Kept.offer (kept : Kept t) {c : Nat} {id : Int} {offer : Option (String × List String)}
    {keepAlive keepAlive' : Bool} (here : t.server.conn c = .begun id offer keepAlive) :
    Kept { t.offer (.connection c) id 1 with
      server := t.server.setConn c (.asking id keepAlive') } := by
  have hstands : t.stands (.connection c) = .holds id := congrArg standing here
  have hvoice : (t.stands (.connection c)).voice = some id := by
    rw [hstands]
    rfl
  have same : board { t.offer (.connection c) id 1 with
      server := t.server.setConn c (.asking id keepAlive') } =
      t.board.offer (.connection c) id 1 :=
    board_eq (stands_setConn t c (.asking id keepAlive')) rfl rfl rfl
  have told : Told statusOk (t.board.offer (.connection c) id 1) := by
    refine kept.told.offer (x := Thread.connection c) hvoice ?_ Nat.one_pos ?_
    · change t.stands (.connection c) ≠ _
      rw [hstands]
      simp
    · exact fun i hi => .inl ((kept.owed here i hi).resolve_right fun h => h)
  refine ⟨?_, kept.counter, ?_, kept.claimed, kept.serving⟩
  · rw [same]
    exact told
  · intro i hi
    rw [same]
    refine (kept.fresh i hi).of_leaves (Board.leaves_offer ?_)
    have hle := kept.voice_le hvoice
    change t.server.shared.next < i at hi
    omega

/-- A connection says its last word. -/
theorem Kept.close (kept : Kept t) {c : Nat} {k : Conn} {id : Int} {n : Notice Int Int}
    {got : Bool} (hk : standing k = .over) (hvoice : (t.stands (.connection c)).voice = some id)
    (hn : n.id = id) (notOffer : n ≠ .offered id)
    (word : .offered id ∈ t.notices → LastWord statusOk id got n)
    (owed : ∀ i ∈ t.asked (.connection c), t.board.Resolved statusOk i ∨ i = id) :
    Kept { t with
      server := t.server.setConn c k
      notices := t.notices ++ [n]
      arrived := if got then id :: t.arrived else t.arrived } := by
  have same : board { t with
      server := t.server.setConn c k
      notices := t.notices ++ [n]
      arrived := if got then id :: t.arrived else t.arrived } =
      t.board.close (.connection c) id n got := by
    refine board_eq ?_ rfl rfl rfl
    have stands := stands_setConn t c k
    rw [hk] at stands
    exact stands
  refine ⟨?_, kept.counter, ?_, kept.claimed, kept.serving⟩
  · rw [same]
    exact kept.told.close (x := Thread.connection c) hvoice hn notOffer word owed
  · intro i hi
    rw [same]
    refine (kept.fresh i hi).of_leaves (Board.leaves_close hn ?_)
    have hle := kept.voice_le hvoice
    change t.server.shared.next < i at hi
    omega

/-- The `/Ask` handler settles whether to ask. -/
theorem Kept.settleAsk (kept : Kept t) {c : Nat} {sent : Bool} {after : Server}
    (ok : t.AnsweredMove (.decide c sent)) (h : t.server.step (.decide c sent) = some after) :
    Kept { t.told (.decide c sent) with server := after } := by
  cases Server.steps_of_step h with
  | unsafeName here =>
      simp only [Prompting.told, here]
      have owed := kept.owed here
      exact kept.silent rfl owed
  | policy here hauto =>
      rename_i id offer keepAlive
      simp only [Prompting.told, here]
      rw [if_pos hauto]
      have answered := kept.shared (x := t.server.shared.answer id true) (.inl rfl) rfl
      refine Kept.reply (answered.note (.autoAccepted id)) fun hlast => ?_
      refine ok.exit c ?_
      simp only [Tracked.unreleasedExit, here, if_pos hauto]
      exact hlast
  | asks here hauto =>
      simp only [Prompting.told, here]
      rw [if_neg hauto]
      exact kept.offer here

/-- One look at the answer slot by the `/Ask` handler. -/
theorem Kept.poll (kept : Kept t) {c : Nat} {sent : Bool} {after : Server}
    (ok : t.AnsweredMove (.poll c sent)) (h : t.server.step (.poll c sent) = some after) :
    Kept { t.told (.poll c sent) with server := after } := by
  have looked : ∀ id, Kept { t with server :=
      { t.server with shared := (t.server.shared.awaitAnswer id).2 } } := by
    intro id
    obtain ⟨hcur, hnext⟩ := Tracked.awaitAnswer_eq t.server.shared id
    exact kept.shared (.inl hcur) hnext
  cases Server.steps_of_step h with
  | accepted here hanswer =>
      simp only [Prompting.told, here]
      rw [if_neg (by rw [hanswer]; simp)]
      refine (looked _).reply fun hlast => ok.exit c ?_
      simp only [Tracked.unreleasedExit, here, if_pos (Tracked.awaitAnswer_yes hanswer)]
      exact hlast
  | declined here hanswer =>
      rename_i id keepAlive
      simp only [Prompting.told, here]
      rw [if_pos hanswer]
      have hvoice : (t.stands (.connection c)).voice = some id := by
        change (standing (t.server.conn c)).voice = some id
        rw [here]
        rfl
      have word : .offered id ∈ t.notices → LastWord statusOk id false (.declined id) :=
        fun _ => .declined
      exact (looked id).close (k := .refusing id) rfl hvoice rfl (by simp) word (kept.owed here)
  | unanswered here hanswer =>
      simp only [Prompting.told, here]
      rw [if_neg (by rw [hanswer]; simp)]
      exact looked _

/-- Who speaks about the id an upload may read is an upload of it. -/
theorem Kept.uploading_of_voice (kept : Kept t) {c : Nat} (ok : t.MayUpload c) {y : Thread}
    (h : (t.stands y).voice = some t.server.shared.current) :
    ∃ d, y = .connection d ∧ t.server.conn d = .uploading t.server.shared.current := by
  cases y with
  | receive q => exact absurd (kept.claimed q _ h) ok.other
  | connection d =>
      refine ⟨d, rfl, ?_⟩
      have asking := ok.asking d
      change (standing (t.server.conn d)).voice = _ at h
      cases here : t.server.conn d with
      | uploading id =>
          rw [here] at h
          rw [Option.some.inj h]
      | begun id offer keepAlive =>
          rw [here] at h asking
          simp [Server.inAsk, Option.some.inj h] at asking
      | asking id keepAlive =>
          rw [here] at h asking
          simp [Server.inAsk, Option.some.inj h] at asking
      | waiting | admitted | refusing | closed =>
          rw [here] at h
          cases h

/-- An upload begins. -/
theorem Kept.load (kept : Kept t) {c : Nat} {after : Server} (ok : t.MayUpload c)
    (h : t.server.step (.load c) = some after) : Kept { t with server := after } := by
  cases Server.steps_of_step h with
  | load here =>
      have noted := kept.note (.upload c t.server.shared.current)
      have stage : Stage statusOk
          (t.board.move (.connection c) (.brings t.server.shared.current))
          t.server.shared.current := by
        by_cases hoffered : .offered t.server.shared.current ∈ t.notices
        · obtain ⟨⟨x, owes⟩, alone⟩ := ok.owed hoffered
          refine .unanswered ((kept.told.open_of_owes owes).taken ?_ _)
          intro y hy
          obtain ⟨d, -, hd⟩ := kept.uploading_of_voice ok hy
          exact alone d hd
        · refine .quiet (Board.quiet_brings hoffered ?_)
          intro y hy
          obtain ⟨d, rfl, hd⟩ := kept.uploading_of_voice ok hy
          exact congrArg standing hd
      refine noted.move (noted.told.move ?_ ?_) ?_
      · intro id hid
        cases hid
        exact stage
      · intro id hid
        by_cases owes : t.board.Owes (.connection c) id
        · exact .inr (ok.own id owes)
        · exact .inl (kept.told.resolved_of_not_owes hid owes)
      · intro id hid
        cases hid
        exact kept.counter.2

/-- A move of the server. -/
theorem Kept.serverMove (kept : Kept t) {m : Move} {after : Server} (ok : t.AnsweredMove m)
    (gaveUp : ∀ c, m ≠ .giveUp c) (stored : ∀ c, m ≠ .stored c)
    (h : t.server.step m = some after) : Kept { t.told m with server := after } := by
  cases m with
  | request c r keepAlive sent =>
      cases Server.steps_of_step h with
      | request _ => exact kept.request ok
  | decide c sent => exact kept.settleAsk ok h
  | poll c sent => exact kept.poll ok h
  | giveUp c => exact absurd rfl (gaveUp c)
  | stored c => exact absurd rfl (stored c)
  | refuse c =>
      cases Server.steps_of_step h with
      | refuse here =>
          have owed := kept.owed here
          exact (kept.finish _).silent rfl owed
  | load c => exact kept.load (ok.load c rfl) h
  | progress c =>
      cases Server.steps_of_step h with
      | progress _ => exact kept.shared (.inl rfl) rfl
  | hangUp c =>
      cases Server.steps_of_step h with
      | hangUp _ => exact kept.shut (ok.exit c rfl)
  | userAnswer id accept =>
      cases h
      have answered := kept.shared (x := t.server.shared.answer id accept) (.inl rfl) rfl
      exact answered.note _
  | beginOther needsAwdl =>
      simp only [Server.step] at h
      rcases Tracked.tryBegin_busy_or_fresh t.server.shared t.server.now needsAwdl with
        ⟨-, hb⟩ | ⟨-, x, hb, hcur, hnext⟩
      · rw [hb] at h
        cases h
        exact kept
      · rw [hb] at h
        cases h
        exact kept.claim hcur hnext fun _ hid => List.mem_cons_of_mem _ hid
  | finishOther id =>
      cases Server.steps_of_step h with
      | finishOther _ => exact kept.finish id
  | pollOther id =>
      cases Server.steps_of_step h with
      | pollOther _ =>
          obtain ⟨hcur, hnext⟩ := Tracked.awaitAnswer_eq t.server.shared id
          exact kept.shared (.inl hcur) hnext
  | side call =>
      cases Server.steps_of_step h with
      | side hside =>
          exact kept.shared (.inl (Server.isSide_call hside t.server.shared).1)
            (Tracked.isSide_next hside t.server.shared)
  | setDiscoverable on | setAutoAccept on | tick ns =>
      cases h
      exact kept.aside rfl (Int.le_refl _) kept.counter.2 fun _ h => h

/-- The wait for an answer ends because the sender has hung up. -/
theorem Kept.cancelled (kept : Kept t) {c : Nat} (h : t.step (.gaveUp c .cancelled) = some t') :
    Kept t' := by
  simp only [step] at h
  split at h
  next id keepAlive here =>
    simp only [Server.step, here, Option.map_some, Option.some.injEq] at h
    subst h
    have hvoice : (t.stands (.connection c)).voice = some id := by
      change (standing (t.server.conn c)).voice = some id
      rw [here]
      rfl
    have word : .offered id ∈ t.notices →
        LastWord statusOk id false (.finished id statusCancelled) :=
      fun _ => .finished _ (by decide)
    exact kept.close (k := .refusing id) rfl hvoice rfl (by simp) word (kept.owed here)
  next => cases h

/-- Success is reported where no file was stored, up to the width of an `i32`. -/
theorem announceStatus_ok (names : List Text) :
    announceStatus names = statusOk ↔ names.length % 2 ^ 32 = 0 := by
  have hdvd : ((2 ^ 32 : Nat) : Int) ∣ names.length ↔ announceStatus names = statusOk :=
    Int.dvd_iff_bmod_eq_zero
  rw [← hdvd, Int.natCast_dvd_natCast, Nat.dvd_iff_mod_eq_zero]

/-- An upload is over. -/
theorem Kept.uploaded (kept : Kept t) {c : Nat} {result : Except UploadFailure (List Text)}
    {complete : Bool} (ok : t.Answered (.uploaded c result complete))
    (h : t.step (.uploaded c result complete) = some t') : Kept t' := by
  simp only [step] at h
  split at h
  next id here =>
    simp only [Server.step, here, Option.map_some, Option.some.injEq] at h
    subst h
    have hvoice : (t.stands (.connection c)).voice = some id := by
      change (standing (t.server.conn c)).voice = some id
      rw [here]
      rfl
    refine (kept.finish id).close (k := .closed) rfl hvoice rfl (by simp) ?_ (kept.owed here)
    intro hoffered
    refine .finished _ ?_
    cases result with
    | error failure => cases failure <;> simp [uploadStatus, statusCancelled, statusFailed,
        statusOk, Except.isOk, Except.toBool]
    | ok names =>
        have right := ok id here hoffered names rfl
        rw [← announceStatus_ok] at right
        simpa [uploadStatus, Except.isOk, Except.toBool] using right
  next => cases h

/-! ### Receives -/

/-- The thread of a receive comes to stand elsewhere, under an id that is its own. -/
theorem Kept.receive (kept : Kept t) {q : Nat} {r : Receive}
    (told : Told statusOk (t.board.move (.receive q) r.standing))
    (bound : ∀ id, r.standing.voice = some id → id ≤ t.server.shared.next)
    (claimed : ∀ id, r.standing.voice = some id → id ∈ t.server.others)
    (serving : ∀ w, r = .serving w → Running w) :
    Kept { t with receives := Function.update t.receives q r } := by
  have same : board { t with receives := Function.update t.receives q r } =
      t.board.move (.receive q) r.standing :=
    board_eq (stands_receive t q r) rfl rfl rfl
  refine ⟨?_, kept.counter, ?_, ?_, ?_⟩
  · rw [same]
    exact told
  · intro id hid
    rw [same]
    refine (kept.fresh id hid).of_leaves (Board.leaves_move ?_)
    intro h
    have hle := bound id h
    change t.server.shared.next < id at hid
    omega
  · intro p id h
    by_cases hpq : p = q
    · subst hpq
      exact claimed id (by simpa using h)
    · exact kept.claimed p id (by simpa [Function.update, hpq] using h)
  · intro p w h
    by_cases hpq : p = q
    · subst hpq
      exact serving w (by simpa using h)
    · exact kept.serving p w (by simpa [Function.update, hpq] using h)

/-- What the thread of a receive may still owe. -/
theorem Kept.owed_receive (kept : Kept t) {q : Nat} {id : Int}
    (here : (t.receives q).standing = .awaits id) :
    ∀ i ∈ t.asked (.receive q), t.board.Resolved statusOk i ∨ i = id := by
  intro i hi
  have owed := kept.told.owed (.receive q) i hi
  change t.board.Resolved statusOk i ∨ (t.receives q).standing.mayOwe i at owed
  rw [here] at owed
  exact owed

/-- The thread of a receive ends. -/
theorem Kept.receiveEnds (kept : Kept t) {q : Nat} {id status : Int} {got : Bool}
    (here : (t.receives q).standing = .awaits id) (right : status = statusOk ↔ got = true) :
    Kept (t.receiveEnds q id status got) := by
  have finished := kept.finish id
  have hvoice : (t.stands (.receive q)).voice = some id := congrArg Standing.voice here
  have same : board (t.receiveEnds q id status got) =
      t.board.close (.receive q) id (.finished id status) got :=
    board_eq (stands_receive t q .over) rfl rfl rfl
  refine ⟨?_, finished.counter, ?_, ?_, ?_⟩
  · rw [same]
    exact kept.told.close (x := Thread.receive q) hvoice rfl (by simp)
      (fun _ => .finished _ right) (kept.owed_receive here)
  · intro i hi
    rw [same]
    refine (kept.fresh i hi).of_leaves (Board.leaves_close rfl ?_)
    have hle := kept.voice_le hvoice
    change t.server.shared.next < i at hi
    omega
  · intro p i h
    by_cases hpq : p = q
    · subst hpq
      simp [Prompting.receiveEnds, Receive.standing, Standing.voice] at h
    · exact kept.claimed p i (by simpa [Prompting.receiveEnds, Function.update, hpq] using h)
  · intro p w h
    by_cases hpq : p = q
    · subst hpq
      simp [Prompting.receiveEnds] at h
    · exact kept.serving p w (by simpa [Prompting.receiveEnds, Function.update, hpq] using h)

/-- A socket is handed over. -/
theorem Kept.receiveOnSocket (kept : Kept t) {q : Nat}
    (h : t.step (.receiveOnSocket q) = some t') : Kept t' := by
  simp only [step] at h
  split at h
  next here =>
    rcases Tracked.tryBegin_busy_or_fresh t.server.shared t.server.now false with
      ⟨-, hb⟩ | ⟨-, x, hb, hcur, hnext⟩
    · simp only [Server.step, hb, Option.map_some, Option.some.injEq] at h
      exact h ▸ kept
    · simp only [Server.step, hb, Option.map_some, Option.some.injEq] at h
      subst h
      have taken : ∀ id ∈ t.server.others, id ∈ (t.server.shared.next + 1) :: t.server.others :=
        fun _ hid => List.mem_cons_of_mem _ hid
      have claimed := kept.claim hcur hnext taken
      have unheard := kept.fresh (t.server.shared.next + 1) (by omega)
      refine claimed.receive (q := q) (r := .connecting (t.server.shared.next + 1)) ?_ ?_ ?_ ?_
      · refine claimed.told.move ?_ ?_
        · intro id hid
          cases hid
          exact .unanswered ((Board.open_of_unheard unheard.about unheard.missing
            unheard.silent).taken unheard.silent _)
        · intro id hid
          refine .inl (kept.told.ended ?_ hid)
          change (t.receives q).standing = .over
          rw [here]
          rfl
      · intro id hid
        cases hid
        change _ ≤ x.next
        omega
      · intro id hid
        cases hid
        exact List.mem_cons_self ..
      · intro w hw
        cases hw
  next => cases h

theorem running_init (fill : Option RandomFill) (id : Int) (inbox : HashMap Text Bytes) :
    Running (.init .bluetooth fill id inbox) :=
  ⟨Quickshare.inv_init _ _ _ _, rfl, Quickshare.tallied_init _ _ _ _⟩

/-- A receive that awaits what it awaited. -/
theorem Kept.receive_same (kept : Kept t) {q : Nat} {r : Receive} {id : Int}
    (here : (t.receives q).standing = .awaits id) (there : r.standing = .awaits id)
    (serving : ∀ w, r = .serving w → Running w) :
    Kept { t with receives := Function.update t.receives q r } := by
  have hstands : t.stands (.receive q) = r.standing := here.trans there.symm
  have hvoice : (t.stands (.receive q)).voice = some id := congrArg Standing.voice here
  have same : t.board.move (.receive q) r.standing = t.board := by
    rw [← hstands]
    exact Board.move_self t.board (.receive q)
  refine kept.receive ?_ ?_ ?_ serving
  · rw [same]
    exact kept.told
  · intro i hi
    rw [there] at hi
    cases hi
    exact kept.voice_le hvoice
  · intro i hi
    rw [there] at hi
    cases hi
    exact kept.claimed q id (congrArg Standing.voice here)

theorem Kept.channelUp (kept : Kept t) {q : Nat} {fill : Option RandomFill}
    {inbox : HashMap Text Bytes} (h : t.step (.channelUp q fill inbox) = some t') : Kept t' := by
  simp only [step] at h
  split at h
  next id here =>
    cases h
    have hstands : (t.receives q).standing = .awaits id := congrArg Receive.standing here
    refine kept.receive_same hstands rfl ?_
    intro w hw
    cases hw
    exact running_init fill id inbox
  next => cases h

theorem Kept.handshakeFailed (kept : Kept t) {q : Nat}
    (h : t.step (.handshakeFailed q) = some t') : Kept t' := by
  simp only [step] at h
  split at h
  next id here =>
    cases h
    refine kept.receiveEnds ?_ (by decide)
    rw [here]
    rfl
  next => cases h

/-- The prompt of a receive. -/
theorem Kept.prompted (kept : Kept t) {q : Nat} {w : Serve} (here : t.receives q = .serving w)
    (e : Env) : Kept (t.prompted q w e) := by
  have hstands : t.stands (.receive q) = .awaits w.host.id := by
    change (t.receives q).standing = _
    rw [here]
    rfl
  have hvoice : (t.stands (.receive q)).voice = some w.host.id := by
    rw [hstands]
    rfl
  unfold Prompting.prompted
  split
  next =>
    have hpos : 0 < prompts e.asking := by
      unfold prompts
      split <;> decide
    have same : board (t.offer (.receive q) w.host.id (prompts e.asking)) =
        t.board.offer (.receive q) w.host.id (prompts e.asking) := by
      refine board_eq ?_ rfl rfl rfl
      change t.stands = Function.update t.stands (.receive q) (.awaits w.host.id)
      rw [← hstands, Function.update_eq_self]
    have told : Told statusOk (t.board.offer (.receive q) w.host.id (prompts e.asking)) := by
      refine kept.told.offer (x := Thread.receive q) hvoice ?_ hpos ?_
      · change t.stands (.receive q) ≠ _
        rw [hstands]
        simp
      · exact kept.owed_receive hstands
    refine ⟨?_, kept.counter, ?_, kept.claimed, kept.serving⟩
    · rw [same]
      exact told
    · intro i hi
      rw [same]
      refine (kept.fresh i hi).of_leaves (Board.leaves_offer ?_)
      have hle := kept.voice_le hvoice
      change t.server.shared.next < i at hi
      omega
  next => exact kept

/-- A step of `serve`. -/
theorem Kept.serve (kept : Kept t) {q : Nat} {e : Env} (ok : t.Answered (.serve q e))
    (h : t.step (.serve q e) = some t') : Kept t' := by
  simp only [step] at h
  split at h
  next w here =>
    obtain ⟨w', hstep, hnext⟩ := Option.map_eq_some_iff.mp h
    have running := kept.serving q w here
    have live := running.inv.live running.outcome
    have reports := Quickshare.Reports.step live running.tallied hstep
    have hid := Quickshare.host_id_step hstep
    have hstands : (t.receives q).standing = .awaits w.host.id := by
      rw [here]
      rfl
    cases out : w'.outcome with
    | none =>
        rw [out] at hnext
        subst hnext
        have prompted := kept.prompted here e
        have still : (t.prompted q w e).receives = t.receives := by
          unfold Prompting.prompted
          split <;> rfl
        have hstill : ((t.prompted q w e).receives q).standing = .awaits w.host.id := by
          rw [still]
          exact hstands
        rw [← still]
        refine prompted.receive_same hstill ?_ ?_
        · change Standing.awaits w'.host.id = _
          rw [hid]
        · intro v hv
          cases hv
          exact ⟨running.inv.step hstep, out, reports.running out⟩
    | some r =>
        rw [out] at hnext
        subst hnext
        refine kept.receiveEnds hstands ?_
        rw [decide_eq_true_iff]
        exact (reports.returned r out).mpr (ok w here)
  next => cases h

theorem step_server {m : Move} (gaveUp : ∀ c, m ≠ .giveUp c) (stored : ∀ c, m ≠ .stored c) :
    t.step (.server m) =
      (t.server.step m).map fun after => { t.told m with server := after } := by
  cases m with
  | giveUp c => exact absurd rfl (gaveUp c)
  | stored c => exact absurd rfl (stored c)
  | request | decide | poll | refuse | load | progress | hangUp | userAnswer | beginOther
  | finishOther | pollOther | side | setDiscoverable | setAutoAccept | tick => rfl

/-- **One turn.**  Every turn that leaves no prompt behind keeps the board. -/
theorem Kept.step (kept : Kept t) {turn : Turn} (ok : t.Answered turn)
    (h : t.step turn = some t') : Kept t' := by
  cases turn with
  | server m =>
      by_cases gaveUp : ∃ c, m = .giveUp c
      · obtain ⟨c, rfl⟩ := gaveUp
        cases h
      by_cases stored : ∃ c, m = .stored c
      · obtain ⟨c, rfl⟩ := stored
        cases h
      have gaveUp : ∀ c, m ≠ .giveUp c := fun c hc => gaveUp ⟨c, hc⟩
      have stored : ∀ c, m ≠ .stored c := fun c hc => stored ⟨c, hc⟩
      rw [step_server gaveUp stored] at h
      obtain ⟨after, hafter, rfl⟩ := Option.map_eq_some_iff.mp h
      exact kept.serverMove ok gaveUp stored hafter
  | gaveUp c how =>
      obtain rfl : how = .cancelled := ok
      exact kept.cancelled h
  | uploaded c result complete => exact kept.uploaded ok h
  | receiveOnSocket q => exact kept.receiveOnSocket h
  | channelUp q fill inbox => exact kept.channelUp h
  | handshakeFailed q => exact kept.handshakeFailed h
  | serve q e => exact kept.serve ok h

theorem kept_init : Kept {} := by
  have mute : ∀ x, (stands {} x).voice = none := by
    intro x
    cases x with
    | connection c => rfl
    | receive q => rfl
  have silent : ∀ x id, (stands {} x).voice ≠ some id := by
    intro x id h
    rw [mute x] at h
    cases h
  have unheard : ∀ id, Unheard (board {}) id :=
    fun id => ⟨rfl, List.not_mem_nil, fun x => silent x id⟩
  refine ⟨⟨?_, ?_, ?_⟩, ⟨Int.le_refl 0, Int.le_refl 0⟩, fun id _ => unheard id, ?_, ?_⟩
  · exact fun id => .unanswered (Board.open_of_unheard rfl List.not_mem_nil fun x => silent x id)
  · exact fun x id h => absurd h List.not_mem_nil
  · exact fun x id h => absurd h List.not_mem_nil
  · exact fun q id h => absurd h (silent (.receive q) id)
  · intro q w h
    cases h

/-- **Every prompt.**  In every run of turns that leave no prompt behind, every prompt of a
thread that has ended is resolved: the person declined, or was told one outcome after it,
with status 0 just where everything was received. -/
theorem prompts_resolved {turns : List Turn}
    (run : Lts.Run (Lts.Restrict (Lts.ofPartial step) Answered) {} turns t) : t.Resolved := by
  have kept : Kept t := by
    refine run.invariant Kept kept_init ?_
    intro u turn u' kept h
    exact kept.step h.2 h.1
  intro x ended id hid
  refine kept.told.ended ?_ hid
  cases x with
  | connection c => exact congrArg standing ended
  | receive q => exact congrArg Receive.standing ended

/-! ## Runs -/

instance (t : Prompting) : (x : Thread) → Decidable (t.Ended x)
  | .connection c => inferInstanceAs (Decidable (t.server.conn c = .closed))
  | .receive q =>
      match h : t.receives q with
      | .over => isTrue h
      | .idle | .connecting _ | .serving _ => isFalse fun hover => by cases h.symm.trans hover

instance (t : Prompting) (x : Thread) : Decidable (t.OwesNothing x) :=
  inferInstanceAs (Decidable (∀ id ∈ t.asked x, ∃ n ∈ t.board.about id, n ≠ .offered id))

/-- `Answered`, for turns with which no upload begins. -/
def answers (t : Prompting) : Turn → Bool
  | .server m =>
      (match Tracked.unreleasedExit t.server m with
        | some c => decide (t.OwesNothing (.connection c))
        | none => true) &&
      match m with
      | .request c (.ask _) _ _ => decide (t.OwesNothing (.connection c))
      | .load _ => false
      | _ => true
  | .gaveUp _ how => decide (how = .cancelled)
  | .uploaded _ (.ok names) complete => decide (names.length % 2 ^ 32 = 0 ↔ complete = true)
  | .serve q e =>
      match t.receives q with
      | .serving w => w.honest e
      | .idle | .connecting _ | .over => true
  | .uploaded _ (.error _) _ | .receiveOnSocket _ | .channelUp _ _ _ | .handshakeFailed _ => true

theorem answered_of_answers {turn : Turn} (h : t.answers turn = true) : t.Answered turn := by
  cases turn with
  | server m =>
      simp only [answers, Bool.and_eq_true] at h
      obtain ⟨hexit, hmove⟩ := h
      refine ⟨?_, ?_, ?_⟩
      · intro c hc
        rw [hc] at hexit
        exact of_decide_eq_true hexit
      · intro c offer keepAlive sent hm
        subst hm
        exact of_decide_eq_true hmove
      · intro c hm
        subst hm
        cases hmove
  | gaveUp c how => exact of_decide_eq_true (p := how = .cancelled) h
  | uploaded c result complete =>
      intro id _ _ names hnames
      subst hnames
      exact of_decide_eq_true h
  | serve q e =>
      intro w hw
      simp only [answers, hw] at h
      exact h
  | receiveOnSocket q | channelUp q fill inbox | handshakeFailed q => trivial

/-- A first sender hangs up at the prompt, the person declines a second, and a photo comes
in over Bluetooth. -/
def threePrompts : List Turn :=
  [.server (.setDiscoverable true),
    .server (.request 0 (.ask (some ("Mac", ["photo.heic"]))) true true),
    .server (.decide 0 true), .gaveUp 0 .cancelled, .server (.refuse 0),
    .server (.request 1 (.ask (some ("Phone", ["film.mov"]))) true true),
    .server (.decide 1 true), .server (.userAnswer 2 false), .server (.poll 1 true),
    .server (.refuse 1),
    .receiveOnSocket 0, .channelUp 0 (some Protocol.Sharing.someFill) ∅] ++
    Quickshare.photoReceived.map (.serve 0)

/-- All three are over, and resolved. -/
theorem threePrompts_resolved :
    ∃ t, Lts.Run (Lts.Restrict (Lts.ofPartial step) Answered) {} threePrompts t ∧
      (t.Ended (.connection 0) ∧ t.Ended (.connection 1) ∧ t.Ended (.receive 0)) ∧
      (t.asked (.connection 0) = [1] ∧ t.asked (.connection 1) = [2] ∧
        t.asked (.receive 0) = [3]) ∧
      t.notices = [.offered 1, .finished 1 statusCancelled, .offered 2, .declined 2,
        .offered 3, .offered 3, .finished 3 statusOk] ∧ t.Resolved := by
  obtain ⟨t, run, hview⟩ := Lts.run_observe
    (Lts.guarded step fun t turn => t.answers turn = true)
    (fun t => (decide (t.Ended (.connection 0) ∧ t.Ended (.connection 1) ∧ t.Ended (.receive 0)),
      (t.asked (.connection 0), t.asked (.connection 1), t.asked (.receive 0)), t.notices))
    (show (threePrompts.foldlM (Lts.guarded step fun t turn => t.answers turn = true) {}).map _ =
      some (true, ([1], [2], [3]), [.offered 1, .finished 1 statusCancelled, .offered 2,
        .declined 2, .offered 3, .offered 3, .finished 3 statusOk]) by decide +kernel)
  obtain ⟨hended, hrest⟩ := Prod.mk.inj hview
  obtain ⟨hasked, hnotices⟩ := Prod.mk.inj hrest
  obtain ⟨hasked0, hrest⟩ := Prod.mk.inj hasked
  obtain ⟨hasked1, hasked2⟩ := Prod.mk.inj hrest
  have answered := run.of_guarded.weaken fun _ _ h => answered_of_answers h
  exact ⟨t, answered, of_decide_eq_true hended, ⟨hasked0, hasked1, hasked2⟩, hnotices,
    prompts_resolved answered⟩

/-- Where an offer is all that the app was told of, an outcome is owed. -/
theorem owes_of_offered {x : Thread} {id : Int} (hasked : t.asked x = [id])
    (hnotices : t.notices = [.offered id]) : t.board.Owes x id := by
  have hput : id ∈ t.asked x := by
    rw [hasked]
    exact List.mem_singleton.mpr rfl
  refine ⟨hput, ?_⟩
  intro n hn
  have hmem : n ∈ t.notices := (Board.mem_about.mp hn).1
  rw [hnotices] at hmem
  exact List.mem_singleton.mp hmem

/-- The person accepts. -/
def accepted : List Turn :=
  [.server (.setDiscoverable true),
    .server (.request 0 (.ask (some ("Mac", ["photo.heic"]))) true true),
    .server (.decide 0 true), .server (.userAnswer 1 true), .server (.poll 0 true),
    .server (.request 0 .upload true true)]

/-- An upload that the sender breaks off is told of, too. -/
theorem cancelledUpload_answered :
    ∃ t, Lts.Run (Lts.Restrict (Lts.ofPartial step) Answered) {}
        (accepted ++ [.server (.load 0)] ++ [.uploaded 0 (.error .connectionAborted) false]) t ∧
      t.Ended (.connection 0) ∧ t.notices = [.offered 1, .finished 1 statusCancelled] := by
  obtain ⟨s, hs, hasked, hnotices, hcur, hothers, hquiet, hidle, t, hload, hexit, u, hu, hview⟩ :
      ∃ s, accepted.foldlM (Lts.guarded step fun t turn => t.answers turn = true) {} = some s ∧
        s.asked (.connection 0) = [1] ∧ s.notices = [.offered 1] ∧
        s.server.shared.current = 1 ∧ s.server.shared.current ∉ s.server.others ∧
        (∀ d, Server.inAsk s.server.shared.current (s.server.conn d) = false) ∧
        (∀ d, s.server.conn d ≠ .uploading 1) ∧
        ∃ t, s.step (.server (.load 0)) = some t ∧
          Tracked.unreleasedExit s.server (.load 0) = none ∧
          ∃ u, t.step (.uploaded 0 (.error .connectionAborted) false) = some u ∧
            u.Ended (.connection 0) ∧ u.notices = [.offered 1, .finished 1 statusCancelled] :=
    ⟨_, rfl, rfl, rfl, rfl, by decide, fun d => by cases d <;> rfl,
      fun d h => (by cases d <;> cases h), _, rfl, rfl, _, rfl, rfl, rfl⟩
  have owed : s.board.Owes (.connection 0) 1 := owes_of_offered hasked hnotices
  have may : s.MayUpload 0 := by
    refine ⟨?_, hothers, hquiet, ?_⟩
    · intro id howes
      have hmem : id ∈ s.asked (.connection 0) := howes.1
      rw [hasked] at hmem
      rw [hcur]
      exact List.mem_singleton.mp hmem
    · rw [hcur]
      exact fun _ => ⟨⟨_, owed⟩, hidle⟩
  have run := (Lts.run_foldlM _ hs).of_guarded.weaken fun _ _ h => answered_of_answers h
  have loads : s.Answered (.server (.load 0)) := by
    refine ⟨?_, ?_, ?_⟩
    · intro c hc
      rw [hexit] at hc
      cases hc
    · intro c offer keepAlive sent hm
      cases hm
    · intro c hm
      cases hm
      exact may
  have fails : t.Answered (.uploaded 0 (.error .connectionAborted) false) := by
    intro id _ _ names hnames
    cases hnames
  exact ⟨u, (run.snoc ⟨hload, loads⟩).snoc ⟨hu, fails⟩, hview⟩

/-- A thread has ended and owes an outcome. -/
theorem unresolved_of_owes {x : Thread} {id : Int} (ended : t.Ended x)
    (owed : t.board.Owes x id) : ¬ t.Resolved := by
  intro resolved
  exact (resolved x ended id owed.1).answered owed.2

/-- A thread has ended, and the outcome that was told is not what arrived. -/
theorem unresolved_of_status {x : Thread} {id status : Int} (ended : t.Ended x)
    (hasked : t.asked x = [id]) (taken : .declined id ∉ t.notices)
    (told : .finished id status ∈ t.notices) (wrong : ¬ (status = statusOk ↔ id ∈ t.arrived)) :
    ¬ t.Resolved := by
  intro resolved
  have hput : id ∈ t.asked x := by
    rw [hasked]
    exact List.mem_singleton.mpr rfl
  exact wrong ((resolved x ended id hput).status taken told)

/-- Nobody answers before the prompt runs out. -/
def ranOut : List Turn :=
  [.server (.setDiscoverable true),
    .server (.request 0 (.ask (some ("Mac", ["photo.heic"]))) true true),
    .server (.decide 0 true), .gaveUp 0 .timeout, .server (.refuse 0)]

/-- The photo that the person accepted is stored. -/
def photoUploaded : List Turn :=
  accepted ++ [.server (.load 0), .uploaded 0 (.ok ["photo.heic".toList]) true]

/-- Over Bluetooth, the peer hangs up after two of the three bytes. -/
def photoCutShort : List Turn :=
  [.receiveOnSocket 0, .channelUp 0 (some Protocol.Sharing.someFill) ∅] ++
    Quickshare.hungUp.map (.serve 0)

/-- A prompt runs out, and its card stays; a photo that has arrived is reported with
status 1, and one that has not with status 0. -/
theorem prompts_unresolved :
    (∃ t, Lts.Run (Lts.ofPartial step) {} ranOut t ∧ t.Ended (.connection 0) ∧
      t.asked (.connection 0) = [1] ∧ t.notices = [.offered 1] ∧ ¬ t.Resolved) ∧
    (∃ t, Lts.Run (Lts.ofPartial step) {} photoUploaded t ∧ t.Ended (.connection 0) ∧
      t.asked (.connection 0) = [1] ∧ t.notices = [.offered 1, .finished 1 1] ∧
      t.arrived = [1] ∧ ¬ t.Resolved) ∧
    ∃ t, Lts.Run (Lts.ofPartial step) {} photoCutShort t ∧ t.Ended (.receive 0) ∧
      t.asked (.receive 0) = [1] ∧
      t.notices = [.offered 1, .offered 1, .finished 1 statusOk] ∧ t.arrived = [] ∧
      ¬ t.Resolved := by
  refine ⟨?_, ?_, ?_⟩
  · obtain ⟨t, run, hview⟩ := Lts.run_observe step
      (fun t => (decide (t.Ended (.connection 0)), t.asked (.connection 0), t.notices))
      (show (ranOut.foldlM step {}).map _ = some (true, [1], [.offered 1]) by decide +kernel)
    obtain ⟨hended, hrest⟩ := Prod.mk.inj hview
    obtain ⟨hasked, hnotices⟩ := Prod.mk.inj hrest
    have ended := of_decide_eq_true hended
    exact ⟨t, run, ended, hasked, hnotices,
      unresolved_of_owes ended (owes_of_offered hasked hnotices)⟩
  · obtain ⟨t, run, hview⟩ := Lts.run_observe step
      (fun t => (decide (t.Ended (.connection 0)), t.asked (.connection 0), t.notices, t.arrived))
      (show (photoUploaded.foldlM step {}).map _ =
        some (true, [1], [.offered 1, .finished 1 1], [1]) by decide +kernel)
    obtain ⟨hended, hrest⟩ := Prod.mk.inj hview
    obtain ⟨hasked, hrest⟩ := Prod.mk.inj hrest
    obtain ⟨hnotices, harrived⟩ := Prod.mk.inj hrest
    have ended := of_decide_eq_true hended
    have wrong : ¬ ((1 : Int) = statusOk ↔ 1 ∈ t.arrived) := by
      rw [harrived]
      decide
    refine ⟨t, run, ended, hasked, hnotices, harrived,
      unresolved_of_status ended hasked ?_ ?_ wrong⟩
    · simp [hnotices]
    · simp [hnotices]
  · obtain ⟨t, run, hview⟩ := Lts.run_observe step
      (fun t => (decide (t.Ended (.receive 0)), t.asked (.receive 0), t.notices, t.arrived))
      (show (photoCutShort.foldlM step {}).map _ =
        some (true, [1], [.offered 1, .offered 1, .finished 1 statusOk], []) by decide +kernel)
    obtain ⟨hended, hrest⟩ := Prod.mk.inj hview
    obtain ⟨hasked, hrest⟩ := Prod.mk.inj hrest
    obtain ⟨hnotices, harrived⟩ := Prod.mk.inj hrest
    have ended := of_decide_eq_true hended
    have wrong : ¬ (statusOk = statusOk ↔ 1 ∈ t.arrived) := by
      rw [harrived]
      decide
    refine ⟨t, run, ended, hasked, hnotices, harrived,
      unresolved_of_status ended hasked ?_ ?_ wrong⟩
    · simp [hnotices]
    · simp [hnotices]

end Prompting

end Sharingd
