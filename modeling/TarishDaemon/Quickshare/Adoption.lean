import TarishDaemon.Protocol.ChannelTalk
import TarishDaemon.Quickshare.Moving

/-!
# The three places of the socket

A send holds its socket in three places: `input` and `out`, the two halves it reads
and writes, and `out_fd`, the descriptor it waits on until everything has left.
`adopt` replaces the halves in its last two statements, and `out_fd` as soon as it has
a new socket, so what it leaves when it fails in between is not what it found
(`adopt_kept_iff`).

`Quickshare.adopt` is the same function as far as the old socket is concerned
(`adopt_moving`).
-/

namespace Quickshare

namespace Adoption

open Rust Protocol Fallible
open Protocol.Upgrade (Channel UpgradePath)

/-- What a send holds of its socket. -/
structure Sockets where
  moving : Moving
  /-- Which socket `input` reads, and which one `out` writes. -/
  input : Channel := .old
  out : Channel := .old
  outFd : Option Int := none
  deriving DecidableEq, Repr

/-- A step on the conversation.  It holds the halves, and replaces none. -/
def talk {α : Type} (x : Fallible Moving α) : Fallible Sockets α :=
  zoom Sockets.moving (fun s m => { s with moving := m }) x

/-- `adopt`, where the descriptor of the new socket is `fd`. -/
def adopt (c : Crypto) (e : Adopting) (fd : Int) (path : UpgradePath) :
    Fallible Sockets Bool := do
  match e.acquired with
  | .failed => fail
  | .declined =>
      talk (write e.declineGoes .old Upgrade.failure)
      return false
  | .connected =>
      modify fun s => { s with outFd := some fd }
      if !e.clones then fail
      else
        talk (write e.introGoes .new (Upgrade.clientIntroduction e.endpointId))
        talk (awaitAck e path)
        talk (write e.lastGoes .old Upgrade.lastWriteToPrior)
        let weReleased ← talk (releaseJoiner c e.safeGoes e.release false)
        talk (releaseOld e.safeGoes weReleased)
        modify fun s => { s with input := .new }
        modify fun s => { s with out := .new }
        talk moveOver
        return true

/-- The socket is in the three places where it was. -/
structure Kept (s t : Sockets) : Prop where
  input : t.input = s.input
  out : t.out = s.out
  outFd : t.outFd = s.outFd

variable {c : Crypto} {e : Adopting} {fd : Int} {path : UpgradePath} {s t : Sockets}

theorem Kept.refl (s : Sockets) : Kept s s :=
  ⟨rfl, rfl, rfl⟩

theorem Kept.trans {u : Sockets} (h : Kept s t) (h' : Kept t u) : Kept s u :=
  ⟨h'.input.trans h.input, h'.out.trans h.out, h'.outFd.trans h.outFd⟩

theorem talk_kept {α : Type} (x : Fallible Moving α) : Keeps Kept (talk x) :=
  keeps_zoom fun _ _ => ⟨rfl, rfl, rfl⟩

/-- One more step, after which a program that fails has still to be looked at. -/
theorem talk_bind {α β : Type} {x : Fallible Moving α} {f : α → Fallible Sockets β}
    {Q : Option β → Sockets → Prop} (kept : Kept s t)
    (hf : ∀ a u, Kept s u → Ends (f a) u Q) (hfail : ∀ u, Kept s u → Q none u) :
    Ends (talk x >>= f) t Q := by
  apply ((talk_kept x).ends t).bind
  · intro a u h
    exact hf a u (kept.trans h)
  · intro u h
    exact hfail u (kept.trans h)

/-- Where `adopt` leaves the socket. -/
theorem adopt_ends (s : Sockets) :
    Ends (adopt c e fd path) s fun r t =>
      match r with
      | some true => t.input = .new ∧ t.out = .new ∧ t.outFd = some fd
      | _ => Kept (if e.acquired = .connected then { s with outFd := some fd } else s) t := by
  unfold adopt
  cases hacquired : e.acquired with
  | failed =>
      have none : ¬ Acquired.failed = .connected := Acquired.noConfusion
      rw [if_neg none]
      exact Kept.refl s
  | declined =>
      have none : ¬ Acquired.declined = .connected := Acquired.noConfusion
      rw [if_neg none]
      apply talk_bind (Kept.refl s)
      · intro _ t kept
        exact kept
      · intro t kept
        exact kept
  | connected =>
      rw [if_pos rfl]
      generalize hs : { s with outFd := some fd : Sockets } = found
      have hfd : found.outFd = some fd := by
        rw [← hs]
      dsimp only
      rw [ends_bind, ends_modify, hs]
      dsimp only
      split
      · exact Kept.refl found
      · apply talk_bind (Kept.refl found) _ fun _ kept => kept
        intro _ t kept
        apply talk_bind kept _ fun _ kept => kept
        intro _ t kept
        apply talk_bind kept _ fun _ kept => kept
        intro _ t kept
        apply talk_bind kept _ fun _ kept => kept
        intro _ t kept
        apply talk_bind kept _ fun _ kept => kept
        intro _ t kept
        exact ⟨rfl, rfl, kept.outFd.trans hfd⟩

/-- **A failed adoption.**  It leaves the socket in its three places exactly if it got no new
one, or one with the descriptor that was there. -/
theorem adopt_kept_iff (failed : (adopt c e fd path s).1 ≠ some true) :
    Kept s (adopt c e fd path s).2 ↔ e.acquired ≠ .connected ∨ s.outFd = some fd := by
  have left := @adopt_ends c e fd path s
  unfold Ends at left
  rcases hcall : adopt c e fd path s with ⟨r, t⟩
  rw [hcall] at failed left
  have kept : Kept (if e.acquired = .connected then { s with outFd := some fd } else s) t := by
    cases r with
    | none => exact left
    | some moved =>
        cases moved with
        | false => exact left
        | true => exact absurd rfl failed
  by_cases connected : e.acquired = .connected
  · rw [if_pos connected] at kept
    constructor
    · intro h
      exact .inr (h.outFd.symm.trans kept.outFd)
    · intro h
      rcases h with declined | same
      · exact absurd connected declined
      · exact ⟨kept.input, kept.out, kept.outFd.trans same.symm⟩
  · rw [if_neg connected] at kept
    constructor
    · intro _
      exact .inl connected
    · intro _
      exact kept

/-- The descriptor of the socket the send began on. -/
def beforeAdoption : Sockets :=
  { moving := { channel := { keys := Link.Hello.helloKeys, role := .client }, left := [] }
    outFd := some 9 }

def lanPath : UpgradePath :=
  { medium := .wifiLan, wifi := none, lan := some { ip := [192, 168, 1, 7], port := 7 }
    supportsIntroductionAck := true, supportsDisablingEncryption := false }

theorem adopt_kept_iff_declined :
    Kept beforeAdoption (adopt Link.Hello.record.crypto { acquired := .declined } 17 lanPath
      beforeAdoption).2 := by
  apply (adopt_kept_iff (by decide)).mpr
  exact .inl Acquired.noConfusion

/-- The new socket connects, and nobody answers the introduction. -/
theorem not_kept_of_no_ack :
    ¬ ∀ (c : Crypto) (e : Adopting) (fd : Int) (path : UpgradePath) (s : Sockets),
      (adopt c e fd path s).1 ≠ some true → Kept s (adopt c e fd path s).2 := by
  intro claim
  have kept := claim Link.Hello.record.crypto { ack := .quiet } 17 lanPath beforeAdoption
    (by decide)
  exact absurd kept.outFd (by decide)

/-! ## The conversation -/

theorem talk_follows {α : Type} (x : Fallible Moving α) : Follows Sockets.moving (talk x) x :=
  follows_zoom (fun _ _ => rfl) x

/-- **On the old socket nothing differs.**  What `Quickshare.adopt` does to the conversation is
what `adopt` does to it. -/
theorem adopt_moving : Follows Sockets.moving (adopt c e fd path) (Quickshare.adopt c e path) := by
  unfold adopt Quickshare.adopt adoptPath
  cases e.acquired with
  | failed => exact follows_fail
  | declined =>
      simp only [bind_assoc, pure_bind]
      exact (talk_follows _).bind fun _ => follows_pure false
  | connected =>
      dsimp only
      apply Follows.modify_bind
      · intro _
        rfl
      cases e.clones with
      | false => exact follows_fail
      | true =>
          simp only [Bool.not_true, Bool.false_eq_true, if_false, if_true, bind_assoc, pure_bind]
          apply (talk_follows _).bind
          intro _
          apply (talk_follows _).bind
          intro _
          apply (talk_follows _).bind
          intro _
          apply (talk_follows _).bind
          intro weReleased
          apply (talk_follows _).bind
          intro _
          apply Follows.modify_bind
          · intro _
            rfl
          apply Follows.modify_bind
          · intro _
            rfl
          exact (talk_follows _).bind fun _ => follows_pure true

end Adoption

end Quickshare
