import TarishDaemon.Quickshare.MovingTalk

/-!
# After the LAST_WRITE

Once LAST_WRITE is out, the old socket is owed a SAFE_TO_CLOSE and nothing else.  Both
release loops can still fail there: a read can break, a frame may not decrypt, and the
SAFE_TO_CLOSE may not go out.  `Undisturbed` says of the waits and of the wires still to
come that the loop meets none of that before it ends.

`Parts` is how a handover then leaves the old socket.
-/

namespace Quickshare

open Rust Protocol Fallible
open Protocol.Upgrade (Channel UpgradePath)

variable {c : Crypto} {m m' m'' : Moving}

/-- No wait of the release loop breaks and every frame it takes decrypts. -/
def Undisturbed (c : Crypto) : List Poll → SecureChannel → List Bytes → Prop
  | [], _, _ | .quiet :: _, _, _ | .arrives :: _, _, [] => True
  | .broke :: _, _, _ => False
  | .arrives :: polls, channel, wire :: left =>
      match channel.decrypt c wire with
      | (.error _, _) => False
      | (.ok plain, channel) =>
          (∃ sta, Upgrade.read plain = some (.safeToClosePrior sta)) ∨
            Undisturbed c polls channel left

/-- One wait of a release loop. -/
theorem nextWithin_undisturbed {p : Poll} {polls : List Poll} (judge : Bytes → Fate)
    (m : Moving) (h : Undisturbed c (p :: polls) m.channel m.left) :
    Ends (nextWithin c judge p) m fun r m' =>
      r = some .quiet ∨ ∃ plain, r = some (.frame plain) ∧
        ((∃ sta, Upgrade.read plain = some (.safeToClosePrior sta)) ∨
          Undisturbed c polls m'.channel m'.left) := by
  unfold Ends nextWithin
  split
  · exact h.elim
  · exact .inl rfl
  · exact .inl rfl
  next wire left hleft =>
    rw [hleft] at h
    simp only [Undisturbed] at h
    split
    next heq =>
      rw [heq] at h
      exact h.elim
    next plain channel heq =>
      rw [heq] at h
      exact .inr ⟨plain, rfl, h⟩

theorem releaseHost_mute (polls : List Poll) : Keeps Mute (releaseHost c polls) := by
  induction polls with
  | nil => exact keeps_pure Mute.refl ()
  | cons p polls ih =>
      unfold releaseHost
      refine mute_bind (nextWithin_mute _) fun got => ?_
      cases got with
      | quiet => exact keeps_pure Mute.refl ()
      | broke => exact keeps_fail Mute.refl
      | frame plain =>
          dsimp only
          split
          · exact keeps_pure Mute.refl ()
          · exact ih

/-- Undisturbed, the host's release loop ends without an error. -/
theorem releaseHost_ends (polls : List Poll) (m : Moving)
    (h : Undisturbed c polls m.channel m.left) :
    Ends (releaseHost c polls) m fun r _ => r ≠ none := by
  induction polls generalizing m with
  | nil => exact Option.some_ne_none _
  | cons p polls ih =>
      unfold releaseHost
      apply (nextWithin_undisturbed releaseFate m h).bind
      · intro got n hgot
        rcases hgot with hquiet | ⟨plain, hframe, hrest⟩
        · cases hquiet
          exact Option.some_ne_none _
        · cases hframe
          dsimp only
          split
          · exact Option.some_ne_none _
          next hsafe =>
            rcases hrest with ⟨sta, hread⟩ | hrest
            · exact absurd hread (hsafe sta)
            · exact ih n hrest
      · intro n hgot
        rcases hgot with hquiet | ⟨plain, hframe, -⟩
        · cases hquiet
        · cases hframe

/-- Our SAFE_TO_CLOSE, where it is on record. -/
def safeIf (said : Bool) : List (Channel × Bytes) :=
  if said then [safeToClose] else []

/-- What `releaseOld` adds to a record that has the SAFE_TO_CLOSE if `said` holds. -/
theorem releaseOld_ends (goes said : Bool) (m : Moving) :
    Ends (releaseOld goes said) m fun r m' =>
      (r = some () ∧ ∃ ws, m' = { m with wrote := m.wrote ++ ws } ∧
        safeIf said ++ ws = safeIf true) ∨
        (r = none ∧ goes = false ∧ m' = m) := by
  unfold releaseOld
  cases said with
  | true =>
      refine .inl ⟨rfl, [], ?_, rfl⟩
      rw [List.append_nil]
      rfl
  | false =>
      rcases write_ends goes .old (Upgrade.safeToClosePrior Upgrade.staFrequencyNotSet) m with
        ⟨hr, -, hwrote⟩ | hfail
      · exact .inl ⟨hr, _, hwrote, rfl⟩
      · exact .inr hfail

/-- The joiner's release loop: it writes our SAFE_TO_CLOSE once at most, says whether
it did, and undisturbed it ends without an error if that goes out. -/
theorem releaseJoiner_ends (goes : Bool) (polls : List Poll) (weReleased : Bool) (m : Moving) :
    Ends (releaseJoiner c goes polls weReleased) m fun r m' =>
      (∃ said ws, Wrote ws m m' ∧ safeIf weReleased ++ ws = safeIf said ∧
        ∀ b, r = some b → b = said) ∧
      (Undisturbed c polls m.channel m.left → goes = true → r ≠ none) := by
  induction polls generalizing weReleased m with
  | nil =>
      refine ⟨⟨weReleased, [], (Mute.refl m).wrote, List.append_nil _, ?_⟩, fun _ _ => ?_⟩
      · rintro b ⟨⟩
        rfl
      · exact Option.some_ne_none _
  | cons p polls ih =>
      have stop : ∀ {n : Moving} (r : Option Bool), Mute m n → (∀ b, r = some b → b = weReleased) →
          ∃ said ws, Wrote ws m n ∧ safeIf weReleased ++ ws = safeIf said ∧
            ∀ b, r = some b → b = said :=
        fun r hmute hr => ⟨weReleased, [], hmute.wrote, List.append_nil _, hr⟩
      have hwait : Ends (nextWithin c releaseFate p) m fun r n =>
          Mute m n ∧ (Undisturbed c (p :: polls) m.channel m.left →
            r = some .quiet ∨ ∃ plain, r = some (.frame plain) ∧
              ((∃ sta, Upgrade.read plain = some (.safeToClosePrior sta)) ∨
                Undisturbed c polls n.channel n.left)) :=
        ⟨nextWithin_mute _ m, nextWithin_undisturbed _ m⟩
      unfold releaseJoiner
      apply hwait.bind
      · rintro got n ⟨hmute, hnext⟩
        cases got with
        | quiet =>
            exact ⟨stop _ hmute fun b hb => (Option.some.inj hb).symm,
              fun _ _ => Option.some_ne_none _⟩
        | broke =>
            refine ⟨stop _ hmute fun b hb => (by cases hb), fun hcalm _ => ?_⟩
            rcases hnext hcalm with habs | ⟨plain, habs, -⟩ <;> cases habs
        | frame plain =>
            have hrest : Undisturbed c (p :: polls) m.channel m.left →
                (∃ sta, Upgrade.read plain = some (.safeToClosePrior sta)) ∨
                  Undisturbed c polls n.channel n.left := by
              intro hcalm
              rcases hnext hcalm with habs | ⟨_, heq, hrest⟩
              · cases habs
              · cases heq
                exact hrest
            dsimp only
            split
            · exact ⟨stop _ hmute fun b hb => (Option.some.inj hb).symm,
                fun _ _ => Option.some_ne_none _⟩
            next hlast =>
              have calm : Undisturbed c (p :: polls) m.channel m.left →
                  Undisturbed c polls n.channel n.left := by
                intro hcalm
                rcases hrest hcalm with ⟨sta, habs⟩ | hrest
                · rw [hlast] at habs
                  cases habs
                · exact hrest
              apply (releaseOld_ends goes weReleased n).bind
              · intro _ t hours
                rcases hours with ⟨-, ws, rfl, hws⟩ | ⟨habs, -⟩
                · refine (ih true _).mono ?_
                  rintro r t ⟨⟨said, ws', hwrote, hsaid, hr⟩, hends⟩
                  have hfirst : Wrote ws n { n with wrote := n.wrote ++ ws } := ⟨rfl, rfl⟩
                  refine ⟨⟨said, ws ++ ws', hmute.wrote.trans (hfirst.trans hwrote), ?_, hr⟩,
                    fun hcalm => hends (calm hcalm)⟩
                  rw [← List.append_assoc, hws, hsaid]
                · cases habs
              · intro t hours
                rcases hours with ⟨habs, -⟩ | ⟨-, hgoes, rfl⟩
                · cases habs
                · refine ⟨stop _ hmute fun b hb => (by cases hb), fun _ htrue => ?_⟩
                  rw [hgoes] at htrue
                  cases htrue
            next hsafe hlast =>
              refine (ih weReleased n).mono ?_
              rintro r t ⟨⟨said, ws, hwrote, hsaid, hr⟩, hends⟩
              refine ⟨⟨said, ws, hmute.wrote.trans hwrote, hsaid, hr⟩, fun hcalm => ?_⟩
              rcases hrest hcalm with ⟨sta, habs⟩ | hrest
              · exact absurd habs (hsafe sta)
              · exact hends hrest
      · rintro n ⟨hmute, hnext⟩
        refine ⟨stop _ hmute fun b hb => (by cases hb), fun hcalm _ => ?_⟩
        rcases hnext hcalm with habs | ⟨plain, habs, -⟩ <;> cases habs

/-! ## How a handover leaves the old socket -/

/-- The last frames on the old socket, as far as they went out. -/
inductive Closing : List (Channel × Bytes) → Prop
  | unsaid : Closing []
  | last : Closing [lastWrite]
  | safe : Closing [lastWrite, safeToClose]

/-- Frames that are no LAST_WRITE, and then the closing ones; none of these where the
conversation goes on over the old socket. -/
def Parts (goesOn : Prop) (m m' : Moving) : Prop :=
  ∃ ws tail, NoLast ws ∧ Closing tail ∧ m'.wrote = m.wrote ++ (ws ++ tail) ∧
    (goesOn → m'.moved = false → tail = [])

variable {goesOn goesOn' : Prop} {tail : List (Channel × Bytes)}

theorem Parts.mono (h : Parts goesOn m m') (himp : goesOn' → goesOn) : Parts goesOn' m m' := by
  obtain ⟨ws, tail, hws, htail, hwrote, hstay⟩ := h
  exact ⟨ws, tail, hws, htail, hwrote, fun h => hstay (himp h)⟩

theorem Mute.parts (h : Mute m m') (h' : Parts goesOn m' m'') : Parts goesOn m m'' := by
  obtain ⟨ws, tail, hws, htail, hwrote, hstay⟩ := h'
  exact ⟨ws, tail, hws, htail, h.1 ▸ hwrote, hstay⟩

/-- No LAST_WRITE went out. -/
theorem Says.unsaid (h : Says [] m m') : Parts goesOn m m' := by
  obtain ⟨ws, hws, hwrote⟩ := h
  exact ⟨ws, [], hws, .unsaid, hwrote.1, fun _ _ => rfl⟩

/-- The conversation does not go on. -/
theorem Says.ended (h : Says tail m m') (htail : Closing tail) (hends : ¬ goesOn) :
    Parts goesOn m m' := by
  obtain ⟨ws, hws, hwrote⟩ := h
  exact ⟨ws, tail, hws, htail, hwrote.1, fun h => absurd h hends⟩

/-- It goes on over the new socket. -/
theorem Says.moved (h : Says tail m m') (htail : Closing tail) :
    Parts goesOn m { m' with moved := true } := by
  obtain ⟨ws, hws, hwrote⟩ := h
  exact ⟨ws, tail, hws, htail, hwrote.1, fun _ habs => by cases habs⟩

/-- Nothing happens between the LAST_WRITE and the end of the release exchange that the
host takes for a failure. -/
def OfferCalm (c : Crypto) (e : Offering) (m : Moving) : Prop :=
  ∀ m', offerPath c e m = (some true, m') →
    Undisturbed c e.release m'.channel m'.left ∧ e.safeGoes = true

theorem offerGroup_parts (e : Offering) (m : Moving) :
    Ends (offerGroup c e) m fun r m' => Parts (r ≠ none ∨ OfferCalm c e m) m m' := by
  have hpath : Ends (offerPath c e) m fun r n =>
      offerPath c e m = (r, n) ∧ Says (announced r) m n :=
    ⟨rfl, offerPath_ends e m⟩
  apply hpath.bind
  · rintro there n ⟨heq, hadds⟩
    cases there with
    | false => exact hadds.unsaid
    | true =>
        have hrelease : Ends (releaseHost c e.release) n fun r t => Mute n t ∧
            (Undisturbed c e.release n.channel n.left → r ≠ none) :=
          ⟨releaseHost_mute _ n, releaseHost_ends _ n⟩
        apply hrelease.bind
        · rintro - t ⟨hmute, -⟩
          have hafter : Says [lastWrite] m t := by simpa [announced] using hadds.more hmute.wrote
          apply (write_ends e.safeGoes .old
            (Upgrade.safeToClosePrior Upgrade.staFrequencyNotSet) t).bind
          · intro _ u hsafe
            rcases hsafe with ⟨-, -, rfl⟩ | ⟨habs, -⟩
            · have hsaid : Says [lastWrite, safeToClose] m
                  { t with wrote := t.wrote ++ [safeToClose] } := hafter.more ⟨rfl, rfl⟩
              exact hsaid.moved .safe
            · cases habs
          · intro u hsafe
            rcases hsafe with ⟨habs, -⟩ | ⟨-, hgoes, rfl⟩
            · cases habs
            · apply hafter.ended .last
              rintro (habs | hcalm)
              · exact habs rfl
              · rw [(hcalm n heq).2] at hgoes
                cases hgoes
        · rintro t ⟨hmute, hends⟩
          have hafter : Says [lastWrite] m t := by simpa [announced] using hadds.more hmute.wrote
          apply hafter.ended .last
          rintro (habs | hcalm)
          · exact habs rfl
          · exact hends (hcalm n heq).1 rfl
  · rintro n ⟨-, hadds⟩
    exact hadds.unsaid

/-- The same on the joiner's side. -/
def AdoptCalm (c : Crypto) (e : Adopting) (path : UpgradePath) (m : Moving) : Prop :=
  ∀ m', adoptPath e path m = (some true, m') →
    Undisturbed c e.release m'.channel m'.left ∧ e.safeGoes = true

theorem adopt_parts (e : Adopting) (path : UpgradePath) (m : Moving) :
    Ends (adopt c e path) m fun r m' =>
      Parts (r ≠ none ∨ AdoptCalm c e path m) m m' ∧ (r = none → m'.moved = m.moved) := by
  have hpath : Ends (adoptPath e path) m fun r n =>
      adoptPath e path m = (r, n) ∧ Says (announced r) m n :=
    ⟨rfl, adoptPath_ends e path m⟩
  have stuck : ∀ {tail : List (Channel × Bytes)} {n : Moving}, Says tail m n → n.moved = m.moved :=
    fun ⟨_, _, hwrote⟩ => hwrote.2
  apply hpath.bind
  · rintro there n ⟨heq, hadds⟩
    cases there with
    | false => exact ⟨hadds.unsaid, fun _ => stuck hadds⟩
    | true =>
        apply (releaseJoiner_ends e.safeGoes e.release false n).bind
        · rintro weReleased t ⟨⟨said, ws, hwrote, hsaid, hr⟩, -⟩
          obtain rfl := hr _ rfl
          have hafter : Says (lastWrite :: safeIf weReleased) m t := by
            have hmore := hadds.more hwrote
            rw [show ws = safeIf weReleased from hsaid] at hmore
            exact hmore
          apply (releaseOld_ends e.safeGoes weReleased t).bind
          · intro _ u hours
            rcases hours with ⟨-, ws', rfl, hws'⟩ | ⟨habs, -⟩
            · have hdone : Says (lastWrite :: safeIf true) m
                  { t with wrote := t.wrote ++ ws' } := by
                rw [← hws']
                exact hafter.more ⟨rfl, rfl⟩
              exact ⟨hdone.moved .safe, fun habs => by cases habs⟩
            · cases habs
          · intro u hours
            rcases hours with ⟨habs, -⟩ | ⟨-, hgoes, rfl⟩
            · cases habs
            · refine ⟨hafter.ended ?_ ?_, fun _ => stuck hafter⟩
              · cases weReleased
                · exact .last
                · exact .safe
              · rintro (habs | hcalm)
                · exact habs rfl
                · rw [(hcalm n heq).2] at hgoes
                  cases hgoes
        · rintro t ⟨⟨said, ws, hwrote, hsaid, -⟩, hends⟩
          have hafter : Says (lastWrite :: safeIf said) m t := by
            have hmore := hadds.more hwrote
            rw [show ws = safeIf said from hsaid] at hmore
            exact hmore
          refine ⟨hafter.ended ?_ ?_, fun _ => stuck hafter⟩
          · cases said
            · exact .last
            · exact .safe
          · rintro (habs | hcalm)
            · exact habs rfl
            · exact hends (hcalm n heq).1 (hcalm n heq).2 rfl
  · rintro n ⟨-, hadds⟩
    exact ⟨hadds.unsaid, fun _ => stuck hadds⟩

/-- An error of `adopt` is followed by an UPGRADE_FAILURE on the old socket, if that goes
out. -/
def UpgradeCalm (c : Crypto) (e : Adopting) (body : Bytes) (m : Moving) : Prop :=
  ∀ path, Upgrade.parse body = .ok (.pathAvailable path) →
    AdoptCalm c e path m ∨ e.failureGoes = false

theorem onUpgradeFrame_parts (e : Adopting) (body : Bytes) {m : Moving} (hm : m.moved = false)
    (hcalm : UpgradeCalm c e body m) :
    Ends (onUpgradeFrame c e body) m fun r m' => Parts (r ≠ none) m m' := by
  unfold onUpgradeFrame
  split
  next path hpath =>
    apply (adopt_parts e path m).bind_attempt
    rintro ended t ⟨hparts, hmoved⟩
    cases ended with
    | some there => exact hparts.mono fun _ => .inl (Option.some_ne_none _)
    | none =>
        refine (write_ends e.failureGoes .old Upgrade.failure t).mono ?_
        rintro r u (⟨-, hgoes, rfl⟩ | ⟨rfl, -, rfl⟩)
        · -- the failure goes out, so nothing had been announced
          have hsound : AdoptCalm c e path m := by
            rcases hcalm path hpath with h | h
            · exact h
            · rw [h] at hgoes
              cases hgoes
          obtain ⟨ws, tail, hws, -, hwrote, hstay⟩ := hparts
          obtain rfl := hstay (.inr hsound) ((hmoved rfl).trans hm)
          refine ⟨ws ++ [(.old, Upgrade.failure)], [], hws.append (noLast_single failure_ne),
            .unsaid, ?_, fun _ _ => rfl⟩
          simp [hwrote]
        · exact hparts.mono fun h => absurd rfl h
  · exact (Says.refl m).unsaid
  · exact (Says.refl m).unsaid

/-- `UpgradeCalm` of the offer that `wait_for_upgrade` comes upon, if it comes upon one. -/
def WaitCalm (c : Crypto) (e : Adopting) : List (Bool × Poll) → Moving → Prop
  | [], _ | (true, _) :: _, _ => True
  | (false, p) :: waits, m =>
      match nextWithin c waitFate p m with
      | (none, _) | (some .broke, _) => True
      | (some .quiet, m') => WaitCalm c e waits m'
      | (some (.frame plain), m') =>
          match Frames.parse plain with
          | .error _ => True
          | .ok (.bandwidthUpgrade body) => UpgradeCalm c e body m'
          | .ok _ => WaitCalm c e waits m'

theorem waitForUpgrade_parts (e : Adopting) (waits : List (Bool × Poll)) {m : Moving}
    (hm : m.moved = false) (hcalm : WaitCalm c e waits m) :
    Ends (waitForUpgrade c e waits) m fun r m' => Parts (r ≠ none) m m' := by
  induction waits generalizing m with
  | nil => exact (Says.refl m).unsaid
  | cons wait waits ih =>
      obtain ⟨cancelled, p⟩ := wait
      unfold waitForUpgrade
      cases cancelled with
      | true => exact (Says.refl m).unsaid
      | false =>
          have hwait : Ends (nextWithin c waitFate p) m fun r n =>
              nextWithin c waitFate p m = (r, n) ∧ Mute m n := ⟨rfl, nextWithin_mute _ m⟩
          apply hwait.bind
          · rintro got n ⟨heq, hmute⟩
            have hn : n.moved = false := hmute.2.trans hm
            rw [WaitCalm, heq] at hcalm
            cases got with
            | quiet => exact (ih hn hcalm).mono fun r t h => hmute.parts h
            | broke => exact hmute.adds.unsaid
            | frame plain =>
                dsimp only at hcalm ⊢
                split
                · exact hmute.adds.unsaid
                next body hparse =>
                  rw [hparse] at hcalm
                  exact (onUpgradeFrame_parts e body hn hcalm).mono fun r t h => hmute.parts h
                next frame hother hparse =>
                  rw [hparse] at hcalm
                  refine (ih hn ?_).mono fun r t h => hmute.parts h
                  cases frame with
                  | bandwidthUpgrade body => exact absurd rfl (hother body)
                  | _ => exact hcalm
          · rintro n ⟨-, hmute⟩
            exact hmute.adds.unsaid

end Quickshare
