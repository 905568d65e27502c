import TarishDaemon.Sharingd.Authenticated

/-!
# Rounds without an answer

The keepalive thread counts the rounds that nobody answered, and `shut` closes the
window at the third.  `keepUnlocked` takes the challenge, and with the right nonce
it clears the count and, if the answer was in time, satisfies the round.

A round clears the answer before it posts its challenge, so that "a late answer to
the previous round cannot satisfy this one".  But `keepUnlocked` takes the
challenge first and stores afterwards, one operation after the other: a call of an
earlier round that is still between the two clears the count of a later round, or
satisfies it.  `late_store_keeps` is such a run; `silent_rounds_close` says that
three rounds without an answer close the window wherever a round begins only after
the calls that answered an earlier one have stored what they have to store.
-/

namespace Sharingd

open Lts

namespace Window

/-- Still to store: the challenge is taken, and what it brings has yet to be written. -/
def storing (w : Window) : Task → Bool
  | .answering _ | .satisfying => true
  | .confirming sent => decide (w.now - sent ≤ challengeDeadline)
  | _ => false

/-- A round ends where the thread goes to sleep until the next, or has shut the window. -/
def endsRound (w : Window) : Move → Bool
  | .run who _ _ =>
      match w.tasks[who]? with
      | some (.keepalive _ .forgive) => true
      | some (.keepalive _ .strike) | some (.keepalive _ .strikeUnheard) =>
          decide (w.strikes + 1 < challengeStrikes)
      | some (.shutting _ .withdraw) => true
      | _ => false
  | _ => false

/-- A call with the nonce of the challenge that is outstanding at this moment. -/
def answers (w : Window) : Move → Bool
  | .keepUnlocked nonce =>
      match w.challenge with
      | some (want, _) => decide (want = nonce)
      | none => false
  | _ => false

/-- An operation of `keepUnlocked`. -/
def ofKeepUnlocked (w : Window) : Move → Bool
  | .keepUnlocked _ => true
  | .run who _ _ =>
      match w.tasks[who]? with
      | some (.answering _) | some (.confirming _) | some .satisfying => true
      | _ => false
  | _ => false

def authenticates : Move → Bool
  | .setAuthenticated _ _ => true
  | _ => false

/-- A round begins after the answers to the rounds before it are stored, and the property
can be written when the window is shut. -/
def isTimely (w : Window) : Move → Bool
  | .run who _ wrote =>
      match w.tasks[who]? with
      | some (.keepalive _ .clearAnswer) => !w.tasks.any (storing w)
      | some (.shutting _ .withdraw) => wrote || !w.exempt
      | _ => true
  | _ => true

/-- What a step must find. -/
def Timely (w : Window) (m : Move) : Prop := isTimely w m = true

/-! ## One thread -/

/-- The thread of a window: the call that will start it, the thread itself, and the
`shut` it ends with. -/
def leads : Task → Bool
  | .opening _ _ .writeExempt | .opening _ _ .startKeepalive | .keepalive _ _ | .shutting _ _ =>
      true
  | _ => false

/-- There is one thread at most. -/
def Solo (w : Window) : Prop :=
  ∃ k : Nat, ∀ (j : Nat) t, w.tasks[j]? = some t → leads t = true → j = k

variable {w w' : Window}

theorem Solo.frame (solo : Solo w) (htasks : w'.tasks = w.tasks) : Solo w' := by
  unfold Solo
  rw [htasks]
  exact solo

/-- What is on the list after a task moved on. -/
theorem getElem?_set_some {l : List Task} {who j : Nat} {new t : Task}
    (h : (l.set who new)[j]? = some t) : j = who ∧ t = new ∨ j ≠ who ∧ l[j]? = some t := by
  by_cases hj : j = who
  · subst hj
    rw [List.getElem?_set_self'] at h
    obtain ⟨_, -, rfl⟩ := Option.map_eq_some_iff.mp h
    exact .inl ⟨rfl, rfl⟩
  · rw [List.getElem?_set_ne (Ne.symm hj)] at h
    exact .inr ⟨hj, h⟩

theorem getElem?_concat_some {l : List Task} {j : Nat} {new t : Task}
    (h : (l ++ [new])[j]? = some t) : j = l.length ∧ t = new ∨ l[j]? = some t := by
  rcases Nat.lt_trichotomy j l.length with hj | hj | hj
  · rw [List.getElem?_append_left hj] at h
    exact .inr h
  · subst hj
    simp at h
    exact .inl ⟨rfl, h.symm⟩
  · rw [List.getElem?_eq_none (by simp; omega)] at h
    cases h

/-- A task moves on; only the thread goes on as the thread. -/
theorem Solo.become (solo : Solo w) {who : Nat} {old new : Task} (here : w.tasks[who]? = some old)
    (hleads : leads new = true → leads old = true) : Solo (w.become who new) := by
  obtain ⟨k, hk⟩ := solo
  refine ⟨k, ?_⟩
  intro j t hj ht
  rcases getElem?_set_some hj with ⟨rfl, rfl⟩ | ⟨-, hj⟩
  · exact hk j old here (hleads ht)
  · exact hk j t hj ht

theorem Solo.spawn (solo : Solo w) {new : Task} (hleads : leads new = false) :
    Solo (w.spawn new) := by
  obtain ⟨k, hk⟩ := solo
  refine ⟨k, ?_⟩
  intro j t hj ht
  rcases getElem?_concat_some hj with ⟨-, rfl⟩ | hj
  · rw [hleads] at ht
    cases ht
  · exact hk j t hj ht

/-- The call hands over to the thread it starts. -/
theorem Solo.handOver (solo : Solo w) {who : Nat} {old new next : Task}
    (here : w.tasks[who]? = some old) (hold : leads old = true) (hnew : leads new = false) :
    Solo ((w.become who new).spawn next) := by
  obtain ⟨k, hk⟩ := solo
  obtain rfl := hk who old here hold
  refine ⟨(w.become who new).tasks.length, ?_⟩
  intro j t hj ht
  rcases getElem?_concat_some hj with ⟨rfl, -⟩ | hj
  · rfl
  · rcases getElem?_set_some hj with ⟨-, rfl⟩ | ⟨hne, hj⟩
    · rw [hnew] at ht
      cases ht
    · exact absurd (hk j t hj ht) hne

theorem Solo.beat (solo : Solo w) {who gen : Nat} {nonce : Int} {next : Beat}
    (here : w.tasks[who]? = some (.keepalive gen next))
    (h : w.beat who gen nonce next = some w') : Solo w' := by
  have moves : ∀ {x : Window} (t : Task), x.tasks = w.tasks → Solo (x.become who t) := by
    intro x t hx
    have same : Solo x := solo.frame hx
    exact same.become (hx ▸ here) fun _ => rfl
  have struck : ∀ pause, Solo (w.addStrike who gen pause) := by
    intro pause
    unfold Window.addStrike
    dsimp only
    split
    · exact moves (x := { w with strikes := w.strikes + 1 }) _ rfl
    · exact moves (x := { w with strikes := w.strikes + 1 }) _ rfl
  cases next with
  | resetStrikes => exact Option.some.inj h ▸ moves (x := { w with strikes := 0 }) _ rfl
  | clearAnswer => exact Option.some.inj h ▸ moves (x := { w with keepaliveOk := false }) _ rfl
  | postChallenge =>
      exact Option.some.inj h ▸ moves (x := { w with challenge := some (nonce, w.now) }) _ rfl
  | forgive => exact Option.some.inj h ▸ moves (x := { w with strikes := 0 }) _ rfl
  | strike | strikeUnheard => exact Option.some.inj h ▸ struck _
  | checkCurrent | callClients | readAnswer | awaitAnswer | pause =>
      simp only [Window.beat] at h
      grind

theorem Solo.advance (solo : Solo w) {who : Nat} {nonce : Int} {wrote : Bool} {t : Task}
    (here : w.tasks[who]? = some t) (h : w.advance who nonce wrote t = some w') : Solo w' := by
  have moves : ∀ {x : Window} (new : Task), x.tasks = w.tasks → leads t = true →
      Solo (x.become who new) := by
    intro x new hx ht
    have same : Solo x := solo.frame hx
    exact same.become (hx ▸ here) fun _ => ht
  have ends : ∀ {x : Window} (new : Task), x.tasks = w.tasks → leads new = false →
      Solo (x.become who new) := by
    intro x new hx hnew
    have same : Solo x := solo.frame hx
    exact same.become (hx ▸ here) fun h => by
      rw [hnew] at h
      cases h
  have wrote_tasks : ∀ on, (w.setExempt on wrote).tasks = w.tasks := by
    intro on
    cases wrote <;> rfl
  cases t with
  | done => cases h
  | opening gen duration next =>
      cases next with
      | writeExempt => exact Option.some.inj h ▸ moves _ (wrote_tasks true) rfl
      | startKeepalive => exact Option.some.inj h ▸ solo.handOver here rfl rfl
      | startTimer =>
          have returned : Solo (w.become who .done) := ends (x := w) _ rfl rfl
          exact Option.some.inj h ▸ returned.spawn rfl
  | closing | expiring =>
      exact Option.some.inj h ▸ ends _ (wrote_tasks false) rfl
  | timer gen due =>
      simp only [Window.advance] at h
      split at h
      · cases h
      · split at h
        · exact Option.some.inj h ▸ ends (x := w) _ rfl rfl
        · exact Option.some.inj h ▸ ends (x := w) _ rfl rfl
  | keepalive gen next => exact solo.beat here h
  | shutting gen next =>
      cases next with
      | retire =>
          have hx : ∀ x : Window, x.tasks = w.tasks →
              Solo (x.become who (.shutting gen .dropChallenge)) :=
            fun x hx => moves _ hx rfl
          refine Option.some.inj h ▸ hx _ ?_
          split <;> rfl
      | dropChallenge =>
          exact Option.some.inj h ▸ moves (x := { w with challenge := none }) _ rfl rfl
      | withdraw => exact Option.some.inj h ▸ ends _ (wrote_tasks false) rfl
  | answering sent =>
      exact Option.some.inj h ▸ ends (x := { w with strikes := 0 }) _ rfl rfl
  | confirming sent =>
      simp only [Window.advance] at h
      split at h
      · exact Option.some.inj h ▸ ends (x := w) _ rfl rfl
      · exact Option.some.inj h ▸ ends (x := w) _ rfl rfl
  | satisfying =>
      exact Option.some.inj h ▸ ends (x := { w with keepaliveOk := true }) _ rfl rfl

/-- **One step**, and no other call of `setAuthenticated`. -/
theorem Solo.step (solo : Solo w) {m : Move} (alone : authenticates m = false)
    (h : w.step m = some w') : Solo w' := by
  cases m with
  | setAuthenticated => cases alone
  | run who nonce wrote =>
      simp only [Window.step] at h
      split at h
      next t here => exact solo.advance here h
      next => cases h
  | keepUnlocked nonce =>
      have taken : Solo { w with challenge := none } := solo.frame rfl
      simp only [Window.step] at h
      split at h
      · split at h
        · exact Option.some.inj h ▸ taken.spawn rfl
        · exact Option.some.inj h ▸ taken
      · exact Option.some.inj h ▸ taken
  | binderDied wrote =>
      cases h
      cases wrote <;> exact solo
  | setCallbacks n | tick ns =>
      cases h
      exact solo

/-! ## Rounds nobody answers -/

/-- A task that clears no count and satisfies no round, whatever it still does. -/
def Idle (w : Window) : Task → Prop
  | .done | .closing | .timer _ _ | .expiring | .opening _ _ .startTimer => True
  | .confirming sent => challengeDeadline < w.now - sent
  | _ => False

/-- The round has cleared the answer, and will look for one. -/
def looks : Beat → Bool
  | .postChallenge | .callClients | .awaitAnswer _ | .readAnswer => true
  | _ => false

/-- The thread is about to clear the count itself. -/
def clears : Beat → Bool
  | .resetStrikes | .forgive => true
  | _ => false

/-- How far the thread is after `c` rounds without an answer: it has counted every one of
them, and the third is the last. -/
def Striking (c : Nat) (w : Window) : Task → Prop
  | .keepalive _ next =>
      c ≤ w.strikes ∧ c < challengeStrikes ∧ clears next = false ∧
        (looks next = false ∨ w.keepaliveOk = false)
  | .shutting _ _ => c < challengeStrikes
  | .done => w.exempt = true → c < challengeStrikes
  | _ => False

/-- Nobody has answered for `c` rounds of the thread in place `k`, and nobody else is
about to. -/
structure Silent (k c : Nat) (w : Window) : Prop where
  thread : ∃ t, w.tasks[k]? = some t ∧ Striking c w t
  others : ∀ (j : Nat) t, w.tasks[j]? = some t → j ≠ k → Idle w t

variable {k c : Nat}

theorem Idle.later {t : Task} (idle : Idle w t) (hnow : w.now ≤ w'.now) : Idle w' t := by
  cases t with
  | confirming sent => exact Nat.lt_of_lt_of_le idle (Nat.sub_le_sub_right hnow sent)
  | opening gen duration next => cases next <;> exact idle
  | _ => exact idle

theorem Striking.frame {t : Task} (striking : Striking c w t) (hstrikes : w'.strikes = w.strikes)
    (hok : w'.keepaliveOk = w.keepaliveOk) (hexempt : w'.exempt = true → w.exempt = true) :
    Striking c w' t := by
  cases t with
  | keepalive gen next =>
      simp only [Striking, hstrikes, hok]
      exact striking
  | done => exact fun h => striking (hexempt h)
  | _ => exact striking

/-- What does not concern the thread. -/
theorem Silent.frame (silent : Silent k c w) (hstrikes : w'.strikes = w.strikes)
    (hok : w'.keepaliveOk = w.keepaliveOk) (hexempt : w'.exempt = true → w.exempt = true)
    (hnow : w.now ≤ w'.now) (htasks : w'.tasks = w.tasks) : Silent k c w' := by
  obtain ⟨t, here, striking⟩ := silent.thread
  refine ⟨⟨t, htasks ▸ here, striking.frame hstrikes hok hexempt⟩, ?_⟩
  intro j x hj hne
  exact (silent.others j x (htasks ▸ hj) hne).later hnow

/-- Another task moves on. -/
theorem Silent.become (silent : Silent k c w) {who : Nat} {new : Task} (hwho : who ≠ k)
    (hnew : Idle w new) : Silent k c (w.become who new) := by
  obtain ⟨t, here, striking⟩ := silent.thread
  refine ⟨⟨t, ?_, striking.frame rfl rfl id⟩, ?_⟩
  · exact (List.getElem?_set_ne hwho).trans here
  · intro j x hj hne
    rcases getElem?_set_some hj with ⟨-, rfl⟩ | ⟨-, hj⟩
    · exact hnew.later (Nat.le_refl _)
    · exact (silent.others j x hj hne).later (Nat.le_refl _)

theorem Silent.spawn (silent : Silent k c w) {new : Task} (hnew : Idle w new) :
    Silent k c (w.spawn new) := by
  obtain ⟨t, here, striking⟩ := silent.thread
  have hk := (List.getElem?_eq_some_iff.mp here).1
  refine ⟨⟨t, ?_, striking.frame rfl rfl id⟩, ?_⟩
  · exact (List.getElem?_append_left hk).trans here
  · intro j x hj hne
    rcases getElem?_concat_some hj with ⟨-, rfl⟩ | hj
    · exact hnew.later (Nat.le_refl _)
    · exact (silent.others j x hj hne).later (Nat.le_refl _)

/-- The thread moves on. -/
theorem Silent.moves (silent : Silent k c w) {x : Window} {c' : Nat} {new : Task}
    (htasks : x.tasks = w.tasks) (hnow : x.now = w.now) (striking : Striking c' x new) :
    Silent k c' (x.become k new) := by
  obtain ⟨t, here, -⟩ := silent.thread
  have hk := (List.getElem?_eq_some_iff.mp here).1
  refine ⟨⟨new, ?_, striking.frame rfl rfl id⟩, ?_⟩
  · exact List.getElem?_set_self (htasks ▸ hk)
  · intro j y hj hne
    rcases getElem?_set_some hj with ⟨rfl, -⟩ | ⟨-, hj⟩
    · exact absurd rfl hne
    · exact (silent.others j y (htasks ▸ hj) hne).later (Nat.le_of_eq hnow.symm)

theorem setExempt_false (w : Window) (wrote : Bool) :
    ((w.setExempt false wrote).exempt = true → w.exempt = true) ∧
      (w.setExempt false wrote).tasks = w.tasks ∧
      (w.setExempt false wrote).now = w.now ∧
      (w.setExempt false wrote).strikes = w.strikes ∧
      (w.setExempt false wrote).keepaliveOk = w.keepaliveOk := by
  cases wrote with
  | false => exact ⟨id, rfl, rfl, rfl, rfl⟩
  | true => exact ⟨fun h => (Bool.false_ne_true h).elim, rfl, rfl, rfl, rfl⟩

theorem Silent.withdraw (silent : Silent k c w) (wrote : Bool) :
    Silent k c (w.setExempt false wrote) := by
  obtain ⟨hexempt, htasks, hnow, hstrikes, hok⟩ := setExempt_false w wrote
  exact silent.frame hstrikes hok hexempt (Nat.le_of_eq hnow.symm) htasks

/-- An operation of a task that is not the thread. -/
theorem Silent.advance (silent : Silent k c w) {who : Nat} {nonce : Int} {wrote : Bool}
    {t : Task} (hwho : who ≠ k) (idle : Idle w t)
    (h : w.advance who nonce wrote t = some w') : Silent k c w' := by
  cases t with
  | done => cases h
  | opening gen duration next =>
      cases next with
      | writeExempt | startKeepalive => cases idle
      | startTimer =>
          cases h
          have returned : Silent k c (w.become who .done) := silent.become hwho trivial
          exact returned.spawn trivial
  | closing | expiring =>
      cases h
      exact (silent.withdraw wrote).become hwho trivial
  | timer gen due =>
      simp only [Window.advance] at h
      split at h
      · cases h
      · split at h
        · exact Option.some.inj h ▸ silent.become hwho trivial
        · exact Option.some.inj h ▸ silent.become hwho trivial
  | keepalive | shutting | answering | satisfying => cases idle
  | confirming sent =>
      simp only [Window.advance] at h
      split at h
      · exact Option.some.inj h ▸ silent.become hwho trivial
      next hlate => exact absurd idle hlate

/-- One more round nobody answered. -/
theorem Silent.addStrike (silent : Silent k c w) {gen pause : Nat} (counted : c ≤ w.strikes)
    (more : c < challengeStrikes) :
    Silent k (c + if w.strikes + 1 < challengeStrikes then 1 else 0) (w.addStrike k gen pause) := by
  have hcount : (w.addStrike k gen pause) =
      if w.strikes + 1 ≥ challengeStrikes then
        { w with strikes := w.strikes + 1 }.become k (.shutting gen .retire)
      else { w with strikes := w.strikes + 1 }.become k (.keepalive gen (.pause (w.now + pause))) :=
    rfl
  rw [hcount]
  by_cases hmore : w.strikes + 1 < challengeStrikes
  · rw [if_pos hmore, if_neg (by omega)]
    refine silent.moves (x := { w with strikes := w.strikes + 1 }) rfl rfl ?_
    exact ⟨Nat.succ_le_succ counted, by omega, rfl, .inl rfl⟩
  · rw [if_neg hmore, if_pos (by omega)]
    exact silent.moves (x := { w with strikes := w.strikes + 1 }) rfl rfl more

/-- An operation of the thread. -/
theorem Silent.beat (silent : Silent k c w) {gen : Nat} {nonce : Int} {wrote : Bool} {next : Beat}
    (here : w.tasks[k]? = some (.keepalive gen next))
    (h : w.beat k gen nonce next = some w') :
    Silent k (c + if endsRound w (.run k nonce wrote) then 1 else 0) w' := by
  obtain ⟨t, ht, striking⟩ := silent.thread
  obtain rfl : t = .keepalive gen next := Option.some.inj (ht.symm.trans here)
  obtain ⟨counted, more, hclears, hlooks⟩ := striking
  have goesOn : ∀ {x : Window} {new : Beat}, x.tasks = w.tasks → x.now = w.now →
      x.strikes = w.strikes → clears new = false → (looks new = false ∨ x.keepaliveOk = false) →
      Silent k c (x.become k (.keepalive gen new)) := by
    intro x new htasks hnow hstrikes hc hl
    exact silent.moves htasks hnow ⟨hstrikes ▸ counted, more, hc, hl⟩
  have ends : Silent k c (w.become k .done) := silent.moves rfl rfl fun _ => more
  have unheard : looks next = true → w.keepaliveOk = false := fun h =>
    hlooks.resolve_left (by rw [h]; decide)
  simp only [endsRound, here]
  cases next with
  | resetStrikes | forgive => cases hclears
  | checkCurrent =>
      simp only [Window.beat] at h
      split at h
      · exact Option.some.inj h ▸ ends
      · exact Option.some.inj h ▸ goesOn rfl rfl rfl rfl (.inl rfl)
  | clearAnswer =>
      cases h
      exact goesOn (x := { w with keepaliveOk := false }) rfl rfl rfl rfl (.inr rfl)
  | postChallenge =>
      cases h
      exact goesOn (x := { w with challenge := some (nonce, w.now) }) rfl rfl rfl rfl
        (.inr (unheard rfl))
  | callClients =>
      simp only [Window.beat] at h
      split at h
      · exact Option.some.inj h ▸ goesOn rfl rfl rfl rfl (.inl rfl)
      · exact Option.some.inj h ▸ goesOn rfl rfl rfl rfl (.inr (unheard rfl))
  | awaitAnswer due =>
      simp only [Window.beat] at h
      split at h
      · cases h
      · split at h
        · exact Option.some.inj h ▸ ends
        · exact Option.some.inj h ▸ goesOn rfl rfl rfl rfl (.inr (unheard rfl))
  | readAnswer =>
      simp only [Window.beat, unheard rfl] at h
      exact Option.some.inj h ▸ goesOn rfl rfl rfl rfl (.inl rfl)
  | strike | strikeUnheard =>
      cases h
      simp only [decide_eq_true_eq]
      exact silent.addStrike counted more
  | pause due =>
      simp only [Window.beat] at h
      split at h
      · cases h
      · exact Option.some.inj h ▸ goesOn rfl rfl rfl rfl (.inl rfl)

/-- The last operations of the thread. -/
theorem Silent.shut (silent : Silent k c w) {gen : Nat} {nonce : Int} {wrote : Bool}
    {next : Shutting} (here : w.tasks[k]? = some (.shutting gen next))
    (timely : Timely w (.run k nonce wrote)) :
    Silent k (c + if endsRound w (.run k nonce wrote) then 1 else 0) (w.shut k gen wrote next) := by
  obtain ⟨t, ht, striking⟩ := silent.thread
  obtain rfl : t = .shutting gen next := Option.some.inj (ht.symm.trans here)
  simp only [endsRound, here]
  cases next with
  | retire =>
      have goesOn : ∀ x : Window, x.tasks = w.tasks → x.now = w.now →
          Silent k c (x.become k (.shutting gen .dropChallenge)) :=
        fun x htasks hnow => silent.moves htasks hnow striking
      apply goesOn
      · split <;> rfl
      · split <;> rfl
  | dropChallenge => exact silent.moves (x := { w with challenge := none }) rfl rfl striking
  | withdraw =>
      simp only [Timely, isTimely, here] at timely
      have closed : (w.setExempt false wrote).exempt = false := by
        cases wrote with
        | true => rfl
        | false =>
            have hshut : w.exempt = false := by simpa using timely
            exact hshut
      refine silent.moves (setExempt_false w wrote).2.1 (setExempt_false w wrote).2.2.1 ?_
      intro hopen
      rw [closed] at hopen
      cases hopen

/-- **One step**, in which nobody answers. -/
theorem Silent.step (silent : Silent k c w) {m : Move} (alone : authenticates m = false)
    (timely : Timely w m) (unanswered : answers w m = false) (h : w.step m = some w') :
    Silent k (c + if endsRound w m then 1 else 0) w' := by
  cases m with
  | setAuthenticated => cases alone
  | run who nonce wrote =>
      simp only [Window.step] at h
      split at h
      next t here =>
        by_cases hwho : who = k
        · subst hwho
          obtain ⟨t', ht', striking⟩ := silent.thread
          obtain rfl : t' = t := Option.some.inj (ht'.symm.trans here)
          cases t' with
          | keepalive gen next => exact silent.beat here h
          | shutting gen next =>
              cases h
              exact silent.shut here timely
          | done => cases h
          | _ => cases striking
        · have idle := silent.others who t here hwho
          have hends : endsRound w (.run who nonce wrote) = false := by
            simp only [endsRound, here]
            cases t <;> first | rfl | cases idle
          rw [hends]
          exact silent.advance hwho idle h
      next => cases h
  | keepUnlocked nonce =>
      have taken : Silent k c { w with challenge := none } :=
        silent.frame rfl rfl id (Nat.le_refl _) rfl
      simp only [Window.step] at h
      simp only [answers] at unanswered
      split at h
      next want sent hchallenge =>
        rw [hchallenge] at unanswered
        rw [if_neg (of_decide_eq_false unanswered)] at h
        exact Option.some.inj h ▸ taken
      next => exact Option.some.inj h ▸ taken
  | binderDied wrote =>
      cases h
      exact silent.withdraw wrote
  | setCallbacks n =>
      cases h
      exact silent.frame rfl rfl id (Nat.le_refl _) rfl
  | tick ns =>
      cases h
      exact silent.frame rfl rfl id (Nat.le_add_right _ _) rfl

/-- **A run** in which nobody answers. -/
theorem Silent.run {acts : List Move} (silent : Silent k 0 w)
    (rest : Run (Restrict (ofPartial Window.step) Timely) w acts w')
    (alone : ∀ m ∈ acts, authenticates m = false)
    (unanswered : count Window.step answers w acts = 0) :
    Silent k (count Window.step endsRound w acts) w' := by
  induction rest with
  | nil => exact silent
  | @snoc acts m _ a rest last ih =>
      have run := rest.of_restrict
      rw [run.count_concat] at unanswered
      have before := ih (fun b hb => alone b (List.mem_append_left _ hb)) (by omega)
      have quiet : answers m a = false := by
        by_contra hanswers
        simp [hanswers] at unanswered
      rw [run.count_concat]
      exact before.step (alone a (by simp)) last.2 quiet last.1

/-- After the third round the window is shut. -/
theorem Silent.closed (silent : Silent k c w) (third : challengeStrikes ≤ c) :
    w.exempt = false := by
  obtain ⟨t, -, striking⟩ := silent.thread
  cases t with
  | keepalive gen next => exact absurd striking.2.1 (by omega)
  | shutting gen next => exact absurd striking (Nat.not_lt.mpr third)
  | done =>
      by_contra hopen
      exact absurd (striking (by simpa using hopen)) (by omega)
  | _ => cases striking

/-- A round begins, and every answer to an earlier one is stored. -/
theorem Solo.silent (solo : Solo w) {gen : Nat}
    (begins : w.tasks[k]? = some (.keepalive gen .clearAnswer))
    (stored : ∀ t ∈ w.tasks, storing w t = false) : Silent k 0 w := by
  obtain ⟨l, hl⟩ := solo
  obtain rfl := hl k _ begins rfl
  refine ⟨⟨_, begins, Nat.zero_le _, by decide, rfl, .inl rfl⟩, ?_⟩
  intro j t hj hne
  have hleads : leads t = false := by
    by_contra hleads
    exact hne (hl j t hj (by simpa using hleads))
  have hstoring := stored t (List.mem_of_getElem? hj)
  cases t with
  | opening gen duration next =>
      cases next with
      | writeExempt | startKeepalive => cases hleads
      | startTimer => trivial
  | keepalive | shutting => cases hleads
  | answering | satisfying => cases hstoring
  | confirming sent =>
      simp only [storing, decide_eq_false_iff_not, Nat.not_le] at hstoring
      exact hstoring
  | done | closing | timer | expiring => trivial

/-- **`keepUnlocked` opens nothing.** -/
theorem exempt_of_ofKeepUnlocked {m : Move} (call : ofKeepUnlocked w m = true)
    (h : w.step m = some w') : w'.exempt = w.exempt := by
  cases m with
  | setAuthenticated | binderDied | setCallbacks | tick => cases call
  | keepUnlocked nonce =>
      simp only [Window.step] at h
      split at h
      · split at h
        · exact Option.some.inj h ▸ rfl
        · exact Option.some.inj h ▸ rfl
      · exact Option.some.inj h ▸ rfl
  | run who nonce wrote =>
      simp only [Window.step] at h
      split at h
      next t here =>
        simp only [ofKeepUnlocked, here] at call
        cases t with
        | answering sent => exact Option.some.inj h ▸ rfl
        | satisfying => exact Option.some.inj h ▸ rfl
        | confirming sent =>
            simp only [Window.advance] at h
            split at h
            · exact Option.some.inj h ▸ rfl
            · exact Option.some.inj h ▸ rfl
        | _ => cases call
      next => cases h

/-- **Three rounds without an answer close the window.**  One call opens it, and from a
moment on at which a round begins, every round begins after the answers to those before
it are stored, and the property can be written.  Then the window is still open after
three rounds only if a call came in them with the nonce that was outstanding; and no
operation of `keepUnlocked` opens it again. -/
theorem silent_rounds_close {w₀ w₁ w w' : Window} {durationSeconds : Int} {pre span : List Move}
    {k gen : Nat} {nonce : Int} {wrote : Bool} (idle : w₀.tasks = [])
    (opens : w₀.step (.setAuthenticated true durationSeconds) = some w₁)
    (run : Run (ofPartial step) w₁ pre w)
    (begins : w.tasks[k]? = some (.keepalive gen .clearAnswer))
    (rest : Run (Restrict (ofPartial step) Timely) w (.run k nonce wrote :: span) w')
    (alone : ∀ m ∈ pre ++ span, authenticates m = false) :
    (challengeStrikes ≤ count step endsRound w (.run k nonce wrote :: span) →
        w'.exempt = true → 0 < count step answers w (.run k nonce wrote :: span)) ∧
      ∀ m next, ofKeepUnlocked w' m = true → w'.step m = some next →
        next.exempt = true → w'.exempt = true := by
  have fresh : Solo w₁ := by
    cases opens
    refine ⟨0, ?_⟩
    intro j t hj _
    simp only [Window.spawn, idle, List.nil_append] at hj
    exact Nat.lt_one_iff.mp (List.getElem?_eq_some_iff.mp hj).1
  have solo : Solo w := by
    refine run.invariant_acts
      (fun acts x => (∀ m ∈ acts, authenticates m = false) → Solo x) (fun _ => fresh) ?_
      fun m hm => alone m (List.mem_append_left _ hm)
    intro acts x m x' ih last hall
    exact (ih fun b hb => hall b (List.mem_append_left _ hb)).step (hall m (by simp)) last
  obtain ⟨_, first, -⟩ := rest.uncons
  have stored : ∀ t ∈ w.tasks, storing w t = false := by
    have timely := first.2
    simp only [Timely, isTimely, begins, Bool.not_eq_true', List.any_eq_false,
      Bool.not_eq_true] at timely
    exact timely
  refine ⟨?_, fun m next call h hopen => exempt_of_ofKeepUnlocked call h ▸ hopen⟩
  intro third hopen
  by_contra hnone
  have silent := (solo.silent begins stored).run rest
    (fun m hm => by
      rcases List.mem_cons.mp hm with rfl | hm
      · rfl
      · exact alone m (List.mem_append_right _ hm))
    (by omega)
  rw [silent.closed third] at hopen
  cases hopen

instance (w : Window) (m : Move) : Decidable (Timely w m) :=
  inferInstanceAs (Decidable (isTimely w m = true))

/-- A client is registered, and nothing is running. -/
def registered : Window := { callbacks := 1 }

/-- A minute is asked for. -/
def minuteAsked : Window :=
  { generation := 1, callbacks := 1, tasks := [.opening 1 60 .writeExempt] }

/-- The call opens the window and starts its thread and its timer; the thread resets the
count and finds its generation current. -/
def opened : List Move :=
  [.run 0 0 true, .run 0 0 true, .run 0 0 true, .run 1 0 true, .run 1 0 true]

/-- The first round begins. -/
def roundBegins : Window :=
  { generation := 1, exempt := true, callbacks := 1
    tasks := [.done, .keepalive 1 .clearAnswer, .timer 1 (secs 60)] }

/-- What is left of a round that is answered in time, by the task in place `who`. -/
def answeredRound (who : Nat) : List Move :=
  [.run 1 7 true, .run 1 7 true, .keepUnlocked 7, .run who 0 true, .run who 0 true,
    .run who 0 true, .tick (secs 4), .run 1 0 true, .run 1 0 true, .run 1 0 true]

/-- The pause, and the beginning of the next round. -/
def nextRound : List Move := [.tick (secs 1), .run 1 0 true, .run 1 0 true, .run 1 0 true]

/-- Three rounds, each answered in time. -/
def answeredRounds : List Move :=
  answeredRound 3 ++ nextRound ++ answeredRound 4 ++ nextRound ++ answeredRound 5

theorem answeredRounds_open :
    ∃ w', Run (Restrict (ofPartial step) Timely) roundBegins (.run 1 0 true :: answeredRounds) w' ∧
      w'.exempt = true ∧
      challengeStrikes ≤ count step endsRound roundBegins (.run 1 0 true :: answeredRounds) ∧
      0 < count step answers roundBegins (.run 1 0 true :: answeredRounds) := by
  obtain ⟨w', guarded, hopen⟩ := run_observe (guarded step Timely) Window.exempt
    (show (((Move.run 1 0 true :: answeredRounds).foldlM (guarded step Timely) roundBegins).map
      Window.exempt) = some true by decide +kernel)
  have rest := guarded.of_guarded
  have opens : registered.step (.setAuthenticated true 60) = some minuteAsked := by decide
  have run : Run (ofPartial step) minuteAsked opened roundBegins := run_foldlM step (by decide)
  have hthree : challengeStrikes ≤
      count step endsRound roundBegins (.run 1 0 true :: answeredRounds) := by decide +kernel
  have alone : ∀ m ∈ opened ++ answeredRounds, authenticates m = false := by decide
  have hanswered := silent_rounds_close rfl opens run rfl rest alone
  exact ⟨w', rest, hopen, hthree, hanswered.1 hthree hopen⟩

/-- The first round is over, and the call that answered it in time has yet to store. -/
def answerBehind : Window :=
  { generation := 1, exempt := true, callbacks := 1, strikes := 1, now := secs 5
    tasks := [.done, .keepalive 1 .clearAnswer, .timer 1 (secs 60), .answering 0] }

/-- A round that nobody answers. -/
def unansweredRound : List Move :=
  [.run 1 8 true, .run 1 8 true, .tick (secs 4), .run 1 0 true, .run 1 0 true, .run 1 0 true]

/-- Three rounds that nobody answers; after the first of them the call stores what it has
to store. -/
def unansweredRounds : List Move :=
  unansweredRound ++ [.run 3 0 true] ++ nextRound ++ unansweredRound ++ nextRound ++
    unansweredRound

/-- A call of an earlier round clears the count of a later one, and the window is open
after three rounds nobody answered. -/
theorem late_store_keeps :
    ¬ ∀ (w₀ w₁ w w' : Window) (durationSeconds : Int) (pre span : List Move) (k gen : Nat)
      (nonce : Int) (wrote : Bool), w₀.tasks = [] →
      w₀.step (.setAuthenticated true durationSeconds) = some w₁ →
      Run (ofPartial step) w₁ pre w →
      w.tasks[k]? = some (.keepalive gen .clearAnswer) →
      Run (ofPartial step) w (.run k nonce wrote :: span) w' →
      (∀ m ∈ pre ++ span, authenticates m = false) →
      (challengeStrikes ≤ count step endsRound w (.run k nonce wrote :: span) →
          w'.exempt = true → 0 < count step answers w (.run k nonce wrote :: span)) ∧
        ∀ m next, ofKeepUnlocked w' m = true → w'.step m = some next →
          next.exempt = true → w'.exempt = true := by
  intro claim
  obtain ⟨w', rest, hopen⟩ := run_observe step Window.exempt
    (show (((Move.run 1 0 true :: unansweredRounds).foldlM step answerBehind).map
      Window.exempt) = some true by decide +kernel)
  have opens : registered.step (.setAuthenticated true 60) = some minuteAsked := by decide
  have run : Run (ofPartial step) minuteAsked
      (opened ++ [.run 1 0 true, .run 1 7 true, .run 1 0 true, .keepUnlocked 7, .tick (secs 4),
        .run 1 0 true, .run 1 0 true, .run 1 0 true, .tick (secs 1), .run 1 0 true,
        .run 1 0 true]) answerBehind := run_foldlM step (by decide +kernel)
  have hanswered := (claim registered minuteAsked answerBehind w' 60 _ unansweredRounds 1 1 0 true
    rfl opens run rfl rest (by decide)).1 (by decide +kernel) hopen
  exact absurd hanswered (by decide +kernel)

end Window

end Sharingd
