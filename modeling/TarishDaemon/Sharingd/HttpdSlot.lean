import TarishDaemon.Sharingd.HttpdConsent

/-!
# Which AirDrop connections leave the slot claimed

`/Ask` claims the transfer slot and `/Upload` gives it back, and between the two
lie a reply, a wait for the next request and whatever the peer does meanwhile.
`SlotGuard` frees the slot "HOWEVER" the owning thread ends; the AirDrop
receiver does not hold one.  It calls `finish` on each refusal and at the end of
an upload, and every other way out of `serve_connection` calls nothing: the peer
hangs up after an accepted offer, the 200 cannot be written, the connection was
not keep-alive, or another request on it ends it.

`unreleasedExit` lists those ways out.  `slot_let_go` says that they are the
whole difference: as long as each is taken with the slot in other hands, no
connection that is over still owns it, and the first one taken otherwise leaves
it claimed.
-/

namespace Sharingd

/-- The server, with the ids each connection has obtained from `try_begin`. -/
structure Tracked where
  server : Server := {}
  given : Nat → List Int := fun _ => []

/-- The id a connection's thread will pass to `finish`. -/
def Conn.holding : Conn → Option Int
  | .begun id _ _ | .asking id _ | .refusing id | .uploading id => some id
  | .waiting | .admitted | .closed => none

namespace Tracked

/-- Whoever is inside `/Ask` right after a request came has just obtained an
id. -/
def record (given : Nat → List Int) (after : Server) : Move → Nat → List Int
  | .request c _ _ _ =>
      match after.conn c with
      | .begun id _ _ => Function.update given c (id :: given c)
      | _ => given
  | _ => given

def step (t : Tracked) (m : Move) : Option Tracked :=
  (t.server.step m).map fun after => { server := after, given := record t.given after m }

/-- No connection that is over still owns the slot. -/
def Free (t : Tracked) : Prop :=
  ∀ c, t.server.conn c = .closed → t.server.shared.current ∉ t.given c

/-- The connection that ends with this reply, unless it was sent and asked for
keep-alive. -/
def lastReply (keepAlive sent : Bool) (c : Nat) : Option Nat :=
  if keepAlive && sent then none else some c

/-- The connection that the move ends without a call of `finish`. -/
def unreleasedExit (s : Server) : Move → Option Nat
  | .request c .tooLarge _ _ => some c
  | .request c .head keepAlive sent | .request c .discover keepAlive sent =>
      if s.discoverable then lastReply keepAlive sent c else some c
  | .request c (.ask _) _ _ =>
      if s.discoverable ∧ (s.shared.current = 0 ∨ s.shared.isStale s.now) then none else some c
  | .request c .upload _ _ => if s.shared.current = 0 then some c else none
  | .request c .other keepAlive sent => lastReply keepAlive sent c
  | .decide c sent =>
      match s.conn c with
      | .begun _ (some _) keepAlive =>
          if s.autoAccept then lastReply keepAlive sent c else none
      | _ => none
  | .poll c sent =>
      match s.conn c with
      | .asking id keepAlive =>
          if s.shared.decision = some (id, true) then lastReply keepAlive sent c else none
      | _ => none
  | .hangUp c => some c
  | _ => none

/-- A connection that ends without a `finish` does not own the slot. -/
def LetGo (t : Tracked) (m : Move) : Prop :=
  match unreleasedExit t.server m with
  | some c => t.server.shared.current ∉ t.given c
  | none => True

instance (t : Tracked) (m : Move) : Decidable (LetGo t m) := by
  unfold LetGo
  split <;> infer_instance

/-! ## The invariant -/

/-- Ids are positive and drawn so far, and a thread that is about to finish an
id is about to finish the right one, if it owns the slot at all. -/
structure Kept (t : Tracked) : Prop where
  counter : 0 ≤ t.server.shared.next
  drawn : ∀ c, ∀ i ∈ t.given c, 0 < i ∧ i ≤ t.server.shared.next
  mine : ∀ c id, (t.server.conn c).holding = some id →
    t.server.shared.current ∈ t.given c → t.server.shared.current = id
  free : Free t

variable {t t' : Tracked} {s s' : Server} {given : Nat → List Int}

theorem kept_init : Kept {} := by
  refine ⟨?_, ?_, ?_, ?_⟩ <;> simp [Free, Conn.holding]

theorem Kept.zero_not_given (kept : Kept t) (c : Nat) : (0 : Int) ∉ t.given c := by
  intro h
  have := (kept.drawn c 0 h).1
  omega

theorem Kept.next_not_given (kept : Kept t) (c : Nat) :
    t.server.shared.next + 1 ∉ t.given c := by
  intro h
  have := (kept.drawn c _ h).2
  omega

theorem Kept.note (kept : Kept ⟨s, given⟩) (f : Fact) : Kept ⟨s.note f, given⟩ :=
  ⟨kept.counter, kept.drawn, kept.mine, kept.free⟩

/-- The shared state changes, and the slot keeps its owner or loses it. -/
theorem Kept.shared (kept : Kept ⟨s, given⟩) {x : TransferState}
    (hcur : x.current = s.shared.current ∨ x.current = 0)
    (hnext : x.next = s.shared.next) : Kept ⟨{ s with shared := x }, given⟩ := by
  have owned : ∀ c, x.current ∈ given c → x.current = s.shared.current := by
    intro c hmem
    rcases hcur with h | h
    · exact h
    · exact absurd (h ▸ hmem) (kept.zero_not_given c)
  refine ⟨?_, ?_, ?_, ?_⟩
  · simpa only [hnext] using kept.counter
  · simpa only [hnext] using kept.drawn
  · intro c id hid hmem
    have hsame := owned c hmem
    exact hsame ▸ kept.mine c id hid (hsame ▸ hmem)
  · intro c hclosed hmem
    exact kept.free c hclosed (owned c hmem ▸ hmem)

theorem Kept.setConn (kept : Kept ⟨s, given⟩) {c : Nat} {k : Conn}
    (hmine : ∀ id, k.holding = some id → s.shared.current ∈ given c → s.shared.current = id)
    (hfree : k = .closed → s.shared.current ∉ given c) : Kept ⟨s.setConn c k, given⟩ := by
  refine ⟨kept.counter, kept.drawn, ?_, ?_⟩
  · intro d id hid
    by_cases hdc : d = c
    · subst hdc
      exact hmine id (by simpa [Server.setConn] using hid)
    · exact kept.mine d id (by simpa [Server.setConn, Function.update, hdc] using hid)
  · intro d hclosed
    by_cases hdc : d = c
    · subst hdc
      exact hfree (by simpa [Server.setConn] using hclosed)
    · exact kept.free d (by simpa [Server.setConn, Function.update, hdc] using hclosed)

/-- A connection moves on and holds the id it held, or none. -/
theorem Kept.setConn_within (kept : Kept ⟨s, given⟩) {c : Nat} {k : Conn}
    (hopen : k ≠ .closed) (same : ∀ id, k.holding = some id → (s.conn c).holding = some id) :
    Kept ⟨s.setConn c k, given⟩ :=
  kept.setConn (fun id hid => kept.mine c id (same id hid)) fun h => absurd h hopen

theorem Kept.finish (kept : Kept ⟨s, given⟩) (id : Int) : Kept ⟨s.finish id, given⟩ := by
  refine kept.shared ?_ rfl
  show casClear s.shared.current id = s.shared.current ∨ casClear s.shared.current id = 0
  unfold casClear
  split
  · exact .inr rfl
  · exact .inl rfl

/-- A connection gives back what it holds and closes. -/
theorem Kept.release (kept : Kept ⟨s, given⟩) {c : Nat} {id : Int}
    (here : (s.conn c).holding = some id) :
    Kept ⟨(s.finish id).setConn c .closed, given⟩ := by
  refine (kept.finish id).setConn (by simp [Conn.holding]) ?_
  intro _ hmem
  change casClear s.shared.current id ∈ given c at hmem
  by_cases hcur : s.shared.current = id
  · rw [hcur, casClear_self] at hmem
    exact kept.zero_not_given c hmem
  · rw [casClear_of_ne hcur] at hmem
    exact hcur (kept.mine c id here hmem)

/-- Somebody claims the slot with the next id. -/
theorem Kept.claim (kept : Kept ⟨s, given⟩) {x : TransferState}
    (hcur : x.current = s.shared.next + 1) (hnext : x.next = s.shared.next + 1) :
    Kept ⟨{ s with shared := x }, given⟩ := by
  have fresh : ∀ c, x.current ∉ given c := fun c => hcur ▸ kept.next_not_given c
  refine ⟨?_, ?_, fun c id _ hmem => absurd hmem (fresh c), fun c _ => fresh c⟩
  · have := kept.counter
    simp only at this ⊢
    omega
  · intro c i hi
    have := kept.drawn c i hi
    simp only at this ⊢
    omega

/-- `try_begin` is refused exactly when the slot is taken by a transfer that is
not stale. -/
theorem tryBegin_busy_or_fresh (x : TransferState) (now : Nat) (needsAwdl : Bool) :
    (¬ (x.current = 0 ∨ x.isStale now = true) ∧ x.tryBegin now now needsAwdl = (none, x)) ∨
      ((x.current = 0 ∨ x.isStale now = true) ∧
        ∃ y, x.tryBegin now now needsAwdl = (some (x.next + 1), y) ∧
          y.current = x.next + 1 ∧ y.next = x.next + 1) := by
  by_cases hfree : x.current = 0
  · refine .inr ⟨.inl hfree, (x.claim now needsAwdl).2, ?_, ?_, ?_⟩ <;>
      simp [TransferState.tryBegin, TransferState.claim, TransferState.touch, hfree]
  · by_cases hstale : x.isStale now = true
    · refine .inr ⟨.inr hstale, ((x.finish x.current).claim now needsAwdl).2, ?_, ?_, ?_⟩ <;>
        simp [TransferState.tryBegin, TransferState.claim, TransferState.touch, hfree, hstale,
          TransferState.finish_eq]
    · exact .inl ⟨by simp [hfree, hstale], by simp [TransferState.tryBegin, hfree, hstale]⟩

/-- An `/Ask` is turned away, or claims the slot with the next id. -/
theorem request_ask (s : Server) (c : Nat) (keepAlive sent : Bool)
    (offer : Option (String × List String)) :
    (¬ (s.discoverable = true ∧ (s.shared.current = 0 ∨ s.shared.isStale s.now = true)) ∧
      s.request c keepAlive sent (.ask offer) = s.setConn c .closed) ∨
    ((s.discoverable = true ∧ (s.shared.current = 0 ∨ s.shared.isStale s.now = true)) ∧
      ∃ x : TransferState, x.current = s.shared.next + 1 ∧ x.next = s.shared.next + 1 ∧
        s.request c keepAlive sent (.ask offer) =
          ({ s with shared := x }.note (.asked x.current)).setConn c
            (.begun x.current offer keepAlive)) := by
  by_cases hvisible : s.discoverable = true
  · rcases tryBegin_busy_or_fresh s.shared s.now true with
      ⟨hbusy, hb⟩ | ⟨hfree, x, hb, hcur, hnext⟩
    · refine .inl ⟨fun h => hbusy h.2, ?_⟩
      simp only [Server.request, if_pos hvisible, hb]
    · refine .inr ⟨⟨hvisible, hfree⟩, x, hcur, hnext, ?_⟩
      simp only [Server.request, if_pos hvisible, hb, hcur]
  · refine .inl ⟨fun h => hvisible h.1, ?_⟩
    simp only [Server.request, if_neg hvisible]

/-- The connection of a thread that has just claimed the slot. -/
theorem Kept.ask (kept : Kept ⟨s, given⟩) (c : Nat) {x : TransferState}
    (offer : Option (String × List String)) (keepAlive : Bool)
    (hcur : x.current = s.shared.next + 1) (hnext : x.next = s.shared.next + 1) :
    Kept ⟨({ s with shared := x }.note (.asked x.current)).setConn c
        (.begun x.current offer keepAlive),
      Function.update given c (x.current :: given c)⟩ := by
  have claimed := kept.claim hcur hnext
  have fresh : ∀ d, x.current ∉ given d := fun d => hcur ▸ kept.next_not_given d
  refine ⟨claimed.counter, ?_, ?_, ?_⟩
  · intro d i hi
    by_cases hdc : d = c
    · subst hdc
      have hi' : i = x.current ∨ i ∈ given d := by simpa using hi
      rcases hi' with rfl | hold
      · have := kept.counter
        simp only [Server.setConn, Server.note] at this ⊢
        omega
      · exact claimed.drawn d i hold
    · exact claimed.drawn d i (by simpa [Function.update, hdc] using hi)
  · intro d id hid hmem
    by_cases hdc : d = c
    · subst hdc
      simpa [Server.setConn, Server.note, Conn.holding] using hid
    · have hmem' : x.current ∈ given d := by
        simpa [Function.update, hdc, Server.setConn, Server.note] using hmem
      exact absurd hmem' (fresh d)
  · intro d hclosed hmem
    by_cases hdc : d = c
    · subst hdc
      simp [Server.setConn, Server.note] at hclosed
    · refine fresh d ?_
      simpa [Function.update, hdc, Server.setConn, Server.note] using hmem

/-- A reply on a connection that holds nothing any more. -/
theorem Kept.reply (kept : Kept ⟨s, given⟩) {c : Nat} {keepAlive sent : Bool}
    (letGo : lastReply keepAlive sent c = some c → s.shared.current ∉ given c) :
    Kept ⟨s.setConn c (afterReply keepAlive sent), given⟩ := by
  unfold afterReply
  unfold lastReply at letGo
  split
  · exact kept.setConn (by simp [Conn.holding]) (by simp)
  next hlast =>
    refine kept.setConn (by simp [Conn.holding]) fun _ => ?_
    exact letGo (by simp [hlast])

theorem record_of_not_begun {c : Nat} {r : Request} {keepAlive sent : Bool}
    (h : ∀ id offer ka, s'.conn c ≠ .begun id offer ka) :
    record given s' (.request c r keepAlive sent) = given := by
  simp only [record]

theorem afterReply_ne_begun (keepAlive sent : Bool) (id : Int)
    (offer : Option (String × List String)) (ka : Bool) :
    afterReply keepAlive sent ≠ .begun id offer ka := by
  unfold afterReply
  split <;> simp

theorem Kept.request (kept : Kept ⟨s, given⟩) {c : Nat} {r : Request} {keepAlive sent : Bool}
    (letGo : LetGo ⟨s, given⟩ (.request c r keepAlive sent)) :
    Kept ⟨s.request c keepAlive sent r,
      record given (s.request c keepAlive sent r) (.request c r keepAlive sent)⟩ := by
  -- only a successful `/Ask` records anything
  have unrecorded : ∀ k, (∀ id offer ka, k ≠ .begun id offer ka) →
      record given (s.setConn c k) (.request c r keepAlive sent) = given := by
    intro k hk
    apply record_of_not_begun
    simpa [Server.setConn] using hk
  have close : s.shared.current ∉ given c →
      Kept ⟨s.setConn c .closed,
        record given (s.setConn c .closed) (.request c r keepAlive sent)⟩ := by
    intro h
    rw [unrecorded _ (by simp)]
    exact kept.setConn (by simp [Conn.holding]) fun _ => h
  have reply : (lastReply keepAlive sent c = some c → s.shared.current ∉ given c) →
      Kept ⟨s.setConn c (afterReply keepAlive sent),
        record given (s.setConn c (afterReply keepAlive sent))
          (.request c r keepAlive sent)⟩ := by
    intro h
    rw [unrecorded _ (afterReply_ne_begun _ _)]
    exact kept.reply h
  cases r with
  | tooLarge => exact close letGo
  | head | discover =>
      simp only [Server.request]
      simp only [LetGo, unreleasedExit] at letGo
      split
      next hvisible =>
        refine reply fun hlast => ?_
        simpa [hvisible, hlast] using letGo
      next hhidden =>
        exact close (by simpa [hhidden] using letGo)
  | ask offer =>
      simp only [LetGo, unreleasedExit] at letGo
      rcases request_ask s c keepAlive sent offer with ⟨hno, hreq⟩ | ⟨-, x, hcur, hnext, hreq⟩
      · rw [hreq]
        exact close (by simpa only [if_neg hno] using letGo)
      · rw [hreq]
        simpa [record, Server.setConn] using kept.ask c offer keepAlive hcur hnext
  | upload =>
      simp only [Server.request]
      split
      next hidle => exact close (hidle ▸ kept.zero_not_given c)
      next =>
        rw [unrecorded _ (by simp)]
        exact kept.setConn (by simp [Conn.holding]) (by simp)
  | other =>
      refine reply fun hlast => ?_
      simp only [LetGo, unreleasedExit, hlast] at letGo
      exact letGo

theorem awaitAnswer_eq (x : TransferState) (id : Int) :
    (x.awaitAnswer id).2.current = x.current ∧ (x.awaitAnswer id).2.next = x.next := by
  unfold TransferState.awaitAnswer
  split <;> exact ⟨rfl, rfl⟩

theorem awaitAnswer_yes {x : TransferState} {id : Int}
    (h : (x.awaitAnswer id).1 = some true) : x.decision = some (id, true) := by
  unfold TransferState.awaitAnswer at h
  split at h
  next who accept hslot =>
    simp only [Option.ite_none_right_eq_some, Option.some.injEq] at h
    rw [hslot, h.1, h.2]
  next => cases h

theorem isSide_next {call : Call} (h : call.isSide = true) (x : TransferState) :
    (x.call call).next = x.next := by
  cases call with
  | touch now => rfl
  | armWifiDirect =>
      simp only [TransferState.call, TransferState.armWifiDirect]
      split
      · rfl
      · split <;> rfl
  | armAbort id sock => cases sock <;> rfl
  | cancel id => rfl
  | cancelGrace id =>
      simp only [TransferState.call, TransferState.cancelGrace]
      split <;> rfl
  | provideUpgrade id sock => rfl
  | awaitUpgrade id =>
      simp only [TransferState.call, TransferState.awaitUpgrade]
      split
      · split <;> rfl
      · rfl
  | tryBegin checked stamped needsAwdl => cases h
  | finish id => cases h
  | answer id accept => cases h
  | awaitAnswer id => cases h

/-- The `/Ask` handler settles whether to ask. -/
theorem Kept.decide (kept : Kept ⟨s, given⟩) {c : Nat} {sent : Bool}
    (letGo : LetGo ⟨s, given⟩ (.decide c sent)) (h : s.step (.decide c sent) = some s') :
    Kept ⟨s', given⟩ := by
  cases Server.steps_of_step h with
  | unsafeName here => exact kept.setConn_within (by simp) (by simp [here, Conn.holding])
  | policy here hauto =>
      rename_i id offer keepAlive
      have answered := kept.shared (x := s.shared.answer id true) (.inl rfl) rfl
      refine (answered.note _).reply fun hlast => ?_
      simp only [LetGo, unreleasedExit, here, hauto, if_true, hlast] at letGo
      exact letGo
  | asks here _ => exact kept.setConn_within (by simp) (by simp [here, Conn.holding])

/-- One look at the answer slot by the `/Ask` handler. -/
theorem Kept.poll (kept : Kept ⟨s, given⟩) {c : Nat} {sent : Bool}
    (letGo : LetGo ⟨s, given⟩ (.poll c sent)) (h : s.step (.poll c sent) = some s') :
    Kept ⟨s', given⟩ := by
  have looked : ∀ id, Kept ⟨{ s with shared := (s.shared.awaitAnswer id).2 }, given⟩ := by
    intro id
    obtain ⟨hcur, hnext⟩ := awaitAnswer_eq s.shared id
    exact kept.shared (.inl hcur) hnext
  cases Server.steps_of_step h with
  | accepted here hanswer =>
      rename_i id keepAlive
      refine (looked id).reply fun hlast => ?_
      simp only [LetGo, unreleasedExit, here, awaitAnswer_yes hanswer, if_true, hlast] at letGo
      simpa only [(awaitAnswer_eq s.shared id).1] using letGo
  | declined here _ =>
      exact (looked _).setConn_within (by simp) (by simp [here, Conn.holding])
  | unanswered _ _ => exact looked _

/-- **One step.**  Every move keeps the invariant, if nobody leaves with the
slot. -/
theorem Kept.step (kept : Kept ⟨s, given⟩) {m : Move} (letGo : LetGo ⟨s, given⟩ m)
    (h : s.step m = some s') : Kept ⟨s', record given s' m⟩ := by
  cases m with
  | request c r keepAlive sent =>
      cases Server.steps_of_step h with
      | request _ => exact kept.request letGo
  | decide c sent => exact kept.decide letGo h
  | poll c sent => exact kept.poll letGo h
  | giveUp c =>
      cases Server.steps_of_step h with
      | giveUp here => exact kept.setConn_within (by simp) (by simp [here, Conn.holding])
  | refuse c =>
      cases Server.steps_of_step h with
      | refuse here => exact kept.release (by simp [here, Conn.holding])
  | stored c =>
      cases Server.steps_of_step h with
      | stored here => exact kept.release (by simp [here, Conn.holding])
  | load c =>
      cases Server.steps_of_step h with
      | load here =>
          -- the upload will finish whatever is current now
          refine (kept.note _).setConn ?_ (by simp)
          intro id hid _
          simpa [Server.note, Conn.holding] using hid
  | progress c =>
      cases Server.steps_of_step h with
      | progress _ => exact kept.shared (.inl rfl) rfl
  | hangUp c =>
      cases Server.steps_of_step h with
      | hangUp _ => exact kept.setConn (by simp [Conn.holding]) fun _ => letGo
  | userAnswer id accept =>
      cases h
      have answered := kept.shared (x := s.shared.answer id accept) (.inl rfl) rfl
      exact answered.note _
  | beginOther needsAwdl =>
      simp only [Server.step] at h
      rcases tryBegin_busy_or_fresh s.shared s.now needsAwdl with ⟨-, hb⟩ | ⟨-, x, hb, hcur, hnext⟩
      · rw [hb] at h
        cases h
        exact kept
      · rw [hb] at h
        cases h
        have := kept.claim hcur hnext
        exact ⟨this.counter, this.drawn, this.mine, this.free⟩
  | finishOther id =>
      cases Server.steps_of_step h with
      | finishOther _ => exact kept.finish id
  | pollOther id =>
      cases Server.steps_of_step h with
      | pollOther _ =>
          obtain ⟨hcur, hnext⟩ := awaitAnswer_eq s.shared id
          exact kept.shared (.inl hcur) hnext
  | side call =>
      cases Server.steps_of_step h with
      | side hside =>
          exact kept.shared (.inl (Server.isSide_call hside s.shared).1) (isSide_next hside s.shared)
  | setDiscoverable on | setAutoAccept on | tick ns =>
      cases h
      exact ⟨kept.counter, kept.drawn, kept.mine, kept.free⟩

theorem afterReply_of_last {keepAlive sent : Bool} {c d : Nat}
    (h : lastReply keepAlive sent c = some d) :
    c = d ∧ afterReply keepAlive sent = .closed := by
  unfold lastReply at h
  unfold afterReply
  split at h
  · cases h
  next hlast => exact ⟨Option.some.inj h, if_neg hlast⟩

/-- A request that ends its connection closes it, and the slot stays as it was. -/
theorem closed_of_request (given : Nat → List Int) {d c : Nat} {r : Request}
    {keepAlive sent : Bool} (hexit : unreleasedExit s (.request d r keepAlive sent) = some c) :
    (s.request d keepAlive sent r).conn c = .closed ∧
      (s.request d keepAlive sent r).shared.current = s.shared.current ∧
      record given (s.request d keepAlive sent r) (.request d r keepAlive sent) = given := by
  -- in each case the request does nothing but close
  suffices hreq : c = d ∧ s.request d keepAlive sent r = s.setConn d .closed by
    obtain ⟨rfl, hreq⟩ := hreq
    have hclosed : (s.setConn c .closed).conn c = .closed := by simp [Server.setConn]
    rw [hreq]
    exact ⟨hclosed, rfl, record_of_not_begun (by simp [hclosed])⟩
  cases r with
  | tooLarge =>
      cases hexit
      exact ⟨rfl, rfl⟩
  | head | discover =>
      simp only [unreleasedExit] at hexit
      split at hexit
      next hvisible =>
        obtain ⟨rfl, hlast⟩ := afterReply_of_last hexit
        refine ⟨rfl, ?_⟩
        simp only [Server.request, if_pos hvisible, hlast]
      next hhidden =>
        cases hexit
        refine ⟨rfl, ?_⟩
        simp only [Server.request, if_neg hhidden]
  | ask offer =>
      simp only [unreleasedExit] at hexit
      rcases request_ask s d keepAlive sent offer with ⟨hno, hreq⟩ | ⟨hgranted, -⟩
      · rw [if_neg hno] at hexit
        exact ⟨(Option.some.inj hexit).symm, hreq⟩
      · rw [if_pos hgranted] at hexit
        cases hexit
  | upload =>
      simp only [unreleasedExit] at hexit
      split at hexit
      next hidle =>
        cases hexit
        refine ⟨rfl, ?_⟩
        simp only [Server.request, if_pos hidle]
      · cases hexit
  | other =>
      obtain ⟨rfl, hlast⟩ := afterReply_of_last hexit
      refine ⟨rfl, ?_⟩
      simp only [Server.request, hlast]

/-- Such an exit does close its connection, and the slot stays as it was. -/
theorem closed_of_unreleasedExit (given : Nat → List Int) {m : Move} {c : Nat}
    (hexit : unreleasedExit s m = some c)
    (h : s.step m = some s') :
    s'.conn c = .closed ∧ s'.shared.current = s.shared.current ∧
      record given s' m = given := by
  cases m with
  | request d r keepAlive sent =>
      cases Server.steps_of_step h with
      | request _ => exact closed_of_request given hexit
  | decide d sent =>
      simp only [unreleasedExit] at hexit
      split at hexit
      next id offer keepAlive here =>
        split at hexit
        next hauto =>
          obtain ⟨rfl, hlast⟩ := afterReply_of_last hexit
          simp only [Server.step, here, hauto, hlast, if_true] at h
          cases h
          simp [Server.setConn, Server.note, TransferState.answer, record]
        next => cases hexit
      next => cases hexit
  | poll d sent =>
      simp only [unreleasedExit] at hexit
      split at hexit
      next id keepAlive here =>
        split at hexit
        next hyes =>
          obtain ⟨rfl, hlast⟩ := afterReply_of_last hexit
          simp only [Server.step, here, TransferState.awaitAnswer, hyes, hlast, if_true] at h
          cases h
          simp [Server.setConn, record]
        next => cases hexit
      next => cases hexit
  | hangUp d =>
      cases hexit
      cases Server.steps_of_step h with
      | hangUp _ => simp [Server.setConn, record]
  | giveUp | refuse | load | progress | stored | userAnswer | beginOther | finishOther
  | pollOther | side | setDiscoverable | setAutoAccept | tick => cases hexit

/-- **Every AirDrop connection.**  In every run in which each connection that
ends without a `finish` ends with the slot in other hands, no connection that is
over owns the slot; and the next step keeps that exactly when it, too, is
such. -/
theorem slot_let_go {moves : List Move}
    (run : Lts.Run (Lts.Restrict (Lts.ofPartial step) LetGo) {} moves t) :
    Free t ∧ ∀ m t', t.step m = some t' → (Free t' ↔ LetGo t m) := by
  have step_eq : ∀ {u u' : Tracked} {m}, u.step m = some u' →
      ∃ after, u.server.step m = some after ∧ ⟨after, record u.given after m⟩ = u' :=
    fun h => Option.map_eq_some_iff.mp h
  have kept : Kept t := by
    refine run.invariant Kept kept_init ?_
    intro u m u' kept h
    obtain ⟨after, hafter, rfl⟩ := step_eq h.1
    exact kept.step h.2 hafter
  refine ⟨kept.free, ?_⟩
  intro m t' h
  obtain ⟨after, hafter, rfl⟩ := step_eq h
  constructor
  · intro free
    unfold LetGo
    split
    next c hexit =>
      obtain ⟨hclosed, hcur, hgiven⟩ := closed_of_unreleasedExit t.given hexit hafter
      have := free c hclosed
      simp only [hcur, hgiven] at this
      exact this
    next => trivial
  · intro letGo
    exact (kept.step letGo hafter).free

/-- An offer is accepted, uploaded and stored. -/
def storedUpload : List Move :=
  Server.acceptedUpload ++ [Move.load 0, .progress 0, .stored 0]

/-- The plain exchange gives the slot back: connection 0 obtained id 1, is over
and nobody owns the slot. -/
theorem storedUpload_let_go :
    ∃ t, Lts.Run (Lts.Restrict (Lts.ofPartial step) LetGo) {} storedUpload t ∧
      t.given 0 = [1] ∧ t.server.conn 0 = .closed ∧ Free t := by
  obtain ⟨t, run, hgiven, hclosed⟩ : ∃ t,
      Lts.Run (Lts.Restrict (Lts.ofPartial step) LetGo) {} storedUpload t ∧
        t.given 0 = [1] ∧ t.server.conn 0 = .closed := by
    obtain ⟨t, run, hview⟩ := Lts.run_observe (Lts.guarded step LetGo)
      (fun t => (t.given 0, t.server.conn 0))
      (show (storedUpload.foldlM (Lts.guarded step LetGo) {}).map _ =
        some ([1], Conn.closed) by decide)
    exact ⟨t, run.of_guarded, congrArg Prod.fst hview, congrArg Prod.snd hview⟩
  exact ⟨t, run, hgiven, hclosed, (slot_let_go run).1⟩

/-- The offer is accepted and the 200 sent, and then the peer hangs up.  The
connection is over and the slot is still its own. -/
theorem accepted_then_gone :
    ∃ moves t, Lts.Run (Lts.ofPartial step) {} moves t ∧
      t.server.conn 0 = .closed ∧ t.given 0 = [1] ∧ t.server.shared.current = 1 ∧
      ¬ Free t := by
  obtain ⟨t, run, hview⟩ := Lts.run_observe step
    (fun t => (t.server.conn 0, t.given 0, t.server.shared.current))
    (show ([Move.setDiscoverable true,
        .request 0 (.ask (some ("Mac", ["photo.heic"]))) true true, .decide 0 true,
        .userAnswer 1 true, .poll 0 true, .hangUp 0].foldlM step {}).map _ =
      some (Conn.closed, [1], 1) by decide)
  obtain ⟨hclosed, hgiven, hcur⟩ :
      t.server.conn 0 = .closed ∧ t.given 0 = [1] ∧ t.server.shared.current = 1 := by
    simpa using hview
  refine ⟨_, t, run, hclosed, hgiven, hcur, ?_⟩
  intro free
  exact free 0 hclosed (by simp [hgiven, hcur])

end Tracked

end Sharingd
