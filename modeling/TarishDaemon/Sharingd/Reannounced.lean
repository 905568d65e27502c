import TarishDaemon.Lib.Run
import TarishDaemon.Sharingd.Goodbye

/-!
# Back after a goodbye

The browser over time: records come in, and every so often what has run out is dropped.  A
packet is taken record by record (`run_absorb`), and the clock does not go back.

`withdrawn` is set by a goodbye and nothing clears it while the entry stands.  So it is the
device's last word exactly as long as nobody comes back before `expire` has dropped the entry
(`current_iff`).
-/

namespace Sharingd.Mdns.Browser

open Rust Dns Lts

/-- The instance that a record announces, or by a TTL of 0 takes back. -/
def announces (me : Own) (packet : Bytes) (r : Record) : Option Text :=
  match told me packet r with
  | some (.found inst) => some inst
  | some (.served inst _ _) => some inst
  | _ => none

/-- `expire` drops the entry, and for its goodbye. -/
def byGoodbye (g : Gate) (now : Nat) (p : Peer) : Bool :=
  !(g.ripe now && (p.unanswered ≥ lostUnanswered && now - p.lastSeen ≥ lostAfter)) &&
    (p.withdrawn && now ≥ p.expiresAt)

inductive Act where
  | record (me : Own) (packet : Bytes) (r : Record) (now : Nat)
  | expire (g : Gate) (minGrace now : Nat)

/-- A browser, as time passes. -/
structure Watch where
  clock : Nat
  peers : HashMap Text Peer
  /-- The code does not keep it: the TTL of the last record that announced the instance. -/
  lastWord : Text → Option UInt32

namespace Watch

def start : Watch where
  clock := 0
  peers := ∅
  lastWord := fun _ => none

def step (s : Watch) : Act → Option Watch
  | .record me packet r now =>
      if s.clock ≤ now then
        some {
          clock := now
          peers := absorbRecord me packet now s.peers r
          lastWord := fun k =>
            if announces me packet r = some k then some r.ttl else s.lastWord k }
      else none
  | .expire g minGrace now =>
      if s.clock ≤ now then
        some { s with clock := now, peers := Browser.expire g minGrace now s.peers }
      else none

/-- Whoever did not say goodbye last is not dropped for a goodbye, whatever `expire` comes next,
and stays as long as one who never said it. -/
def Current (s : Watch) : Prop :=
  ∀ k p, s.peers.lookup k = some p → s.lastWord k ≠ some 0 →
    ∀ g minGrace now, s.clock ≤ now →
      byGoodbye g now p = false ∧
        keeps g minGrace now p = keeps g minGrace now { p with withdrawn := false }

/-- Nobody is announced whose entry is still withdrawn. -/
def Lively (s : Watch) : Act → Prop
  | .record me packet r _ =>
      r.ttl = 0 ∨ ∀ k ∈ announces me packet r, ∀ p ∈ s.peers.lookup k, p.withdrawn = false
  | .expire _ _ _ => True

instance (s : Watch) (a : Act) : Decidable (s.Lively a) :=
  match a with
  | .record me packet r _ =>
      inferInstanceAs (Decidable (r.ttl = 0 ∨
        ∀ k ∈ announces me packet r, ∀ p ∈ s.peers.lookup k, p.withdrawn = false))
  | .expire _ _ _ => inferInstanceAs (Decidable True)

end Watch

variable {me : Own} {packet : Bytes} {r : Record} {now : Nat} {k : Text}

/-- Being withdrawn is all that the goodbye rule goes by. -/
theorem keeps_eq (g : Gate) (minGrace now : Nat) (p : Peer) :
    keeps g minGrace now p =
      (!byGoodbye g now p && keeps g minGrace now { p with withdrawn := false }) := by
  cases hlost : g.ripe now && (p.unanswered ≥ lostUnanswered && now - p.lastSeen ≥ lostAfter) with
  | true => simp only [keeps, byGoodbye, hlost, if_true, Bool.and_false]
  | false =>
      cases hbid : p.withdrawn && now ≥ p.expiresAt with
      | true => simp [keeps, byGoodbye, hlost, hbid]
      | false => simp [keeps, byGoodbye, hlost, hbid]

variable (me packet r now k) in
/-- What an entry becomes by a record: opened, pointed at, served, told of something else, or not
heard of at all. -/
inductive Becomes : Option Peer → Peer → Prop
  | opened (found : told me packet r = some (.found k)) :
      Becomes none { fresh k now (ttlOf r) with withdrawn := r.ttl == 0 }
  | pointed {p : Peer} (found : told me packet r = some (.found k)) :
      Becomes (some p) { p with
        lastSeen := now
        unanswered := 0
        expiresAt := now + ttlOf r
        withdrawn := p.withdrawn || r.ttl == 0 }
  | served {p : Peer} {port : UInt16} {host : Text}
      (served : told me packet r = some (.served k port host)) :
      Becomes (some p)
        { heardAt now r p with port, host, withdrawn := p.withdrawn || r.ttl == 0 }
  | heard {p : Peer} {addr : Option Ipv6Addr} (other : announces me packet r ≠ some k) :
      Becomes (some p) { heardAt now r p with addr }
  | unheard {p : Peer} (other : announces me packet r ≠ some k) : Becomes (some p) p

/-- **All that a record does to an entry** that it leaves. -/
theorem becomes_of_hears {entry : Option Peer} {q : Peer}
    (h : hears me packet now k entry r = some q) : Becomes me packet r now k entry q := by
  unfold hears at h
  cases ht : told me packet r with
  | none =>
      rw [ht] at h
      obtain rfl : entry = some q := h
      exact .unheard (by simp [announces, ht])
  | some t =>
      rw [ht] at h
      cases t with
      | found inst =>
          simp only [Option.elim_some, hear] at h
          split at h
          · rename_i hk
            subst hk
            cases h
            cases entry with
            | none => exact .opened ht
            | some p => exact .pointed ht
          · rename_i hk
            subst h
            exact .unheard (by simp [announces, ht, Ne.symm hk])
      | described inst name =>
          have other : announces me packet r ≠ some k := by simp [announces, ht]
          simp only [Option.elim_some, hear] at h
          split at h
          · obtain ⟨p, rfl, rfl⟩ := Option.map_eq_some_iff.mp h
            exact .heard other
          · subst h
            exact .unheard other
      | served inst port host =>
          simp only [Option.elim_some, hear] at h
          split at h
          · rename_i hk
            subst hk
            obtain ⟨p, rfl, rfl⟩ := Option.map_eq_some_iff.mp h
            exact .served ht
          · rename_i hk
            subst h
            exact .unheard (by simp [announces, ht, Ne.symm hk])
      | located host addr =>
          have other : announces me packet r ≠ some k := by simp [announces, ht]
          simp only [Option.elim_some, hear] at h
          split at h
          · obtain ⟨rfl, -⟩ := Option.filter_eq_some_iff.mp h
            exact .unheard other
          · obtain ⟨p, rfl, rfl⟩ := Option.map_eq_some_iff.mp h
            split
            · exact .heard other
            · exact .unheard other

/-- A goodbye withdraws an entry, and nothing else does or undoes it. -/
theorem withdrawn_hears {entry : Option Peer} {q : Peer}
    (h : hears me packet now k entry r = some q) :
    q.withdrawn =
      (entry.any Peer.withdrawn || (decide (announces me packet r = some k) && r.ttl == 0)) := by
  cases becomes_of_hears h with
  | opened found =>
      have hk : announces me packet r = some k := by rw [announces, found]
      simp [hk]
  | pointed found =>
      have hk : announces me packet r = some k := by rw [announces, found]
      simp [hk]
  | served served =>
      have hk : announces me packet r = some k := by rw [announces, served]
      simp [hk]
  | heard other => simp [other, heardAt]
  | unheard other => simp [other]

variable (now) in
/-- An announcement leaves an entry listed. -/
theorem hears_announced (h : announces me packet r = some k) (p : Peer) :
    ∃ q, hears me packet now k (some p) r = some q := by
  unfold announces at h
  unfold hears
  cases ht : told me packet r with
  | none => simp [ht] at h
  | some t =>
      rw [ht] at h
      cases t with
      | found inst =>
          cases h
          exact ⟨_, if_pos rfl⟩
      | served inst port host =>
          cases h
          exact ⟨_, if_pos rfl⟩
      | described inst name => cases h
      | located host addr => cases h

namespace Watch

variable {s s' : Watch} {a : Act}

/-- The flag is the last word. -/
theorem current_iff_withdrawn :
    s.Current ↔
      ∀ k p, s.peers.lookup k = some p → s.lastWord k ≠ some 0 → p.withdrawn = false := by
  constructor
  · intro current k p hp hlast
    by_contra hw
    let never : Gate := { probeEviction := false, evictionSince := none }
    have hkept := (current k p hp hlast never 0 (max s.clock p.expiresAt) (le_max_left _ _)).1
    have hw : p.withdrawn = true := eq_true_of_ne_false hw
    have hdue : max s.clock p.expiresAt ≥ p.expiresAt := le_max_right _ _
    simp [byGoodbye, never, Gate.ripe, hw, hdue] at hkept
  · intro hflag k p hp hlast g minGrace now _
    have hw := hflag k p hp hlast
    have hnot : byGoodbye g now p = false := by
      unfold byGoodbye
      rw [hw, Bool.false_and, Bool.and_false]
    refine ⟨hnot, ?_⟩
    rw [keeps_eq, hnot, Bool.not_false, Bool.true_and]

/-- **One step.** -/
theorem current_step_iff (current : s.Current) (h : step s a = some s') :
    s'.Current ↔ s.Lively a := by
  rw [current_iff_withdrawn] at current ⊢
  cases a with
  | record me packet r now =>
      simp only [step] at h
      split at h
      · cases h
        simp only [absorbRecord_lookup]
        constructor
        · intro hafter
          refine or_iff_not_imp_left.mpr ?_
          intro hlives k hk p hp
          have hk : announces me packet r = some k := hk
          have hp : s.peers.lookup k = some p := hp
          obtain ⟨q, hq⟩ := hears_announced now hk p
          have hflag := hafter k q (hp ▸ hq) (by simp [hk, hlives])
          rw [withdrawn_hears hq] at hflag
          simpa using (Bool.or_eq_false_iff.mp hflag).1
        · intro lively k q hq hlast
          rw [withdrawn_hears hq]
          by_cases hk : announces me packet r = some k
          · have hlives : r.ttl ≠ 0 := by simpa [hk] using hlast
            have hbefore := lively.resolve_left hlives k hk
            cases hp : s.peers.lookup k with
            | none => simp [hlives]
            | some p => simp [hlives, hbefore p hp]
          · rw [if_neg hk] at hlast
            cases hp : s.peers.lookup k with
            | none => simp [hk]
            | some p => simp [hk, current k p hp hlast]
      · cases h
  | expire g minGrace now =>
      simp only [step] at h
      split at h
      · cases h
        refine iff_of_true ?_ trivial
        intro k p hp hlast
        rw [Browser.expire, HashMap.lookup_retain] at hp
        exact current k p (Option.filter_eq_some_iff.mp hp).1 hlast
      · cases h

/-- A packet is heard record by record. -/
theorem run_absorb (records : List Record) (s : Watch) (hclock : s.clock ≤ now) :
    ∃ s', Run (ofPartial step) s (records.map fun r => .record me packet r now) s' ∧
      s'.peers = absorb me packet now records s.peers := by
  induction records generalizing s with
  | nil => exact ⟨s, Run.nil, rfl⟩
  | cons r records ih =>
      let heard : Watch := {
        clock := now
        peers := absorbRecord me packet now s.peers r
        lastWord := fun k =>
          if announces me packet r = some k then some r.ttl else s.lastWord k }
      have first : Run (ofPartial step) s [.record me packet r now] heard :=
        Run.nil.snoc (if_pos hclock)
      obtain ⟨s', rest, hpeers⟩ := ih heard (le_refl now)
      exact ⟨s', first.append rest, hpeers⟩

/-- **A goodbye is the last word exactly where nobody comes back to an entry that is still
withdrawn.** -/
theorem current_iff {acts : List Act} {s : Watch} (run : Run (ofPartial step) start acts s) :
    (∀ pre m, pre <+: acts → Run (ofPartial step) start pre m → m.Current) ↔
      Run (Restrict (ofPartial step) Lively) start acts s := by
  have hstart : start.Current := fun k p hp => by simp [start] at hp
  exact run.restrict_iff (fun _ => True) Current trivial hstart (fun _ _ _ _ _ => trivial)
    fun _ _ _ _ current h => current_step_iff current h

/-! ### Off and on again -/

def receives (packet : Bytes) (now : Nat) : List Act :=
  (parse packet).elim [] fun msg => msg.records.map fun r => .record someone packet r now

/-- BLE accounts for everyone who is listed. -/
def closedGate : Gate where
  probeEviction := false
  evictionSince := none

/-- A goodbye is heeded, and the phone is announced after that. -/
def leaves : List Act :=
  receives (Announced.packet awdlPhone) 0 ++ receives awdlGoodbye (10 * second) ++
    .expire closedGate (45 * second) (12 * second) ::
      receives (Announced.packet awdlPhone) (20 * second)

/-- The phone is announced within the second that its goodbye grants it. -/
def returns : List Act :=
  receives (Announced.packet awdlPhone) 0 ++ receives awdlGoodbye (10 * second) ++
    receives (Announced.packet awdlPhone) (10 * second + 500000000)

theorem current_leaves : ∃ s, Run (ofPartial step) start leaves s ∧
    ∀ pre m, pre <+: leaves → Run (ofPartial step) start pre m → m.Current := by
  have heval : (leaves.foldlM (guarded step Lively) start).map Watch.clock =
      some (20 * second) := by decide +kernel
  obtain ⟨s, lively, -⟩ := run_observe (guarded step Lively) Watch.clock heval
  have run : Run (ofPartial step) start leaves s := lively.of_guarded.of_restrict
  exact ⟨s, run, (current_iff run).mpr lively.of_guarded⟩

/-- Two minutes of silence later, with BLE accounting for it, it is dropped for the goodbye that
it took back. -/
theorem not_current_returns : ∃ s p, Run (ofPartial step) start returns s ∧
    s.clock ≤ 140 * second ∧
    s.lastWord awdlInst.text = some 120 ∧
    s.peers.lookup awdlInst.text = some p ∧
    byGoodbye closedGate (140 * second) p ∧
    keeps closedGate (45 * second) (140 * second) { p with withdrawn := false } ∧
    (Browser.expire closedGate (45 * second) (140 * second) s.peers).lookup awdlInst.text =
      none := by
  let view : Watch → Nat × Option UInt32 × Option Peer := fun s =>
    (s.clock, s.lastWord awdlInst.text, s.peers.lookup awdlInst.text)
  let back : Peer := {
    inst := awdlInst.text
    host := awdlHost.text
    port := 8770
    addr := some awdlAddr
    lastSeen := 10 * second + 500000000
    expiresAt := 130 * second + 500000000
    unanswered := 0
    unreceptiveSince := none
    withdrawn := true }
  have heval : (returns.foldlM step start).map view =
      some (10 * second + 500000000, some 120, some back) := by decide +kernel
  obtain ⟨s, run, hview⟩ := run_observe step view heval
  obtain ⟨hclock, hlast, hlisted⟩ : s.clock = 10 * second + 500000000 ∧
      s.lastWord awdlInst.text = some 120 ∧ s.peers.lookup awdlInst.text = some back := by
    simpa [view] using hview
  refine ⟨s, back, run, ?_, hlast, hlisted, ?_, ?_, ?_⟩
  · rw [hclock]
    decide
  · decide
  · decide
  · rw [Browser.expire, HashMap.lookup_retain, hlisted]
    decide +kernel

end Watch

end Sharingd.Mdns.Browser
