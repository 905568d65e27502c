import TarishDaemon.Sharingd.Reannounced

/-!
# Silence and the gate

A device that walks away says nothing, and one that stays may say nothing for minutes.  So a
peer is asked, its silence is counted, and `set_probe_eviction` says whether silence may count
against it at all.

Three clocks and a counter are in play.  The state keeps next to them what they stand for: when
a record of the instance last came, and how many questions it was asked since.  Nobody is
dropped for silence unless the gate has stood open for a whole `LOST_AFTER`
(`evicts_through_open_gate`).
-/

namespace Sharingd.Dns.Told

open Rust

instance {Addr : Type} (k host : Text) (t : Told Addr) : Decidable (t.Reaches k host) :=
  match t with
  | found inst => inferInstanceAs (Decidable (inst = k))
  | served inst _ _ => inferInstanceAs (Decidable (inst = k))
  | described inst _ => inferInstanceAs (Decidable (inst = k))
  | located h _ => inferInstanceAs (Decidable (host ≠ [] ∧ host = h))

end Sharingd.Dns.Told

namespace Sharingd.Mdns.Browser

open Rust Dns Lts

/-- `u32::saturating_add(1)`. -/
def oneMore (n : Nat) : Nat :=
  min (n + 1) (2 ^ 32 - 1)

def Gate.setProbeEviction (g : Gate) (enabled : Bool) (now : Nat) : Gate where
  probeEviction := enabled
  evictionSince :=
    if g.probeEviction = enabled then g.evictionSince else if enabled then some now else none

/-- Whether the question must be answered: all three of a burst, and one in five after it. -/
def unicast (queriesSent : Nat) : Bool :=
  queriesSent ≤ 3 || queriesSent % 5 == 0

/-- One question more that the peer owes an answer to. -/
def owes (p : Peer) : Peer :=
  { p with unanswered := oneMore p.unanswered }

/-- The peer is asked directly: it has an address, and the packet went out. -/
def probed (sent : Text → Bool) (p : Peer) : Bool :=
  p.addr.isSome && sent p.inst

def probe (sent : Text → Bool) (peers : HashMap Text Peer) : HashMap Text Peer :=
  peers.mapValues fun p => if probed sent p then owes p else p

def markUnreceptive (unreceptive : Bool) (now : Nat) (peers : HashMap Text Peer) :
    HashMap Text Peer :=
  peers.mapValues fun p =>
    { p with
      unreceptiveSince := if unreceptive then p.unreceptiveSince.or (some now) else none }

/-- The record is one of the instance, as it is listed. -/
def reaches (me : Own) (packet : Bytes) (r : Record) (k : Text) (entry : Option Peer) : Bool :=
  (told me packet r).any fun t => t.Reaches k ((entry.map Peer.host).getD [])

/-- A browser with its gate. -/
structure Tended where
  clock : Nat
  peers : HashMap Text Peer
  queriesSent : Nat
  gate : Gate
  /-- The code does not keep it: when a record of the instance last came, -/
  heard : Text → Nat
  /-- and how many questions it was asked since. -/
  asked : Text → Nat

namespace Tended

/-- A packet is taken record by record, as in `Watch`.  Of a packet sent, the network says
whether it went out. -/
inductive Act where
  | setProbeEviction (enabled : Bool) (now : Nat)
  | record (me : Own) (packet : Bytes) (r : Record) (now : Nat)
  | probe (sent : Text → Bool)
  | query (sent : Bool)
  | restartQueryBurst
  | markUnreceptive (unreceptive : Bool) (now : Nat)
  | forgetPeers
  | expire (minGrace now : Nat)

/-- `Browser::new`. -/
def start (now : Nat) : Tended where
  clock := now
  peers := ∅
  queriesSent := 0
  gate := { probeEviction := true, evictionSince := some now }
  heard := fun _ => now
  asked := fun _ => 0

def setProbeEviction (s : Tended) (enabled : Bool) (now : Nat) : Tended :=
  { s with clock := now, gate := s.gate.setProbeEviction enabled now }

def record (s : Tended) (me : Own) (packet : Bytes) (r : Record) (now : Nat) : Tended :=
  { s with
    clock := now
    peers := absorbRecord me packet now s.peers r
    heard := fun k => if reaches me packet r k (s.peers.lookup k) then now else s.heard k
    asked := fun k => if reaches me packet r k (s.peers.lookup k) then 0 else s.asked k }

def probe (s : Tended) (sent : Text → Bool) : Tended :=
  { s with
    peers := Browser.probe sent s.peers
    asked := fun k => if (s.peers.lookup k).any (probed sent) then s.asked k + 1 else s.asked k }

def query (s : Tended) (sent : Bool) : Tended :=
  if sent && unicast (oneMore s.queriesSent) then
    { s with
      queriesSent := oneMore s.queriesSent
      peers := s.peers.mapValues owes
      asked := fun k => if (s.peers.lookup k).isSome then s.asked k + 1 else s.asked k }
  else { s with queriesSent := oneMore s.queriesSent }

/-- Where the clock is read, it has not gone back. -/
def step (s : Tended) : Act → Option Tended
  | .setProbeEviction enabled now =>
      if s.clock ≤ now then some (s.setProbeEviction enabled now) else none
  | .record me packet r now => if s.clock ≤ now then some (s.record me packet r now) else none
  | .probe sent => some (s.probe sent)
  | .query sent => some (s.query sent)
  | .restartQueryBurst => some { s with queriesSent := 0 }
  | .markUnreceptive unreceptive now =>
      if s.clock ≤ now then
        some { s with clock := now, peers := Browser.markUnreceptive unreceptive now s.peers }
      else none
  | .forgetPeers => some { s with peers := ∅ }
  | .expire minGrace now =>
      if s.clock ≤ now then
        some { s with clock := now, peers := Browser.expire s.gate minGrace now s.peers }
      else none

/-- What an entry says of its silence. -/
structure Counted (heard asked : Nat) (p : Peer) : Prop where
  lastSeen : p.lastSeen = heard
  unanswered : p.unanswered = min asked (2 ^ 32 - 1)

/-- The gate has its time, and every entry its own. -/
structure Kept (s : Tended) : Prop where
  gate : s.gate.evictionSince.isSome = s.gate.probeEviction
  heard : ∀ k, s.heard k ≤ s.clock
  counted : ∀ k p, s.peers.lookup k = some p → Counted (s.heard k) (s.asked k) p

/-- From some moment on, `LOST_AFTER` ago or more, the gate has been open all the time. -/
def OpenFor (t₀ : Nat) (acts : List Act) (s : Tended) (now : Nat) : Prop :=
  ∃ pre post m, acts = pre ++ post ∧ Run (ofPartial step) (start t₀) pre m ∧
    m.clock + lostAfter ≤ now ∧
    Run (Restrict (ofPartial step) fun s _ => s.gate.probeEviction) m post s ∧
    s.gate.probeEviction

end Tended

/-! ### One record -/

section

variable {me : Own} {packet : Bytes} {r : Record} {now : Nat} {k : Text} {entry : Option Peer}
  {q : Peer}

/-- What becomes of an entry, or of a new one, by a sign of life. -/
structure SignOfLife (now : Nat) (k : Text) (entry : Option Peer) (q : Peer) : Prop where
  lastSeen : q.lastSeen = now
  unanswered : q.unanswered = 0
  inst : q.inst = (entry.map Peer.inst).getD k

/-- A record that names the instance, whatever it says of it. -/
theorem seen_of_naming {t : Told Ipv6Addr} {inst host : Text} {heard : Option Peer}
    (hreach : t.Reaches k host ↔ inst = k) (h : (if k = inst then heard else entry) = some q)
    (hheard : k = inst → heard = some q → SignOfLife now k entry q) :
    if t.Reaches k host then SignOfLife now k entry q else entry = some q := by
  by_cases hk : k = inst
  · rw [if_pos hk] at h
    rw [if_pos (hreach.mpr hk.symm)]
    exact hheard hk h
  · rw [if_neg hk] at h
    rw [if_neg fun hreached => hk (hreach.mp hreached).symm]
    exact h

/-- **A record of the instance is a sign of life**, and no other one is. -/
theorem seen_of_hears (h : hears me packet now k entry r = some q) :
    if reaches me packet r k entry then SignOfLife now k entry q else entry = some q := by
  unfold hears at h
  unfold reaches
  cases ht : told me packet r with
  | none =>
      rw [ht] at h
      exact h
  | some t =>
      rw [ht] at h
      simp only [Option.any_some, decide_eq_true_eq]
      cases t with
      | found inst =>
          refine seen_of_naming Iff.rfl h fun hk hq => ?_
          cases hq
          refine ⟨rfl, rfl, ?_⟩
          cases entry with
          | none => exact hk.symm
          | some p => rfl
      | described inst name =>
          refine seen_of_naming Iff.rfl h fun _ hq => ?_
          obtain ⟨p, rfl, rfl⟩ := Option.map_eq_some_iff.mp hq
          exact ⟨rfl, rfl, rfl⟩
      | served inst port host =>
          refine seen_of_naming Iff.rfl h fun _ hq => ?_
          obtain ⟨p, rfl, rfl⟩ := Option.map_eq_some_iff.mp hq
          exact ⟨rfl, rfl, rfl⟩
      | located host addr =>
          simp only [Option.elim_some, hear] at h
          split at h
          · obtain ⟨rfl, hother⟩ := Option.filter_eq_some_iff.mp h
            have hother : q.host ≠ host := by simpa using hother
            simp only [Option.map_some, Option.getD_some]
            rw [if_neg fun hreach : Told.Reaches k q.host (.located host addr) =>
              hother hreach.2]
            trivial
          · obtain ⟨p, rfl, rfl⟩ := Option.map_eq_some_iff.mp h
            simp only [Option.map_some, Option.getD_some]
            by_cases hhost : p.host ≠ [] ∧ p.host = host
            · rw [if_pos hhost, if_pos (show Told.Reaches k p.host (.located host addr) from hhost)]
              exact ⟨rfl, rfl, rfl⟩
            · rw [if_neg hhost,
                if_neg (show ¬ Told.Reaches k p.host (.located host addr) from hhost)]

end

theorem oneMore_min (n : Nat) :
    oneMore (min n (2 ^ 32 - 1)) = min (n + 1) (2 ^ 32 - 1) := by
  unfold oneMore
  omega

namespace Tended

variable {s s' : Tended} {a : Act} {t₀ now minGrace : Nat} {k : Text} {p : Peer}

/-! ### One step -/

theorem kept_start (t₀ : Nat) : (start t₀).Kept where
  gate := rfl
  heard := fun _ => le_refl t₀
  counted := fun k p hp => by simp [start] at hp

theorem kept_record (kept : s.Kept) {me : Own} {packet : Bytes} {r : Record}
    (hclock : s.clock ≤ now) : (s.record me packet r now).Kept where
  gate := kept.gate
  heard := by
    intro k
    show (if reaches me packet r k (s.peers.lookup k) then now else s.heard k) ≤ now
    split
    · exact le_refl now
    · exact le_trans (kept.heard k) hclock
  counted := by
    intro k q hq
    replace hq : (absorbRecord me packet now s.peers r).lookup k = some q := hq
    rw [absorbRecord_lookup] at hq
    have hseen := seen_of_hears hq
    by_cases hreach : reaches me packet r k (s.peers.lookup k)
    · rw [if_pos hreach] at hseen
      constructor
      · exact hseen.lastSeen.trans (if_pos hreach).symm
      · show q.unanswered =
          min (if reaches me packet r k (s.peers.lookup k) then 0 else s.asked k) (2 ^ 32 - 1)
        rw [if_pos hreach, hseen.unanswered]
        rfl
    · rw [if_neg hreach] at hseen
      obtain ⟨hlast, hasked⟩ := kept.counted k q hseen
      constructor
      · exact hlast.trans (if_neg hreach).symm
      · show q.unanswered =
          min (if reaches me packet r k (s.peers.lookup k) then 0 else s.asked k) (2 ^ 32 - 1)
        rw [if_neg hreach]
        exact hasked

/-- Some of the peers are asked, each at most once. -/
theorem kept_ask (kept : s.Kept) (ask : Peer → Bool) (queriesSent : Nat) :
    Kept { s with
      queriesSent
      peers := s.peers.mapValues fun p => if ask p then owes p else p
      asked := fun k => if (s.peers.lookup k).any ask then s.asked k + 1 else s.asked k } where
  gate := kept.gate
  heard := kept.heard
  counted := by
    intro k q hq
    simp only [HashMap.lookup_mapValues] at hq
    obtain ⟨p, hp, rfl⟩ := Option.map_eq_some_iff.mp hq
    obtain ⟨hlast, hasked⟩ := kept.counted k p hp
    cases hask : ask p with
    | false =>
        constructor
        · simpa using hlast
        · simpa [hp, hask] using hasked
    | true =>
        constructor
        · simpa [owes] using hlast
        · simp only [if_true, owes, hp, Option.any_some, hask, hasked]
          exact oneMore_min (s.asked k)

theorem kept_query (kept : s.Kept) (sent : Bool) : (s.query sent).Kept := by
  unfold query
  split
  · have hall := kept_ask kept (fun _ => true) (oneMore s.queriesSent)
    simpa using hall
  · exact ⟨kept.gate, kept.heard, fun k p hp => kept.counted k p hp⟩

/-- **One step.** -/
theorem kept_step (kept : s.Kept) (h : step s a = some s') : s'.Kept := by
  cases a with
  | setProbeEviction enabled now =>
      simp only [step] at h
      split at h
      · next hclock =>
          cases h
          refine ⟨?_, fun k => le_trans (kept.heard k) hclock, fun k p hp => kept.counted k p hp⟩
          have hgate := kept.gate
          simp only [Tended.setProbeEviction, Gate.setProbeEviction]
          split
          · next hsame => rw [hgate, hsame]
          · cases enabled with
            | true => rfl
            | false => rfl
      · cases h
  | record me packet r now =>
      simp only [step] at h
      split at h
      · next hclock =>
          cases h
          exact kept_record kept hclock
      · cases h
  | probe sent =>
      cases h
      exact kept_ask kept (probed sent) s.queriesSent
  | query sent =>
      cases h
      exact kept_query kept sent
  | restartQueryBurst =>
      cases h
      exact ⟨kept.gate, kept.heard, fun k p hp => kept.counted k p hp⟩
  | markUnreceptive unreceptive now =>
      simp only [step] at h
      split at h
      · next hclock =>
          cases h
          refine ⟨kept.gate, fun k => le_trans (kept.heard k) hclock, ?_⟩
          intro k q hq
          simp only [Browser.markUnreceptive, HashMap.lookup_mapValues] at hq
          obtain ⟨p, hp, rfl⟩ := Option.map_eq_some_iff.mp hq
          obtain ⟨hlast, hasked⟩ := kept.counted k p hp
          exact ⟨hlast, hasked⟩
      · cases h
  | forgetPeers =>
      cases h
      exact ⟨kept.gate, kept.heard, fun k p hp => by simp at hp⟩
  | expire minGrace now =>
      simp only [step] at h
      split at h
      · next hclock =>
          cases h
          refine ⟨kept.gate, fun k => le_trans (kept.heard k) hclock, ?_⟩
          intro k p hp
          simp only [Browser.expire, HashMap.lookup_retain] at hp
          obtain ⟨hlast, hasked⟩ := kept.counted k p (Option.filter_eq_some_iff.mp hp).1
          exact ⟨hlast, hasked⟩
      · cases h

/-- Only `set_probe_eviction` has to do with the gate. -/
theorem gate_step (h : step s a = some s') :
    s'.gate = s.gate ∨
      ∃ enabled now, s'.gate = s.gate.setProbeEviction enabled now ∧ s'.clock = now := by
  cases a with
  | setProbeEviction enabled now =>
      simp only [step] at h
      split at h
      · cases h
        exact .inr ⟨enabled, now, rfl, rfl⟩
      · cases h
  | record me packet r now =>
      simp only [step] at h
      split at h
      · cases h
        exact .inl rfl
      · cases h
  | probe sent =>
      cases h
      exact .inl rfl
  | query sent =>
      cases h
      unfold query
      split
      · exact .inl rfl
      · exact .inl rfl
  | restartQueryBurst =>
      cases h
      exact .inl rfl
  | markUnreceptive unreceptive now =>
      simp only [step] at h
      split at h
      · cases h
        exact .inl rfl
      · cases h
  | forgetPeers =>
      cases h
      exact .inl rfl
  | expire minGrace now =>
      simp only [step] at h
      split at h
      · cases h
        exact .inl rfl
      · cases h

/-! ### A whole run -/

theorem kept_of_run {acts : List Act} (run : Run (ofPartial step) (start t₀) acts s) : s.Kept :=
  run.invariant Kept (kept_start t₀) fun _ _ _ kept h => kept_step kept h

/-- The gate that is open has been since the time it keeps. -/
theorem open_since {acts : List Act} (run : Run (ofPartial step) (start t₀) acts s)
    (hopen : s.gate.probeEviction) {t : Nat} (ht : s.gate.evictionSince = some t)
    (hnow : t + lostAfter ≤ now) : OpenFor t₀ acts s now := by
  induction run generalizing t with
  | nil =>
      cases ht
      exact ⟨[], [], start t₀, rfl, Run.nil, hnow, Run.nil, hopen⟩
  | @snoc acts s s' a run last ih =>
      rcases gate_step last with hsame | ⟨enabled, at_, hset, hclock⟩
      · rw [hsame] at hopen ht
        obtain ⟨pre, post, m, rfl, hpre, hsince, hpost, -⟩ := ih hopen ht hnow
        refine ⟨pre, post ++ [a], m, List.append_assoc pre post [a], hpre, hsince,
          hpost.snoc ⟨last, hopen⟩, ?_⟩
        rw [hsame]
        exact hopen
      · have henabled : enabled = true := by
          rw [hset] at hopen
          exact hopen
        rw [hset] at ht
        by_cases hbefore : s.gate.probeEviction = enabled
        · -- it was open already, and keeps its time
          have hbeforeOpen : s.gate.probeEviction = true := hbefore.trans henabled
          have ht : s.gate.evictionSince = some t := by
            simpa [Gate.setProbeEviction, hbefore] using ht
          obtain ⟨pre, post, m, rfl, hpre, hsince, hpost, -⟩ := ih hbeforeOpen ht hnow
          exact ⟨pre, post ++ [a], m, List.append_assoc pre post [a], hpre, hsince,
            hpost.snoc ⟨last, hbeforeOpen⟩, hopen⟩
        · -- it opens now
          have ht : at_ = t := by
            rw [henabled] at hbefore ht
            simpa [Gate.setProbeEviction, hbefore] using ht
          refine ⟨acts ++ [a], [], s', (List.append_nil _).symm, run.snoc last, ?_, Run.nil, hopen⟩
          rw [hclock, ht]
          exact hnow

/-- What `expire` drops without a goodbye, it drops for one of two silences. -/
theorem silent_of_dropped {g : Gate} (hdropped : keeps g minGrace now p = false)
    (hstays : p.withdrawn = false) :
    g.ripe now ∧ (lostUnanswered ≤ p.unanswered ∧ lostAfter ≤ now - p.lastSeen ∨
      p.expiresAt ≤ now ∧ minGrace ≤ now - p.lastSeen) := by
  unfold keeps at hdropped
  cases hripe : g.ripe now with
  | false => simp [hripe, hstays] at hdropped
  | true =>
      refine ⟨rfl, ?_⟩
      by_cases hlost : lostUnanswered ≤ p.unanswered ∧ lostAfter ≤ now - p.lastSeen
      · exact .inl hlost
      · right
        have hlost : (p.unanswered ≥ lostUnanswered && now - p.lastSeen ≥ lostAfter) = false := by
          simpa using hlost
        simpa [hripe, hstays, hlost] using hdropped

/-- A packet is heard record by record. -/
theorem run_absorb {me : Own} {packet : Bytes} (records : List Record) (s : Tended)
    (hclock : s.clock ≤ now) :
    ∃ s', Run (ofPartial step) s (records.map fun r => .record me packet r now) s' ∧
      s'.peers = absorb me packet now records s.peers := by
  induction records generalizing s with
  | nil => exact ⟨s, Run.nil, rfl⟩
  | cons r records ih =>
      have first : Run (ofPartial step) s [.record me packet r now] (s.record me packet r now) :=
        Run.nil.snoc (if_pos hclock)
      obtain ⟨s', rest, hpeers⟩ := ih (s.record me packet r now) (le_refl now)
      exact ⟨s', first.append rest, hpeers⟩

/-- **Silence evicts through an open gate only.**  The gate has its time exactly while it is
open; and who is dropped without a goodbye, is dropped when it has been open all along for
`LOST_AFTER`, and has been silent: for so long and asked three times, or past its lease and for
`min_grace`. -/
theorem evicts_through_open_gate {acts : List Act}
    (run : Run (ofPartial step) (start t₀) acts s) :
    (s.gate.evictionSince.isSome ↔ s.gate.probeEviction) ∧
    ∀ minGrace now k p, s.clock ≤ now → s.peers.lookup k = some p → p.withdrawn = false →
      (Browser.expire s.gate minGrace now s.peers).lookup k = none →
      OpenFor t₀ acts s now ∧
        (lostUnanswered ≤ s.asked k ∧ s.heard k + lostAfter ≤ now ∨
          p.expiresAt ≤ now ∧ s.heard k + minGrace ≤ now) := by
  have kept := kept_of_run run
  refine ⟨by rw [kept.gate], ?_⟩
  intro minGrace now k p hclock hp hstays hdropped
  rw [Browser.expire, HashMap.lookup_retain, hp] at hdropped
  have hdropped : keeps s.gate minGrace now p = false := by simpa using hdropped
  obtain ⟨hripe, hsilent⟩ := silent_of_dropped hdropped hstays
  obtain ⟨hlast, hasked⟩ := kept.counted k p hp
  have hheard : s.heard k ≤ now := le_trans (kept.heard k) hclock
  constructor
  · obtain ⟨hopen, hsince⟩ := Bool.and_eq_true_iff.mp hripe
    obtain ⟨t, ht, hlong⟩ := (Option.any_eq_true _ _).mp hsince
    have hlong : lostAfter ≤ now - t := by simpa using hlong
    have hpos : 0 < lostAfter := by decide
    exact open_since run hopen ht (by omega)
  · rw [hlast, hasked] at hsilent
    have hfew : lostUnanswered ≤ 2 ^ 32 - 1 := by decide
    rcases hsilent with ⟨hthrice, hlong⟩ | ⟨hlease, hlong⟩
    · have hpos : 0 < lostAfter := by decide
      exact .inl ⟨le_trans hthrice (Nat.min_le_left _ _), by omega⟩
    · exact .inr ⟨hlease, by omega⟩

/-- A phone is found and then silent; the gate closes once, and opens again at two seconds. -/
def walksAway : List Act :=
  (parse (Announced.packet awdlPhone)).elim []
      (fun msg => msg.records.map fun r => .record someone (Announced.packet awdlPhone) r second) ++
    [.query true, .setProbeEviction false (2 * second), .setProbeEviction true (2 * second),
      .query true, .probe fun _ => true]

theorem evicts_walksAway : ∃ s p, Run (ofPartial step) (start 0) walksAway s ∧
    s.peers.lookup awdlInst.text = some p ∧
    (Browser.expire s.gate (45 * second) (62 * second) s.peers).lookup awdlInst.text = none ∧
    OpenFor 0 walksAway s (62 * second) ∧
      (lostUnanswered ≤ s.asked awdlInst.text ∧ s.heard awdlInst.text + lostAfter ≤ 62 * second ∨
        p.expiresAt ≤ 62 * second ∧ s.heard awdlInst.text + 45 * second ≤ 62 * second) := by
  let view : Tended → Nat × Option Peer × Option Peer := fun s =>
    (s.clock, s.peers.lookup awdlInst.text,
      (Browser.expire s.gate (45 * second) (62 * second) s.peers).lookup awdlInst.text)
  let silent : Peer := {
    inst := awdlInst.text
    host := awdlHost.text
    port := 8770
    addr := some awdlAddr
    lastSeen := second
    expiresAt := 121 * second
    unanswered := 3
    unreceptiveSince := none
    withdrawn := false }
  have heval : (walksAway.foldlM step (start 0)).map view = some (2 * second, some silent, none) := by
    decide +kernel
  obtain ⟨s, run, hview⟩ := run_observe step view heval
  obtain ⟨hclock, hlisted, hdropped⟩ : s.clock = 2 * second ∧
      s.peers.lookup awdlInst.text = some silent ∧
      (Browser.expire s.gate (45 * second) (62 * second) s.peers).lookup awdlInst.text = none := by
    simpa [view] using hview
  have hnow : s.clock ≤ 62 * second := by
    rw [hclock]
    decide
  exact ⟨s, silent, run, hlisted, hdropped,
    (evicts_through_open_gate run).2 _ _ _ _ hnow hlisted rfl hdropped⟩

end Tended

end Sharingd.Mdns.Browser
