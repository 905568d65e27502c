import TarishDaemon.Sharingd.Reannounced

/-!
# Leases

Until when an entry is good by its own records.  Every record of a peer lengthens its lease or
leaves it, but a goodbye, which is there to shorten it, and the pointer, which sets the lease
to its own TTL whatever that was before (`lease_kept_iff`).

No lease goes beyond five minutes from now, so a pointer that grants as much can do no harm
(`outlasts_of_long`).
-/

namespace Sharingd.Mdns.Browser

open Rust Dns Lts

variable {me : Own} {packet : Bytes} {r : Record} {now : Nat} {k : Text} {p q : Peer}
  {peers : HashMap Text Peer}

/-- Who stays is good for no less time. -/
def NotShortened (before after : HashMap Text Peer) : Prop :=
  ∀ k p q, before.lookup k = some p → after.lookup k = some q → p.expiresAt ≤ q.expiresAt

/-- If the record is a pointer to a listed instance, it grants it no less than it had. -/
def Outlasts (me : Own) (packet : Bytes) (now : Nat) (peers : HashMap Text Peer) (r : Record) :
    Prop :=
  ∀ k p, told me packet r = some (.found k) → peers.lookup k = some p →
    p.expiresAt ≤ now + ttlOf r

/-! ### One record -/

variable (now) in
/-- A pointer sets the lease. -/
theorem hears_pointed (h : told me packet r = some (.found k)) (p : Peer) :
    ∃ q, hears me packet now k (some p) r = some q ∧ q.expiresAt = now + ttlOf r := by
  unfold hears
  rw [h]
  exact ⟨_, if_pos rfl, rfl⟩

variable (now) in
theorem le_heardAt (hlives : r.ttl ≠ 0) (p : Peer) : p.expiresAt ≤ (heardAt now r p).expiresAt := by
  have hlease : (heardAt now r p).expiresAt = max p.expiresAt (now + ttlOf r) := if_neg hlives
  rw [hlease]
  exact le_max_left _ _

/-- Any other record but a goodbye leaves it or lengthens it. -/
theorem le_hears (hlives : r.ttl ≠ 0) (h : told me packet r ≠ some (.found k))
    (hq : hears me packet now k (some p) r = some q) : p.expiresAt ≤ q.expiresAt := by
  cases becomes_of_hears hq with
  | pointed found => exact absurd found h
  | served _ => exact le_heardAt now hlives p
  | heard _ => exact le_heardAt now hlives p
  | unheard _ => exact le_refl _

/-- **One record.** -/
theorem notShortened_iff (hlives : r.ttl ≠ 0) :
    NotShortened peers (absorbRecord me packet now peers r) ↔ Outlasts me packet now peers r := by
  unfold NotShortened
  simp only [absorbRecord_lookup]
  constructor
  · intro hkept k p hfound hp
    obtain ⟨q, hq, hlease⟩ := hears_pointed now hfound p
    rw [← hlease]
    exact hkept k p q hp (hp ▸ hq)
  · intro outlasts k p q hp hq
    rw [hp] at hq
    by_cases hfound : told me packet r = some (.found k)
    · obtain ⟨q', hq', hlease⟩ := hears_pointed now hfound p
      obtain rfl : q' = q := Option.some.inj (hq'.symm.trans hq)
      rw [hlease]
      exact outlasts k p hfound hp
    · exact le_hears hlives hfound hq

theorem absorb_concat (records : List Record) :
    absorb me packet now (records ++ [r]) peers =
      absorbRecord me packet now (absorb me packet now records peers) r := by
  unfold absorb
  rw [List.foldl_append]
  rfl

/-- **Nothing but a goodbye shortens a lease, exactly where every pointer outlasts the lease that
it finds.** -/
theorem lease_kept_iff (me : Own) (packet : Bytes) (now : Nat) (records : List Record)
    (peers : HashMap Text Peer) :
    (∀ earlier r later, records = earlier ++ r :: later → r.ttl ≠ 0 →
        NotShortened (absorb me packet now earlier peers)
          (absorb me packet now (earlier ++ [r]) peers)) ↔
      ∀ earlier r later, records = earlier ++ r :: later → r.ttl ≠ 0 →
        Outlasts me packet now (absorb me packet now earlier peers) r := by
  have one : ∀ earlier r, r.ttl ≠ 0 →
      (NotShortened (absorb me packet now earlier peers)
          (absorb me packet now (earlier ++ [r]) peers) ↔
        Outlasts me packet now (absorb me packet now earlier peers) r) := by
    intro earlier r hlives
    rw [absorb_concat]
    exact notShortened_iff hlives
  constructor
  · intro hkept earlier r later hsplit hlives
    exact (one earlier r hlives).mp (hkept earlier r later hsplit hlives)
  · intro outlasts earlier r later hsplit hlives
    exact (one earlier r hlives).mpr (outlasts earlier r later hsplit hlives)

/-! ### No lease beyond five minutes -/

theorem ttlOf_le (r : Record) : ttlOf r ≤ 300 * second := by
  unfold ttlOf
  split
  · decide
  · exact Nat.mul_le_mul_right second (min_le_right _ _)

theorem heardAt_le (h : p.expiresAt ≤ now + 300 * second) :
    (heardAt now r p).expiresAt ≤ now + 300 * second := by
  have hlease : (heardAt now r p).expiresAt =
      if r.ttl = 0 then now + ttlOf r else max p.expiresAt (now + ttlOf r) := rfl
  have hclamped := ttlOf_le r
  rw [hlease]
  split
  · omega
  · exact max_le h (by omega)

theorem hears_le {entry : Option Peer}
    (h : ∀ p, entry = some p → p.expiresAt ≤ now + 300 * second)
    (hq : hears me packet now k entry r = some q) : q.expiresAt ≤ now + 300 * second := by
  cases becomes_of_hears hq with
  | opened _ => exact Nat.add_le_add_left (ttlOf_le r) now
  | pointed _ => exact Nat.add_le_add_left (ttlOf_le r) now
  | @served p _ _ _ => exact heardAt_le (r := r) (h p rfl)
  | @heard p _ _ => exact heardAt_le (r := r) (h p rfl)
  | unheard _ => exact h q rfl

namespace Watch

variable {s s' : Watch} {a : Act} {acts : List Act}

/-- Every lease ends within five minutes. -/
def Bounded (s : Watch) : Prop :=
  ∀ k p, s.peers.lookup k = some p → p.expiresAt ≤ s.clock + 300 * second

theorem bounded_step (bounded : s.Bounded) (h : step s a = some s') : s'.Bounded := by
  cases a with
  | record me packet r now =>
      simp only [step] at h
      split at h
      · rename_i hclock
        cases h
        intro k q hq
        simp only [absorbRecord_lookup] at hq
        refine hears_le ?_ hq
        intro p hp
        exact le_trans (bounded k p hp) (Nat.add_le_add_right hclock _)
      · cases h
  | expire g minGrace now =>
      simp only [step] at h
      split at h
      · rename_i hclock
        cases h
        intro k p hp
        simp only [Browser.expire, HashMap.lookup_retain] at hp
        have hbefore := bounded k p (Option.filter_eq_some_iff.mp hp).1
        exact le_trans hbefore (Nat.add_le_add_right hclock _)
      · cases h

/-- **No lease is longer than five minutes**, in any run. -/
theorem bounded_of_run (run : Run (ofPartial step) start acts s) : s.Bounded := by
  have hstart : start.Bounded := fun k p hp => by simp [start] at hp
  exact run.invariant Bounded hstart fun _ _ _ bounded h => bounded_step bounded h

/-- So a pointer that grants five minutes or more shortens no lease. -/
theorem outlasts_of_long (run : Run (ofPartial step) start acts s) (hclock : s.clock ≤ now)
    (hlong : 300 ≤ r.ttl.toNat) : Outlasts me packet now s.peers r := by
  intro k p _ hp
  have hbound := bounded_of_run run k p hp
  have hne : r.ttl ≠ 0 := by
    intro hzero
    rw [hzero] at hlong
    exact absurd hlong (by decide)
  have hgrants : ttlOf r = 300 * second := by
    rw [ttlOf, if_neg hne, min_eq_right (le_trans hlong (le_max_left _ _))]
  rw [hgrants]
  exact le_trans hbound (Nat.add_le_add_right hclock _)

end Watch

/-! ### Two TTLs -/

/-- An answer with the pointer alone. -/
def pointer : Bytes :=
  Announced.packet [⟨.ptr awdlService awdlInst, 30, false⟩]

/-- A phone that is good until 300 s is good until 31 s when its pointer comes again. -/
theorem pointer_shortens :
    let announced := receive someone
      (Announced.packet (awdlPhone.map fun x => { x with ttl := 300 })) 0 ∅
    let again := receive someone pointer second announced
    (parse pointer).map (fun msg => msg.records.map Record.ttl) = some [30] ∧
    (announced.lookup awdlInst.text).map Peer.expiresAt = some (300 * second) ∧
    (again.lookup awdlInst.text).map Peer.expiresAt = some (31 * second) := by
  refine ⟨?_, ?_, ?_⟩
  · decide +kernel
  · decide +kernel
  · decide +kernel

end Sharingd.Mdns.Browser
